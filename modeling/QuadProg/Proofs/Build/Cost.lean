import QuadProg.Proofs.Build.Translation
import QuadProg.Proofs.Search.Incumbent
import QuadProg.Proofs.Sparse.Form

/-!
# The objective that is reported

The cost of a problem is `½ xᵀ P x + qᵀ x` with all of `P`.  Its model keeps less of it: the entries
below the diagonal are dropped, zeros are not stored, and where no stored entry is other than zero
there is no quadratic cost.  The objective makes up for it, since an entry off the diagonal counts
in full.

What is stored matters to neither (`sum_modelQuadratic`).  What matters is whether `P` is symmetric.
The check of a problem lets two entries across the diagonal differ by the tolerance, and then the
objective has the upper one where the cost has their mean.  So the two differ by half of the excess
of the upper triangle (`Sparse.skew`), which the check keeps small, and they agree where `P` is
symmetric.
-/

namespace QuadProg

open Finset

section Cost

variable {K : Type} [Field K]

/-- The cost `½ xᵀ P x + qᵀ x` of a point. -/
def Problem.cost (d : Problem K) (x : List K) : K :=
  0.5 * d.p.form x + ∑ j ∈ range d.nVar, d.q.getD j 0 * x.getD j 0

end Cost

namespace Model

variable {K : Type} [Field K] [LinearOrder K] [FloorRing K] {x : List K}

theorem quadraticTerm_eq {t : Triplet K} (hrow : t.row < x.length) (hcol : t.col < x.length) :
    quadraticTerm x t = .ok (Sparse.upperWeight x t.row t.col * t.value) := by
  have hhalf : (0.5 : K) = 1 / 2 := by norm_num
  rw [quadraticTerm, List.getElem?_eq_getElem hrow, List.getElem?_eq_getElem hcol]
  simp only [Sparse.upperWeight, List.getD_eq_getElem _ _ hrow, List.getD_eq_getElem _ _ hcol,
    hhalf]
  split_ifs <;> ring_nf

/-- The objective at a point that has a number for every place that is stored. -/
theorem objective_eq_sum {m : Model K}
    (h : ∀ t ∈ m.quadratic.elim [] Sparse.triplets, t.row < x.length ∧ t.col < x.length) :
    m.objective x = .ok (∑ j ∈ range m.nVar, m.costs.getD j 0 * x.getD j 0 +
      ((m.quadratic.elim [] Sparse.triplets).map fun t =>
        Sparse.upperWeight x t.row t.col * t.value).sum) := by
  have hlength : m.costs.length = m.nVar := by simp [costs, nVar]
  have hterms := mapM_of_forall_ok fun t ht => quadraticTerm_eq (x := x) (h t ht).1 (h t ht).2
  rw [objective, foldl_zipWith_mul, hlength, hterms, List.sum_eq_foldl]
  rfl

end Model

namespace Problem

open Model

variable {K : Type} [Field K] [LinearOrder K] [FloorRing K] {d : Problem K} {m : Model K}
  {x : List K}

omit [Field K] [LinearOrder K] [FloorRing K] in
theorem map_cost_markKind (kind : VarKind) (indices : List Nat) (columns : List (Column K)) :
    (markKind kind indices columns).map (·.cost) = columns.map (·.cost) := by
  apply List.ext_getElem?
  intro j
  rw [markKind, List.getElem?_map, List.getElem?_map, List.getElem?_mapIdx, Option.map_map]
  congr 1
  funext c
  dsimp only [Function.comp_apply]
  split_ifs <;> rfl

theorem costs_eq [EngineDefaults K] (hd : d.Consistent) (hm : m.columns = d.modelColumns) :
    m.costs = d.q := by
  have hlength : d.q.length ≤
      ((List.replicate d.nVar (-engineInfinity : K)).zip
        (List.replicate d.nVar (engineInfinity : K))).length := by
    simp [hd.q_length]
  rw [costs, hm, modelColumns, map_cost_markKind, map_cost_markKind, freshColumns, List.map_map]
  exact List.map_fst_zip hlength

/-- What the model stores of `P` has the entries of its upper triangle. -/
theorem sum_modelQuadratic (hd : d.Consistent) (g : Nat → Nat → K) :
    ((d.modelQuadratic.elim [] Sparse.triplets).map fun t => g t.row t.col * t.value).sum =
      ∑ i ∈ range d.nVar, ∑ j ∈ range d.nVar, g i j * (if i ≤ j then d.p.entry i j else 0) := by
  obtain ⟨hrows, hcols⟩ := hd.p_size
  unfold modelQuadratic
  split_ifs with hp
  · have hwf : d.p.upperTriangle.WellFormed := Sparse.wellFormed_ofTriplets _ _ _
    rw [Option.elim_some, hwf.sum_triplets g, show d.p.upperTriangle.nrows = d.nVar from hrows,
      show d.p.upperTriangle.ncols = d.nVar from hcols]
    refine sum_congr rfl fun i hi => sum_congr rfl fun j hj => ?_
    rw [Sparse.entry_upperTriangle _ (hrows ▸ mem_range.1 hi) (hcols ▸ mem_range.1 hj)]
  -- no cost was set, because all entries are zero
  · have hzero := Sparse.entry_of_hasNonzero (by simpa using hp : d.p.hasNonzero = false)
    simp [hzero]

theorem places_modelQuadratic (hd : d.Consistent) :
    ∀ t ∈ d.modelQuadratic.elim [] Sparse.triplets, t.row < d.nVar ∧ t.col < d.nVar := by
  intro t ht
  unfold modelQuadratic at ht
  split_ifs at ht
  · obtain ⟨hle, hlt⟩ := Sparse.mem_upperTriangle ht
    rw [hd.p_size.2] at hlt
    exact ⟨hle.trans_lt hlt, hlt⟩
  · cases ht

/-- The objective is the cost, up to half of the excess of the upper triangle. -/
theorem objective_eq_cost [EngineDefaults K] (hd : d.Consistent)
    (hcolumns : m.columns = d.modelColumns) (hquadratic : m.quadratic = d.modelQuadratic)
    (hx : x.length = d.nVar) : m.objective x = .ok (d.cost x + 1 / 2 * d.p.skew x) := by
  have hn : m.nVar = d.nVar := by rw [Model.nVar, hcolumns, length_modelColumns hd]
  have hplaces : ∀ t ∈ m.quadratic.elim [] Sparse.triplets,
      t.row < x.length ∧ t.col < x.length := by
    rw [hquadratic, hx]
    exact places_modelQuadratic hd
  have hupper := Sparse.upper_eq_form (hd.p_size.1.trans hd.p_size.2.symm) x
  rw [hd.p_size.2] at hupper
  rw [objective_eq_sum hplaces, hquadratic, sum_modelQuadratic hd, hupper, hn,
    costs_eq hd hcolumns, cost]
  congr 1
  ring

theorem symmetryTolerance_eq : (symmetryTolerance : K) = 1 / 10 ^ 9 := by
  norm_num [symmetryTolerance]

variable [IsStrictOrderedRing K]

/-- The check bounds the differences across the diagonal of `P`, stored or not. -/
theorem abs_entry_sub_le (h : d.check = .ok ()) (i j : Nat) :
    |d.p.entry i j - d.p.entry j i| ≤ 1 / 10 ^ 9 := by
  unfold check at h
  obtain ⟨-, h⟩ := guard_eq_ok.1 h
  obtain ⟨-, h⟩ := guard_eq_ok.1 h
  obtain ⟨hsymmetric, -⟩ := guard_eq_ok.1 h
  have htolerance : (0 : K) ≤ symmetryTolerance := by
    rw [symmetryTolerance_eq]
    positivity
  rw [← symmetryTolerance_eq]
  exact ((Sparse.isSymmetric_iff htolerance).1 (by simpa using hsymmetric)).2 i j

/-- **The objective of a model is the cost of its problem**, whatever `P` stores.  Every problem
that passes its check has a model under all options that are accepted, and the model has an
objective at every point with as many numbers as there are variables.  The objective differs from
the cost by half of the excess of the upper triangle of `P`, which is at most half of a billionth of
the sum of the products of two coordinates; and there is no difference if `P` is symmetric. -/
theorem toModel_objective [EngineDefaults K] (hcheck : d.check = .ok ()) (ha : d.a.WellFormed)
    (hf : d.f.WellFormed) {options : Options K}
    (hoptions : ∀ e ∈ options.entries, ∃ c c' : Controls K, c.set e.1 e.2 = .ok c')
    (verbose : Bool) :
    ∃ m, d.toModel verbose options = .ok m ∧ ∀ x, x.length = d.nVar →
      ∃ v, m.objective x = .ok v ∧ v = d.cost x + 1 / 2 * d.p.skew x ∧
        |v - d.cost x| ≤ 1 / 2 * (1 / 10 ^ 9) *
          ∑ j ∈ range d.nVar, ∑ i ∈ range j, |x.getD i 0 * x.getD j 0| ∧
        ((∀ i j, d.p.entry i j = d.p.entry j i) → v = d.cost x) := by
  have hd := consistent_of_check hcheck
  obtain ⟨p, c, hm⟩ := toModel_eq_ok hcheck ha hf hoptions verbose
  obtain ⟨c', heq⟩ := eq_of_toModel hm
  refine ⟨_, hm, fun x hx => ⟨_, objective_eq_cost hd rfl ?_ hx, rfl, ?_, fun hsymmetric => ?_⟩⟩
  · exact congrArg Model.quadratic heq
  · have hskew := Sparse.abs_skew_le (abs_entry_sub_le hcheck) x
    rw [hd.p_size.2] at hskew
    rw [add_sub_cancel_left, abs_mul, abs_of_pos one_half_pos, mul_assoc]
    exact mul_le_mul_of_nonneg_left hskew one_half_pos.le
  · rw [Sparse.skew_eq_zero hsymmetric, mul_zero, add_zero]

/-- Minimize `x + y + 10⁻⁹ x y / 2`, with both halves of the last term above the diagonal and a zero
on it. -/
def tilted : Problem ℚ where
  p := .ofTriplets 2 2 [⟨0, 0, 0⟩, ⟨0, 1, 1 / 10 ^ 9⟩]
  q := [1, 1]
  a := .ofTriplets 0 2 []
  b := []
  f := .ofTriplets 0 2 []
  g := []
  nVar := 2
  nEq := 0
  nIneq := 0

/-- The model counts the last term in full. -/
theorem toModel_objective_tilted :
    ∃ m v, tilted.toModel false ⟨[("max_iter", .int 50)], by simp⟩ = .ok m ∧
      m.objective [1, 1] = .ok v ∧ v = tilted.cost [1, 1] + 1 / 2 * (1 / 10 ^ 9) ∧
      |v - tilted.cost [1, 1]| ≤ 1 / 2 * (1 / 10 ^ 9) := by
  have hcheck : tilted.check = .ok () := eq_ok_of_toOption (by decide +kernel)
  have hoptions : ∀ e ∈ (⟨[("max_iter", .int 50)], by simp⟩ : Options ℚ).entries,
      ∃ c c' : Controls ℚ, c.set e.1 e.2 = .ok c' := by
    intro e he
    obtain rfl := List.mem_singleton.1 he
    exact ⟨.default, _, rfl⟩
  obtain ⟨m, hm, hobjective⟩ := toModel_objective hcheck (Sparse.wellFormed_ofTriplets _ _ _)
    (Sparse.wellFormed_ofTriplets _ _ _) hoptions false
  obtain ⟨v, hv, heq, hbound, -⟩ := hobjective [1, 1] rfl
  have hskew : tilted.p.skew [1, 1] = 1 / 10 ^ 9 := by decide +kernel
  rw [hskew] at heq
  exact ⟨m, v, hm, hv, heq, by simpa [tilted, sum_range_succ] using hbound⟩

end Problem

end QuadProg
