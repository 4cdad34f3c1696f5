import QuadProg.Proofs.Build.Translation
import QuadProg.Proofs.Search.Extent
import QuadProg.Proofs.Search.Found
import QuadProg.Proofs.Search.Incumbent

/-!
# Whole numbers in the points returned

A variable of a problem that is zero or one starts with the bounds zero and one, which come from its
kind alone.  If the engine stays inside of its boxes, a box is split at a value `v` between the
bounds `l` and `u`, and these can only become

```text
            bounds     lower half     upper half
v = 0       0   1      0   0          0   1
0 < v < 1   0   1      0   0          1   1
v = 1       0   1      0   1          1   1
v = l = u   l   l      l   l          l   l
```

So in every box that a search visits the bounds of the variable are zero or one and not crossed
(`Searches.unitBoxes`), and a point of the box is rounded to a zero or a one that lies in the box
(`Node.UnitAt.round`).  The first and the third line need no tolerance: a box may be split at a
whole number, and nothing is lost but time.

A variable of both lists is integral, and its bounds are infinite.  It is rounded to a whole number
wherever the engine found it.
-/

namespace QuadProg

open Search

variable {K μ : Type} [Field K] [LinearOrder K] [FloorRing K]

/-! ### Whole numbers beside others -/

section Whole

variable [IsStrictOrderedRing K] {x y : K}

theorem IsWhole.le_floor (hx : IsWhole x) (h : x ≤ y) : x ≤ Scalar.floor y := by
  obtain ⟨z, rfl⟩ := hx
  rw [floor_eq]
  exact_mod_cast Int.le_floor.2 h

theorem IsWhole.ceil_le (hx : IsWhole x) (h : y ≤ x) : Scalar.ceil y ≤ x := by
  obtain ⟨z, rfl⟩ := hx
  rw [ceil_eq]
  exact_mod_cast Int.ceil_le.2 h

theorem IsWhole.le_round (hx : IsWhole x) (h : x ≤ y) : x ≤ Scalar.round y := by
  obtain ⟨z, rfl⟩ := hx
  exact le_round_of_le h

theorem IsWhole.round_le (hx : IsWhole x) (h : y ≤ x) : Scalar.round y ≤ x := by
  obtain ⟨z, rfl⟩ := hx
  exact round_le_of_le h

omit [IsStrictOrderedRing K] in
theorem isWhole_of_unit (h : x = 0 ∨ x = 1) : IsWhole x := by
  rcases h with rfl | rfl
  · exact ⟨0, by simp⟩
  · exact ⟨1, by simp⟩

end Whole

/-! ### Boxes of zeros and ones -/

namespace Search

/-- The bounds of the variable `j` are zero or one, and they are not crossed. -/
structure Node.UnitAt (node : Node K) (j : Nat) : Prop where
  lower : node.lower.getD j 0 = 0 ∨ node.lower.getD j 0 = 1
  upper : node.upper.getD j 0 = 0 ∨ node.upper.getD j 0 = 1
  lower_le_upper : node.lower.getD j 0 ≤ node.upper.getD j 0

variable {node child : Node K} {j k : Nat} {v : K}

theorem Node.UnitAt.bounds (h : node.UnitAt j) :
    0 ≤ node.lower.getD j 0 ∧ node.upper.getD j 0 ≤ 1 := by
  constructor
  · rcases h.lower with hl | hl <;> rw [hl]
    exact zero_le_one
  · rcases h.upper with hu | hu <;> rw [hu]
    exact zero_le_one

section Split

variable [IsStrictOrderedRing K]

/-- These bounds are finite. -/
theorem Node.UnitAt.finiteAt {infinity : K} (hinfinity : 1 < infinity) {units : List Nat}
    (h : ∀ j ∈ units, node.UnitAt j) : node.FiniteAt infinity units := by
  intro j hj
  obtain ⟨hlower, hupper⟩ := (h j hj).bounds
  exact ⟨by linarith, hupper.trans_lt hinfinity⟩

/-- A whole number between the bounds is zero or one. -/
theorem Node.UnitAt.eq_of_isWhole (h : node.UnitAt j) (hv : IsWhole v)
    (hlower : node.lower.getD j 0 ≤ v) (hupper : v ≤ node.upper.getD j 0) : v = 0 ∨ v = 1 :=
  isWhole_between_zero_one hv (h.bounds.1.trans hlower) (hupper.trans h.bounds.2)

/-- A half of the box has such bounds as well, wherever the box is split inside. -/
theorem Node.UnitAt.of_mem_split (h : node.UnitAt j) (hchild : child ∈ split node k v)
    (hhas : k = j → node.Has k v) : child.UnitAt j := by
  by_cases hkj : k = j
  · subst hkj
    obtain ⟨hlt, hlt', hlower, hupper⟩ := hhas rfl
    rcases mem_split.1 hchild with rfl | rfl
    · have hfloor := (isWhole_of_unit h.lower).le_floor hlower
      have hbelow : Scalar.floor v ≤ v := Int.floor_le v
      refine ⟨h.lower, ?_, ?_⟩ <;> simp only [getD_set_self hlt']
      · exact h.eq_of_isWhole ⟨⌊v⌋, rfl⟩ hfloor (hbelow.trans hupper)
      · exact hfloor
    · have hceil := (isWhole_of_unit h.upper).ceil_le hupper
      have habove : v ≤ Scalar.ceil v := Int.le_ceil v
      refine ⟨?_, h.upper, ?_⟩ <;> simp only [getD_set_self hlt]
      · exact h.eq_of_isWhole ⟨⌈v⌉, rfl⟩ (hlower.trans habove) hceil
      · exact hceil
  · obtain ⟨hlower, hupper⟩ := getD_of_mem_split hchild (Ne.symm hkj)
    refine ⟨?_, ?_, ?_⟩
    · rw [hlower]
      exact h.lower
    · rw [hupper]
      exact h.upper
    · rw [hlower, hupper]
      exact h.lower_le_upper

/-- Rounding a value of the box stays inside of it. -/
theorem Node.UnitAt.round (h : node.UnitAt j) (hhas : node.Has j v) :
    node.Has j (Scalar.round v) ∧ (Scalar.round v = 0 ∨ Scalar.round v = 1) := by
  have hlower := (isWhole_of_unit h.lower).le_round hhas.lower_le
  have hupper := (isWhole_of_unit h.upper).round_le hhas.le_upper
  exact ⟨⟨hhas.lt_lower, hhas.lt_upper, hlower, hupper⟩,
    h.eq_of_isWhole (isWhole_round v) hlower hupper⟩

end Split

/-! ### Rounding a point -/

theorem getElem?_roundAt_of_mem {α : Type} [Scalar α] {integers : List Nat} {j : Nat}
    (hj : j ∈ integers) (x : List α) :
    (roundAt integers x)[j]? = x[j]?.map Scalar.round := by
  simp [roundAt, List.getElem?_mapIdx, hj]

theorem getElem?_roundAt_of_notMem {α : Type} [Scalar α] {integers : List Nat} {j : Nat}
    (hj : j ∉ integers) (x : List α) : (roundAt integers x)[j]? = x[j]? := by
  simp [roundAt, List.getElem?_mapIdx, hj]

end Search

/-! ### The invariant -/

namespace Model

variable {m : Model K} {e : Engine K μ} {units : List Nat}

/-- What holds between the visits, where the given variables are zero or one: so are their bounds in
all boxes, and what was solved lies between them. -/
structure UnitBoxes (m : Model K) (units : List Nat) (s : State K) : Prop where
  sized : s.Sized m.nVar
  opened : ∀ node ∈ s.stack, ∀ j ∈ units, node.UnitAt j
  visited : ∀ v ∈ s.log, ∀ j ∈ units, v.node.UnitAt j
  solved : ∀ v ∈ s.log, v.relaxation.status.Solves → v.relaxation.x.length = m.nVar ∧
    ∀ j ∈ units, v.node.Has j (coordinate v.relaxation.x j)

theorem unitBoxes_start (h : ∀ j ∈ units, m.root.UnitAt j) :
    m.UnitBoxes units (.start m.effectiveBounds.1 m.effectiveBounds.2) where
  sized := sized_start m.length_effectiveBounds
  opened node hnode := by
    obtain rfl := List.mem_singleton.1 hnode
    exact h
  visited v hv := by cases hv
  solved v hv := by cases hv

variable [IsStrictOrderedRing K]

theorem UnitBoxes.visit {s : State K} {node : Node K} {rest : List (Node K)} {r : Relaxation K}
    {f : Fate K} (h : m.UnitBoxes units s) (hinfinity : 1 < m.infinity)
    (hunits : ∀ j ∈ units, j < m.nVar) (hwithin : m.RelaxesWithin e)
    (hstack : s.stack = node :: rest) {turn : Nat}
    (hrelax : m.relax e turn node.lower node.upper = .ok r)
    (hf : Settles m.searchTarget s.incumbent node r f) :
    m.UnitBoxes units (s.visit rest ⟨node, r, f⟩) := by
  have hnode : node ∈ s.stack := by simp [hstack]
  have hunit := h.opened node hnode
  have hlength := h.sized node hnode
  have hsolved : r.status.Solves → r.x.length = m.nVar ∧
      ∀ j ∈ units, node.Has j (coordinate r.x j) := by
    intro hsolves
    obtain ⟨hx, hbox⟩ := hwithin turn _ _ r hlength.1 hlength.2 hrelax hsolves
    exact ⟨hx, fun j hj => (Node.UnitAt.finiteAt hinfinity hunit).has hlength hj (hunits j hj) hbox⟩
  refine ⟨h.sized.visit hstack, ?_, ?_, ?_⟩
  · intro child hchild j hj
    rcases mem_stack_visit hchild with ⟨k, rfl, hsplit⟩ | hrest
    · cases hf with
      | branched _ hsolves =>
          refine (hunit j hj).of_mem_split hsplit ?_
          rintro rfl
          exact (hsolved hsolves).2 k hj
    · exact h.opened child (by simp [hstack, hrest]) j hj
  · intro v hv
    rcases List.mem_cons.1 hv with rfl | hv
    · exact hunit
    · exact h.visited v hv
  · intro v hv
    rcases List.mem_cons.1 hv with rfl | hv
    · exact hsolved
    · exact h.solved v hv

/-- **The bounds of a zero-one variable stay zero or one** in all boxes of a search. -/
theorem Searches.unitBoxes (hinfinity : 1 < m.infinity) (hunits : ∀ j ∈ units, j < m.nVar)
    (hroot : ∀ j ∈ units, m.root.UnitAt j) (hwithin : m.RelaxesWithin e) {clock : Clock K}
    {stopped : Option SearchStatus} {s : State K} (h : m.Searches e clock stopped s) :
    m.UnitBoxes units s := by
  obtain ⟨expired, -, hexplore⟩ := h
  exact (explore_explores hexplore).induction (P := m.UnitBoxes units)
    (fun hs hstack hrelax hf => hs.visit hinfinity hunits hwithin hstack hrelax hf)
    (unitBoxes_start hroot)

end Model

/-! ### The points of a problem -/

namespace Problem

open Model

variable {d : Problem K} {m : Model K} {e : Engine K μ}

/-- The zero-one variables that are not named as integral as well. -/
def units {α : Type} (d : Problem α) : List Nat := d.binary.filter (· ∉ d.integer)

theorem mem_units {α : Type} {d : Problem α} {j : Nat} :
    j ∈ d.units ↔ j ∈ d.binary ∧ j ∉ d.integer := by
  simp [units]

/-- The point `x` comes of `y` by rounding where the problem asks for whole numbers. -/
structure Rounds (d : Problem K) (y x : List K) : Prop where
  length_eq : x.length = d.nVar
  binary : ∀ j ∈ d.binary, j ∉ d.integer → x[j]? = some 0 ∨ x[j]? = some 1
  integer : ∀ j ∈ d.integer, ∃ z : ℤ, x[j]? = some (z : K)
  unchanged : ∀ j, j ∉ d.binary → j ∉ d.integer → x[j]? = y[j]?

variable [IsStrictOrderedRing K] [EngineDefaults K]

/-- The bounds of a model leave a zero-one variable zero and one. -/
theorem unitAt_root (hd : d.Consistent) (hm : m.columns = d.modelColumns) {j : Nat}
    (hj : j ∈ d.units) : m.root.UnitAt j := by
  obtain ⟨hbinary, hinteger⟩ := mem_units.1 hj
  obtain ⟨cost, hcolumn⟩ :=
    getElem?_modelColumns hd (hd.integral_lt j (List.mem_append_left _ hbinary))
  rw [if_neg hinteger, if_pos hbinary, ← hm] at hcolumn
  have hinfinity := one_lt_engineInfinity (α := K)
  have hlower : m.root.lower.getD j 0 = 0 := by
    simp only [root, effectiveBounds, List.getD_eq_getElem?_getD, List.getElem?_map, hcolumn,
      Option.map_some, Option.getD_some, Column.effectiveLower, if_true, larger_eq_max]
    exact max_eq_right (by linarith)
  have hupper : m.root.upper.getD j 0 = 1 := by
    simp only [root, effectiveBounds, List.getD_eq_getElem?_getD, List.getElem?_map, hcolumn,
      Option.map_some, Option.getD_some, Column.effectiveUpper, if_true, smaller_eq_min]
    exact min_eq_right hinfinity.le
  exact ⟨.inl hlower, .inr hupper, by rw [hlower, hupper]; exact zero_le_one⟩

omit [IsStrictOrderedRing K] in
/-- A point that has as many numbers as the problem, and is zero or one up to rounding where it has
to be, is rounded to one that is so. -/
theorem rounds_roundAt (hd : d.Consistent) (hm : m.columns = d.modelColumns) {y : List K}
    (hy : y.length = d.nVar)
    (hunits : ∀ j ∈ d.units, Scalar.round (coordinate y j) = 0 ∨
      Scalar.round (coordinate y j) = 1) :
    d.Rounds y (roundAt m.integerIndices y) := by
  have hrounded : ∀ j, j ∈ d.binary ∨ j ∈ d.integer →
      (roundAt m.integerIndices y)[j]? = some (Scalar.round (coordinate y j)) := by
    intro j hj
    have hlt : j < y.length := hy ▸ hd.integral_lt j (List.mem_append.2 hj)
    rw [getElem?_roundAt_of_mem ((mem_integerIndices_iff hd hm).2 hj),
      List.getElem?_eq_getElem hlt, coordinate, List.getD_eq_getElem _ _ hlt]
    rfl
  refine ⟨by rw [length_roundAt, hy], fun j hj hinteger => ?_, fun j hj => ?_,
    fun j hbinary hinteger => ?_⟩
  · rw [hrounded j (.inl hj)]
    exact (hunits j (mem_units.2 ⟨hj, hinteger⟩)).imp (congrArg some) (congrArg some)
  · obtain ⟨z, hz⟩ := isWhole_round (coordinate y j)
    exact ⟨z, by rw [hrounded j (.inr hj), hz]⟩
  · refine getElem?_roundAt_of_notMem (fun hmem => ?_) y
    exact ((mem_integerIndices_iff hd hm).1 hmem).elim hbinary hinteger

/-- **Points that are returned are whole where they have to be.**  Let the engine find points of the
boxes it is given.  Whatever the controls are, the tolerance among them, a point that a search
returns for a problem is zero or one at the zero-one variables, a whole number at the integral ones,
and at all others it has the numbers of the last relaxation that found a point. -/
theorem branchAndBound_rounds {verbose : Bool} {options : Options K}
    (hm : d.toModel verbose options = .ok m) (c : Controls K)
    (hwithin : ({ m with controls := c } : Model K).RelaxesWithin e) {clock : Clock K}
    {sol : ModelSolution K}
    (h : ({ m with controls := c } : Model K).branchAndBound e clock = .ok sol) {p : Point K}
    (hp : sol.point = some p) :
    ∃ stopped s v, ({ m with controls := c } : Model K).Searches e clock stopped s ∧
      sol = searchSolution stopped s ∧
      LastFound ({ m with controls := c } : Model K).searchTarget s.log v ∧
      v.fate = .accepted p ∧ d.Rounds v.relaxation.x p.x := by
  have hd := consistent_of_check (toModel_eq_ok_iff.1 hm).1
  obtain ⟨c', rfl⟩ := eq_of_toModel hm
  obtain ⟨stopped, s, hsearches, rfl⟩ := exists_searches h
  obtain ⟨v, hlast, hfate⟩ :=
    hsearches.settled.lastFound hsearches.latest (hsearches.point_eq.symm.trans hp)
  obtain ⟨hsolves, -, hx, -⟩ := hsearches.traced.1.of_accepted hlast.mem hfate
  have hlt : ∀ j ∈ d.units, j < d.modelColumns.length := fun j hj =>
    (hd.integral_lt j (List.mem_append_left _ (mem_units.1 hj).1)).trans_eq
      (length_modelColumns hd).symm
  have hboxes := hsearches.unitBoxes one_lt_engineInfinity hlt
    (fun j hj => unitAt_root hd rfl hj) hwithin
  obtain ⟨hlength, hhas⟩ := hboxes.solved v hlast.mem hsolves
  refine ⟨stopped, s, v, hsearches, rfl, hlast, hfate, hx ▸ rounds_roundAt hd rfl ?_ ?_⟩
  · exact hlength.trans (length_modelColumns hd)
  · exact fun j hj => ((hboxes.visited v hlast.mem j hj).round (hhas j hj)).2

/-! ### A small search -/

section Mixed

/-- Three variables without a cost: the first is zero or one, and the second is whole although it is
also said to be zero or one. -/
def mixture : Problem ℚ where
  p := .zeros 3 3
  q := [0, 0, 0]
  a := .ofTriplets 0 3 []
  b := []
  f := .ofTriplets 0 3 []
  g := []
  nVar := 3
  nEq := 0
  nIneq := 0
  binary := [0, 1]
  integer := [1]

def mixtureModel : Model ℚ :=
  setVerbose false
    ⟨[⟨0, -engineInfinity, engineInfinity, .binary⟩, ⟨0, -engineInfinity, engineInfinity, .integer⟩,
      ⟨0, -engineInfinity, engineInfinity, .continuous⟩], [], none, .default, engineInfinity⟩

theorem toModel_mixture : mixture.toModel false ⟨[], by simp⟩ = .ok mixtureModel :=
  toModel_eq_ok_iff.2 ⟨rfl, _, apply_build (consistent_of_check rfl)
    (Sparse.wellFormed_ofTriplets _ _ _) (Sparse.wellFormed_ofTriplets _ _ _), rfl⟩

theorem mixtureModel_feasible {l u x y z : ℚ} (hl : l ≤ x) (hu : x ≤ u) :
    mixtureModel.Feasible [l, -engineInfinity, -engineInfinity]
      [u, engineInfinity, engineInfinity] [x, y, z] := by
  refine ⟨rfl, fun r hr => (nomatch hr), within_cons.2 ⟨fun _ => hu, fun _ => hl, ?_⟩⟩
  exact within_cons_unbounded.2 (within_cons_unbounded.2 within_nil)

theorem mixtureModel_objective (p : List ℚ) : mixtureModel.objective p = .ok 0 := by
  rw [linear_objective rfl]
  simp [mixtureModel, setVerbose, Model.nVar, costs, Finset.sum_range_succ]

/-- The first box and its lower half. -/
def mixturePages : List Page :=
  [⟨[0, -engineInfinity, -engineInfinity], [1, engineInfinity, engineInfinity],
      [1 / 2, 7 + 1 / 10 ^ 7, 1 / 3]⟩,
    ⟨[0, -engineInfinity, -engineInfinity], [0, engineInfinity, engineInfinity],
      [0, 7 + 1 / 10 ^ 7, 1 / 3]⟩]

def mixtureEngine : Engine ℚ Unit := bookEngine mixtureModel mixturePages

theorem mixtureEngine_within : mixtureModel.RelaxesWithin mixtureEngine := by
  have hm : mixtureModel.Reachable := reachable_of_toModel toModel_mixture
  refine (relaxesSoundly_bookEngine hm.sound fun page hpage => ?_).relaxesWithin
  have hbest : ∀ {lower upper x y : List ℚ} {v w : ℚ}, mixtureModel.Feasible lower upper y →
      mixtureModel.objective x = .ok v → mixtureModel.objective y = .ok w → v ≤ w := by
    intro lower upper x y v w _ hv hw
    rw [mixtureModel_objective] at hv hw
    cases hv
    cases hw
    exact le_rfl
  obtain rfl | rfl := by simpa [mixturePages] using hpage
  · exact ⟨rfl, rfl, mixtureModel_feasible (by norm_num) (by norm_num), hbest⟩
  · exact ⟨rfl, rfl, mixtureModel_feasible (by norm_num) (by norm_num), hbest⟩

/-- The lower half gives a point; the upper half is not on a page and is left undecided. -/
theorem branchAndBound_rounds_mixture :
    mixture.toModel false ⟨[], by simp⟩ = .ok mixtureModel ∧
    mixtureModel.RelaxesWithin mixtureEngine ∧
    ∃ sol p y, mixtureModel.branchAndBound mixtureEngine noClock = .ok sol ∧
      sol.point = some p ∧ p.x = [0, 7, 1 / 3] ∧ mixture.Rounds y p.x := by
  have hreport : (explore mixtureModel.searchTarget (mixtureModel.nodeRelax mixtureEngine)
      (fun _ => false) mixtureModel.controls.limits.maxNodes
      (.start mixtureModel.effectiveBounds.1 mixtureModel.effectiveBounds.2)).toOption.map
        (fun stop => (searchSolution stop.1 stop.2).point.map (·.x)) =
      some (some [0, 7, 1 / 3]) := by
    decide +kernel
  obtain ⟨stopped, s, -, hok, hpoint⟩ := searches_of_explore noClock rfl hreport
  obtain ⟨p, hp, hx⟩ := Option.map_eq_some_iff.1 hpoint
  obtain ⟨-, -, v, -, -, -, -, hrounds⟩ := branchAndBound_rounds toModel_mixture
    mixtureModel.controls mixtureEngine_within hok hp
  exact ⟨toModel_mixture, mixtureEngine_within, _, p, v.relaxation.x, hok, hp, hx, hrounds⟩

end Mixed

end Problem

end QuadProg
