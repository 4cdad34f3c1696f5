import QuadProg.Proofs.Model.Reachable
import QuadProg.Conic
import QuadProg.Search

/-!
# Points of a model

A point is a list with one number for every variable.  It is feasible in a box if it satisfies all
rows and lies between the bounds, where a bound at or beyond the model's infinity is none.  The
points that a search is after lie in the box of the effective bounds and have whole numbers at the
integral variables.
-/

namespace QuadProg

section Points

variable {K : Type} [Field K] [LinearOrder K]

/-- The numbers that a variable of a kind may take. -/
def VarKind.Allows (kind : VarKind) (v : K) : Prop :=
  match kind with
  | .continuous => True
  | .binary => v = 0 ∨ v = 1
  | .integer => IsWhole v

/-- The left-hand side of a row at a point. -/
def Row.value (r : Row K) (x : List K) : K :=
  ((r.cols.zip r.vals).map fun e => e.2 * x.getD e.1 0).sum

/-- The sides of a row compare as its sense demands. -/
def RowSense.Relates (sense : RowSense) (left right : K) : Prop :=
  match sense with
  | .equal => left = right
  | .lessEqual => left ≤ right

def Row.Holds (r : Row K) (x : List K) : Prop := r.sense.Relates (r.value x) r.rhs

/-- The point lies between the bounds, as far as these are finite. -/
structure Within (infinity : K) (lower upper x : List K) : Prop where
  le_upper : ∀ j u, upper[j]? = some u → u < infinity → x.getD j 0 ≤ u
  lower_le : ∀ j l, lower[j]? = some l → -infinity < l → l ≤ x.getD j 0

@[simp] theorem within_nil {infinity : K} {x : List K} : Within infinity [] [] x :=
  ⟨fun _ _ h => (nomatch h), fun _ _ h => (nomatch h)⟩

@[simp] theorem within_cons {infinity l u v : K} {lower upper x : List K} :
    Within infinity (l :: lower) (u :: upper) (v :: x) ↔
      (u < infinity → v ≤ u) ∧ (-infinity < l → l ≤ v) ∧ Within infinity lower upper x := by
  constructor
  · rintro ⟨hle, hge⟩
    exact ⟨hle 0 u rfl, hge 0 l rfl, fun j => hle (j + 1), fun j => hge (j + 1)⟩
  · rintro ⟨hu, hl, hle, hge⟩
    refine ⟨fun j w hw => ?_, fun j w hw => ?_⟩
    · cases j with
      | zero =>
          cases hw
          exact hu
      | succ j => exact hle j w hw
    · cases j with
      | zero =>
          cases hw
          exact hl
      | succ j => exact hge j w hw

/-- A variable without finite bounds may have any value. -/
theorem within_cons_unbounded {infinity v : K} {lower upper x : List K} :
    Within infinity (-infinity :: lower) (infinity :: upper) (v :: x) ↔
      Within infinity lower upper x := by
  simp

namespace Model

/-- The point satisfies all rows and lies in the box. -/
structure Feasible (m : Model K) (lower upper x : List K) : Prop where
  length_eq : x.length = m.nVar
  holds : ∀ r ∈ m.rows, r.Holds x
  within : Within m.infinity lower upper x

/-- The point satisfies all rows and effective bounds, and is whole where it has to be. -/
structure IntegerFeasible (m : Model K) (x : List K) : Prop where
  feasible : m.Feasible m.effectiveBounds.1 m.effectiveBounds.2 x
  whole : ∀ j ∈ m.integerIndices, IsWhole (x.getD j 0)

end Model

end Points

namespace Model

section Objective

variable {α : Type} [Scalar α]

theorem quadraticTerm_ok_iff {x : List α} {t : Triplet α} :
    (∃ v, quadraticTerm x t = .ok v) ↔ t.row < x.length ∧ t.col < x.length := by
  constructor
  · rintro ⟨v, h⟩
    unfold quadraticTerm at h
    split at h
    · next hrow hcol =>
        exact ⟨(List.getElem?_eq_some_iff.1 hrow).1, (List.getElem?_eq_some_iff.1 hcol).1⟩
    · cases h
  · rintro ⟨hrow, hcol⟩
    exact ⟨_, by rw [quadraticTerm, List.getElem?_eq_getElem hrow, List.getElem?_eq_getElem hcol]⟩

/-- The objective is defined where the point has numbers for all places of the quadratic cost. -/
theorem objective_ok_iff {m : Model α} {x : List α} :
    (∃ v, m.objective x = .ok v) ↔
      ∀ t ∈ m.quadratic.elim [] Sparse.triplets, t.row < x.length ∧ t.col < x.length := by
  simp only [← quadraticTerm_ok_iff, ← exists_mapM_eq_ok_iff]
  constructor
  · rintro ⟨v, h⟩
    obtain ⟨terms, hterms, -⟩ := bind_eq_ok.1 h
    exact ⟨terms, hterms⟩
  · rintro ⟨terms, hterms⟩
    exact ⟨_, by rw [objective, hterms]; rfl⟩

theorem Sound.objective_ok {m : Model α} (hm : m.Sound) {x : List α} (hx : x.length = m.nVar) :
    ∃ v, m.objective x = .ok v := by
  refine objective_ok_iff.2 fun t ht => ?_
  cases hq : m.quadratic with
  | none => simp [hq] at ht
  | some p =>
      rw [hq] at ht
      obtain ⟨hle, hlt⟩ := hm.upper p hq t ht
      rw [hx]
      exact ⟨hle.trans_lt hlt, hlt⟩

end Objective

section Bounds

variable {K : Type} [Field K] [LinearOrder K] [FloorRing K]

@[simp] theorem length_effectiveBounds (m : Model K) :
    m.effectiveBounds.1.length = m.nVar ∧ m.effectiveBounds.2.length = m.nVar := by
  simp [effectiveBounds, nVar]

theorem mem_integerIndices {α : Type} {m : Model α} {j : Nat} :
    j ∈ m.integerIndices ↔ ∃ k, m.kinds[j]? = some k ∧ k ≠ .continuous := by
  simp only [integerIndices, List.mem_map, List.mem_filter, Prod.exists,
    List.mk_mem_zipIdx_iff_getElem?]
  constructor
  · rintro ⟨k, _, ⟨hk, hne⟩, rfl⟩
    exact ⟨k, hk, by simpa using hne⟩
  · rintro ⟨k, hk, hne⟩
    exact ⟨k, j, ⟨hk, by simpa using hne⟩, rfl⟩

theorem lt_nVar_of_mem_integerIndices {α : Type} {m : Model α} {j : Nat}
    (h : j ∈ m.integerIndices) : j < m.nVar := by
  obtain ⟨k, hk, -⟩ := mem_integerIndices.1 h
  have hlt := (List.getElem?_eq_some_iff.1 hk).1
  simpa [kinds, nVar] using hlt

theorem integerIndices_sorted {α : Type} (m : Model α) : m.integerIndices.Pairwise (· < ·) := by
  have hsub : (m.integerIndices).Sublist (m.kinds.zipIdx.map (·.2)) :=
    List.filter_sublist.map _
  rw [List.zipIdx_map_snd] at hsub
  exact List.Pairwise.sublist hsub (List.pairwise_lt_range' 1 (by omega))

theorem isMixed_iff {α : Type} {m : Model α} : m.isMixed ↔ ∃ j, j ∈ m.integerIndices := by
  simp only [isMixed, List.any_eq_true, decide_eq_true_eq]
  constructor
  · rintro ⟨k, hmem, hk⟩
    obtain ⟨j, hj⟩ := List.mem_iff_getElem?.1 hmem
    exact ⟨j, mem_integerIndices.2 ⟨k, hj, hk⟩⟩
  · rintro ⟨j, hj⟩
    obtain ⟨k, hj, hk⟩ := mem_integerIndices.1 hj
    exact ⟨k, List.mem_of_getElem? hj, hk⟩

end Bounds

section Kinds

variable {K : Type} [Field K] [LinearOrder K] [FloorRing K] [IsStrictOrderedRing K]

/-- Where zero and one are finite, being zero or one comes down to being whole, because the
effective bounds see to the rest. -/
theorem integerFeasible_iff {m : Model K} (hinf : 1 < m.infinity) {x : List K} :
    m.IntegerFeasible x ↔ m.Feasible m.effectiveBounds.1 m.effectiveBounds.2 x ∧
      ∀ (j : Nat) (k : VarKind), m.kinds[j]? = some k → k.Allows (x.getD j 0) := by
  constructor
  · rintro ⟨hfeas, hwhole⟩
    refine ⟨hfeas, fun j k hk => ?_⟩
    cases k with
    | continuous => trivial
    | integer => exact hwhole j (mem_integerIndices.2 ⟨_, hk, by simp⟩)
    | binary =>
        obtain ⟨c, hc, hkind⟩ : ∃ c, m.columns[j]? = some c ∧ c.kind = .binary := by
          simpa [kinds] using hk
        -- its effective bounds lie between zero and one, and both are finite
        have hlower : Column.effectiveLower c = max c.lower 0 := by
          rw [Column.effectiveLower, if_pos hkind, larger_eq_max]
        have hupper : Column.effectiveUpper c = min c.upper 1 := by
          rw [Column.effectiveUpper, if_pos hkind, smaller_eq_min]
        have h0 := hfeas.within.lower_le j (max c.lower 0)
          (by simp [effectiveBounds, hc, hlower]) (lt_max_of_lt_right (by linarith))
        have h1 := hfeas.within.le_upper j (min c.upper 1)
          (by simp [effectiveBounds, hc, hupper]) (min_lt_of_right_lt hinf)
        exact isWhole_between_zero_one (hwhole j (mem_integerIndices.2 ⟨_, hk, by simp⟩))
          ((le_max_right _ _).trans h0) (h1.trans (min_le_right _ _))
  · rintro ⟨hfeas, hallows⟩
    refine ⟨hfeas, fun j hj => ?_⟩
    obtain ⟨k, hk, hne⟩ := mem_integerIndices.1 hj
    have hk' := hallows j k hk
    cases k with
    | continuous => exact absurd rfl hne
    | integer => exact hk'
    | binary =>
        rcases hk' with h | h
        · exact ⟨0, by rw [h, Int.cast_zero]⟩
        · exact ⟨1, by rw [h, Int.cast_one]⟩

end Kinds

end Model

end QuadProg
