import QuadProg.Proofs.Exact
import QuadProg.Search

/-!
# Points that are whole up to a tolerance

A search takes a point for whole if no integral variable is further from a whole number than the
tolerance (`mostFractional_eq_none_iff`), and rounds it there.  Otherwise it splits at a variable
that is further (`mem_far_of_mostFractional`).  Both hold for any numbers; a number that compares
with nothing, like the doubles that are none, is not further.

In exact arithmetic rounding moves an integral variable by no more than the tolerance
(`near_of_mostFractional`) nor than a half, past no whole number, and no other variable at all
(`coordinate_roundAt`).
-/

namespace QuadProg.Search

section Pick

variable {β : Type} {f : Option β → β → Option β}

/-- A fold that keeps what it has or takes the next element ends with one of the elements. -/
theorem mem_of_foldl_pick (hf : ∀ best b, f best b = best ∨ f best b = some b) {bs : List β}
    {best : Option β} {b : β} (h : bs.foldl f best = some b) : best = some b ∨ b ∈ bs := by
  induction bs generalizing best with
  | nil => exact .inl h
  | cons c bs ih =>
      rcases ih h with hbest | hmem
      · rcases hf best c with hkeep | htake
        · exact .inl (hkeep ▸ hbest)
        · obtain rfl : c = b := Option.some.inj (htake ▸ hbest)
          exact .inr List.mem_cons_self
      · exact .inr (List.mem_cons_of_mem _ hmem)

/-- A fold that never ends with nothing had nothing to start with. -/
theorem eq_nil_of_foldl_pick (hf : ∀ best b, (f best b).isSome) {bs : List β} {best : Option β}
    (h : bs.foldl f best = none) : bs = [] := by
  induction bs generalizing best with
  | nil => rfl
  | cons b bs ih =>
      obtain rfl := ih h
      have hsome := hf best b
      rw [show f best b = none from h] at hsome
      cases hsome

end Pick

section Any

variable {α : Type} [Scalar α] {x : List α} {integers : List Nat} {tolerance : α} {j : Nat}

/-- What is split is an integral variable that is further from a whole number than the
tolerance. -/
theorem mem_far_of_mostFractional (h : mostFractional x integers tolerance = some j) :
    j ∈ integers ∧ tolerance < fractionality (coordinate x j) := by
  have hmem := (mem_of_foldl_pick (fun best k => ?_) h).resolve_left (by simp)
  · obtain ⟨hj, hfar⟩ := List.mem_filter.1 hmem
    exact ⟨hj, of_decide_eq_true hfar⟩
  · cases best with
    | none => exact .inr rfl
    | some i =>
        dsimp only
        split_ifs
        · exact .inr rfl
        · exact .inl rfl

theorem mem_of_mostFractional (h : mostFractional x integers tolerance = some j) :
    j ∈ integers :=
  (mem_far_of_mostFractional h).1

theorem mostFractional_eq_none_iff : mostFractional x integers tolerance = none ↔
    ∀ j ∈ integers, ¬ tolerance < fractionality (coordinate x j) := by
  constructor
  · intro h j hj hfar
    have hempty := eq_nil_of_foldl_pick (fun best k => ?_) h
    · have hnear := List.filter_eq_nil_iff.1 hempty j hj
      exact hnear (decide_eq_true hfar)
    · cases best with
      | none => rfl
      | some i =>
          dsimp only
          split_ifs <;> rfl
  · intro h
    cases hmost : mostFractional x integers tolerance with
    | none => rfl
    | some j =>
        obtain ⟨hj, hfar⟩ := mem_far_of_mostFractional hmost
        exact absurd hfar (h j hj)

@[simp] theorem length_roundAt (integers : List Nat) (x : List α) :
    (roundAt integers x).length = x.length := by
  simp [roundAt]

end Any

section Exact

variable {K : Type} [Field K] [LinearOrder K] [FloorRing K] [IsStrictOrderedRing K]

theorem coordinate_roundAt (integers : List Nat) (x : List K) (j : Nat) :
    (roundAt integers x).getD j 0 =
      if j ∈ integers then Scalar.round (x.getD j 0) else x.getD j 0 := by
  rw [roundAt, List.getD_eq_getElem?_getD, List.getD_eq_getElem?_getD, List.getElem?_mapIdx]
  cases x[j]? with
  | none =>
      have hzero : Scalar.round (0 : K) = 0 := by simpa using round_intCast (K := K) 0
      simp [hzero]
  | some v => rfl

theorem coordinate_roundAt_of_mem {integers : List Nat} {j : Nat} (hj : j ∈ integers)
    (x : List K) : (roundAt integers x).getD j 0 = Scalar.round (x.getD j 0) := by
  rw [coordinate_roundAt, if_pos hj]

theorem coordinate_roundAt_of_notMem {integers : List Nat} {j : Nat} (hj : j ∉ integers)
    (x : List K) : (roundAt integers x).getD j 0 = x.getD j 0 := by
  rw [coordinate_roundAt, if_neg hj]

/-- Rounding does not move a point that is whole where it is rounded. -/
theorem roundAt_eq_self {integers : List Nat} {x : List K}
    (h : ∀ j ∈ integers, IsWhole (x.getD j 0)) : roundAt integers x = x := by
  apply List.ext_getElem
  · simp [roundAt]
  · intro j hj hx
    simp only [roundAt, List.getElem_mapIdx]
    split_ifs with hmem
    · have hwhole := h j hmem
      rw [List.getD_eq_getElem _ _ hx] at hwhole
      exact round_eq_self_iff.2 hwhole
    · rfl

/-- A number is not further than the tolerance if some whole number is that near. -/
theorem not_far_iff {v tolerance : K} :
    ¬ tolerance < fractionality v ↔ ∃ z : ℤ, |v - z| ≤ tolerance := by
  rw [not_lt, fractionality, magnitude_eq_abs]
  constructor
  · intro h
    obtain ⟨z, hz⟩ := isWhole_round v
    exact ⟨z, hz ▸ h⟩
  · rintro ⟨z, hz⟩
    exact (abs_sub_round_le v z).trans hz

theorem near_of_mostFractional {x : List K} {integers : List Nat} {tolerance : K}
    (h : mostFractional x integers tolerance = none) {j : Nat} (hj : j ∈ integers) :
    |Scalar.round (x.getD j 0) - x.getD j 0| ≤ tolerance := by
  have hnear := mostFractional_eq_none_iff.1 h j hj
  rw [not_lt, fractionality, magnitude_eq_abs, abs_sub_comm] at hnear
  exact hnear

end Exact

end QuadProg.Search
