import Mathlib
import QuadProg.Build

/-!
# Exact arithmetic

The definitions of the library run on any numbers with the operations of `Scalar`.  Here an ordered
field in which every number lies between two whole ones is given these operations, with sums,
products and comparisons as they are in the field.  What is proved of the definitions over such a
field is what they mean when nothing is rounded.

`IsWhole` is the sense in which a number is integral; `round_eq_self_iff` says that rounding leaves
exactly these alone.
-/

namespace QuadProg

variable {K : Type} [Field K] [LinearOrder K] [FloorRing K]

/-- The operations of the field as they are; a half is rounded away from zero. -/
instance exactScalar : Scalar K where
  decidableLE := inferInstance
  decidableLT := inferInstance
  ofInt z := z
  floor x := ⌊x⌋
  ceil x := ⌈x⌉
  round x := if 0 ≤ x then ⌊x + 1 / 2⌋ else ⌈x - 1 / 2⌉
  isFinite _ := true

/-- A number without a fractional part. -/
def IsWhole (x : K) : Prop := ∃ z : ℤ, x = z

theorem floor_eq (x : K) : Scalar.floor x = (⌊x⌋ : K) := rfl

theorem ceil_eq (x : K) : Scalar.ceil x = (⌈x⌉ : K) := rfl

section Extremes

theorem larger_eq_max (x y : K) : larger x y = max x y := by
  unfold larger
  rcases lt_or_ge y x with h | h
  · rw [if_pos h, max_eq_left h.le]
  · rw [if_neg h.not_gt, max_eq_right h]

theorem smaller_eq_min (x y : K) : smaller x y = min x y := by
  unfold smaller
  rcases lt_or_ge x y with h | h
  · rw [if_pos h, min_eq_left h.le]
  · rw [if_neg h.not_gt, min_eq_right h]

end Extremes

instance : EngineDefaults ℚ where
  infinity := 1e20
  settings := .initial
  one_lt_infinity := by norm_num
  timeLimit_eq_none := rfl

theorem engineInfinity_eq : (engineInfinity : ℚ) = 10 ^ 20 := by
  norm_num [engineInfinity, EngineDefaults.infinity]

theorem one_lt_engineInfinity {α : Type} [Scalar α] [EngineDefaults α] :
    (1 : α) < engineInfinity := EngineDefaults.one_lt_infinity

theorem isWhole_round (x : K) : IsWhole (Scalar.round x) := by
  by_cases h : 0 ≤ x
  · exact ⟨⌊x + 1 / 2⌋, by simp [Scalar.round, h]⟩
  · exact ⟨⌈x - 1 / 2⌉, by simp [Scalar.round, h]⟩

variable [IsStrictOrderedRing K]

theorem magnitude_eq_abs (x : K) : magnitude x = |x| := by
  unfold magnitude
  split_ifs with h
  · exact (abs_of_neg h).symm
  · exact (abs_of_nonneg (not_lt.1 h)).symm

section Whole

theorem round_intCast (z : ℤ) : Scalar.round (z : K) = z := by
  by_cases h : (0 : K) ≤ z
  · have hfloor : ⌊(z : K) + 1 / 2⌋ = z := by
      rw [Int.floor_intCast_add]
      norm_num
    simp only [Scalar.round, if_pos h, hfloor]
  · have hceil : ⌈(z : K) - 1 / 2⌉ = z := by
      rw [sub_eq_add_neg, Int.ceil_intCast_add]
      norm_num
    simp only [Scalar.round, if_neg h, hceil]

/-- Rounding leaves the whole numbers alone, and no others. -/
theorem round_eq_self_iff {x : K} : Scalar.round x = x ↔ IsWhole x := by
  constructor
  · intro h
    exact h ▸ isWhole_round x
  · rintro ⟨z, rfl⟩
    exact round_intCast z

/-- Rounding passes no whole number. -/
theorem round_le_of_le {x : K} {z : ℤ} (h : x ≤ z) : Scalar.round x ≤ (z : K) := by
  simp only [Scalar.round]
  split_ifs
  · have hfloor : ⌊x + 1 / 2⌋ < z + 1 := by
      rw [Int.floor_lt]
      push_cast
      linarith
    exact_mod_cast Int.lt_add_one_iff.1 hfloor
  · have hceil : ⌈x - 1 / 2⌉ ≤ z := by
      rw [Int.ceil_le]
      linarith
    exact_mod_cast hceil

theorem le_round_of_le {x : K} {z : ℤ} (h : (z : K) ≤ x) : (z : K) ≤ Scalar.round x := by
  simp only [Scalar.round]
  split_ifs
  · have hfloor : z ≤ ⌊x + 1 / 2⌋ := by
      rw [Int.le_floor]
      linarith
    exact_mod_cast hfloor
  · have hceil : z - 1 < ⌈x - 1 / 2⌉ := by
      rw [Int.lt_ceil]
      push_cast
      linarith
    exact_mod_cast Int.sub_one_lt_iff.1 hceil

theorem abs_round_sub_le (x : K) : |Scalar.round x - x| ≤ 1 / 2 := by
  simp only [Scalar.round]
  rw [abs_le]
  split_ifs
  · have hle : (⌊x + 1 / 2⌋ : K) ≤ x + 1 / 2 := Int.floor_le _
    have hlt : x + 1 / 2 < (⌊x + 1 / 2⌋ : K) + 1 := Int.lt_floor_add_one _
    constructor <;> linarith
  · have hle : x - 1 / 2 ≤ (⌈x - 1 / 2⌉ : K) := Int.le_ceil _
    have hlt : (⌈x - 1 / 2⌉ : K) < x - 1 / 2 + 1 := Int.ceil_lt_add_one _
    constructor <;> linarith

/-- No whole number is nearer than the one that rounding finds. -/
theorem abs_sub_round_le (x : K) (z : ℤ) : |x - Scalar.round x| ≤ |x - z| := by
  obtain ⟨w, hw⟩ := isWhole_round x
  have hhalf : |x - Scalar.round x| ≤ 1 / 2 := by
    rw [abs_sub_comm]
    exact abs_round_sub_le x
  by_contra hnearer
  rw [not_le] at hnearer
  rw [hw] at hhalf hnearer
  -- two whole numbers nearer than a half are the same
  have hlt : |(w : K) - z| < 1 :=
    calc |(w : K) - z|
        ≤ |(w : K) - x| + |x - z| := abs_sub_le _ _ _
      _ < 1 / 2 + 1 / 2 := by
          rw [abs_sub_comm]
          exact add_lt_add_of_le_of_lt hhalf (hnearer.trans_le hhalf)
      _ = 1 := add_halves 1
  have habs : |w - z| < 1 := by exact_mod_cast hlt
  obtain rfl : w = z := sub_eq_zero.1 (Int.abs_lt_one_iff.1 habs)
  exact lt_irrefl _ hnearer

/-- A whole number lies below the fractional numbers between it and the next, or above them. -/
theorem IsWhole.le_floor_or_ceil_le {y : K} (hy : IsWhole y) (x : K) :
    y ≤ Scalar.floor x ∨ Scalar.ceil x ≤ y := by
  obtain ⟨z, rfl⟩ := hy
  rw [floor_eq, ceil_eq]
  rcases le_or_gt (z : K) x with h | h
  · exact .inl (by exact_mod_cast Int.le_floor.2 h)
  · exact .inr (by exact_mod_cast Int.ceil_le.2 h.le)

/-- The whole numbers from zero to one are zero and one. -/
theorem isWhole_between_zero_one {x : K} (hx : IsWhole x) (h0 : 0 ≤ x) (h1 : x ≤ 1) :
    x = 0 ∨ x = 1 := by
  obtain ⟨z, rfl⟩ := hx
  have hz0 : 0 ≤ z := by exact_mod_cast h0
  have hz1 : z ≤ 1 := by exact_mod_cast h1
  have hz : z = 0 ∨ z = 1 := by omega
  rcases hz with rfl | rfl
  · exact .inl (by norm_num)
  · exact .inr (by norm_num)

end Whole

end QuadProg
