import QuadProg.Proofs.Exact

/-!
# Comparing with infinity

Whether a right-hand side or a bound counts as infinite is found out by comparing, never by
computing.  So what is said of infinite numbers needs no exact arithmetic, only comparisons that are
consistent with each other and with changing the sign (`Scalar.Ordered`).  They are in an ordered
field.  They also are for doubles, some of which compare with nothing, not even with themselves.

On its way to the engine a number is compared with infinity three times:

```text
clamp v         a right-hand side of a problem    at infinity if v was    `infinity_le_clamp`
magnitude v     that of a row                     v is below if it is     `not_infinity_le`
-infinity < l   a lower bound                     then -l is below        `not_infinity_le_neg`
```
-/

namespace QuadProg

/-- Comparisons are consistent.  A number that compares with some number compares with itself, but
there may be others. -/
class Scalar.Ordered (α : Type) [Scalar α] : Prop where
  lt_of_le_of_lt {x y z : α} : x ≤ y → y < z → x < z
  le_of_lt {x y : α} : x < y → x ≤ y
  not_le_of_lt {x y : α} : x < y → ¬ y ≤ x
  self_le {x y : α} : x < y → x ≤ x ∧ y ≤ y
  le_neg {x y : α} : x ≤ -y → y ≤ -x
  neg_lt_zero {x : α} : 0 < x → -x < 0
  zero_lt_one : (0 : α) < 1

/-- A finite number is on one side of zero; it is not one that compares with nothing. -/
class Scalar.Comparable (α : Type) [Scalar α] : Prop where
  pos_or_le_zero {x : α} : Scalar.isFinite x = true → 0 < x ∨ x ≤ 0

instance exactComparable {K : Type} [Field K] [LinearOrder K] [FloorRing K] :
    Scalar.Comparable K where
  pos_or_le_zero _ := lt_or_ge _ _

instance exactOrdered {K : Type} [Field K] [LinearOrder K] [FloorRing K] [IsStrictOrderedRing K] :
    Scalar.Ordered K where
  lt_of_le_of_lt := lt_of_le_of_lt
  le_of_lt := le_of_lt
  not_le_of_lt h := not_le.2 h
  self_le _ := ⟨le_rfl, le_rfl⟩
  le_neg h := le_neg.1 h
  neg_lt_zero h := neg_lt_zero.2 h
  zero_lt_one := zero_lt_one

section Signs

variable {α : Type} [Scalar α] [Scalar.Ordered α]

open Scalar.Ordered

theorem not_lt_self (x : α) : ¬ x < x := fun h => not_le_of_lt h (le_of_lt h)

theorem pos_iff_not_le_zero [Scalar.Comparable α] {x : α} (h : Scalar.isFinite x = true) :
    0 < x ↔ ¬ x ≤ 0 :=
  ⟨not_le_of_lt, (Scalar.Comparable.pos_or_le_zero h).resolve_right⟩

end Signs

section Infinity

variable {α : Type} [Scalar α] [Scalar.Ordered α] [EngineDefaults α]

open Scalar.Ordered

theorem infinity_pos : (0 : α) < engineInfinity :=
  lt_of_le_of_lt (le_of_lt zero_lt_one) one_lt_engineInfinity

/-- A number whose magnitude is below infinity is below infinity. -/
theorem not_infinity_le {v : α} (h : ¬ engineInfinity ≤ magnitude v) : ¬ engineInfinity ≤ v := by
  intro hv
  by_cases hneg : v < 0
  · have hinfinity : (engineInfinity : α) < 0 := lt_of_le_of_lt hv hneg
    exact not_le_of_lt infinity_pos (le_of_lt hinfinity)
  · rw [magnitude, if_neg hneg] at h
    exact h hv

theorem not_infinity_le_neg {l : α} (h : -engineInfinity < l) : ¬ engineInfinity ≤ -l := by
  intro hl
  exact not_le_of_lt h (le_neg hl)

theorem infinity_le_magnitude : (engineInfinity : α) ≤ magnitude engineInfinity ∧
    (engineInfinity : α) ≤ magnitude (-engineInfinity) := by
  have hpos : (0 : α) < engineInfinity := infinity_pos
  have hneg : -(engineInfinity : α) < 0 := neg_lt_zero hpos
  have hnot : ¬ (engineInfinity : α) < 0 := fun h => not_le_of_lt hpos (le_of_lt h)
  constructor
  · rw [magnitude, if_neg hnot]
    exact (self_le hpos).2
  · rw [magnitude, if_pos hneg]
    exact le_neg (self_le hneg).1

/-- What was at or beyond infinity, on either side, is at infinity after it was moved there. -/
theorem infinity_le_clamp {v : α} (h : engineInfinity ≤ magnitude v) :
    engineInfinity ≤ magnitude (clamp engineInfinity v) := by
  unfold clamp
  split_ifs
  · exact infinity_le_magnitude.1
  · exact infinity_le_magnitude.2
  · exact h

end Infinity

end QuadProg
