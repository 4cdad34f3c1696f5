import QuadProg.Decimal.Style

/-!
# Numbers

Everything that does not iterate numerically is written over a type of numbers with the operations
of `Scalar`.  The program runs on doubles; the same definitions run on an ordered field, where
sums and comparisons are exact.

`Scalar` asks for no laws.  What holds of the definitions whatever the arithmetic does is proved
for every instance, the doubles included; what needs exact arithmetic says so.
-/

namespace QuadProg

/-- A type of numbers to compute with. -/
class Scalar (α : Type) extends Zero α, One α, Add α, Sub α, Mul α, Div α, Neg α, LE α, LT α,
    BEq α, OfScientific α where
  decidableLE : DecidableLE α
  decidableLT : DecidableLT α
  /-- The number that stands for a whole number, rounded if need be. -/
  ofInt : Int → α
  /-- The largest whole number that is not above. -/
  floor : α → α
  /-- The smallest whole number that is not below. -/
  ceil : α → α
  /-- The nearest whole number; a half goes away from zero. -/
  round : α → α
  isFinite : α → Bool

instance instDecidableLEOfScalar {α : Type} [Scalar α] : DecidableLE α := Scalar.decidableLE

instance instDecidableLTOfScalar {α : Type} [Scalar α] : DecidableLT α := Scalar.decidableLT

instance : Scalar Float where
  decidableLE := inferInstance
  decidableLT := inferInstance
  ofInt := Float.ofInt
  floor := Float.floor
  ceil := Float.ceil
  round := Float.round
  isFinite := Float.isFinite

class NumberText (α : Type) where
  text : α → String

instance : NumberText Float := ⟨Decimal.Style.plain.write⟩

section Magnitude

variable {α : Type} [Zero α] [Neg α] [LT α] [DecidableLT α]

/-- The distance from zero. -/
def magnitude (x : α) : α := if x < 0 then -x else x

end Magnitude

section Extremes

variable {α : Type} [LT α] [DecidableLT α]

/-- The larger of two numbers; `y` where `x` is no number or equal to it. -/
def larger (x y : α) : α := if y < x then x else y

/-- The smaller of two numbers; `y` where `x` is no number or equal to it. -/
def smaller (x y : α) : α := if x < y then x else y

end Extremes

section Clamp

variable {α : Type} [Neg α] [LE α] [DecidableLE α]

/-- The number with everything from `limit` on, on either side, moved to the limit. -/
def clamp (limit x : α) : α :=
  if limit ≤ x then limit else if x ≤ -limit then -limit else x

end Clamp

end QuadProg
