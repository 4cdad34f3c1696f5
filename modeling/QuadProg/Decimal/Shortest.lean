/-!
# Shortest decimals

A finite double other than zero stands for a whole interval of reals, those that round to it.
`Dyadic.shortest` returns a decimal in that interval with as few digits as possible, and of the
decimals with that many digits the nearest to the double itself.

The search is exact.  A double is `m · 2^e`, so the ends of its interval are `4m - 1` or `4m - 2`
and `4m + 2` units of `2^(e-2)`, and every comparison with a decimal `d · 10^k` is a comparison of
natural numbers after both sides are multiplied by the denominators.  For a grid of decimals with a
given number of digits only the two neighbours of the double have to be tried: if any point of the
grid lies in the interval, one of them does.
-/

namespace QuadProg.Decimal

/-- The positive number `mantissa · 2^exponent`. -/
structure Dyadic where
  mantissa : Nat
  exponent : Int
  /-- The gap to the next smaller double is half the gap to the next larger one.  So it is at the
  powers of two, the smallest normal number apart. -/
  narrowBelow : Bool
deriving Repr, DecidableEq

/-- The magnitude of a finite double, from its bit pattern. -/
def Dyadic.ofFloat (x : Float) : Dyadic :=
  let bits := x.toBits.toNat
  let fraction : Nat := bits % Nat.pow 2 52
  let biased : Nat := bits / Nat.pow 2 52 % Nat.pow 2 11
  if biased = 0 then ⟨fraction, -1074, false⟩
  else ⟨fraction + Nat.pow 2 52, (biased : Int) - 1075, fraction = 0 ∧ 1 < biased⟩

/-- The decimal `digits · 10^exponent`. -/
structure Number where
  digits : Nat
  exponent : Int
deriving Repr, DecidableEq

/-- The number of decimal digits of `n`; zero has one. -/
def digitCount (n : Nat) : Nat := (Nat.toDigits 10 n).length

/-- Which of two decimals is taken when a double lies exactly in the middle. -/
inductive Tie where
  | up
  | even
deriving Repr, DecidableEq

namespace Dyadic

/-- The number as a quotient of two naturals. -/
def ratio (x : Dyadic) : Nat × Nat :=
  (x.mantissa * Nat.pow 2 x.exponent.toNat, Nat.pow 2 (-x.exponent).toNat)

/-- The exponent of the leading digit: the `j` with `10^j ≤ x < 10^(j+1)`. -/
def leadingExponent (x : Dyadic) : Int :=
  let (num, den) := x.ratio
  if den ≤ num then (digitCount (num / den) : Int) - 1
  else -(digitCount ((den + num - 1) / num - 1) : Int)

/-- The neighbour of `x` among the multiples of `10^k` that rounds to `x`, if there is one; the
nearer where both do. -/
def neighbour? (tie : Tie) (x : Dyadic) (k : Int) : Option Nat :=
  let shift := x.exponent - 2
  let binary := Nat.pow 2 shift.toNat * Nat.pow 10 (-k).toNat
  let decimal := Nat.pow 10 k.toNat * Nat.pow 2 (-shift).toNat
  let value := 4 * x.mantissa * binary
  let low := (4 * x.mantissa - if x.narrowBelow then 1 else 2) * binary
  let high := (4 * x.mantissa + 2) * binary
  let inside (c : Nat) : Bool :=
    if x.mantissa % 2 = 0 then low ≤ c ∧ c ≤ high else low < c ∧ c < high
  let below := value / decimal
  let above := below + 1
  match inside (below * decimal), inside (above * decimal) with
  | false, false => none
  | true, false => some below
  | false, true => some above
  | true, true =>
    let twice := 2 * value
    let middle := (below + above) * decimal
    if twice < middle then some below
    else if middle < twice then some above
    else match tie with
      | .up => some above
      | .even => some (if below % 2 = 0 then below else above)

/-- The nearest of the shortest decimals that round to `x`.  Seventeen digits always suffice. -/
def shortest (tie : Tie) (x : Dyadic) : Number :=
  let lead := x.leadingExponent
  let found := (List.range 17).findSome? fun n : Nat =>
    let k := lead - (n : Int)
    (neighbour? tie x k).map (⟨·, k⟩)
  found.getD ⟨0, 0⟩

end Dyadic

/-- The quotient of two naturals, rounded to the nearest whole number; a half goes to the even
neighbour. -/
def roundDiv (num den : Nat) : Nat :=
  let q := num / den
  let r := num % den
  if 2 * r < den then q
  else if den < 2 * r then q + 1
  else if q % 2 = 0 then q else q + 1

end QuadProg.Decimal
