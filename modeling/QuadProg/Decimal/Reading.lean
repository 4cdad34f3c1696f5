import QuadProg.Decimal.Shortest

/-!
# Reading decimals

A decimal is read in two roundings.  Its digits, as many as 64 bits hold, make a whole number that
is rounded to a double; that is multiplied or divided once by a power of ten.  For up to fifteen
digits and powers of ten up to `10^22` both the number and the power are exact, so the result is the
nearest double.
-/

namespace QuadProg.Decimal

/-- The digits of a number as it was written. -/
structure Numeral where
  negative : Bool
  whole : List Nat
  /-- The digits after the point, if there is one. -/
  fraction : Option (List Nat)
  /-- The power of ten, if it was written. -/
  exponent : Option Int
deriving DecidableEq, Repr

/-- Appends digits to a number as long as it fits in 64 bits, and counts those left over. -/
def fill (n : Nat) : List Nat → Nat × Nat
  | [] => (n, 0)
  | d :: ds => if n * 10 + d < Nat.pow 2 64 then fill (n * 10 + d) ds else (n, ds.length + 1)

/-- The double nearest to a natural number. -/
def nearest (n : Nat) : Float := Float.ofScientific n false 0

/-- The double nearest to a power of ten. -/
def powerOfTen (k : Nat) : Float := Float.ofScientific 1 false k

/-- Divides by the largest power of ten that is a double, `k` times or until zero is reached. -/
def sink : Nat → Float → Float
  | 0, x => x
  | k + 1, x => if x == 0 then x else sink k (x / powerOfTen 308)

/-- A number times a power of ten; none where that is beyond all doubles. -/
def scaleByPower (x : Float) (e : Int) : Option Float :=
  if 0 ≤ e then
    if x == 0 then some x
    else if e ≤ 308 then
      let y := x * powerOfTen e.toNat
      if y.isInf then none else some y
    else none
  else
    let n := (-e).toNat
    let k := (n - 1) / 308
    some (sink k x / powerOfTen (n - 308 * k))

/-- The whole number that a numeral without a point and an exponent stands for, if it is one of 64
bits, with or without sign.  Zero with a minus sign is none. -/
def Numeral.whole? (n : Numeral) : Option Int :=
  match n.fraction, n.exponent, fill 0 n.whole with
  | none, none, (m, 0) =>
    if n.negative then if 0 < m ∧ m ≤ Nat.pow 2 63 then some (-(m : Int)) else none
    else some m
  | _, _, _ => none

/-- The double that a numeral stands for; none where it is beyond all doubles. -/
def Numeral.double? (n : Numeral) : Option Float :=
  let (significand, left) := fill 0 n.whole
  let digits := n.fraction.getD []
  let (significand, dropped) := fill significand digits
  let e := (left : Int) - ((digits.length - dropped : Nat) : Int) + n.exponent.getD 0
  (scaleByPower (nearest significand) e).map fun x => if n.negative then -x else x

end QuadProg.Decimal
