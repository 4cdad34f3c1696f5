import QuadProg.Decimal.Shortest

/-!
# How doubles are written

A `Style` says how the shortest decimal of a double is laid out.  Two styles are in use: `plain`
for messages and exact answers, which never has an exponent, and `json` for option files, which
has one for very small and very large magnitudes and marks every number as a fraction.

`fixed` is the third way, with a given number of places after the point.
-/

namespace QuadProg.Decimal

/-- How the digits of a double are laid out. -/
structure Style where
  /-- Which decimal is taken for a double exactly between two of the shortest ones. -/
  tie : Tie
  /-- The exponents of the leading digit for which the number is written without an exponent. -/
  positional : Int → Bool
  /-- What follows a number without a fractional part, written without an exponent. -/
  wholeMark : String

/-- Without an exponent at any magnitude, and whole numbers without a point. -/
def Style.plain : Style := ⟨.up, fun _ => true, ""⟩

/-- Without an exponent from `0.00001` up to `10^16`, where whole numbers end in `.0`. -/
def Style.json : Style := ⟨.even, fun e => -5 ≤ e ∧ e < 16, ".0"⟩

def zeros (n : Nat) : List Char := List.replicate n '0'

/-- A decimal without an exponent. -/
def Number.positional (wholeMark : String) (d : Number) : String :=
  let digits := Nat.toDigits 10 d.digits
  if 0 ≤ d.exponent then
    String.ofList (digits ++ zeros d.exponent.toNat) ++ wholeMark
  else
    let places := (-d.exponent).toNat
    let padded := zeros (places + 1 - digits.length) ++ digits
    let cut := padded.length - places
    String.ofList (padded.take cut ++ '.' :: padded.drop cut)

/-- A decimal with one digit before the point and a signed exponent. -/
def Number.scientific (d : Number) : String :=
  let digits := Nat.toDigits 10 d.digits
  let exponent := d.exponent + digits.length - 1
  let power := (if exponent < 0 then "e-" else "e+") ++ toString exponent.natAbs
  match digits with
  | [] => power
  | [c] => String.ofList [c] ++ power
  | c :: rest => String.ofList (c :: '.' :: rest) ++ power

/-- Strips the trailing zeros of the digits. -/
def Number.normal (d : Number) : Number :=
  let digits := Nat.toDigits 10 d.digits
  let drop := (digits.reverse.takeWhile (· == '0')).length
  if d.digits = 0 then ⟨0, 0⟩ else ⟨d.digits / Nat.pow 10 drop, d.exponent + drop⟩

/-- Whether the sign bit is set; true of negative zero. -/
def signBit (x : Float) : Bool := x.toBits >>> 63 == 1

def Style.write (s : Style) (x : Float) : String :=
  if x.isNaN then "NaN"
  else
    let sign := if signBit x then "-" else ""
    if x.isInf then sign ++ "inf"
    else
      let dyadic := Dyadic.ofFloat x
      if dyadic.mantissa = 0 then sign ++ "0" ++ s.wholeMark
      else
        let d := (dyadic.shortest s.tie).normal
        let lead := d.exponent + digitCount d.digits - 1
        sign ++ if s.positional lead then d.positional s.wholeMark else d.scientific

/-- A double with `places` digits after the point, rounded from its exact value.  What rounds to
zero has no sign. -/
def fixed (places : Nat) (x : Float) : String :=
  if x.isNaN then "NaN"
  else if x.isInf then (if signBit x then "-inf" else "inf")
  else
    let (num, den) := (Dyadic.ofFloat x).ratio
    let n := roundDiv (num * Nat.pow 10 places) den
    let text :=
      if places = 0 then toString n else Number.positional "" ⟨n, -(places : Int)⟩
    if signBit x && n ≠ 0 then "-" ++ text else text

end QuadProg.Decimal
