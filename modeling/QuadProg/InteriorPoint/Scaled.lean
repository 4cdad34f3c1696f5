import QuadProg.InteriorPoint.Vector

/-!
# Scaled problems

The iteration runs on a scaled problem: variable `j` is measured in units of `d j`, row `i` is
multiplied by `e i`, and the cost by `c`.  `equilibrate` chooses the factors in rounds, each of
which divides rows and columns of the matrix of `P` and `A` by the square root of their largest
magnitude, and then the cost by its own.
-/

namespace QuadProg.InteriorPoint

/-- A dense problem.  The first `nEq` of the rows are equations, the others have slacks that are
not negative. -/
structure DenseProblem where
  nVar : Nat
  nEq : Nat
  p : Mat
  q : Vec
  a : Mat
  b : Vec
  /-- Nothing is stored in `P`. -/
  linear : Bool

def DenseProblem.nRows (t : DenseProblem) : Nat := t.b.size

def DenseProblem.nNonneg (t : DenseProblem) : Nat := t.nRows - t.nEq

/-- Units for variables, rows and the cost. -/
structure Scaling where
  d : Vec
  e : Vec
  c : Float

def Scaling.unit (nVar nRows : Nat) : Scaling := ⟨.const nVar 1, .const nRows 1, 1⟩

/-- The problem in the given units. -/
def DenseProblem.inUnits (t : DenseProblem) (s : Scaling) : DenseProblem :=
  { t with
    p := (t.p.scaleBy s.d s.d).map (Vec.scale s.c)
    q := (t.q.times s.d).scale s.c
    a := t.a.scaleBy s.e s.d
    b := t.b.times s.e }

/-- The least and the greatest factor. -/
def leastScale : Float := 1e-4

def greatestScale : Float := 1e4

/-- One over the square root of a norm, such that the factor so far times it keeps the limits; a
norm of zero counts as one. -/
def rescale (soFar norm : Float) : Float :=
  let x := if norm == 0 then 1 else norm
  clip (leastScale / soFar) (greatestScale / soFar) (1 / Float.sqrt x)

def equilibrateRound (t : DenseProblem) (s : Scaling) : Scaling :=
  let u := t.inUnits s
  let columns := Array.zipWith maxNum (u.p.colMaxAbs t.nVar) (u.a.colMaxAbs t.nVar)
  let d := s.d.times (Array.zipWith rescale s.d columns)
  let e := s.e.times (Array.zipWith rescale s.e u.a.rowMaxAbs)
  let s : Scaling := { s with d, e }
  let u := t.inUnits s
  let meanNorm := (u.p.colMaxAbs t.nVar).mean
  let costNorm := u.q.maxAbs
  if meanNorm != 0 && costNorm != 0 then
    let factor := clip (leastScale / s.c) (greatestScale / s.c) (1 / maxNum costNorm meanNorm)
    { s with c := s.c * factor }
  else s

/-- Units in which the problem is well balanced, after ten rounds. -/
def equilibrate (t : DenseProblem) : Scaling :=
  (List.replicate 10 ()).foldl (fun s _ => equilibrateRound t s) (.unit t.nVar t.nRows)

end QuadProg.InteriorPoint
