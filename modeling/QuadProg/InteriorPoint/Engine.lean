import QuadProg.Engine
import QuadProg.InteriorPoint.Iteration

/-!
# The interior point engine

Presolving drops inequalities whose right-hand side is infinite; they get the multiplier zero.
The data that are left are scaled once.  A refreshed problem keeps the units that were chosen for
the first data.

The engine breaks down on problems without variables and on a quadratic cost of the wrong size.
It also breaks down where presolving drops an inequality so far down that the number of rows left in
the cone of inequalities is miscounted: the count starts at the first row of the problem, even when
that is an equation.
-/

namespace QuadProg.InteriorPoint

/-- What the engine keeps of a loaded problem. -/
structure Memory where
  /-- Which rows were kept. -/
  kept : List Bool
  /-- The units that results are read in. -/
  scaling : Scaling
  /-- The factor of the cost that the data are given with. -/
  costFactor : Float

/-- From here on a right-hand side is infinite. -/
def infiniteRhs : Float := 1e20

/-- Which rows presolving keeps. -/
def keptRows (presolve : Bool) (nEq : Nat) (b : List Float) : List Bool :=
  b.mapIdx fun i x =>
    !presolve || i < nEq || !((1 - 10 * 2.220446049250313e-16) * infiniteRhs < x)

/-- Whether the rows left in the cone of inequalities are miscounted. -/
def isMiscounted (nEq : Nat) (kept : List Bool) : Bool :=
  !kept.all id && (kept.take (kept.length - nEq)).count true != (kept.drop nEq).count true

/-- The rows of the zero cone. -/
def equationCount (cones : List Cone) : Nat :=
  (cones.map fun
    | .zero n => n
    | .nonneg _ => 0).foldl (· + ·) 0

def marked {α : Type} (marks : List Bool) (xs : List α) : List α :=
  ((xs.zip marks).filter (·.2)).map (·.1)

/-- A sparse matrix as rows of its entries. -/
def rowsOf (m : Sparse Float) : List Vec :=
  let zero := Vec.const m.ncols 0
  m.rowSlices.map fun r => (r.1.zip r.2).foldl (fun v e => v.setIfInBounds e.1 e.2) zero

/-- The dense problem left after presolving.  `P` is given by its upper triangle. -/
def denseOf (nEq : Nat) (kept : List Bool) (p : Sparse Float) (q : List Float) (a : Sparse Float)
    (b : List Float) : DenseProblem :=
  let upper : Mat := (rowsOf p).toArray
  { nVar := q.length
    nEq
    p := Mat.ofFn q.length q.length fun i j => if i ≤ j then upper.coord i j else upper.coord j i
    q := q.toArray
    a := (marked kept (rowsOf a)).toArray
    b := ((marked kept b).map fun x => if infiniteRhs < x then infiniteRhs else x).toArray
    linear := p.stored == 0 }

def prepare (settings : Settings Float) (c : Conic Float) : Except Breakdown Memory :=
  let n := c.q.length
  let nEq := equationCount c.cones
  let kept := keptRows settings.presolve nEq c.b
  if n = 0 then .error (.message "the problem has no variables")
  else if c.p.nrows ≠ n ∨ c.p.ncols ≠ n then .error (.message "P and q incompatible dimensions.")
  else if isMiscounted nEq kept then
    .error (.message "Constraint dimensions inconsistent with size of cones.")
  else
    let t := denseOf nEq kept c.p c.q c.a c.b
    let scaling := if settings.equilibrate then equilibrate t else .unit n t.nRows
    .ok { kept, scaling, costFactor := scaling.c }

/-- Takes in new data, unless rows were dropped before.  The cost factor is not applied to data
that replace the first ones, but results are still read as if it were. -/
def refresh (l : Loaded Float Memory) (_ : Conic Float) : Except Breakdown (Option Memory) :=
  .ok (if l.memory.kept.all id then some { l.memory with costFactor := 1 } else none)

/-- The entries of a vector, with zeros where an entry was not marked. -/
def spread : List Bool → List Float → List Float
  | [], _ => []
  | true :: ms, x :: xs => x :: spread ms xs
  | true :: ms, [] => 0 :: spread ms []
  | false :: ms, xs => 0 :: spread ms xs

/-- The seconds that taking a problem in is counted as. -/
def preparationTime : Float := 2e-5

def solve (l : Loaded Float Memory) : Answer Float :=
  let u := l.memory.scaling
  let t := denseOf (equationCount l.cones) l.memory.kept l.p l.q l.a l.b
  let run : Run :=
    { problem := t.inUnits { u with c := l.memory.costFactor }
      scaling := u
      normQ := t.q.maxAbs
      normB := t.b.maxAbs
      tolerances := .full l.settings
      timeOver := l.settings.timeLimit.any (· < preparationTime) }
  let f := (run.iterate l.settings.maxIter 0 (start run.problem) none).settle
  let v := f.iterate
  let status := f.status
  let unit := 1 / if status.status.isInfeasible || status.status.isUnbounded then v.kappa else v.tau
  { status
    x := ((v.x.times u.d).scale unit).toList
    z := spread l.memory.kept ((v.z.times u.e).scale (unit / u.c)).toList
    iterations := f.iterations }

def engine : Engine Float Memory where
  prepare := prepare
  refresh := refresh
  run _ l := .ok (solve l, l.memory)

/-- A clock for results that do not depend on the machine: a relaxation takes as long as taking a
problem in is counted as.  A limit of `2^64` seconds and more is none, and one that is too large
to be added to the present breaks down. -/
def clock : Clock Float where
  elapsed := preparationTime
  deadline limit :=
    if 18446744073709551616 ≤ limit then .ok fun _ => false
    else if 9223372036854774784 ≤ limit then
      .error (.message "overflow when adding duration to instant")
    else .ok fun k => limit ≤ k.toFloat * preparationTime

end QuadProg.InteriorPoint
