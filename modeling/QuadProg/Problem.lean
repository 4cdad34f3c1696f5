import QuadProg.Error
import QuadProg.Sparse.Symmetry

/-!
# Canonical problems

The canonical convex quadratic program is

  minimize `½ xᵀ P x + qᵀ x` subject to `A x = b` and `F x ≤ g`,

where some entries of `x` may have to be `0` or `1`, or whole numbers.  A problem states its own
dimensions; `Problem.check` compares them with the data and reports the first difference.
-/

namespace QuadProg

/-- A canonical quadratic program. -/
structure Problem (α : Type) where
  p : Sparse α
  q : List α
  a : Sparse α
  b : List α
  f : Sparse α
  g : List α
  /-- The number of variables. -/
  nVar : Nat
  /-- The number of equations. -/
  nEq : Nat
  /-- The number of inequalities. -/
  nIneq : Nat
  /-- The variables that are `0` or `1`. -/
  binary : List Nat := []
  /-- The variables that are whole numbers; these count where both lists name one. -/
  integer : List Nat := []

namespace Problem

variable {α : Type}

/-- Entries of `P` across the diagonal may differ by this much. -/
def symmetryTolerance [OfScientific α] : α := 1e-9

/-- Whether some variable has to be integral. -/
def isMixed (d : Problem α) : Bool := !d.binary.isEmpty || !d.integer.isEmpty

/-- The dimensions of a matrix and its right-hand side. -/
def checkBlock (name : String) (m : Sparse α) (rhs : List α) (rows nVar : Nat) :
    Except (Error α) Unit :=
  if m.nrows ≠ rows ∨ m.ncols ≠ nVar ∨ rhs.length ≠ rows then
    .error (.invalidProblem (.blockSize name m.nrows m.ncols rhs.length rows nVar))
  else .ok ()

/-- Whether the data have the stated dimensions, `P` is symmetric and integrality is asked of
variables that exist. -/
def check [Scalar α] (d : Problem α) : Except (Error α) Unit := do
  if d.q.length ≠ d.nVar then
    throw (.invalidProblem (.costLength d.q.length d.nVar))
  if d.p.nrows ≠ d.nVar ∨ d.p.ncols ≠ d.nVar then
    throw (.invalidProblem (.quadraticSize d.p.nrows d.p.ncols d.nVar))
  if !d.p.isSymmetric symmetryTolerance then
    throw (.invalidProblem .notSymmetric)
  checkBlock "A" d.a d.b d.nEq d.nVar
  checkBlock "F" d.f d.g d.nIneq d.nVar
  match (d.binary ++ d.integer).find? (d.nVar ≤ ·) with
  | some i => throw (.invalidProblem (.integralityRange i d.nVar))
  | none => return ()

/-- The problem with the given data and their dimensions. -/
def create [Scalar α] (p : Sparse α) (q : List α) (a : Sparse α) (b : List α) (f : Sparse α)
    (g : List α) : Except (Error α) (Problem α) := do
  let d : Problem α :=
    { p, q, a, b, f, g, nVar := q.length, nEq := a.nrows, nIneq := f.nrows }
  d.check
  return d

/-- The problem without equations and inequalities. -/
def unconstrained [Scalar α] (p : Sparse α) (q : List α) : Except (Error α) (Problem α) :=
  create p q (.zeros 0 q.length) [] (.zeros 0 q.length) []

end Problem

end QuadProg
