import QuadProg.Model

/-!
# Conic form

Engines take a whole problem at once,

  minimize `½ xᵀ P x + qᵀ x` subject to `A x + s = b` and `s ∈ K`,

where `K` is a product of cones.  The rows of a model are put in this order: first the equations,
whose slacks `s` are zero, then the inequalities, whose slacks are not negative, and last a row for
every finite bound of a variable, `x ≤ u` before `-x ≤ -l`.
-/

namespace QuadProg

/-- A set of slacks. -/
inductive Cone where
  /-- `n` zeros. -/
  | zero (n : Nat)
  /-- `n` numbers that are not negative. -/
  | nonneg (n : Nat)
deriving DecidableEq, Repr

/-- A problem in conic form. -/
structure Conic (α : Type) where
  /-- The upper triangle of `P`. -/
  p : Sparse α
  q : List α
  a : Sparse α
  b : List α
  nEq : Nat
  nIneq : Nat
  nBound : Nat
deriving DecidableEq

/-- The cones in the order of the rows; cones without rows are left out. -/
def Conic.cones {α : Type} (c : Conic α) : List Cone :=
  (if 0 < c.nEq then [.zero c.nEq] else []) ++
    (if 0 < c.nIneq + c.nBound then [.nonneg (c.nIneq + c.nBound)] else [])

/-- A row of the conic form, as pairs of a variable and its coefficient. -/
structure ConicRow (α : Type) where
  entries : List (Nat × α)
  rhs : α

namespace Model

variable {α : Type} [Scalar α]

def Row.toConic (r : Row α) : ConicRow α := ⟨r.cols.zip r.vals, r.rhs⟩

/-- The rows of one sense, in the order in which they were added. -/
def rowsOf (m : Model α) (sense : RowSense) : List (ConicRow α) :=
  (m.rows.filter (·.sense = sense)).map Row.toConic

/-- The rows for the bounds of one variable that are finite. -/
def boundRows (infinity : α) (j : Nat) (lower upper : α) : List (ConicRow α) :=
  (if upper < infinity then [⟨[(j, 1)], upper⟩] else []) ++
    (if -infinity < lower then [⟨[(j, -1)], -lower⟩] else [])

/-- The conic form of the model with the given bounds in place of its own.  Every variable has one
of either kind, in the model as well as in a search, where a split changes one number of a list. -/
def assemble (m : Model α) (lower upper : List α) : Conic α :=
  let eqs := m.rowsOf .equal
  let ineqs := m.rowsOf .lessEqual
  let bounds := (lower.zip upper).zipIdx.flatMap fun c => boundRows m.infinity c.2 c.1.1 c.1.2
  let rows := eqs ++ ineqs ++ bounds
  let entries := rows.zipIdx.flatMap fun r => r.1.entries.map fun e => ⟨r.2, e.1, e.2⟩
  { p := m.quadratic.getD (.zeros m.nVar m.nVar)
    q := m.costs
    a := .ofTriplets rows.length m.nVar entries
    b := rows.map (·.rhs)
    nEq := eqs.length
    nIneq := ineqs.length
    nBound := bounds.length }

end Model

end QuadProg
