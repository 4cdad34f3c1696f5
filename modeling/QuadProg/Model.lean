import QuadProg.Settings
import QuadProg.Sparse

/-!
# Models

A model is a problem under construction for the engine: variables with costs, bounds and kinds,
rows in the order in which they were added, at most one quadratic cost, and the controls.

An *edit* changes a model and may fail.  What a failed edit leaves behind is part of its meaning:
`addRows` keeps the rows that came before a bad one, every other edit leaves the model alone.
-/

namespace QuadProg

/-- The values that a variable may take. -/
inductive VarKind where
  | continuous
  /-- `0` or `1`. -/
  | binary
  /-- Any whole number. -/
  | integer
deriving DecidableEq, Repr

/-- How the two sides of a row compare. -/
inductive RowSense where
  | equal
  | lessEqual
deriving DecidableEq, Repr

/-- A variable of a model. -/
structure Column (α : Type) where
  cost : α
  lower : α
  upper : α
  kind : VarKind

/-- A row of a model: the sum of the values times the variables they go with, compared with a
right-hand side. -/
structure Row (α : Type) where
  cols : List Nat
  vals : List α
  sense : RowSense
  rhs : α

/-- A problem under construction. -/
structure Model (α : Type) where
  columns : List (Column α)
  rows : List (Row α)
  /-- The upper triangle of the quadratic cost. -/
  quadratic : Option (Sparse α)
  controls : Controls α
  /-- Bounds at or beyond this number are no bounds. -/
  infinity : α

/-- A change of a model, which may fail. -/
abbrev Edit (α : Type) := ExceptT (Error α) (StateM (Model α))

namespace Model

variable {α : Type}

def empty [Scalar α] [EngineDefaults α] (infinity : α) : Model α :=
  ⟨[], [], none, .default, infinity⟩

def nVar (m : Model α) : Nat := m.columns.length

def nRows (m : Model α) : Nat := m.rows.length

def costs (m : Model α) : List α := m.columns.map (·.cost)

def lowers (m : Model α) : List α := m.columns.map (·.lower)

def uppers (m : Model α) : List α := m.columns.map (·.upper)

def kinds (m : Model α) : List VarKind := m.columns.map (·.kind)

/-- Appends continuous variables and returns the index of the first. -/
def addVariables (costs lower upper : List α) : Edit α Nat := do
  if lower.length ≠ costs.length ∨ upper.length ≠ costs.length then
    throw (.invalidProblem (.boundCount costs.length lower.length upper.length))
  let m ← get
  let added := (costs.zip (lower.zip upper)).map fun c =>
    (⟨c.1, c.2.1, c.2.2, .continuous⟩ : Column α)
  set { m with columns := m.columns ++ added }
  return m.nVar

/-- Sets the kind of a variable; a later kind overrides an earlier one. -/
def setKind (index : Nat) (kind : VarKind) : Edit α Unit := do
  let m ← get
  if index < m.nVar then
    set { m with columns := m.columns.modify index fun c => { c with kind } }
  else throw (.invalidProblem (.variableRange index m.nVar))

def kind? (m : Model α) (index : Nat) : Option VarKind := m.columns[index]?.map (·.kind)

/-- Appends one row, unless it mentions a variable that does not exist. -/
def addRow (cols : List Nat) (vals : List α) (sense : RowSense) (rhs : α) : Edit α Unit := do
  let m ← get
  match cols.find? (m.nVar ≤ ·) with
  | some c => throw (.invalidProblem (.columnRange c m.nVar))
  | none => set ({ m with rows := m.rows ++ [⟨cols, vals, sense, rhs⟩] } : Model α)

/-- Appends rows up to the first bad one. -/
def addRows (rows : List (List Nat × List α)) (sense : RowSense) (rhs : List α) :
    Edit α Unit := do
  if rows.length ≠ rhs.length then
    throw (.invalidProblem (.rhsCount rows.length rhs.length))
  (rows.zip rhs).forM fun r => addRow r.1.1 r.1.2 sense r.2

/-- Sets the quadratic cost, of which only the upper triangle is kept. -/
def setQuadratic [Zero α] [BEq α] [Add α] (p : Sparse α) : Edit α Unit := do
  let m ← get
  if p.nrows ≠ m.nVar ∨ p.ncols ≠ m.nVar then
    throw (.invalidProblem (.modelQuadraticSize p.nrows p.ncols m.nVar))
  set { m with quadratic := some p.upperTriangle }

def setControl [Scalar α] (name : String) (value : OptionValue α) : Edit α Unit := do
  let m ← get
  match m.controls.set name value with
  | .error e => throw e
  | .ok c => set { m with controls := c }

/-- Sets a control for every option, up to the first that is refused. -/
def setControls [Scalar α] (o : Options α) : Edit α Unit :=
  o.entries.forM fun e => setControl e.1 e.2

/-- Shows or hides the progress of the engine. -/
def setVerbose (verbose : Bool) (m : Model α) : Model α :=
  { m with controls.settings.verbose := verbose }

/-- The variables that are not continuous, in ascending order. -/
def integerIndices (m : Model α) : List Nat :=
  (m.kinds.zipIdx.filter (·.1 ≠ .continuous)).map (·.2)

def isMixed (m : Model α) : Bool := m.kinds.any (· ≠ .continuous)

section Bounds

variable [Zero α] [One α] [LT α] [DecidableLT α]

/-- The lower bound of a variable; binary variables are not below zero. -/
def Column.effectiveLower (c : Column α) : α :=
  if c.kind = .binary then larger c.lower 0 else c.lower

/-- The upper bound of a variable; binary variables are not above one. -/
def Column.effectiveUpper (c : Column α) : α :=
  if c.kind = .binary then smaller c.upper 1 else c.upper

def effectiveBounds (m : Model α) : List α × List α :=
  (m.columns.map Column.effectiveLower, m.columns.map Column.effectiveUpper)

end Bounds

section Objective

variable [Zero α] [Add α] [Mul α] [OfScientific α]

/-- What one stored entry of the upper triangle adds to the cost at `x`: half of it on the
diagonal; off the diagonal the entry stands for two. -/
def quadraticTerm (x : List α) (t : Triplet α) : Except Breakdown α :=
  match x[t.row]?, x[t.col]? with
  | some u, some v =>
    .ok (if t.row = t.col then 0.5 * t.value * u * v else t.value * u * v)
  | _, _ => .error (.message "index out of bounds")

/-- The cost `½ xᵀ P x + qᵀ x`.  It breaks down when `P` mentions a variable that `x` lacks. -/
def objective (m : Model α) (x : List α) : Except Breakdown α := do
  let linear := (m.costs.zipWith (· * ·) x).foldl (· + ·) 0
  let terms ← (m.quadratic.elim [] Sparse.triplets).mapM (quadraticTerm x)
  return linear + terms.foldl (· + ·) 0

end Objective

/-- Whether some right-hand side is at or beyond infinity. -/
def hasInfiniteRhs [Scalar α] (m : Model α) : Bool :=
  m.rows.any fun r => m.infinity ≤ magnitude r.rhs

end Model

end QuadProg
