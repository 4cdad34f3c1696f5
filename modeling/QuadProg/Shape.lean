/-!
# Shapes

A shape lists dimensions: none for a scalar, one for a vector, two for a matrix.  `Shape.broadcast`
is the shape of an elementwise operation on two operands.  It compares the dimensions from the last
one on; dimensions agree when they are equal or one of them is `1`, and a missing dimension counts
as `1`.

No shape that the program builds has more than two dimensions: it starts from `scalar`, `vector` and
`matrix`, and an operation has as many dimensions as one of its operands
(`Shape.length_dims_of_broadcast`).
-/

namespace QuadProg

/-- The dimensions of an array. -/
structure Shape where
  dims : List Nat
deriving DecidableEq, Repr, Inhabited

namespace Shape

def scalar : Shape := ⟨[]⟩

def vector (n : Nat) : Shape := ⟨[n]⟩

def matrix (m n : Nat) : Shape := ⟨[m, n]⟩

/-- The number of elements; one for a scalar.  It is exact also where it does not fit into a machine
word; a layout counts with the words (`Layout.nVar`). -/
def size (s : Shape) : Nat := s.dims.foldr (· * ·) 1

def isScalar (s : Shape) : Bool := s.dims.isEmpty

def isEmpty (s : Shape) : Bool := s.size == 0

/-- The rows of an array laid out in columns: the first dimension. -/
def rows (s : Shape) : Nat := s.dims.headD 1

/-- The columns of an array laid out in columns: the second dimension, with those after it, which no
shape of the program has. -/
def cols (s : Shape) : Nat := s.dims.tail.foldr (· * ·) 1

theorem rows_mul_cols (s : Shape) : s.rows * s.cols = s.size := by
  obtain ⟨dims⟩ := s
  cases dims <;> simp [rows, cols, size]

/-- The common value of two dimensions. -/
def joinDim (m n : Nat) : Option Nat :=
  if m = n then some m else if m = 1 then some n else if n = 1 then some m else none

/-- The common dimensions of two lists that start at the last dimension. -/
def joinDims : List Nat → List Nat → Option (List Nat)
  | [], ns => some ns
  | ms, [] => some ms
  | m :: ms, n :: ns => do
    let d ← joinDim m n
    let ds ← joinDims ms ns
    return d :: ds

/-- The shape of an elementwise operation, or `none` when the operands do not fit. -/
def broadcast (s t : Shape) : Option Shape :=
  (joinDims s.dims.reverse t.dims.reverse).map fun ds => ⟨ds.reverse⟩

/-- The dimensions in parentheses, at most two; a single one is followed by a comma. -/
def text (s : Shape) : String :=
  match s.dims with
  | [] => "()"
  | [n] => s!"({n},)"
  | m :: n :: _ => s!"({m}, {n})"

instance : ToString Shape := ⟨text⟩

end Shape

end QuadProg
