import QuadProg.Shape

/-!
# Values

A value is a single number or a dense array, whose entries are listed column after column.
-/

namespace QuadProg

/-- A dense array of `rows` by `cols` numbers, column after column. -/
structure Dense (α : Type) where
  rows : Nat
  cols : Nat
  entries : List α
  length_entries : entries.length = rows * cols

/-- The value of a constant or of a solved variable. -/
inductive Value (α : Type) where
  | scalar (value : α)
  | dense (array : Dense α)

namespace Value

variable {α : Type}

/-- The value of the given shape with the given entries.  There is none when their number does not
fit the shape. -/
def ofShape? (shape : Shape) (entries : List α) : Option (Value α) :=
  match shape.isScalar, entries with
  | true, [v] => some (scalar v)
  | _, _ =>
    if h : entries.length = shape.rows * shape.cols then
      some (dense ⟨shape.rows, shape.cols, entries, h⟩)
    else none

def column (entries : List α) : Value α :=
  dense ⟨entries.length, 1, entries, (Nat.mul_one _).symm⟩

def shape : Value α → Shape
  | scalar _ => .scalar
  | dense m => .matrix m.rows m.cols

def size : Value α → Nat
  | scalar _ => 1
  | dense m => m.rows * m.cols

/-- All entries, column after column. -/
def entries : Value α → List α
  | scalar v => [v]
  | dense m => m.entries

/-- The number, if there is exactly one, laid out as a scalar or as a one by one array. -/
def toScalar? : Value α → Option α
  | scalar v => some v
  | dense m => if m.rows = 1 ∧ m.cols = 1 then m.entries.head? else none

def isDense : Value α → Bool
  | scalar _ => false
  | dense _ => true

/-- The entry in row `i` and column `j` of an array. -/
def at? (i j : Nat) : Value α → Option α
  | scalar _ => none
  | dense m => if i < m.rows ∧ j < m.cols then m.entries[i + j * m.rows]? else none

/-- Equality of layout and of every entry, as numbers. -/
protected def beq [BEq α] : Value α → Value α → Bool
  | scalar v, scalar w => v == w
  | dense m, dense n => m.rows == n.rows && m.cols == n.cols && m.entries == n.entries
  | _, _ => false

instance [BEq α] : BEq (Value α) := ⟨Value.beq⟩

theorem size_eq_length (v : Value α) : v.size = v.entries.length := by
  cases v with
  | scalar v => rfl
  | dense m => exact m.length_entries.symm

end Value

end QuadProg
