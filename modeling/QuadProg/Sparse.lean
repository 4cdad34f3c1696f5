/-!
# Sparse matrices

A sparse matrix keeps, for every column, the entries it stores as pairs of a row and a value, with
ascending rows.  A stored entry may be zero; storing it or not makes a difference to the pattern of
the matrix, not to its entries.

`entry` is the view through which every operation is described: the number that stands in row `i`
and column `j`, zero where nothing is stored.
-/

namespace QuadProg

structure Triplet (α : Type) where
  row : Nat
  col : Nat
  value : α
deriving Repr, DecidableEq

/-- A matrix that stores some of its entries, column by column. -/
structure Sparse (α : Type) where
  nrows : Nat
  ncols : Nat
  columns : List (List (Nat × α))
deriving Repr, DecidableEq

namespace Sparse

variable {α : Type}

/-- What every matrix built by the operations below satisfies: one list per column, and in each
list rows that exist, in strictly ascending order. -/
structure WellFormed (m : Sparse α) : Prop where
  length_columns : m.columns.length = m.ncols
  row_lt : ∀ col ∈ m.columns, ∀ e ∈ col, e.1 < m.nrows
  ascending : ∀ col ∈ m.columns, col.Pairwise (·.1 < ·.1)

def stored (m : Sparse α) : Nat := (m.columns.map List.length).foldl (· + ·) 0

/-- The stored entries, column after column. -/
def triplets (m : Sparse α) : List (Triplet α) :=
  m.columns.zipIdx.flatMap fun c => c.1.map fun e => ⟨e.1, c.2, e.2⟩

/-- The position in the list of all stored entries at which each column starts, with the number of
stored entries at the end. -/
def offsets (m : Sparse α) : List Nat :=
  (m.columns.map List.length).foldl (fun acc n => acc ++ [acc.getLastD 0 + n]) [0]

/-- The rows of the stored entries, column after column. -/
def rowIndices (m : Sparse α) : List Nat := m.columns.flatMap fun c => c.map (·.1)

/-- The stored values, column after column. -/
def values (m : Sparse α) : List α := m.columns.flatMap fun c => c.map (·.2)

def zeros (nrows ncols : Nat) : Sparse α := ⟨nrows, ncols, List.replicate ncols []⟩

section Sums

variable [Add α]

/-- Adds a value in its row to a column; a row that is there already takes the sum. -/
def addEntry (row : Nat) (value : α) : List (Nat × α) → List (Nat × α)
  | [] => [(row, value)]
  | e :: es =>
    if row < e.1 then (row, value) :: e :: es
    else if row = e.1 then (e.1, e.2 + value) :: es
    else e :: addEntry row value es

/-- The matrix with the given entries.  Entries outside it are left out, and entries of one
position are summed in the order of the list. -/
def ofTriplets (nrows ncols : Nat) (ts : List (Triplet α)) : Sparse α where
  nrows := nrows
  ncols := ncols
  columns := (List.range ncols).map fun j =>
    (ts.filter fun t => t.col = j ∧ t.row < nrows).foldl (fun c t => addEntry t.row t.value c) []

/-- The matrix with the entries given by three lists, read together as far as the shortest goes. -/
def ofLists (nrows ncols : Nat) (rows cols : List Nat) (values : List α) : Sparse α :=
  ofTriplets nrows ncols ((rows.zip (cols.zip values)).map fun t => ⟨t.1, t.2.1, t.2.2⟩)

end Sums

section Entries

variable [Zero α] [Add α]

/-- The number in row `i` and column `j`. -/
def entry (m : Sparse α) (i j : Nat) : α :=
  ((m.columns.getD j []).filter (·.1 == i)).foldl (fun sum e => sum + e.2) 0

/-- All entries, stored or not, column after column. -/
def dense (m : Sparse α) : List α :=
  (List.range m.ncols).flatMap fun j => (List.range m.nrows).map fun i => m.entry i j

end Entries

def scale [Mul α] (m : Sparse α) (s : α) : Sparse α :=
  { m with columns := m.columns.map fun c => c.map fun e => (e.1, e.2 * s) }

def identity [One α] (n : Nat) : Sparse α :=
  ⟨n, n, (List.range n).map fun j => [(j, 1)]⟩

def scaledIdentity [One α] [Mul α] (n : Nat) (s : α) : Sparse α := (identity n).scale s

/-- Whether some stored value is not zero. -/
def hasNonzero [Zero α] [BEq α] (m : Sparse α) : Bool := m.values.any (· != 0)

/-- The stored entries on and above the diagonal that are not zero. -/
def upperTriangle [Zero α] [BEq α] [Add α] (m : Sparse α) : Sparse α :=
  ofTriplets m.nrows m.ncols (m.triplets.filter fun t => t.row ≤ t.col && t.value != 0)

/-- The columns and the values of the stored entries of each row, with ascending columns. -/
def rowSlices (m : Sparse α) : List (List Nat × List α) :=
  (List.range m.nrows).map fun i =>
    let row := m.triplets.filter (·.row = i)
    (row.map (·.col), row.map (·.value))

end Sparse

end QuadProg
