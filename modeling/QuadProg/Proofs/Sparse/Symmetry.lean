import QuadProg.Proofs.Sparse.Form
import QuadProg.Proofs.Sparse.Stored

/-!
# Symmetry by a table

To compare a matrix with its transpose without writing all its entries down, the triplets are added
up in a hash table (`sums`), and every number of the table is compared with the one across the
diagonal, which is zero if the table has none there.  In which order the table is walked through is
not known.  It does not matter: the table has the entry of each stored position and nothing else
(`getElem?_sums`), so every walk gives the answer of `isSymmetric`, whatever the arithmetic does
(`agreesInOrder_eq`).

```text
stored at       (i, j) and (j, i)    (i, j) only    (j, i) only    neither
compared from   both                 (i, j)         (j, i)         nowhere, 0 = 0
```

In exact arithmetic no pair of positions is missed, and a matrix is symmetric if and only if its
transpose is.
-/

namespace QuadProg.Sparse

section Table

variable {α : Type} [Zero α] [Add α]

/-- The table after some triplets were added to it, each to the number at its position. -/
def addToTable (ts : List (Triplet α)) (table : Std.HashMap (Nat × Nat) α) :
    Std.HashMap (Nat × Nat) α :=
  ts.foldl (fun h t => h.alter (t.row, t.col) fun v => some (v.getD 0 + t.value)) table

/-- The numbers at the stored positions of a matrix. -/
def sums (m : Sparse α) : Std.HashMap (Nat × Nat) α := addToTable m.triplets ∅

/-- A number of the table is the sum of the values that were added at its position, in their order,
and starting from zero if the position is new. -/
theorem getElem?_addToTable (ts : List (Triplet α)) (table : Std.HashMap (Nat × Nat) α)
    (k : Nat × Nat) :
    (addToTable ts table)[k]? =
      if ∃ t ∈ ts, t.row = k.1 ∧ t.col = k.2 then
        some (((ts.filter fun t => t.row = k.1 ∧ t.col = k.2).map (·.value)).foldl (· + ·)
          (table[k]?.getD 0))
      else table[k]? := by
  induction ts generalizing table with
  | nil => simp [addToTable]
  | cons t ts ih =>
      have hstep : (addToTable (t :: ts) table)[k]? =
          (addToTable ts (table.alter (t.row, t.col) fun v => some (v.getD 0 + t.value)))[k]? := rfl
      rw [hstep, ih, Std.HashMap.getElem?_alter]
      by_cases hplace : t.row = k.1 ∧ t.col = k.2
      · have hkey : (t.row, t.col) = k := Prod.ext hplace.1 hplace.2
        have hfirst : ∃ u ∈ t :: ts, u.row = k.1 ∧ u.col = k.2 := ⟨t, List.mem_cons_self, hplace⟩
        rw [if_pos hfirst, hkey, beq_self_eq_true, List.filter_cons_of_pos (by simpa using hplace)]
        by_cases hrest : ∃ u ∈ ts, u.row = k.1 ∧ u.col = k.2
        · rw [if_pos hrest]
          rfl
        · rw [if_neg hrest, filter_eq_nil_of_not_stored hrest]
          rfl
      · have hkey : ((t.row, t.col) == k) = false := by
          rw [beq_eq_false_iff_ne]
          intro h
          exact hplace ⟨congrArg Prod.fst h, congrArg Prod.snd h⟩
        rw [hkey, List.filter_cons_of_neg (by simpa using hplace)]
        simp [hplace]

/-- The table has the entry of every stored position, and of no other. -/
theorem getElem?_sums (m : Sparse α) (k : Nat × Nat) :
    m.sums[k]? =
      if ∃ t ∈ m.triplets, t.row = k.1 ∧ t.col = k.2 then some (m.entry k.1 k.2) else none := by
  rw [sums, getElem?_addToTable, map_value_triplets, List.foldl_map, entry]
  simp

theorem getD_sums (m : Sparse α) (k : Nat × Nat) : m.sums.getD k 0 = m.entry k.1 k.2 := by
  rw [Std.HashMap.getD_eq_getD_getElem?, getElem?_sums]
  split_ifs with h
  · rfl
  · have hcolumn := map_value_triplets m k.1 k.2
    rw [filter_eq_nil_of_not_stored h, List.map_nil, eq_comm, List.map_eq_nil_iff] at hcolumn
    rw [entry, hcolumn]
    rfl

variable [Sub α] [Neg α] [LT α] [DecidableLT α] [LE α] [DecidableLE α]

/-- The comparison across the diagonal of a square matrix, for the numbers of its table in the order
in which they come. -/
def agreesInOrder (m : Sparse α) (order : List ((Nat × Nat) × α)) (tolerance : α) : Bool :=
  m.nrows == m.ncols && order.all fun e =>
    magnitude (e.2 - m.sums.getD (e.1.2, e.1.1) 0) ≤ tolerance

/-- The order does not matter. -/
theorem agreesInOrder_eq (m : Sparse α) {order : List ((Nat × Nat) × α)}
    (horder : order.Perm m.sums.toList) (tolerance : α) :
    m.agreesInOrder order tolerance = m.isSymmetric tolerance := by
  have hmem : ∀ e, e ∈ order ↔ m.sums[e.1]? = some e.2 := by
    intro e
    rw [horder.mem_iff]
    exact Std.HashMap.mem_toList_iff_getElem?_eq_some
  rw [agreesInOrder, isSymmetric]
  congr 1
  rw [Bool.eq_iff_iff, List.all_eq_true, List.all_eq_true]
  constructor
  · intro h t ht
    have hnumber : m.sums[(t.row, t.col)]? = some (m.entry t.row t.col) := by
      rw [getElem?_sums, if_pos ⟨t, ht, rfl, rfl⟩]
    have hclose := h ((t.row, t.col), m.entry t.row t.col) ((hmem _).2 hnumber)
    rwa [getD_sums] at hclose
  · intro h e he
    have hnumber := (hmem e).1 he
    rw [getElem?_sums] at hnumber
    split_ifs at hnumber with hstored
    obtain ⟨t, ht, hrow, hcol⟩ := hstored
    have hvalue : m.entry e.1.1 e.1.2 = e.2 := Option.some.inj hnumber
    rw [getD_sums, ← hvalue, ← hrow, ← hcol]
    exact h t ht

end Table

/-! ### The transpose -/

section Transpose

variable {α : Type} [Add α]

/-- The matrix with rows and columns exchanged. -/
def transpose (m : Sparse α) : Sparse α :=
  ofTriplets m.ncols m.nrows (m.triplets.map fun t => ⟨t.col, t.row, t.value⟩)

end Transpose

section Exact

variable {K : Type} [Field K]

theorem total_swap (ts : List (Triplet K)) (i j : Nat) :
    total (ts.map fun t => ⟨t.col, t.row, t.value⟩) i j = total ts j i := by
  rw [total, total, List.filter_map, List.map_map]
  congr 2
  exact List.filter_congr fun t _ => by simp [Bool.and_comm]

/-- Outside a matrix all entries are zero. -/
theorem WellFormed.entry_eq_zero {m : Sparse K} (hm : m.WellFormed) {i j : Nat}
    (h : ¬ (i < m.nrows ∧ j < m.ncols)) : m.entry i j = 0 := by
  refine entry_eq_zero_of_not_stored fun t ht hplace => h ?_
  rw [← hplace.1, ← hplace.2]
  exact hm.lt_of_mem ht

theorem WellFormed.entry_transpose {m : Sparse K} (hm : m.WellFormed) (i j : Nat) :
    m.transpose.entry i j = m.entry j i := by
  rw [transpose, entry_ofTriplets, total_swap, ← entry_eq_total]
  split_ifs with h
  · rfl
  · exact (hm.entry_eq_zero fun hplace => h hplace.symm).symm

variable [LinearOrder K] [FloorRing K] [IsStrictOrderedRing K]

/-- **The sparse comparison is the dense one.**  A well-formed matrix is found symmetric if and only
if it is square and all its entries, stored or not, agree with those across the diagonal up to the
tolerance.  The table may be walked through in any order, and the transpose may be asked instead of
the matrix. -/
theorem isSymmetric_iff_dense {m : Sparse K} (hm : m.WellFormed) {tolerance : K}
    (htolerance : 0 ≤ tolerance) :
    (m.isSymmetric tolerance = true ↔
      m.nrows = m.ncols ∧ ∀ i < m.nrows, ∀ j < m.ncols,
        |m.entry i j - m.entry j i| ≤ tolerance) ∧
    (∀ order : List ((Nat × Nat) × K), order.Perm m.sums.toList →
      m.agreesInOrder order tolerance = m.isSymmetric tolerance) ∧
    m.transpose.isSymmetric tolerance = m.isSymmetric tolerance := by
  refine ⟨?_, fun order horder => agreesInOrder_eq m horder tolerance, ?_⟩
  · rw [isSymmetric_iff htolerance]
    refine and_congr_right fun hsquare => ⟨fun h i _ j _ => h i j, fun h i j => ?_⟩
    by_cases hplace : i < m.nrows ∧ j < m.ncols
    · exact h i hplace.1 j hplace.2
    · have hmirror : ¬ (j < m.nrows ∧ i < m.ncols) := by omega
      rw [hm.entry_eq_zero hplace, hm.entry_eq_zero hmirror, sub_self, abs_zero]
      exact htolerance
  · have hsize : m.transpose.nrows = m.ncols ∧ m.transpose.ncols = m.nrows := ⟨rfl, rfl⟩
    rw [Bool.eq_iff_iff, isSymmetric_iff htolerance, isSymmetric_iff htolerance, hsize.1, hsize.2]
    simp only [hm.entry_transpose]
    exact and_congr eq_comm ⟨fun h i j => h j i, fun h i j => h j i⟩

end Exact

/-- A zero is stored on the diagonal, and above it a number with nothing across. -/
def oneSided : Sparse ℚ := ⟨2, 2, [[(0, 0)], [(0, 1 / 4), (1, 3)]]⟩

/-- A quarter is within a tolerance of a half, and an eighth is not enough. -/
theorem isSymmetric_iff_dense_oneSided :
    oneSided.WellFormed ∧ oneSided.transpose = ⟨2, 2, [[(0, 0), (1, 1 / 4)], [(1, 3)]]⟩ ∧
      oneSided.transpose.isSymmetric (1 / 2) = true ∧
      ¬ ∀ i < 2, ∀ j < 2, |oneSided.entry i j - oneSided.entry j i| ≤ 1 / 8 := by
  have hwell : oneSided.WellFormed :=
    ⟨rfl, by decide +kernel, by decide +kernel⟩
  have hwide := isSymmetric_iff_dense hwell (show (0 : ℚ) ≤ 1 / 2 by norm_num)
  have hnarrow := isSymmetric_iff_dense hwell (show (0 : ℚ) ≤ 1 / 8 by norm_num)
  refine ⟨hwell, by decide +kernel, ?_, fun h => ?_⟩
  · rw [hwide.2.2]
    decide +kernel
  · have hsymmetric : oneSided.isSymmetric (1 / 8) = true := hnarrow.1.2 ⟨rfl, h⟩
    exact absurd hsymmetric (by decide +kernel)

end QuadProg.Sparse
