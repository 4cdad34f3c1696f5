import QuadProg.Proofs.Sparse.Pattern

/-!
# Packed matrices

Packed, a matrix is three lists: the offsets at which its columns start, with the number of all
entries at the end, and the rows and the values of the entries, column after column.

```text
columns     [(0, a), (2, b)]   []   [(0, c)]
offsets     0        2         2    3
rows        0  2  0
values      a  b  c
```

`IsPacked` is the format of these lists.  They have it if and only if they are the lists of a
well-formed matrix (`isPacked_iff`), of which there is only one (`HasLists.unique`): the one whose
columns are `cut` from the lists at the offsets.

Who reads a matrix from lists need not trust them, so a reader may refuse.  All that is asked of it
(`Reads`) is that it takes lists in the format for what they are.  That is enough for a matrix to be
scaled by way of its lists (`rescale`): the reader gets the lists of the scaled matrix, so it never
refuses (`Reads.scale`).
-/

namespace QuadProg.Sparse

variable {α : Type}

/-- The format of packed matrices: for every column and for the end there is an offset; the offsets
start at zero, never descend, and end with the number of entries; and the rows in each column exist
and are in strictly ascending order. -/
structure IsPacked (nrows ncols : Nat) (offsets rows : List Nat) (values : List α) : Prop where
  length_offsets : offsets.length = ncols + 1
  first : offsets.getD 0 0 = 0
  last : offsets.getD ncols 0 = rows.length
  offsets_le : ∀ j < ncols, offsets.getD j 0 ≤ offsets.getD (j + 1) 0
  length_values : values.length = rows.length
  row_lt : ∀ i ∈ rows, i < nrows
  ascending : ∀ j < ncols,
    ((rows.take (offsets.getD (j + 1) 0)).drop (offsets.getD j 0)).Pairwise (· < ·)

/-- The matrix has this size and these lists. -/
structure HasLists (m : Sparse α) (nrows ncols : Nat) (offsets rows : List Nat) (values : List α) :
    Prop where
  nrows_eq : m.nrows = nrows
  ncols_eq : m.ncols = ncols
  offsets_eq : m.offsets = offsets
  rowIndices_eq : m.rowIndices = rows
  values_eq : m.values = values

/-! ### The lists of a matrix -/

theorem values_eq_map (m : Sparse α) : m.values = m.columns.flatten.map (·.2) := by
  rw [values, List.flatMap_def, List.map_flatten]

theorem getD_offsets (m : Sparse α) {j : Nat} (hj : j ≤ m.columns.length) :
    m.offsets.getD j 0 = ((m.columns.map List.length).take j).sum := by
  rw [offsets_eq_scanl, List.getD_eq_getElem?_getD, List.getElem?_scanl, List.length_map,
    if_pos hj, Option.getD_some, List.sum_eq_foldl]

/-- The rows between two offsets are those of the column. -/
theorem slice_rowIndices (m : Sparse α) {j : Nat} (hj : j < m.columns.length) :
    (m.rowIndices.take (m.offsets.getD (j + 1) 0)).drop (m.offsets.getD j 0) =
      m.columns[j].map (·.1) := by
  have hlengths : (m.columns.map (·.map (·.1))).map List.length = m.columns.map List.length := by
    simp [Function.comp_def]
  rw [m.getD_offsets hj, m.getD_offsets hj.le, rowIndices_eq, ← hlengths,
    List.drop_take_succ_flatten_eq_getElem _ j (by simpa using hj), List.getElem_map]

/-- **The lists of a well-formed matrix keep the format.** -/
theorem WellFormed.isPacked {m : Sparse α} (hm : m.WellFormed) :
    IsPacked m.nrows m.ncols m.offsets m.rowIndices m.values := by
  have hlength := hm.length_columns
  constructor
  · rw [offsets_eq_scanl, List.length_scanl, List.length_map, hlength]
  · rw [m.getD_offsets (Nat.zero_le _)]
    rfl
  · have hall : (m.columns.map List.length).take m.ncols = m.columns.map List.length :=
      List.take_of_length_le (by rw [List.length_map, hlength])
    rw [m.getD_offsets hlength.ge, hall, rowIndices, List.length_flatMap]
    simp
  · intro j hj
    rw [← hlength] at hj
    rw [m.getD_offsets hj, m.getD_offsets hj.le]
    exact List.Sublist.sum_le_sum (List.take_sublist_take_left (Nat.le_succ j)) (by simp)
  · rw [rowIndices, values, List.length_flatMap, List.length_flatMap]
    simp
  · intro i hi
    obtain ⟨col, hcol, hmem⟩ := List.mem_flatMap.1 hi
    obtain ⟨e, he, rfl⟩ := List.mem_map.1 hmem
    exact hm.row_lt col hcol e he
  · intro j hj
    rw [← hlength] at hj
    rw [m.slice_rowIndices hj, List.pairwise_map]
    exact hm.ascending _ (List.getElem_mem hj)

/-- **No two matrices have the same lists.** -/
theorem HasLists.unique {m m' : Sparse α} {nrows ncols : Nat} {offsets rows : List Nat}
    {values : List α} (h : m.HasLists nrows ncols offsets rows values)
    (h' : m'.HasLists nrows ncols offsets rows values) : m = m' := by
  have hpositions : m.columns.map (·.map (·.1)) = m'.columns.map (·.map (·.1)) :=
    sameLists_iff.1 ⟨h.offsets_eq.trans h'.offsets_eq.symm,
      h.rowIndices_eq.trans h'.rowIndices_eq.symm⟩
  have hlengths : m.columns.map List.length = m'.columns.map List.length := by
    simpa [Function.comp_def] using congrArg (List.map List.length) hpositions
  have hflat : m.columns.flatten = m'.columns.flatten := by
    have hrows : m.columns.flatten.map Prod.fst = m'.columns.flatten.map Prod.fst := by
      rw [List.map_flatten, List.map_flatten]
      exact congrArg List.flatten hpositions
    have hvalues : m.columns.flatten.map Prod.snd = m'.columns.flatten.map Prod.snd := by
      rw [← values_eq_map, ← values_eq_map, h.values_eq, h'.values_eq]
    exact (List.zip_of_prod hrows hvalues).trans (List.zip_of_prod rfl rfl).symm
  have hcolumns := List.eq_iff_flatten_eq.2 ⟨hflat, hlengths⟩
  have hrows := h.nrows_eq.trans h'.nrows_eq.symm
  have hcols := h.ncols_eq.trans h'.ncols_eq.symm
  obtain ⟨_, _, _⟩ := m
  obtain ⟨_, _, _⟩ := m'
  cases hrows
  cases hcols
  cases hcolumns
  rfl

/-! ### Cutting the lists -/

/-- The entries from the offset of column `j` up to the next offset. -/
def slice (offsets rows : List Nat) (values : List α) (j : Nat) : List (Nat × α) :=
  ((rows.zip values).take (offsets.getD (j + 1) 0)).drop (offsets.getD j 0)

/-- The matrix whose columns lie between the offsets. -/
def cut (nrows ncols : Nat) (offsets rows : List Nat) (values : List α) : Sparse α :=
  ⟨nrows, ncols, (List.range ncols).map (slice offsets rows values)⟩

section Cut

variable {nrows ncols : Nat} {offsets rows : List Nat} {values : List α}

theorem IsPacked.offset_le (h : IsPacked nrows ncols offsets rows values) {j : Nat}
    (hj : j ≤ ncols) : offsets.getD j 0 ≤ rows.length := by
  induction hj using Nat.decreasingInduction with
  | self => exact h.last.le
  | of_succ k hk ih => exact (h.offsets_le k hk).trans ih

/-- The first columns are the entries up to the next offset, by induction over the columns. -/
theorem IsPacked.flatMap_slice (h : IsPacked nrows ncols offsets rows values) {k : Nat}
    (hk : k ≤ ncols) : (List.range k).flatMap (slice offsets rows values) =
      (rows.zip values).take (offsets.getD k 0) := by
  induction k with
  | zero => rw [h.first]; rfl
  | succ k ih =>
      have hbefore : (rows.zip values).take (offsets.getD k 0) =
          ((rows.zip values).take (offsets.getD (k + 1) 0)).take (offsets.getD k 0) := by
        rw [List.take_take, min_eq_left (h.offsets_le k hk)]
      rw [List.range_succ, List.flatMap_append, ih (by omega), List.flatMap_singleton, slice,
        hbefore, List.take_append_drop]

theorem IsPacked.length_zip (h : IsPacked nrows ncols offsets rows values) :
    (rows.zip values).length = rows.length := by
  rw [List.length_zip, h.length_values, min_self]

theorem IsPacked.flatten_cut (h : IsPacked nrows ncols offsets rows values) :
    (cut nrows ncols offsets rows values).columns.flatten = rows.zip values := by
  show ((List.range ncols).map (slice offsets rows values)).flatten = _
  rw [← List.flatMap_def, h.flatMap_slice le_rfl, h.last, ← h.length_zip, List.take_length]

theorem IsPacked.map_slice (h : IsPacked nrows ncols offsets rows values) (j : Nat) :
    (slice offsets rows values j).map (·.1) =
      (rows.take (offsets.getD (j + 1) 0)).drop (offsets.getD j 0) := by
  rw [slice, List.map_drop, List.map_take, List.map_fst_zip h.length_values.ge]

theorem IsPacked.wellFormed_cut (h : IsPacked nrows ncols offsets rows values) :
    (cut nrows ncols offsets rows values).WellFormed where
  length_columns := by simp [cut]
  row_lt col hcol e he := by
    have hmem : e ∈ rows.zip values := by
      rw [← h.flatten_cut]
      exact List.mem_flatten.2 ⟨col, hcol, he⟩
    exact h.row_lt e.1 (List.of_mem_zip hmem).1
  ascending col hcol := by
    obtain ⟨j, hj, rfl⟩ := List.mem_map.1 hcol
    rw [← List.pairwise_map, h.map_slice]
    exact h.ascending j (List.mem_range.1 hj)

theorem IsPacked.hasLists_cut (h : IsPacked nrows ncols offsets rows values) :
    (cut nrows ncols offsets rows values).HasLists nrows ncols offsets rows values := by
  have hlength : (cut nrows ncols offsets rows values).columns.length = ncols := by simp [cut]
  refine ⟨rfl, rfl, ?_, ?_, ?_⟩
  · -- the entries before a column are as many as its offset says
    have hoffset : ∀ k ≤ ncols, (cut nrows ncols offsets rows values).offsets.getD k 0 =
        offsets.getD k 0 := by
      intro k hk
      have hcolumns : (cut nrows ncols offsets rows values).columns.take k =
          (List.range k).map (slice offsets rows values) := by
        rw [cut, ← List.map_take, List.take_range, min_eq_left hk]
      rw [getD_offsets _ (hk.trans hlength.ge), ← List.map_take, hcolumns, ← List.length_flatten,
        ← List.flatMap_def, h.flatMap_slice hk, List.length_take, h.length_zip,
        min_eq_left (h.offset_le hk)]
    have hlengths : (cut nrows ncols offsets rows values).offsets.length = offsets.length := by
      rw [offsets_eq_scanl, List.length_scanl, List.length_map, hlength, h.length_offsets]
    refine List.ext_getElem hlengths fun k hk hk' => ?_
    rw [h.length_offsets] at hk'
    simpa [List.getD_eq_getElem?_getD, hk, h.length_offsets, hk'] using
      hoffset k (Nat.lt_succ_iff.1 hk')
  · rw [rowIndices_eq, ← List.map_flatten, h.flatten_cut, List.map_fst_zip h.length_values.ge]
  · rw [values_eq_map, h.flatten_cut, List.map_snd_zip h.length_values.le]

end Cut

/-- **The lists in the format are those of the well-formed matrices.** -/
theorem isPacked_iff {nrows ncols : Nat} {offsets rows : List Nat} {values : List α} :
    IsPacked nrows ncols offsets rows values ↔
      ∃ m : Sparse α, m.WellFormed ∧ m.HasLists nrows ncols offsets rows values := by
  constructor
  · intro h
    exact ⟨_, h.wellFormed_cut, h.hasLists_cut⟩
  · rintro ⟨m, hm, rfl, rfl, rfl, rfl, rfl⟩
    exact hm.isPacked

/-! ### Reading the lists -/

/-- Reads a matrix from its size and its lists, or refuses them. -/
abbrev Reader (α : Type) := Nat → Nat → List Nat → List Nat → List α → Option (Sparse α)

/-- The reader takes lists that keep the format for those of a matrix. -/
def Reads (read : Reader α) : Prop :=
  ∀ nrows ncols offsets rows values, IsPacked nrows ncols offsets rows values →
    ∃ m, read nrows ncols offsets rows values = some m ∧
      m.HasLists nrows ncols offsets rows values

instance (nrows ncols : Nat) (offsets rows : List Nat) (values : List α) :
    Decidable (IsPacked nrows ncols offsets rows values) :=
  decidable_of_iff
    (offsets.length = ncols + 1 ∧ offsets.getD 0 0 = 0 ∧ offsets.getD ncols 0 = rows.length ∧
      (∀ j < ncols, offsets.getD j 0 ≤ offsets.getD (j + 1) 0) ∧ values.length = rows.length ∧
      (∀ i ∈ rows, i < nrows) ∧ ∀ j < ncols,
        ((rows.take (offsets.getD (j + 1) 0)).drop (offsets.getD j 0)).Pairwise (· < ·))
    ⟨fun ⟨h₁, h₂, h₃, h₄, h₅, h₆, h₇⟩ => ⟨h₁, h₂, h₃, h₄, h₅, h₆, h₇⟩,
      fun ⟨h₁, h₂, h₃, h₄, h₅, h₆, h₇⟩ => ⟨h₁, h₂, h₃, h₄, h₅, h₆, h₇⟩⟩

/-- The matrix with these lists, if they keep the format. -/
def unpack? : Reader α := fun nrows ncols offsets rows values =>
  if IsPacked nrows ncols offsets rows values then some (cut nrows ncols offsets rows values)
  else none

theorem reads_unpack? : Reads (unpack? : Reader α) := by
  intro nrows ncols offsets rows values h
  exact ⟨_, if_pos h, h.hasLists_cut⟩

/-- From its lists a matrix is read as it was. -/
theorem Reads.lists {read : Reader α} (hread : Reads read) {m : Sparse α} (hm : m.WellFormed) :
    read m.nrows m.ncols m.offsets m.rowIndices m.values = some m := by
  obtain ⟨m', hsome, hlists⟩ := hread _ _ _ _ _ hm.isPacked
  rw [hsome, hlists.unique ⟨rfl, rfl, rfl, rfl, rfl⟩]

section Scale

variable [Mul α]

/-- Multiplies the list of values and reads a matrix from the lists; the zero matrix if they are
refused. -/
def rescale (read : Reader α) (m : Sparse α) (s : α) : Sparse α :=
  (read m.nrows m.ncols m.offsets m.rowIndices (m.values.map (· * s))).getD
    (zeros m.nrows m.ncols)

/-- Only the list of values changes. -/
theorem hasLists_scale (m : Sparse α) (s : α) :
    (m.scale s).HasLists m.nrows m.ncols m.offsets m.rowIndices (m.values.map (· * s)) := by
  refine ⟨rfl, rfl, ?_, ?_, ?_⟩
  · simp [offsets, scale, Function.comp_def]
  · simp [rowIndices, scale, List.flatMap_map, Function.comp_def]
  · simp [values, scale, List.flatMap_map, List.map_flatMap, Function.comp_def]

theorem WellFormed.scale {m : Sparse α} (hm : m.WellFormed) (s : α) : (m.scale s).WellFormed where
  length_columns := by rw [Sparse.scale, List.length_map, hm.length_columns]
  row_lt col hcol e he := by
    obtain ⟨col', hcol', rfl⟩ := List.mem_map.1 hcol
    obtain ⟨e', he', rfl⟩ := List.mem_map.1 he
    exact hm.row_lt col' hcol' e' he'
  ascending col hcol := by
    obtain ⟨col', hcol', rfl⟩ := List.mem_map.1 hcol
    exact List.pairwise_map.2 (hm.ascending col' hcol')

/-- **The multiplied lists of a well-formed matrix are never refused**: they are those of the
scaled matrix. -/
theorem Reads.scale {read : Reader α} (hread : Reads read) {m : Sparse α} (hm : m.WellFormed)
    (s : α) : read m.nrows m.ncols m.offsets m.rowIndices (m.values.map (· * s)) =
      some (m.scale s) := by
  obtain ⟨hrows, hcols, hoffsets, hindices, hvalues⟩ := m.hasLists_scale s
  simpa only [hrows, hcols, hoffsets, hindices, hvalues] using hread.lists (hm.scale s)

theorem Reads.rescale_eq {read : Reader α} (hread : Reads read) {m : Sparse α} (hm : m.WellFormed)
    (s : α) : rescale read m s = m.scale s := by
  rw [rescale, hread.scale hm, Option.getD_some]

end Scale

end QuadProg.Sparse
