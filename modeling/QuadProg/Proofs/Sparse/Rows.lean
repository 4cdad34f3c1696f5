import QuadProg.Proofs.Sparse.Stored

/-!
# Rows and columns

A matrix keeps its columns, and is cut into rows to add them to a model one by one.  Nothing is lost
on the way: the triplets come column after column, so those of one row have ascending columns
(`isRow_rowSlices`), and the flattened rows, in which the triplets come row after row, give the
matrix back with its stored zeros (`ofRows_rowSlices`).

```text
columns             [(0, a), (2, b)]   []   [(0, c)]
triplets            (0, 0, a)  (2, 0, b)  (0, 2, c)
rows                [(0, a), (2, c)]   []   [(0, b)]
row after row       (0, 0, a)  (0, 2, c)  (2, 0, b)
```

A matrix on top of another one stores what the two store, with the rows of the second counted on
from the first (`value?_stack`).
-/

namespace QuadProg.Sparse

variable {α : Type}

/-! ### The rows of a matrix -/

/-- Columns and values side by side are row `i` of a matrix: they are its stored entries there, with
ascending columns. -/
structure IsRow (m : Sparse α) (i : Nat) (row : List Nat × List α) : Prop where
  length_eq : row.1.length = row.2.length
  ascending : row.1.Pairwise (· < ·)
  mem_iff : ∀ j v, (j, v) ∈ row.1.zip row.2 ↔ ⟨i, j, v⟩ ∈ m.triplets

/-- Triplets come column after column, and in a column with ascending rows. -/
theorem WellFormed.pairwise_triplets {m : Sparse α} (hm : m.WellFormed) :
    m.triplets.Pairwise fun t u => t.col < u.col ∨ t.col = u.col ∧ t.row < u.row := by
  refine List.pairwise_flatMap.2 ⟨fun c hc => ?_, ?_⟩
  · rw [List.pairwise_map]
    exact (hm.ascending c.1 (List.fst_mem_of_mem_zipIdx hc)).imp fun hlt => .inr ⟨rfl, hlt⟩
  · have hnumbers : m.columns.zipIdx.Pairwise fun c d => c.2 < d.2 := by
      rw [← List.pairwise_map (f := Prod.snd) (R := (· < ·)), List.zipIdx_map_snd]
      exact List.pairwise_lt_range'
    refine hnumbers.imp fun hlt t ht u hu => .inl ?_
    obtain ⟨_, -, rfl⟩ := List.mem_map.1 ht
    obtain ⟨_, -, rfl⟩ := List.mem_map.1 hu
    exact hlt

theorem length_rowSlices (m : Sparse α) : m.rowSlices.length = m.nrows := by
  simp [rowSlices]

theorem getElem?_rowSlices (m : Sparse α) {i : Nat} (hi : i < m.nrows) :
    m.rowSlices[i]? = some ((m.triplets.filter (·.row = i)).map (·.col),
      (m.triplets.filter (·.row = i)).map (·.value)) := by
  simp [rowSlices, hi]

/-- A matrix is cut into its rows. -/
theorem WellFormed.isRow_rowSlices {m : Sparse α} (hm : m.WellFormed) {i : Nat}
    {row : List Nat × List α} (h : m.rowSlices[i]? = some row) : m.IsRow i row := by
  have hi : i < m.nrows := length_rowSlices m ▸ (List.getElem?_eq_some_iff.1 h).1
  obtain rfl := Option.some.inj ((getElem?_rowSlices m hi).symm.trans h)
  refine ⟨by simp, ?_, fun j v => ?_⟩
  · have hrow : ∀ t ∈ m.triplets.filter (·.row = i), t.row = i := by
      intro t ht
      simpa using (List.mem_filter.1 ht).2
    rw [List.pairwise_map]
    refine (hm.pairwise_triplets.filter _).imp_of_mem fun ht hu h => ?_
    have := hrow _ ht
    have := hrow _ hu
    omega
  · rw [List.zip_map', List.mem_map]
    constructor
    · intro h
      obtain ⟨t, ht, heq⟩ := h
      obtain ⟨hmem, hrow⟩ := List.mem_filter.1 ht
      obtain ⟨_, _, _⟩ := t
      simp_all
    · intro hmem
      exact ⟨_, List.mem_filter.2 ⟨hmem, by simp⟩, rfl⟩

/-- The triplets of row `i`, of those that come row after row, are the triplets of the matrix
there. -/
theorem filter_rowMajor (m : Sparse α) {i : Nat} (hi : i < m.nrows) :
    (m.rowSlices.zipIdx.flatMap fun r =>
        (r.1.1.zip r.1.2).map fun e => Triplet.mk r.2 e.1 e.2).filter (·.row = i) =
      m.triplets.filter (·.row = i) := by
  have hfilter := filter_numbered m.rowSlices
    (fun k r => (r.1.zip r.2).map fun e => ⟨k, e.1, e.2⟩) (·.row)
    (fun k r t ht => by obtain ⟨e, -, rfl⟩ := List.mem_map.1 ht; rfl) i
  rw [hfilter, getElem?_rowSlices m hi, Option.elim_some, List.zip_map', List.map_map]
  refine (List.map_congr_left fun t ht => ?_).trans (List.map_id _)
  have hrow : t.row = i := by simpa using (List.mem_filter.1 ht).2
  rw [← hrow]
  rfl

/-! ### Back to columns -/

theorem zip_flatMap {β γ δ : Type} (bs : List β) (f : β → List γ) (g : β → List δ)
    (h : ∀ b ∈ bs, (f b).length = (g b).length) :
    (bs.flatMap f).zip (bs.flatMap g) = bs.flatMap fun b => (f b).zip (g b) := by
  induction bs with
  | nil => rfl
  | cons b bs ih =>
      rw [List.flatMap_cons, List.flatMap_cons, List.flatMap_cons,
        List.zip_append (h b List.mem_cons_self), ih fun c hc => h c (List.mem_cons_of_mem _ hc)]

section Columns

variable [Add α]

/-- The matrix with the given rows, from the flattened lists of their columns and their values. -/
def ofRows (nrows ncols : Nat) (rows : List (List Nat × List α)) : Sparse α :=
  ofLists nrows ncols (rows.zipIdx.flatMap fun r => r.1.1.map fun _ => r.2) (rows.flatMap (·.1))
    (rows.flatMap (·.2))

/-- In flattened rows every coefficient keeps the number of its row. -/
theorem ofRows_eq {nrows ncols : Nat} {rows : List (List Nat × List α)}
    (h : ∀ r ∈ rows, r.1.length = r.2.length) :
    ofRows nrows ncols rows = ofTriplets nrows ncols
      (rows.zipIdx.flatMap fun r => (r.1.1.zip r.1.2).map fun e => ⟨r.2, e.1, e.2⟩) := by
  have hnumbered : ∀ {β : Type} (f : List Nat × List α → List β),
      rows.flatMap f = rows.zipIdx.flatMap fun r => f r.1 := by
    intro β f
    conv_lhs => rw [← List.zipIdx_map_fst 0 rows, List.flatMap_map]
  have hlength : ∀ r ∈ rows.zipIdx, r.1.1.length = r.1.2.length :=
    fun r hr => h r.1 (List.fst_mem_of_mem_zipIdx hr)
  rw [ofRows, ofLists, hnumbered, hnumbered, zip_flatMap _ _ _ hlength, zip_flatMap,
    List.map_flatMap]
  · congr 1
    refine List.flatMap_congr fun r hr => List.ext_getElem ?_ fun k _ _ => ?_
    · simp [hlength r hr]
    · simp
  · intro r hr
    simp [hlength r hr]

/-- **The rows of a matrix give it back.** -/
theorem WellFormed.ofRows_rowSlices {m : Sparse α} (hm : m.WellFormed) :
    ofRows m.nrows m.ncols m.rowSlices = m := by
  have hlength : ∀ r ∈ m.rowSlices, r.1.length = r.2.length := by
    intro r hr
    obtain ⟨i, hi⟩ := List.mem_iff_getElem?.1 hr
    exact (hm.isRow_rowSlices hi).length_eq
  rw [ofRows_eq hlength]
  conv_rhs => rw [← hm.ofTriplets_triplets]
  refine ofTriplets_congr fun i hi j _ => ?_
  rw [filter_position, filter_rowMajor m hi, ← filter_position]

end Columns

/-! ### One matrix on top of another -/

/-- The first `n` rows of a matrix. -/
def top (m : Sparse α) (n : Nat) : Sparse α :=
  ⟨min n m.nrows, m.ncols, m.columns.map fun col => col.filter (·.1 < n)⟩

/-- The rows of a matrix and under them those of another one with as many columns. -/
def stack (m m' : Sparse α) : Sparse α where
  nrows := m.nrows + m'.nrows
  ncols := m.ncols
  columns := m.columns.zipWith (fun col col' => col ++ col'.map fun e => (m.nrows + e.1, e.2))
    m'.columns

theorem lookup_filter_lt (es : List (Nat × α)) (n i : Nat) :
    (es.filter (·.1 < n)).lookup i = if i < n then es.lookup i else none := by
  induction es with
  | nil => simp
  | cons e es ih =>
      rw [List.filter_cons]
      split_ifs with he hi hi
      · rw [lookup_cons_eq, lookup_cons_eq, ih, if_pos hi]
      · have hne : i ≠ e.1 := by
          intro heq
          exact hi (heq ▸ of_decide_eq_true he)
        rw [lookup_cons_eq, if_neg hne, ih, if_neg hi]
      · have hne : i ≠ e.1 := by
          intro heq
          exact he (decide_eq_true (heq ▸ hi))
        rw [ih, if_pos hi, lookup_cons_eq, if_neg hne]
      · rw [ih, if_neg hi]

theorem lookup_map_add (es : List (Nat × α)) (n i : Nat) :
    (es.map fun e => (n + e.1, e.2)).lookup i = if i < n then none else es.lookup (i - n) := by
  induction es with
  | nil => simp
  | cons e es ih =>
      rw [List.map_cons, lookup_cons_eq, lookup_cons_eq, ih]
      by_cases hi : i < n
      · have hne : i ≠ n + e.1 := by omega
        rw [if_neg hne, if_pos hi, if_pos hi]
      · have hiff : i = n + e.1 ↔ i - n = e.1 := by omega
        simp only [hiff, if_neg hi]

section Blocks

variable {m m' : Sparse α}

theorem value?_top (m : Sparse α) (n i j : Nat) :
    (m.top n).value? i j = if i < n then m.value? i j else none := by
  rw [value?, top, value?, ← lookup_filter_lt]
  simp only [List.getD_eq_getElem?_getD, List.getElem?_map]
  cases m.columns[j]? with
  | none => rfl
  | some col => rfl

theorem WellFormed.top (hm : m.WellFormed) (n : Nat) : (m.top n).WellFormed where
  length_columns := by simpa [Sparse.top] using hm.length_columns
  row_lt col hcol e he := by
    obtain ⟨whole, hwhole, rfl⟩ := List.mem_map.1 hcol
    obtain ⟨he, hlt⟩ := List.mem_filter.1 he
    exact lt_min (of_decide_eq_true hlt) (hm.row_lt whole hwhole e he)
  ascending col hcol := by
    obtain ⟨whole, hwhole, rfl⟩ := List.mem_map.1 hcol
    exact (hm.ascending whole hwhole).filter _

/-- A matrix with no more than `n` rows is its first `n` rows. -/
theorem WellFormed.top_eq_self (hm : m.WellFormed) {n : Nat} (hn : m.nrows ≤ n) : m.top n = m := by
  refine (hm.top n).ext hm (min_eq_right hn) rfl fun i j => ?_
  rw [value?_top]
  split_ifs with hi
  · rfl
  · exact (hm.value?_eq_none (by omega)).symm

/-- What is stored in two matrices, one on top of the other. -/
theorem WellFormed.value?_stack (hm : m.WellFormed) (hm' : m'.WellFormed)
    (hcols : m.ncols = m'.ncols) (i j : Nat) :
    (m.stack m').value? i j =
      if i < m.nrows then m.value? i j else m'.value? (i - m.nrows) j := by
  have hlength : m.columns.length = m'.columns.length := by
    rw [hm.length_columns, hm'.length_columns, hcols]
  have hcolumn : (m.stack m').columns.getD j [] =
      m.columns.getD j [] ++ (m'.columns.getD j []).map fun e => (m.nrows + e.1, e.2) := by
    by_cases hj : j < m.columns.length
    · have hj' : j < m'.columns.length := hlength ▸ hj
      simp [stack, hj, hj']
    · have hj' : ¬ j < m'.columns.length := hlength ▸ hj
      simp [stack, hj, hj']
  rw [value?, hcolumn, List.lookup_append, lookup_map_add]
  split_ifs with hi
  · rw [Option.or_none, value?]
  -- the rows of the first matrix all come before
  · have hnone : m.value? i j = none := hm.value?_eq_none (by omega)
    rw [value?] at hnone
    rw [hnone, Option.none_or, value?]

theorem mem_columns_stack {col : List (Nat × α)} (h : col ∈ (m.stack m').columns) :
    ∃ first ∈ m.columns, ∃ second ∈ m'.columns,
      col = first ++ second.map fun e => (m.nrows + e.1, e.2) := by
  obtain ⟨k, hk, rfl⟩ := List.mem_iff_getElem.1 h
  exact ⟨_, List.getElem_mem _, _, List.getElem_mem _, List.getElem_zipWith⟩

theorem WellFormed.stack (hm : m.WellFormed) (hm' : m'.WellFormed) (hcols : m.ncols = m'.ncols) :
    (m.stack m').WellFormed where
  length_columns := by
    simp [Sparse.stack, hm.length_columns, hm'.length_columns, hcols]
  row_lt col hcol e he := by
    obtain ⟨first, hfirst, second, hsecond, rfl⟩ := mem_columns_stack hcol
    rcases List.mem_append.1 he with he | he
    · exact Nat.lt_add_right _ (hm.row_lt first hfirst e he)
    · obtain ⟨d, hd, rfl⟩ := List.mem_map.1 he
      exact Nat.add_lt_add_left (hm'.row_lt second hsecond d hd) _
  ascending col hcol := by
    obtain ⟨first, hfirst, second, hsecond, rfl⟩ := mem_columns_stack hcol
    refine List.pairwise_append.2 ⟨hm.ascending first hfirst, ?_, fun e he f hf => ?_⟩
    · rw [List.pairwise_map]
      exact (hm'.ascending second hsecond).imp fun hlt => Nat.add_lt_add_left hlt _
    · obtain ⟨d, -, rfl⟩ := List.mem_map.1 hf
      exact Nat.lt_add_right _ (hm.row_lt first hfirst e he)

end Blocks

end QuadProg.Sparse
