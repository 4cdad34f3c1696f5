import QuadProg.Proofs.Sparse.Rows

/-!
# Where a matrix stores something

Packed, the positions of the stored entries are two lists of numbers: where each column starts
(`offsets`), and the rows of all columns one after the other (`rowIndices`).  Two well-formed
matrices with as many columns have the same lists if and only if they store something at the same
positions, whatever the values (`WellFormed.sameLists_iff`):

```text
offsets         0  2  2  3      the lengths of the columns, 2  0  1, summed up
rowIndices      0  2  0         cut to these lengths, the rows of each column, [0, 2]  []  [0]
```
-/

namespace QuadProg.Sparse

variable {α : Type}

/-- Something is stored at the position, be it zero. -/
def IsStored (m : Sparse α) (i j : Nat) : Prop := ∃ v, m.value? i j = some v

/-- Something other than zero is stored at the position. -/
def IsNonzero [Zero α] [BEq α] (m : Sparse α) (i j : Nat) : Prop :=
  ∃ v, m.value? i j = some v ∧ (v != 0) = true

/-- The same lists of positions. -/
def SameLists (m m' : Sparse α) : Prop := m.offsets = m'.offsets ∧ m.rowIndices = m'.rowIndices

/-! ### Offsets -/

theorem foldl_offsets (ns front : List Nat) (k : Nat) :
    ns.foldl (fun acc n => acc ++ [acc.getLastD 0 + n]) (front ++ [k]) =
      front ++ ns.scanl (· + ·) k := by
  induction ns generalizing front k with
  | nil => rfl
  | cons n ns ih =>
      have hlast : (front ++ [k]).getLastD 0 = k := by simp
      rw [List.foldl_cons, hlast, ih, List.scanl_cons, List.append_assoc]
      rfl

theorem offsets_eq_scanl (m : Sparse α) :
    m.offsets = (m.columns.map List.length).scanl (· + ·) 0 :=
  foldl_offsets (m.columns.map List.length) [] 0

/-- Lengths can be told from their sums. -/
theorem eq_of_scanl_eq {ns ns' : List Nat} {k : Nat}
    (h : ns.scanl (· + ·) k = ns'.scanl (· + ·) k) : ns = ns' := by
  induction ns generalizing ns' k with
  | nil =>
      have hlength := congrArg List.length h
      rw [List.length_scanl, List.length_scanl] at hlength
      exact (List.length_eq_zero_iff.1 (by simpa using hlength.symm)).symm
  | cons n ns ih =>
      cases ns' with
      | nil => simpa using congrArg List.length h
      | cons n' ns' =>
          rw [List.scanl_cons, List.scanl_cons] at h
          have htail := (List.cons.inj h).2
          -- the next sum tells the first length
          have hsum : k + n = k + n' := by simpa using congrArg List.head? htail
          obtain rfl : n = n' := by omega
          rw [ih htail]

theorem rowIndices_eq (m : Sparse α) : m.rowIndices = (m.columns.map (·.map (·.1))).flatten := by
  rw [rowIndices, List.flatMap_def]

/-- The lists of positions are worth as much as the rows of each column. -/
theorem sameLists_iff {m m' : Sparse α} : m.SameLists m' ↔
    m.columns.map (·.map (·.1)) = m'.columns.map (·.map (·.1)) := by
  have hlengths : ∀ m : Sparse α,
      (m.columns.map (·.map (·.1))).map List.length = m.columns.map List.length := by
    intro m
    simp [Function.comp_def]
  rw [List.eq_iff_flatten_eq, hlengths, hlengths, ← rowIndices_eq, ← rowIndices_eq, SameLists,
    offsets_eq_scanl, offsets_eq_scanl, and_comm]
  exact and_congr_right fun _ => ⟨eq_of_scanl_eq, fun h => by rw [h]⟩

/-! ### Positions -/

section Positions

variable {m m' : Sparse α}

theorem WellFormed.mem_rows_iff (hm : m.WellFormed) {i j : Nat} :
    i ∈ (m.columns.getD j []).map (·.1) ↔ m.IsStored i j := by
  rw [List.mem_map, IsStored]
  constructor
  · intro h
    obtain ⟨e, he, hi⟩ := h
    exact ⟨e.2, (lookup_eq_some_iff_mem (hm.ascending_getD j)).2 (hi ▸ he)⟩
  · intro h
    obtain ⟨v, hv⟩ := h
    exact ⟨(i, v), (lookup_eq_some_iff_mem (hm.ascending_getD j)).1 hv, rfl⟩

/-- **Equal lists mean equal positions**, and the other way round. -/
theorem WellFormed.sameLists_iff (hm : m.WellFormed) (hm' : m'.WellFormed)
    (hcols : m.ncols = m'.ncols) :
    m.SameLists m' ↔ ∀ i j, m.IsStored i j ↔ m'.IsStored i j := by
  have hlength : m.columns.length = m'.columns.length := by
    rw [hm.length_columns, hm'.length_columns, hcols]
  have hsorted : ∀ {m : Sparse α}, m.WellFormed → ∀ j,
      ((m.columns.getD j []).map (·.1)).Pairwise (· < ·) :=
    fun hm j => List.pairwise_map.2 (hm.ascending_getD j)
  rw [Sparse.sameLists_iff]
  constructor
  · intro h i j
    have hrows : ∀ m : Sparse α, (m.columns.getD j []).map (·.1) =
        (m.columns.map (·.map (·.1))).getD j [] := by
      intro m
      simp only [List.getD_eq_getElem?_getD, List.getElem?_map]
      cases m.columns[j]? <;> rfl
    rw [← hm.mem_rows_iff, ← hm'.mem_rows_iff, hrows, hrows, h]
  · intro h
    refine List.ext_getElem (by simp [hlength]) fun j hj hj' => ?_
    have hcolumn : (m.columns.getD j []).map (·.1) = (m'.columns.getD j []).map (·.1) := by
      refine (hsorted hm j).eq_of_mem_iff (hsorted hm' j) fun i => ?_
      rw [hm.mem_rows_iff, hm'.mem_rows_iff, h i j]
    rw [List.length_map] at hj hj'
    simpa [hj, hj'] using hcolumn

/-- Two matrices on top of each other store something where the matrices do. -/
theorem WellFormed.isStored_stack_iff {f f' : Sparse α} (hm : m.WellFormed) (hm' : m'.WellFormed)
    (hf : f.WellFormed) (hf' : f'.WellFormed) (hcols : m.ncols = f.ncols)
    (hcols' : m'.ncols = f'.ncols) (hrows : m.nrows = m'.nrows) :
    (∀ i j, (m.stack f).IsStored i j ↔ (m'.stack f').IsStored i j) ↔
      (∀ i j, m.IsStored i j ↔ m'.IsStored i j) ∧ ∀ i j, f.IsStored i j ↔ f'.IsStored i j := by
  have hstack : ∀ {m f : Sparse α}, m.WellFormed → f.WellFormed → m.ncols = f.ncols → ∀ i j,
      (m.stack f).IsStored i j ↔
        if i < m.nrows then m.IsStored i j else f.IsStored (i - m.nrows) j := by
    intro m f hm hf hcols i j
    rw [IsStored, hm.value?_stack hf hcols]
    split_ifs with hi
    · rfl
    · rfl
  simp only [hstack hm hf hcols, hstack hm' hf' hcols', ← hrows]
  constructor
  · intro h
    constructor
    · intro i j
      by_cases hi : i < m.nrows
      · simpa [hi] using h i j
      · have hnone := hm.value?_eq_none (j := j) (fun hplace => hi hplace.1)
        have hnone' := hm'.value?_eq_none (j := j) (fun hplace => hi (hrows ▸ hplace.1))
        simp [IsStored, hnone, hnone']
    · intro i j
      simpa using h (m.nrows + i) j
  · intro h i j
    obtain ⟨hupper, hlower⟩ := h
    split_ifs with hi
    · exact hupper i j
    · exact hlower (i - m.nrows) j

end Positions

/-! ### Upper triangles -/

theorem not_isStored_zeros (nrows ncols i j : Nat) :
    ¬ (zeros nrows ncols : Sparse α).IsStored i j := by
  intro h
  obtain ⟨v, hv⟩ := h
  have hmem := (wellFormed_zeros nrows ncols).value?_eq_some_iff.1 hv
  obtain ⟨col, hcol, he⟩ := mem_triplets.1 hmem
  rw [List.eq_of_mem_replicate (List.mem_of_getElem? hcol)] at he
  exact absurd he List.not_mem_nil

section UpperTriangle

variable [Zero α] [BEq α] {m : Sparse α}

theorem WellFormed.not_isNonzero (hm : m.WellFormed) (h : m.hasNonzero = false) (i j : Nat) :
    ¬ m.IsNonzero i j := by
  intro h
  obtain ⟨v, hv, hne⟩ := h
  have hvalue := value_mem_of_mem_triplets (hm.value?_eq_some_iff.1 hv)
  exact List.any_eq_false.1 h v hvalue hne

variable [Add α]

omit [Zero α] [BEq α] in
/-- A matrix built from triplets stores something where there is one of them. -/
theorem isStored_ofTriplets_iff {nrows ncols : Nat} {ts : List (Triplet α)} {i j : Nat} :
    (ofTriplets nrows ncols ts).IsStored i j ↔
      (i < nrows ∧ j < ncols) ∧ ∃ t ∈ ts, t.row = i ∧ t.col = j := by
  rw [IsStored, value?_ofTriplets]
  split_ifs with hplace
  · rw [← Option.isSome_iff_exists, isSome_gather, Bool.not_eq_true', List.isEmpty_eq_false_iff,
      Ne, List.map_eq_nil_iff, List.filter_eq_nil_iff]
    simp [hplace]
  · simp [hplace]

/-- The upper triangle stores something where the matrix stores something other than zero on or
above the diagonal. -/
theorem WellFormed.isStored_upperTriangle_iff (hm : m.WellFormed) (i j : Nat) :
    m.upperTriangle.IsStored i j ↔ i ≤ j ∧ m.IsNonzero i j := by
  rw [upperTriangle, isStored_ofTriplets_iff]
  constructor
  · intro h
    obtain ⟨_, t, ht, hrow, hcol⟩ := h
    obtain ⟨hmem, hkeep⟩ := List.mem_filter.1 ht
    obtain ⟨hle, hne⟩ := Bool.and_eq_true_iff.1 hkeep
    subst hrow hcol
    exact ⟨of_decide_eq_true hle, t.value, hm.value?_eq_some_iff.2 hmem, hne⟩
  · intro h
    obtain ⟨hle, v, hv, hne⟩ := h
    have hmem := hm.value?_eq_some_iff.1 hv
    refine ⟨hm.lt_of_mem hmem, _, List.mem_filter.2 ⟨hmem, ?_⟩, rfl, rfl⟩
    simp [hle, hne]

end UpperTriangle

end QuadProg.Sparse
