import QuadProg.Proofs.Exact

/-!
# Entries of sparse matrices

In exact arithmetic a matrix is its entries, and an entry is the sum of the values of the triplets
at its position (`total`).  `entry_eq_total` says this of the triplets that a matrix stores, and
`entry_ofTriplets` of those it was built from.  A row times a point (`rowDot`) is then a sum over
the triplets of that row, whatever the order in which they come; and the products with all points
determine the row (`entry_eq_of_rowDot`).
-/

namespace QuadProg

namespace Sparse

section Pattern

variable {α : Type}

theorem mem_triplets {m : Sparse α} {t : Triplet α} :
    t ∈ m.triplets ↔ ∃ col, m.columns[t.col]? = some col ∧ (t.row, t.value) ∈ col := by
  obtain ⟨i, j, v⟩ := t
  constructor
  · intro h
    obtain ⟨⟨col, k⟩, hcol, hmem⟩ := List.mem_flatMap.1 h
    obtain ⟨e, he, heq⟩ := List.mem_map.1 hmem
    obtain ⟨rfl, rfl, rfl⟩ : e.1 = i ∧ k = j ∧ e.2 = v := by simpa using heq
    exact ⟨col, List.mk_mem_zipIdx_iff_getElem?.1 hcol, he⟩
  · rintro ⟨col, hcol, he⟩
    exact List.mem_flatMap.2 ⟨(col, j), List.mk_mem_zipIdx_iff_getElem?.2 hcol,
      List.mem_map.2 ⟨(i, v), he, rfl⟩⟩

theorem WellFormed.col_lt {m : Sparse α} (hm : m.WellFormed) {t : Triplet α}
    (ht : t ∈ m.triplets) : t.col < m.ncols := by
  obtain ⟨col, hcol, -⟩ := mem_triplets.1 ht
  rw [← hm.length_columns]
  exact (List.getElem?_eq_some_iff.1 hcol).1

theorem WellFormed.lt_of_mem {m : Sparse α} (hm : m.WellFormed) {t : Triplet α}
    (ht : t ∈ m.triplets) : t.row < m.nrows ∧ t.col < m.ncols := by
  obtain ⟨col, hcol, hmem⟩ := mem_triplets.1 ht
  exact ⟨hm.row_lt col (List.mem_of_getElem? hcol) _ hmem, hm.col_lt ht⟩

theorem value_mem_of_mem_triplets {m : Sparse α} {t : Triplet α} (ht : t ∈ m.triplets) :
    t.value ∈ m.values := by
  obtain ⟨col, hcol, hmem⟩ := mem_triplets.1 ht
  exact List.mem_flatMap.2 ⟨col, List.mem_of_getElem? hcol, List.mem_map.2 ⟨_, hmem, rfl⟩⟩

theorem wellFormed_zeros (nrows ncols : Nat) : (zeros nrows ncols : Sparse α).WellFormed where
  length_columns := by simp [zeros]
  row_lt col hcol e he := by
    rw [List.eq_of_mem_replicate hcol] at he
    exact absurd he List.not_mem_nil
  ascending col hcol := by
    rw [List.eq_of_mem_replicate hcol]
    exact List.Pairwise.nil

/-- Triplets that are numbered by the element they come from: those of one number come from the
element there. -/
theorem filter_numbered {β : Type} (bs : List β) (f : Nat → β → List (Triplet α))
    (number : Triplet α → Nat) (hnumber : ∀ k b, ∀ t ∈ f k b, number t = k) (i : Nat) :
    (bs.zipIdx.flatMap fun c => f c.2 c.1).filter (number · = i) = (bs[i]?).elim [] (f i) := by
  -- the induction shifts the numbers, so they may start anywhere
  suffices hfrom : ∀ start, ((bs.zipIdx start).flatMap fun c => f c.2 c.1).filter
      (number · = start + i) = (bs[i]?).elim [] (f (start + i)) by
    simpa using hfrom 0
  induction bs generalizing i with
  | nil => exact fun start => rfl
  | cons b bs ih =>
      intro start
      rw [List.zipIdx_cons, List.flatMap_cons, List.filter_append]
      cases i with
      | zero =>
          have hfirst : (f start b).filter (number · = start + 0) = f start b := by
            rw [List.filter_eq_self]
            intro t ht
            simp [hnumber start b t ht]
          have hrest : ((bs.zipIdx (start + 1)).flatMap fun c => f c.2 c.1).filter
              (number · = start + 0) = [] := by
            rw [List.filter_eq_nil_iff]
            intro t ht
            obtain ⟨c, hc, ht⟩ := List.mem_flatMap.1 ht
            have := List.le_snd_of_mem_zipIdx hc
            have := hnumber c.2 c.1 t ht
            simp only [decide_eq_true_eq]
            omega
          rw [hfirst, hrest, List.append_nil]
          rfl
      | succ i =>
          have hfirst : (f start b).filter (number · = start + (i + 1)) = [] := by
            rw [List.filter_eq_nil_iff]
            intro t ht
            simp [hnumber start b t ht]
          have hrest := ih i (start + 1)
          rw [show start + 1 + i = start + (i + 1) by omega] at hrest
          rw [hfirst, hrest, List.nil_append, List.getElem?_cons_succ]

theorem filter_eq_nil_of_not_stored {ts : List (Triplet α)} {i j : Nat}
    (h : ¬ ∃ t ∈ ts, t.row = i ∧ t.col = j) : (ts.filter fun t => t.row = i ∧ t.col = j) = [] := by
  rw [List.filter_eq_nil_iff]
  intro t ht
  simpa using fun hrow hcol => h ⟨t, ht, hrow, hcol⟩

theorem filter_position (ts : List (Triplet α)) (i j : Nat) :
    ts.filter (fun t => t.row = i ∧ t.col = j) = (ts.filter (·.row = i)).filter (·.col = j) := by
  rw [List.filter_filter]
  exact List.filter_congr fun t _ => by simp [Bool.and_comm]

/-- The values of the triplets at a position are those that the column has in that row. -/
theorem map_value_triplets (m : Sparse α) (i j : Nat) :
    (m.triplets.filter fun t => t.row = i ∧ t.col = j).map (·.value) =
      ((m.columns.getD j []).filter (·.1 == i)).map (·.2) := by
  -- the triplets of column `j` are the entries that are stored in it
  have hcolumn : m.triplets.filter (·.col = j) =
      (m.columns[j]?).elim [] fun col => col.map fun e => ⟨e.1, j, e.2⟩ :=
    filter_numbered m.columns (fun k col => col.map fun e => ⟨e.1, k, e.2⟩) (·.col)
      (fun k col t ht => by obtain ⟨e, -, rfl⟩ := List.mem_map.1 ht; rfl) j
  have hboth : m.triplets.filter (fun t => t.row = i ∧ t.col = j) =
      (m.triplets.filter (·.col = j)).filter (·.row = i) := by
    rw [List.filter_filter]
    exact List.filter_congr fun t _ => by simp
  rw [hboth, hcolumn, List.getD_eq_getElem?_getD]
  cases m.columns[j]? with
  | none => rfl
  | some col =>
      rw [Option.getD_some, Option.elim_some, List.filter_map, List.map_map]
      rfl

variable [Add α]

theorem mem_addEntry {row : Nat} {value : α} {es : List (Nat × α)} {e : Nat × α}
    (h : e ∈ addEntry row value es) : e.1 = row ∨ e ∈ es := by
  induction es with
  | nil =>
      simp only [addEntry, List.mem_singleton] at h
      exact .inl (by rw [h])
  | cons d ds ih =>
      unfold addEntry at h
      split_ifs at h with hlt heq
      · rcases List.mem_cons.1 h with rfl | h
        · exact .inl rfl
        · exact .inr h
      · rcases List.mem_cons.1 h with rfl | h
        · exact .inl heq.symm
        · exact .inr (List.mem_cons_of_mem _ h)
      · rcases List.mem_cons.1 h with rfl | h
        · exact .inr List.mem_cons_self
        · exact (ih h).imp_right (List.mem_cons_of_mem _)

theorem ascending_addEntry (row : Nat) (value : α) {es : List (Nat × α)}
    (h : es.Pairwise (·.1 < ·.1)) : (addEntry row value es).Pairwise (·.1 < ·.1) := by
  induction es with
  | nil => simp [addEntry]
  | cons d ds ih =>
      obtain ⟨hd, hds⟩ := List.pairwise_cons.1 h
      unfold addEntry
      split_ifs with hlt heq
      · refine List.pairwise_cons.2 ⟨fun e he => ?_, h⟩
        rcases List.mem_cons.1 he with rfl | he
        · exact hlt
        · exact hlt.trans (hd e he)
      -- the row is there already and keeps its place
      · exact List.pairwise_cons.2 ⟨hd, hds⟩
      · refine List.pairwise_cons.2 ⟨fun e he => ?_, ih hds⟩
        rcases mem_addEntry he with hrow | he
        · omega
        · exact hd e he

/-- A column after the triplets of a list were added to it, from the left. -/
def addAll (ts : List (Triplet α)) (es : List (Nat × α)) : List (Nat × α) :=
  ts.foldl (fun c t => addEntry t.row t.value c) es

theorem mem_addAll {ts : List (Triplet α)} {es : List (Nat × α)} {e : Nat × α}
    (h : e ∈ addAll ts es) : (∃ t ∈ ts, t.row = e.1) ∨ e ∈ es := by
  induction ts generalizing es with
  | nil => exact .inr h
  | cons t ts ih =>
      rcases ih h with ⟨u, hu, hrow⟩ | h
      · exact .inl ⟨u, List.mem_cons_of_mem _ hu, hrow⟩
      · rcases mem_addEntry h with hrow | h
        · exact .inl ⟨t, List.mem_cons_self, hrow.symm⟩
        · exact .inr h

theorem ascending_addAll (ts : List (Triplet α)) {es : List (Nat × α)}
    (h : es.Pairwise (·.1 < ·.1)) : (addAll ts es).Pairwise (·.1 < ·.1) := by
  induction ts generalizing es with
  | nil => exact h
  | cons t ts ih => exact ih (ascending_addEntry t.row t.value h)

theorem columns_ofTriplets (nrows ncols : Nat) (ts : List (Triplet α)) (j : Nat) :
    (ofTriplets nrows ncols ts).columns[j]? =
      if j < ncols then some (addAll (ts.filter fun t => t.col = j ∧ t.row < nrows) [])
      else none := by
  split_ifs with h
  · simp [ofTriplets, addAll, List.getElem?_map, List.getElem?_range h]
  · simp [ofTriplets, Nat.not_lt.1 h]

theorem wellFormed_ofTriplets (nrows ncols : Nat) (ts : List (Triplet α)) :
    (ofTriplets nrows ncols ts).WellFormed where
  length_columns := by simp [ofTriplets]
  row_lt col hcol e he := by
    obtain ⟨j, -, rfl⟩ := List.mem_map.1 hcol
    rcases mem_addAll he with ⟨t, ht, hrow⟩ | he
    · have hlt : t.col = j ∧ t.row < nrows := by simpa using (List.mem_filter.1 ht).2
      exact hrow ▸ hlt.2
    · exact absurd he List.not_mem_nil
  ascending col hcol := by
    obtain ⟨j, -, rfl⟩ := List.mem_map.1 hcol
    exact ascending_addAll _ List.Pairwise.nil

theorem exists_of_mem_ofTriplets {nrows ncols : Nat} {ts : List (Triplet α)} {t : Triplet α}
    (h : t ∈ (ofTriplets nrows ncols ts).triplets) : ∃ u ∈ ts, u.row = t.row ∧ u.col = t.col := by
  obtain ⟨col, hcol, he⟩ := mem_triplets.1 h
  rw [columns_ofTriplets] at hcol
  split_ifs at hcol with hlt
  rw [Option.some.injEq] at hcol
  subst hcol
  rcases mem_addAll he with ⟨u, hu, hrow⟩ | he
  · obtain ⟨hmem, hkeep⟩ := List.mem_filter.1 hu
    have hkeep : u.col = t.col ∧ u.row < nrows := by simpa using hkeep
    exact ⟨u, hmem, hrow, hkeep.1⟩
  · exact absurd he List.not_mem_nil

theorem mem_upperTriangle [Zero α] [BEq α] {m : Sparse α} {t : Triplet α}
    (h : t ∈ m.upperTriangle.triplets) : t.row ≤ t.col ∧ t.col < m.ncols := by
  have hcol := (wellFormed_ofTriplets m.nrows m.ncols _).col_lt h
  obtain ⟨u, hu, hrow, hcol'⟩ := exists_of_mem_ofTriplets h
  have hle : u.row ≤ u.col ∧ (u.value != 0) = true := by simpa using (List.mem_filter.1 hu).2
  exact ⟨by omega, hcol⟩

end Pattern

section Totals

variable {K : Type} [Field K]

/-- The sum of the values of the triplets at a position. -/
def total (ts : List (Triplet K)) (i j : Nat) : K :=
  ((ts.filter fun t => t.row = i ∧ t.col = j).map (·.value)).sum

/-- The sum of the values of a column in a row. -/
def columnTotal (es : List (Nat × K)) (i : Nat) : K := ((es.filter (·.1 == i)).map (·.2)).sum

@[simp] theorem total_nil (i j : Nat) : total ([] : List (Triplet K)) i j = 0 := rfl

theorem total_cons (t : Triplet K) (ts : List (Triplet K)) (i j : Nat) :
    total (t :: ts) i j = (if t.row = i ∧ t.col = j then t.value else 0) + total ts i j := by
  unfold total
  by_cases h : t.row = i ∧ t.col = j
  · simp [h]
  · simp [h]

@[simp] theorem columnTotal_nil (i : Nat) : columnTotal ([] : List (Nat × K)) i = 0 := rfl

theorem columnTotal_cons (e : Nat × K) (es : List (Nat × K)) (i : Nat) :
    columnTotal (e :: es) i = (if e.1 = i then e.2 else 0) + columnTotal es i := by
  unfold columnTotal
  by_cases h : e.1 = i
  · simp [h]
  · simp [h]

theorem foldl_add_eq_sum (es : List (Nat × K)) (start : K) :
    es.foldl (fun sum e => sum + e.2) start = start + (es.map (·.2)).sum := by
  induction es generalizing start with
  | nil => simp
  | cons e es ih => rw [List.foldl_cons, ih, List.map_cons, List.sum_cons, add_assoc]

theorem entry_eq_columnTotal (m : Sparse K) (i j : Nat) :
    m.entry i j = columnTotal (m.columns.getD j []) i := by
  rw [entry, foldl_add_eq_sum, zero_add, columnTotal]

theorem columnTotal_addEntry (row : Nat) (value : K) (es : List (Nat × K)) (i : Nat) :
    columnTotal (addEntry row value es) i =
      columnTotal es i + if row = i then value else 0 := by
  induction es with
  | nil => simp [addEntry, columnTotal_cons]
  | cons e es ih =>
      by_cases hlt : row < e.1
      · rw [addEntry, if_pos hlt, columnTotal_cons, add_comm]
      by_cases heq : row = e.1
      · rw [addEntry, if_neg hlt, if_pos heq, columnTotal_cons, columnTotal_cons, heq]
        split_ifs <;> ring
      · rw [addEntry, if_neg hlt, if_neg heq, columnTotal_cons, columnTotal_cons, ih, add_assoc]

theorem columnTotal_addAll (ts : List (Triplet K)) (es : List (Nat × K)) (i : Nat) :
    columnTotal (addAll ts es) i =
      columnTotal es i + ((ts.filter (·.row = i)).map (·.value)).sum := by
  induction ts generalizing es with
  | nil => simp [addAll]
  | cons t ts ih =>
      have hstep : columnTotal (addAll (t :: ts) es) i =
          columnTotal (addEntry t.row t.value es) i +
            ((ts.filter (·.row = i)).map (·.value)).sum := ih _
      rw [hstep, columnTotal_addEntry, add_assoc]
      by_cases h : t.row = i
      · simp [h]
      · simp [h]

/-- The entries of a matrix built from triplets: those outside it count for nothing, and those at
one position are added up. -/
theorem entry_ofTriplets (nrows ncols : Nat) (ts : List (Triplet K)) (i j : Nat) :
    (ofTriplets nrows ncols ts).entry i j = if i < nrows ∧ j < ncols then total ts i j else 0 := by
  rw [entry_eq_columnTotal, List.getD_eq_getElem?_getD, columns_ofTriplets]
  by_cases hj : j < ncols
  · rw [if_pos hj, Option.getD_some, columnTotal_addAll, columnTotal_nil, zero_add,
      List.filter_filter, total]
    by_cases hi : i < nrows
    · rw [if_pos ⟨hi, hj⟩]
      congr 2
      refine List.filter_congr fun t _ => ?_
      grind
    · rw [if_neg fun h => hi h.1, List.filter_eq_nil_iff.2, List.map_nil, List.sum_nil]
      intro t _
      grind
  · simp [hj]

theorem entry_eq_total (m : Sparse K) (i j : Nat) : m.entry i j = total m.triplets i j := by
  rw [entry_eq_columnTotal, total, map_value_triplets, columnTotal]

theorem entry_scaledIdentity (n : Nat) (s : K) (i j : Nat) :
    (scaledIdentity n s).entry i j = if i = j ∧ j < n then s else 0 := by
  rw [entry_eq_columnTotal, scaledIdentity, scale, identity, List.getD_eq_getElem?_getD]
  by_cases hj : j < n
  · simp [hj, columnTotal_cons, eq_comm]
  · simp [hj]

section UpperTriangle

variable [BEq K] [LawfulBEq K]

theorem total_upper (ts : List (Triplet K)) (i j : Nat) :
    total (ts.filter fun t => t.row ≤ t.col && t.value != 0) i j =
      if i ≤ j then total ts i j else 0 := by
  induction ts with
  | nil => simp
  | cons t ts ih =>
      rw [List.filter_cons]
      split_ifs with hkeep hle hle
      · rw [total_cons, total_cons, ih, if_pos hle]
      · have hposition : ¬ (t.row = i ∧ t.col = j) := by grind
        rw [total_cons, if_neg hposition, ih, if_neg hle, zero_add]
      -- what is left out at this position is zero
      · have hvalue : (if t.row = i ∧ t.col = j then t.value else 0) = 0 := by
          split_ifs with hposition
          · simp only [hposition, hle, decide_true, Bool.true_and, bne_iff_ne, not_not] at hkeep
            exact hkeep
          · rfl
        rw [total_cons, hvalue, ih, if_pos hle, zero_add]
      · rw [ih, if_neg hle]

/-- Above the diagonal the upper triangle has the entries of the matrix, stored zeros or not. -/
theorem entry_upperTriangle (m : Sparse K) {i j : Nat} (hi : i < m.nrows) (hj : j < m.ncols) :
    m.upperTriangle.entry i j = if i ≤ j then m.entry i j else 0 := by
  rw [upperTriangle, entry_ofTriplets, if_pos ⟨hi, hj⟩, total_upper, entry_eq_total]

theorem entry_of_hasNonzero {m : Sparse K} (h : m.hasNonzero = false) (i j : Nat) :
    m.entry i j = 0 := by
  have hzero : ∀ t ∈ m.triplets, t.value = 0 := by
    intro t ht
    simpa using List.any_eq_false.1 h t.value (value_mem_of_mem_triplets ht)
  rw [entry_eq_total, total]
  refine List.sum_eq_zero fun v hv => ?_
  obtain ⟨t, ht, rfl⟩ := List.mem_map.1 hv
  exact hzero t (List.mem_of_mem_filter ht)

end UpperTriangle

/-- Row `i` of the matrix times the point `x`. -/
def rowDot (m : Sparse K) (i : Nat) (x : List K) : K :=
  ∑ j ∈ Finset.range m.ncols, m.entry i j * x.getD j 0

/-- A row of totals times a point: every triplet of the row meets the coordinate of its column. -/
theorem sum_total_mul {ts : List (Triplet K)} {n : Nat} (h : ∀ t ∈ ts, t.col < n) (i : Nat)
    (x : List K) :
    ∑ j ∈ Finset.range n, total ts i j * x.getD j 0 =
      ((ts.filter (·.row = i)).map fun t => t.value * x.getD t.col 0).sum := by
  induction ts with
  | nil => simp
  | cons t ts ih =>
      have hcol : t.col < n := h t List.mem_cons_self
      have hrest := ih fun u hu => h u (List.mem_cons_of_mem _ hu)
      simp only [total_cons, add_mul, Finset.sum_add_distrib, hrest]
      by_cases hrow : t.row = i
      · simp [hrow, ite_mul, hcol]
      · simp [hrow]

theorem rowDot_ofTriplets {nrows ncols : Nat} {ts : List (Triplet K)} (h : ∀ t ∈ ts, t.col < ncols)
    {i : Nat} (hi : i < nrows) (x : List K) :
    (ofTriplets nrows ncols ts).rowDot i x =
      ((ts.filter (·.row = i)).map fun t => t.value * x.getD t.col 0).sum := by
  have hentry : ∀ j ∈ Finset.range ncols,
      (ofTriplets nrows ncols ts).entry i j = total ts i j := by
    intro j hj
    rw [entry_ofTriplets, if_pos ⟨hi, Finset.mem_range.1 hj⟩]
  calc (ofTriplets nrows ncols ts).rowDot i x
      = ∑ j ∈ Finset.range ncols, total ts i j * x.getD j 0 :=
        Finset.sum_congr rfl fun j hj => by rw [hentry j hj]
    _ = ((ts.filter (·.row = i)).map fun t => t.value * x.getD t.col 0).sum :=
        sum_total_mul h i x

/-- A row of a matrix times a point, from the stored entries of that row. -/
theorem WellFormed.rowDot_eq_sum {m : Sparse K} (hm : m.WellFormed) (i : Nat) (x : List K) :
    m.rowDot i x = ((m.triplets.filter (·.row = i)).map fun t => t.value * x.getD t.col 0).sum := by
  calc m.rowDot i x
      = ∑ j ∈ Finset.range m.ncols, total m.triplets i j * x.getD j 0 :=
        Finset.sum_congr rfl fun j _ => by rw [entry_eq_total]
    _ = ((m.triplets.filter (·.row = i)).map fun t => t.value * x.getD t.col 0).sum :=
        sum_total_mul (fun _ ht => hm.col_lt ht) i x

/-- Column `j` of the matrix times the multipliers `y`. -/
def colDot (m : Sparse K) (j : Nat) (y : List K) : K :=
  ∑ i ∈ Finset.range m.nrows, m.entry i j * y.getD i 0

/-- A row is known by its products with points. -/
theorem entry_eq_of_rowDot {m m' : Sparse K} (hcols : m.ncols = m'.ncols) {i i' : Nat}
    (h : ∀ x, m.rowDot i x = m'.rowDot i' x) {j : Nat} (hj : j < m.ncols) :
    m.entry i j = m'.entry i' j := by
  -- the point with a one in place `j` and nothing else picks the entry there
  have hpick : ∀ (m : Sparse K) (i : Nat), j < m.ncols →
      m.rowDot i (List.replicate j 0 ++ [1]) = m.entry i j := by
    intro m i hj
    have hunit : ∀ k, (List.replicate j (0 : K) ++ [1]).getD k 0 = if k = j then 1 else 0 := by
      intro k
      grind
    simp only [rowDot, hunit, mul_ite, mul_one, mul_zero]
    simp [hj]
  rw [← hpick m i hj, ← hpick m' i' (hcols ▸ hj), h]

end Totals

end Sparse

end QuadProg
