import QuadProg.Proofs.Lists
import QuadProg.Proofs.Sparse.Entry

/-!
# What a matrix stores

A stored zero counts in the pattern of a matrix, though not in its entries.  So a matrix is looked
at here through the value that it stores at a position, if it stores one (`value?`).  Whatever the
arithmetic does, a well-formed matrix is known by its size and these values (`WellFormed.ext`).

A matrix built from triplets stores a value where there is a triplet, and that value is the sum of
all triplets there, in their order.  So the order matters only among the triplets of one position
(`ofTriplets_congr`), and not at all for the triplets that a matrix stores itself, of which there is
one at each position (`ofTriplets_triplets`).
-/

namespace QuadProg.Sparse

variable {α : Type}

/-- The value that is stored at a position, if there is one. -/
def value? (m : Sparse α) (i j : Nat) : Option α := (m.columns.getD j []).lookup i

section Values

variable {m m' : Sparse α}

theorem WellFormed.ascending_getD (hm : m.WellFormed) (j : Nat) :
    (m.columns.getD j []).Pairwise (·.1 < ·.1) := by
  rw [List.getD_eq_getElem?_getD]
  cases hcol : m.columns[j]? with
  | none => exact List.Pairwise.nil
  | some col => exact hm.ascending col (List.mem_of_getElem? hcol)

/-- A value is stored at a position if and only if there is a triplet with it. -/
theorem WellFormed.value?_eq_some_iff (hm : m.WellFormed) {i j : Nat} {v : α} :
    m.value? i j = some v ↔ ⟨i, j, v⟩ ∈ m.triplets := by
  rw [value?, lookup_eq_some_iff_mem (hm.ascending_getD j), mem_triplets,
    List.getD_eq_getElem?_getD]
  cases m.columns[j]? with
  | none => simp
  | some col => simp

/-- The values of the triplets at a position: one where something is stored, and none elsewhere. -/
theorem WellFormed.map_value_triplets (hm : m.WellFormed) (i j : Nat) :
    (m.triplets.filter fun t => t.row = i ∧ t.col = j).map (·.value) = (m.value? i j).toList := by
  rw [Sparse.map_value_triplets, map_filter_eq_lookup (hm.ascending_getD j), value?]

/-- Nothing is stored outside a matrix. -/
theorem WellFormed.value?_eq_none (hm : m.WellFormed) {i j : Nat}
    (h : ¬ (i < m.nrows ∧ j < m.ncols)) : m.value? i j = none := by
  refine Option.eq_none_iff_forall_ne_some.2 fun v hv => h ?_
  exact hm.lt_of_mem (hm.value?_eq_some_iff.1 hv)

/-- **A matrix is known by its size and what it stores.** -/
theorem WellFormed.ext (hm : m.WellFormed) (hm' : m'.WellFormed) (hrows : m.nrows = m'.nrows)
    (hcols : m.ncols = m'.ncols) (h : ∀ i j, m.value? i j = m'.value? i j) : m = m' := by
  have hlength : m.columns.length = m'.columns.length := by
    rw [hm.length_columns, hm'.length_columns, hcols]
  have hcolumn : ∀ j, m.columns.getD j [] = m'.columns.getD j [] := fun j =>
    eq_of_lookup_eq (hm.ascending_getD j) (hm'.ascending_getD j) fun i => h i j
  have hcolumns : m.columns = m'.columns := by
    refine List.ext_getElem hlength fun j hj hj' => ?_
    simpa [List.getD_eq_getElem?_getD, hj, hj'] using hcolumn j
  obtain ⟨_, _, _⟩ := m
  obtain ⟨_, _, _⟩ := m'
  cases hrows
  cases hcols
  cases hcolumns
  rfl

end Values

/-! ### Built from triplets -/

variable [Add α]

/-- The sum of some values from left to right; of no values there is none. -/
def gather (vs : List α) : Option α := vs.foldl (fun sum v => some (sum.elim v (· + v))) none

/-- Only the row of the new value changes, and there the value comes last in the sum. -/
theorem lookup_addEntry (row : Nat) (value : α) {es : List (Nat × α)}
    (h : es.Pairwise (·.1 < ·.1)) (i : Nat) :
    (addEntry row value es).lookup i =
      if i = row then some ((es.lookup row).elim value (· + value)) else es.lookup i := by
  induction es with
  | nil =>
      rw [addEntry, lookup_cons_eq]
      rfl
  | cons d ds ih =>
      obtain ⟨hd, hds⟩ := List.pairwise_cons.1 h
      rcases lt_trichotomy row d.1 with hlt | heq | hgt
      -- all rows that are there come later, so there was no value in this row
      · have habove : ∀ e ∈ d :: ds, row < e.1 := by
          intro e he
          rcases List.mem_cons.1 he with rfl | he
          · exact hlt
          · exact hlt.trans (hd e he)
        rw [addEntry, if_pos hlt, lookup_cons_eq, lookup_eq_none_of_lt habove]
        rfl
      · rw [addEntry, if_neg heq.not_lt, if_pos heq, lookup_cons_eq, lookup_cons_eq,
          lookup_cons_eq, if_pos heq, heq]
        split_ifs <;> rfl
      · rw [addEntry, if_neg hgt.not_gt, if_neg hgt.ne', lookup_cons_eq, ih hds, lookup_cons_eq,
          lookup_cons_eq, if_neg hgt.ne']
        split_ifs with hi hrow
        · omega
        · rfl
        · rfl
        · rfl

theorem lookup_addAll (ts : List (Triplet α)) {es : List (Nat × α)}
    (h : es.Pairwise (·.1 < ·.1)) (i : Nat) :
    (addAll ts es).lookup i = ((ts.filter (·.row = i)).map (·.value)).foldl
      (fun sum v => some (sum.elim v (· + v))) (es.lookup i) := by
  induction ts generalizing es with
  | nil => rfl
  | cons t ts ih =>
      have hstep := ih (ascending_addEntry t.row t.value h)
      rw [lookup_addEntry t.row t.value h] at hstep
      calc (addAll (t :: ts) es).lookup i
          = (addAll ts (addEntry t.row t.value es)).lookup i := rfl
        _ = _ := hstep
        _ = _ := by
            by_cases hi : t.row = i
            · simp [hi]
            · simp [hi, Ne.symm hi]

/-- A matrix built from triplets stores a value where there is a triplet, and that value is their
sum in the order of the list. -/
theorem value?_ofTriplets (nrows ncols : Nat) (ts : List (Triplet α)) (i j : Nat) :
    (ofTriplets nrows ncols ts).value? i j =
      if i < nrows ∧ j < ncols then
        gather ((ts.filter fun t => t.row = i ∧ t.col = j).map (·.value))
      else none := by
  rw [value?, List.getD_eq_getElem?_getD, columns_ofTriplets]
  by_cases hj : j < ncols
  · rw [if_pos hj, Option.getD_some, lookup_addAll _ List.Pairwise.nil, List.filter_filter]
    by_cases hi : i < nrows
    · rw [if_pos ⟨hi, hj⟩, gather, List.lookup_nil]
      congr 2
      refine List.filter_congr fun t _ => ?_
      grind
    · rw [if_neg fun h => hi h.1, List.filter_eq_nil_iff.2]
      · rfl
      · intro t _
        grind
  · simp [hj]

@[simp] theorem gather_toList (o : Option α) : gather o.toList = o := by
  cases o <;> rfl

/-- There is a sum as soon as there is a value. -/
theorem isSome_gather (vs : List α) : (gather vs).isSome = !vs.isEmpty := by
  have hfrom : ∀ (vs : List α) (sum : α),
      (vs.foldl (fun sum v => some (sum.elim v (· + v))) (some sum)).isSome = true := by
    intro vs
    induction vs with
    | nil => intro sum; rfl
    | cons v vs ih => intro sum; exact ih (sum + v)
  cases vs with
  | nil => rfl
  | cons v vs => exact hfrom vs v

/-- The order of triplets does not matter between positions. -/
theorem ofTriplets_congr {nrows ncols : Nat} {ts us : List (Triplet α)}
    (h : ∀ i < nrows, ∀ j < ncols,
      (ts.filter fun t => t.row = i ∧ t.col = j).map (·.value) =
        (us.filter fun t => t.row = i ∧ t.col = j).map (·.value)) :
    ofTriplets nrows ncols ts = ofTriplets nrows ncols us := by
  refine (wellFormed_ofTriplets nrows ncols ts).ext (wellFormed_ofTriplets nrows ncols us) rfl rfl
    fun i j => ?_
  rw [value?_ofTriplets, value?_ofTriplets]
  split_ifs with hplace
  · rw [h i hplace.1 j hplace.2]
  · rfl

/-- A matrix is built again from what it stores. -/
theorem WellFormed.ofTriplets_triplets {m : Sparse α} (hm : m.WellFormed) :
    ofTriplets m.nrows m.ncols m.triplets = m := by
  refine (wellFormed_ofTriplets m.nrows m.ncols m.triplets).ext hm rfl rfl fun i j => ?_
  rw [value?_ofTriplets, hm.map_value_triplets, gather_toList]
  split_ifs with hplace
  · rfl
  · exact (hm.value?_eq_none hplace).symm

end QuadProg.Sparse
