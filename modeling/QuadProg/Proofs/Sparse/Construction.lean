import QuadProg.Proofs.Sparse.Packed

/-!
# Matrices from matrices

A matrix comes from lists of rows, columns and values, or is a multiple of an identity; it may then
be multiplied by a number, or cut to its upper triangle.  A `Construction` says in which order this
is done, and `build` does it as a program would that keeps matrices packed: from no rows it returns
the zero matrix without looking at the other lists, and it multiplies the list of values and reads
the matrix again.  Both are no more than shortcuts (`build_eq_matrix`).

`meaning` says which number such a matrix has in which place:

```text
lists nrows ncols rows cols values      Σ values k, over all k with rows k = i and cols k = j
scaledIdentity n s                      s on the diagonal
scale s c                               s * meaning c
upperTriangle c                         meaning c, on the diagonal and above it
```

The numbers are read off a matrix by adding what it stores into an array of zeros (`filled`).  In
whatever arithmetic, this gives the entries of the matrix (`WellFormed.filled_eq_dense`), and these
are what the construction means if the arithmetic is exact (`Construction.entry_matrix`).
-/

namespace QuadProg.Sparse

/-! ### Arrays of entries -/

/-- The values of a function at all places, column after column. -/
def tabulate {β : Type} (nrows ncols : Nat) (f : Nat → Nat → β) : List β :=
  (List.range ncols).flatMap fun j => (List.range nrows).map fun i => f i j

section Arrays

variable {β : Type} {nrows ncols : Nat}

theorem tabulate_congr {f g : Nat → Nat → β} (h : ∀ i < nrows, ∀ j < ncols, f i j = g i j) :
    tabulate nrows ncols f = tabulate nrows ncols g := by
  rw [tabulate, tabulate, List.flatMap_def, List.flatMap_def]
  congr 1
  refine List.map_congr_left fun j hj => List.map_congr_left fun i hi => ?_
  exact h i (List.mem_range.1 hi) j (List.mem_range.1 hj)

/-- The row and the column of a place are a remainder and a quotient. -/
theorem place_eq_iff {i j d p : Nat} (hi : i < d) : i + d * j = p ↔ p / d = j ∧ p % d = i := by
  rw [Nat.div_mod_unique (by omega)]
  simp [hi]

theorem tabulate_eq_map (f : Nat → Nat → β) : tabulate nrows ncols f =
    (List.range (nrows * ncols)).map fun p => f (p % nrows) (p / nrows) := by
  rw [range_mul, List.map_flatMap, tabulate, List.flatMap_def, List.flatMap_def]
  congr 1
  refine List.map_congr_left fun j _ => ?_
  rw [List.map_map]
  refine List.map_congr_left fun i hi => ?_
  obtain ⟨hcol, hrow⟩ := (place_eq_iff (List.mem_range.1 hi)).1 (rfl : i + nrows * j = _)
  rw [Function.comp_apply, hcol, hrow]

/-- Adds numbers to the places of an array, one after the other. -/
theorem getElem?_foldl_modify {γ : Type} [Add β] (place : γ → Nat) (value : γ → β) (ts : List γ)
    (d : List β) (p : Nat) :
    (ts.foldl (fun d t => d.modify (place t) (· + value t)) d)[p]? =
      d[p]?.map fun x => (ts.filter (place · = p)).foldl (fun sum t => sum + value t) x := by
  induction ts generalizing d with
  | nil => simp
  | cons t ts ih =>
      rw [List.foldl_cons, ih, List.getElem?_modify]
      by_cases h : place t = p
      · simp [h, Function.comp_def]
      · simp [h]

end Arrays

section Filled

variable {α : Type} [Zero α] [Add α]

/-- The entries of a matrix in an array, column after column: what is stored is added to zeros. -/
def filled (m : Sparse α) : List α :=
  m.triplets.foldl (fun d t => d.modify (t.row + m.nrows * t.col) (· + t.value))
    (List.replicate (m.nrows * m.ncols) 0)

/-- Every stored value goes to the place of its row and column, in the order that `entry` has. -/
theorem WellFormed.filled_eq_dense {m : Sparse α} (hm : m.WellFormed) : m.filled = m.dense := by
  have hdense : m.dense = tabulate m.nrows m.ncols m.entry := rfl
  refine List.ext_getElem? fun p => ?_
  rw [filled, getElem?_foldl_modify, hdense, tabulate_eq_map, List.getElem?_map]
  by_cases hp : p < m.nrows * m.ncols
  · have hplace : m.triplets.filter (fun t => t.row + m.nrows * t.col = p) =
        m.triplets.filter fun t => t.row = p % m.nrows ∧ t.col = p / m.nrows := by
      refine List.filter_congr fun t ht => ?_
      rw [decide_eq_decide, place_eq_iff (hm.lt_of_mem ht).1]
      grind
    have hsum : (m.triplets.filter fun t => t.row = p % m.nrows ∧ t.col = p / m.nrows).foldl
        (fun sum t => sum + t.value) 0 = m.entry (p % m.nrows) (p / m.nrows) := by
      rw [entry, ← List.foldl_map, Sparse.map_value_triplets, List.foldl_map]
    rw [List.getElem?_replicate_of_lt hp, List.getElem?_range hp, hplace, Option.map_some, hsum,
      Option.map_some]
  · simp [hp]

end Filled

/-! ### Constructions -/

/-- How a matrix is made. -/
inductive Construction (α : Type)
  /-- From lists, of which entries outside the matrix are left out and others may meet. -/
  | lists (nrows ncols : Nat) (rows cols : List Nat) (values : List α)
  | scaledIdentity (n : Nat) (s : α)
  | scale (s : α) (c : Construction α)
  | upperTriangle (c : Construction α)

/-- The matrix with the entries given by three lists; the zero matrix if there are no rows. -/
def fromLists {α : Type} [Add α] (nrows ncols : Nat) (rows cols : List Nat) (values : List α) :
    Sparse α :=
  if rows.isEmpty then zeros nrows ncols else ofLists nrows ncols rows cols values

namespace Construction

variable {α : Type}

def nrows : Construction α → Nat
  | lists nrows _ _ _ _ => nrows
  | scaledIdentity n _ => n
  | scale _ c => c.nrows
  | upperTriangle c => c.nrows

def ncols : Construction α → Nat
  | lists _ ncols _ _ _ => ncols
  | scaledIdentity n _ => n
  | scale _ c => c.ncols
  | upperTriangle c => c.ncols

section Build

variable [Zero α] [One α] [Add α] [Mul α] [BEq α]

/-- The matrix, with its lists read again whenever it was scaled. -/
def build (read : Reader α) : Construction α → Sparse α
  | lists nrows ncols rows cols values => fromLists nrows ncols rows cols values
  | scaledIdentity n s => rescale read (identity n) s
  | scale s c => rescale read (c.build read) s
  | upperTriangle c =>
    let m := c.build read
    let kept := m.triplets.filter fun t => t.row ≤ t.col && t.value != 0
    fromLists m.nrows m.ncols (kept.map (·.row)) (kept.map (·.col)) (kept.map (·.value))

/-- The matrix, with each step as the library of matrices has it. -/
def matrix : Construction α → Sparse α
  | lists nrows ncols rows cols values => ofLists nrows ncols rows cols values
  | scaledIdentity n s => Sparse.scaledIdentity n s
  | scale s c => c.matrix.scale s
  | upperTriangle c => c.matrix.upperTriangle

end Build

end Construction

/-! ### The shortcuts -/

section Shortcuts

variable {α : Type}

theorem wellFormed_identity [One α] (n : Nat) : (identity n : Sparse α).WellFormed where
  length_columns := by simp [identity]
  row_lt col hcol e he := by
    obtain ⟨j, hj, rfl⟩ := List.mem_map.1 hcol
    obtain rfl := List.mem_singleton.1 he
    exact List.mem_range.1 hj
  ascending col hcol := by
    obtain ⟨j, -, rfl⟩ := List.mem_map.1 hcol
    exact List.pairwise_singleton _ _

variable [Add α]

theorem ofTriplets_nil (nrows ncols : Nat) : (ofTriplets nrows ncols [] : Sparse α) =
    zeros nrows ncols := by
  simp [ofTriplets, zeros]

/-- No rows, no triplets. -/
theorem fromLists_eq (nrows ncols : Nat) (rows cols : List Nat) (values : List α) :
    fromLists nrows ncols rows cols values = ofLists nrows ncols rows cols values := by
  cases rows with
  | nil => exact (ofTriplets_nil nrows ncols).symm
  | cons row rows => rfl

theorem ofLists_triplets (nrows ncols : Nat) (ts : List (Triplet α)) :
    ofLists nrows ncols (ts.map (·.row)) (ts.map (·.col)) (ts.map (·.value)) =
      ofTriplets nrows ncols ts := by
  simp [ofLists, List.zip_map', Function.comp_def]

variable [Zero α] [One α] [Mul α] [BEq α]

namespace Construction

theorem wellFormed_matrix (c : Construction α) : c.matrix.WellFormed := by
  cases c with
  | lists nrows ncols rows cols values => exact wellFormed_ofTriplets _ _ _
  | scaledIdentity n s => exact (wellFormed_identity n).scale s
  | scale s c => exact c.wellFormed_matrix.scale s
  | upperTriangle c => exact wellFormed_ofTriplets _ _ _

theorem nrows_matrix (c : Construction α) : c.matrix.nrows = c.nrows := by
  induction c with
  | lists nrows ncols rows cols values => rfl
  | scaledIdentity n s => rfl
  | scale s c ih => exact ih
  | upperTriangle c ih => exact ih

theorem ncols_matrix (c : Construction α) : c.matrix.ncols = c.ncols := by
  induction c with
  | lists nrows ncols rows cols values => rfl
  | scaledIdentity n s => rfl
  | scale s c ih => exact ih
  | upperTriangle c ih => exact ih

/-- **Reading the lists again and the shortcut for empty lists change nothing.** -/
theorem build_eq_matrix {read : Reader α} (hread : Reads read) (c : Construction α) :
    c.build read = c.matrix := by
  induction c with
  | lists nrows ncols rows cols values => exact fromLists_eq nrows ncols rows cols values
  | scaledIdentity n s => exact hread.rescale_eq (wellFormed_identity n) s
  | scale s c ih => rw [build, ih, hread.rescale_eq c.wellFormed_matrix, matrix]
  | upperTriangle c ih =>
      simp only [build, ih, fromLists_eq, ofLists_triplets]
      rfl

end Construction

end Shortcuts

/-! ### What the entries mean -/

section Meaning

variable {K : Type} [Field K]

/-- The number in row `i` and column `j`. -/
def Construction.meaning : Construction K → Nat → Nat → K
  | lists _ _ rows cols values => fun i j =>
    ∑ k ∈ Finset.range (min rows.length (min cols.length values.length)),
      if rows.getD k 0 = i ∧ cols.getD k 0 = j then values.getD k 0 else 0
  | scaledIdentity _ s => fun i j => if i = j then s else 0
  | scale s c => fun i j => s * c.meaning i j
  | upperTriangle c => fun i j => if i ≤ j then c.meaning i j else 0

theorem entry_scale (m : Sparse K) (s : K) (i j : Nat) :
    (m.scale s).entry i j = s * m.entry i j := by
  have hcolumn : (m.scale s).columns.getD j [] =
      (m.columns.getD j []).map fun e => (e.1, e.2 * s) := by
    simp only [scale, List.getD_eq_getElem?_getD, List.getElem?_map]
    cases m.columns[j]? <;> rfl
  rw [entry_eq_columnTotal, entry_eq_columnTotal, hcolumn]
  induction m.columns.getD j [] with
  | nil => simp
  | cons e es ih =>
      rw [List.map_cons, columnTotal_cons, columnTotal_cons, ih, mul_add]
      congr 1
      split_ifs <;> ring

theorem total_eq_sum (ts : List (Triplet K)) (i j : Nat) :
    total ts i j = (ts.map fun t => if t.row = i ∧ t.col = j then t.value else 0).sum := by
  induction ts with
  | nil => rfl
  | cons t ts ih => rw [total_cons, ih, List.map_cons, List.sum_cons]

/-- The sum goes as far as all three lists do. -/
theorem entry_ofLists {nrows ncols : Nat} (rows cols : List Nat) (values : List K) {i j : Nat}
    (hi : i < nrows) (hj : j < ncols) :
    (ofLists nrows ncols rows cols values).entry i j =
      (Construction.lists nrows ncols rows cols values).meaning i j := by
  rw [ofLists, entry_ofTriplets, if_pos ⟨hi, hj⟩, total_eq_sum, List.map_map]
  refine congrArg List.sum (List.ext_getElem (by simp) fun k hk hk' => ?_)
  have hbounds : k < rows.length ∧ k < cols.length ∧ k < values.length := by simpa using hk
  obtain ⟨hrow, hcol, hvalue⟩ := hbounds
  simp [hrow, hcol, hvalue]

/-- The order of the triplets does not matter. -/
theorem entry_ofTriplets_perm {nrows ncols : Nat} {ts us : List (Triplet K)} (h : ts.Perm us)
    (i j : Nat) :
    (ofTriplets nrows ncols ts).entry i j = (ofTriplets nrows ncols us).entry i j := by
  rw [entry_ofTriplets, entry_ofTriplets, total_eq_sum, total_eq_sum, (h.map _).sum_eq]

variable [BEq K] [LawfulBEq K]

/-- By induction over the construction: a step changes the entries as it changes the meaning. -/
theorem Construction.entry_matrix (c : Construction K) {i j : Nat} (hi : i < c.nrows)
    (hj : j < c.ncols) : c.matrix.entry i j = c.meaning i j := by
  induction c with
  | lists nrows ncols rows cols values => exact entry_ofLists rows cols values hi hj
  | scaledIdentity n s =>
      have hj : j < n := hj
      simp [matrix, meaning, entry_scaledIdentity, hj]
  | scale s c ih => rw [matrix, entry_scale, ih hi hj, meaning]
  | upperTriangle c ih =>
      have hrow : i < c.matrix.nrows := by rwa [nrows_matrix]
      have hcol : j < c.matrix.ncols := by rwa [ncols_matrix]
      rw [matrix, entry_upperTriangle _ hrow hcol, ih hi hj, meaning]

theorem Construction.filled_matrix (c : Construction K) :
    c.matrix.filled = tabulate c.nrows c.ncols c.meaning := by
  calc c.matrix.filled = tabulate c.matrix.nrows c.matrix.ncols c.matrix.entry :=
        c.wellFormed_matrix.filled_eq_dense
    _ = tabulate c.nrows c.ncols c.matrix.entry := by rw [c.nrows_matrix, c.ncols_matrix]
    _ = tabulate c.nrows c.ncols c.meaning :=
        tabulate_congr fun i hi j hj => c.entry_matrix hi hj

omit [BEq K] [LawfulBEq K] in
/-- Lists with the same triplets in another order mean the same. -/
theorem Construction.meaning_lists_perm (nrows ncols : Nat) {rows cols rows' cols' : List Nat}
    {values values' : List K}
    (h : (rows.zip (cols.zip values)).Perm (rows'.zip (cols'.zip values'))) {i j : Nat}
    (hi : i < nrows) (hj : j < ncols) :
    (lists nrows ncols rows cols values).meaning i j =
      (lists nrows ncols rows' cols' values').meaning i j := by
  rw [← entry_ofLists rows cols values hi hj, ← entry_ofLists rows' cols' values' hi hj]
  exact entry_ofTriplets_perm (h.map _) i j

end Meaning

/-! ### The result -/

/-- **Every construction gives a packed matrix with the entries that it means.**

In any arithmetic the lists of the matrix keep the format, and multiplied by a number they are never
refused.  In exact arithmetic the array that the matrix is added into has the numbers that the
construction means; so for lists, the order of their triplets does not matter. -/
theorem Construction.build_isPacked_and_filled :
    (∀ {α : Type} [Zero α] [One α] [Add α] [Mul α] [BEq α] {read : Reader α}, Reads read →
      (∀ c : Construction α, (c.build read).WellFormed ∧
        IsPacked c.nrows c.ncols (c.build read).offsets (c.build read).rowIndices
          (c.build read).values) ∧
      ∀ (m : Sparse α) (s : α), m.WellFormed →
        read m.nrows m.ncols m.offsets m.rowIndices (m.values.map (· * s)) = some (m.scale s)) ∧
    ∀ {K : Type} [Field K] [BEq K] [LawfulBEq K] {read : Reader K}, Reads read →
      (∀ c : Construction K, (c.build read).filled = tabulate c.nrows c.ncols c.meaning) ∧
      ∀ nrows ncols rows cols values rows' cols' values',
        (rows.zip (cols.zip values)).Perm (rows'.zip (cols'.zip values')) →
          ((lists nrows ncols rows cols values).build read).filled =
            ((lists nrows ncols rows' cols' values').build read).filled := by
  constructor
  · intro α _ _ _ _ _ read hread
    constructor
    · intro c
      have hm := c.wellFormed_matrix
      rw [c.build_eq_matrix hread]
      refine ⟨hm, ?_⟩
      simpa only [c.nrows_matrix, c.ncols_matrix] using hm.isPacked
    · intro m s hm
      exact hread.scale hm s
  · intro K _ _ _ read hread
    have hfilled : ∀ c : Construction K,
        (c.build read).filled = tabulate c.nrows c.ncols c.meaning := by
      intro c
      rw [c.build_eq_matrix hread, c.filled_matrix]
    refine ⟨hfilled, ?_⟩
    intro nrows ncols rows cols values rows' cols' values' hperm
    rw [hfilled, hfilled]
    exact tabulate_congr fun i hi j hj => meaning_lists_perm nrows ncols hperm hi hj

/-- Lists of different lengths, with two values in one place and one outside of the matrix. -/
def doubledTriangle (rows cols : List Nat) (values : List ℚ) : Construction ℚ :=
  .upperTriangle (.scale 2 (.lists 2 2 rows cols values))

theorem Construction.build_isPacked_and_filled_doubled :
    Reads (unpack? : Reader ℚ) ∧
      ((doubledTriangle [0, 1, 0, 5] [0, 1, 0, 0, 1] [1, 3, 4, 9]).build unpack?).filled =
        [10, 0, 0, 6] ∧
      unpack? 2 2 [0, 1, 2] [0, 1] [5 * 2, 3 * 2] =
        some ((⟨2, 2, [[(0, 5)], [(1, 3)]]⟩ : Sparse ℚ).scale 2) ∧
      ((lists 2 2 [0, 1, 0] [0, 1, 0] [1, 3, 4]).build unpack?).filled =
        ((lists 2 2 [1, 0, 0] [1, 0, 0] [3, 1, (4 : ℚ)]).build unpack?).filled := by
  obtain ⟨hlists, hfilled⟩ := Construction.build_isPacked_and_filled
  obtain ⟨hfilled, hperm⟩ := hfilled (reads_unpack? (α := ℚ))
  refine ⟨reads_unpack?, ?_, ?_, ?_⟩
  · rw [hfilled]
    decide +kernel
  · have hm : (⟨2, 2, [[(0, 5)], [(1, 3)]]⟩ : Sparse ℚ).WellFormed :=
      ⟨by decide, by decide, by decide⟩
    exact (hlists (reads_unpack? (α := ℚ))).2 _ 2 hm
  · refine hperm 2 2 _ _ _ _ _ _ ?_
    decide +kernel

end QuadProg.Sparse
