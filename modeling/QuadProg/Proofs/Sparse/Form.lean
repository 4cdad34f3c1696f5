import QuadProg.Proofs.Sparse.Entry

/-!
# Quadratic forms

A matrix with `n` rows and columns has a number for every pair of places, and a matrix that stores
some of them gives the same sums (`WellFormed.sum_triplets`).  A sum over all pairs can be taken
across the diagonal, so that the pairs `(i, j)` and `(j, i)` meet (`sum_square`):

```text
the square       diagonal       above and below, for i < j
f i j            f j j          f i j + f j i
```

So the upper triangle of a matrix, in which an entry off the diagonal stands for two, is half of its
quadratic form as far as the entries agree across the diagonal (`upper_eq_form`).  Whether they do
is asked at the stored entries only, which is enough: where neither of two entries is stored, both
are zero (`isSymmetric_iff`).
-/

namespace QuadProg.Sparse

open Finset

section Sums

variable {K : Type} [Field K]

/-- A sum over the pairs of places, with the totals of a list of triplets, from the triplets. -/
theorem sum_sum_total {ts : List (Triplet K)} {rows cols : Nat}
    (h : ∀ t ∈ ts, t.row < rows ∧ t.col < cols) (g : Nat → Nat → K) :
    ∑ i ∈ range rows, ∑ j ∈ range cols, g i j * total ts i j =
      (ts.map fun t => g t.row t.col * t.value).sum := by
  induction ts with
  | nil => simp
  | cons t ts ih =>
      obtain ⟨hrow, hcol⟩ := h t List.mem_cons_self
      have hrest := ih fun u hu => h u (List.mem_cons_of_mem _ hu)
      -- the first triplet counts at its own place
      have hfirst : ∑ i ∈ range rows, ∑ j ∈ range cols,
          g i j * (if t.row = i ∧ t.col = j then t.value else 0) =
            g t.row t.col * t.value := by
        rw [sum_eq_single_of_mem t.row (mem_range.2 hrow), sum_eq_single_of_mem t.col
          (mem_range.2 hcol)]
        · simp
        · intro j _ hj
          simp [Ne.symm hj]
        · intro i _ hi
          simp [Ne.symm hi]
      simp only [total_cons, mul_add, sum_add_distrib, hfirst, hrest, List.map_cons, List.sum_cons]

/-- A sum over the stored entries is a sum over all of them. -/
theorem WellFormed.sum_triplets {m : Sparse K} (hm : m.WellFormed) (g : Nat → Nat → K) :
    (m.triplets.map fun t => g t.row t.col * t.value).sum =
      ∑ i ∈ range m.nrows, ∑ j ∈ range m.ncols, g i j * m.entry i j := by
  rw [← sum_sum_total fun t ht => hm.lt_of_mem ht]
  simp only [entry_eq_total]

/-- A sum over all pairs, taken across the diagonal. -/
theorem sum_square (f : Nat → Nat → K) (n : Nat) :
    ∑ i ∈ range n, ∑ j ∈ range n, f i j =
      ∑ j ∈ range n, (f j j + ∑ i ∈ range j, (f i j + f j i)) := by
  induction n with
  | zero => simp
  | succ n ih =>
      calc ∑ i ∈ range (n + 1), ∑ j ∈ range (n + 1), f i j
          = (∑ i ∈ range n, ∑ j ∈ range n, f i j + ∑ i ∈ range n, f i n) +
              (∑ j ∈ range n, f n j + f n n) := by
            simp only [sum_range_succ, sum_add_distrib]
            ring
        _ = ∑ j ∈ range n, (f j j + ∑ i ∈ range j, (f i j + f j i)) +
              (f n n + ∑ i ∈ range n, (f i n + f n i)) := by
            rw [ih, sum_add_distrib (s := range n) (f := fun i => f i n)]
            ring
        _ = ∑ j ∈ range (n + 1), (f j j + ∑ i ∈ range j, (f i j + f j i)) :=
            (sum_range_succ _ n).symm

/-- The quadratic form `xᵀ M x`. -/
def form (m : Sparse K) (x : List K) : K :=
  ∑ i ∈ range m.nrows, x.getD i 0 * m.rowDot i x

/-- What the upper triangle has in excess of the lower one, as a form. -/
def skew (m : Sparse K) (x : List K) : K :=
  ∑ j ∈ range m.ncols, ∑ i ∈ range j, (m.entry i j - m.entry j i) * (x.getD i 0 * x.getD j 0)

/-- What an entry of the upper triangle counts for at a point: half on the diagonal, and in full off
it, where it stands for two. -/
def upperWeight (x : List K) (i j : Nat) : K :=
  (if i = j then 0.5 else 1) * (x.getD i 0 * x.getD j 0)

theorem form_eq_sum (m : Sparse K) (x : List K) :
    m.form x = ∑ i ∈ range m.nrows, ∑ j ∈ range m.ncols,
      m.entry i j * (x.getD i 0 * x.getD j 0) := by
  refine sum_congr rfl fun i _ => ?_
  rw [rowDot, mul_sum]
  exact sum_congr rfl fun j _ => by ring

/-- The upper triangle of a square matrix stands for half of its form, up to half of the excess. -/
theorem upper_eq_form [CharZero K] {m : Sparse K} (hsquare : m.nrows = m.ncols) (x : List K) :
    ∑ i ∈ range m.ncols, ∑ j ∈ range m.ncols,
        upperWeight x i j * (if i ≤ j then m.entry i j else 0) =
      1 / 2 * m.form x + 1 / 2 * m.skew x := by
  rw [form_eq_sum, hsquare, sum_square, sum_square, skew, mul_sum, mul_sum, ← sum_add_distrib]
  refine sum_congr rfl fun j _ => ?_
  have hcross : ∀ i ∈ range j,
      upperWeight x i j * (if i ≤ j then m.entry i j else 0) +
          upperWeight x j i * (if j ≤ i then m.entry j i else 0) =
        1 / 2 * (m.entry i j * (x.getD i 0 * x.getD j 0) +
          m.entry j i * (x.getD j 0 * x.getD i 0)) +
        1 / 2 * ((m.entry i j - m.entry j i) * (x.getD i 0 * x.getD j 0)) := by
    intro i hi
    have hlt := mem_range.1 hi
    rw [upperWeight, if_neg hlt.ne, if_pos hlt.le, if_neg hlt.not_ge]
    ring
  rw [sum_congr rfl hcross, sum_add_distrib, ← mul_sum, ← mul_sum, upperWeight, if_pos rfl,
    if_pos le_rfl]
  ring

/-! ### Differences across the diagonal -/

theorem entry_eq_zero_of_not_stored {m : Sparse K} {i j : Nat}
    (h : ∀ t ∈ m.triplets, ¬ (t.row = i ∧ t.col = j)) : m.entry i j = 0 := by
  have hnot : ¬ ∃ t ∈ m.triplets, t.row = i ∧ t.col = j := by
    intro hstored
    obtain ⟨t, ht, hplace⟩ := hstored
    exact h t ht hplace
  rw [entry_eq_total, total, filter_eq_nil_of_not_stored hnot]
  rfl

theorem skew_eq_zero {m : Sparse K} (h : ∀ i j, m.entry i j = m.entry j i) (x : List K) :
    m.skew x = 0 :=
  sum_eq_zero fun j _ => sum_eq_zero fun i _ => by rw [h i j, sub_self, zero_mul]

/-- Where entries across the diagonal are the same up to a tolerance, the excess is small. -/
theorem abs_skew_le [LinearOrder K] [IsStrictOrderedRing K] {m : Sparse K} {tolerance : K}
    (h : ∀ i j, |m.entry i j - m.entry j i| ≤ tolerance) (x : List K) :
    |m.skew x| ≤ tolerance * ∑ j ∈ range m.ncols, ∑ i ∈ range j, |x.getD i 0 * x.getD j 0| :=
  calc |m.skew x|
      ≤ ∑ j ∈ range m.ncols, ∑ i ∈ range j,
          |(m.entry i j - m.entry j i) * (x.getD i 0 * x.getD j 0)| :=
        (abs_sum_le_sum_abs _ _).trans (sum_le_sum fun j _ => abs_sum_le_sum_abs _ _)
    _ ≤ ∑ j ∈ range m.ncols, ∑ i ∈ range j, tolerance * |x.getD i 0 * x.getD j 0| := by
        refine sum_le_sum fun j _ => sum_le_sum fun i _ => ?_
        rw [abs_mul]
        exact mul_le_mul_of_nonneg_right (h i j) (abs_nonneg _)
    _ = tolerance * ∑ j ∈ range m.ncols, ∑ i ∈ range j, |x.getD i 0 * x.getD j 0| := by
        simp only [mul_sum]

end Sums

section Symmetry

variable {K : Type} [Field K] [LinearOrder K] [FloorRing K] [IsStrictOrderedRing K] {m : Sparse K}

/-- The comparison at the stored entries settles all of them. -/
theorem isSymmetric_iff {tolerance : K} (htolerance : 0 ≤ tolerance) :
    m.isSymmetric tolerance = true ↔
      m.nrows = m.ncols ∧ ∀ i j, |m.entry i j - m.entry j i| ≤ tolerance := by
  simp only [isSymmetric, Bool.and_eq_true, beq_iff_eq, List.all_eq_true, decide_eq_true_eq,
    magnitude_eq_abs]
  refine and_congr_right fun _ => ⟨fun h i j => ?_, fun h t _ => h t.row t.col⟩
  by_cases hij : ∃ t ∈ m.triplets, t.row = i ∧ t.col = j
  · obtain ⟨t, ht, rfl, rfl⟩ := hij
    exact h t ht
  by_cases hji : ∃ t ∈ m.triplets, t.row = j ∧ t.col = i
  · obtain ⟨t, ht, rfl, rfl⟩ := hji
    rw [abs_sub_comm]
    exact h t ht
  · rw [entry_eq_zero_of_not_stored fun t ht hplace => hij ⟨t, ht, hplace⟩,
      entry_eq_zero_of_not_stored fun t ht hplace => hji ⟨t, ht, hplace⟩, sub_self, abs_zero]
    exact htolerance

end Symmetry

end QuadProg.Sparse
