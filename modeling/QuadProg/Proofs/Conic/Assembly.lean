import QuadProg.Proofs.Model.Feasible
import QuadProg.Session

/-!
# What the conic form says

The rows of a model and the bounds of a box are put into one list (`conicRows`), and everything in
the conic form is read off this list: a row of the matrix times a point is the value of the row
there (`rowDot_assemble`), so the slack at a point is the list of what is left on the right
(`slack_eq`).  The cones cut the list where the equations end:

```text
equations            slack = 0    m.rowsOf .equal
inequalities         slack ≥ 0    m.rowsOf .lessEqual
finite bounds        slack ≥ 0    m.boundBlock lower upper
```

The multipliers of an answer are cut at the same places.
-/

namespace QuadProg

/-! ### Cones -/

def Cone.dim : Cone → Nat
  | .zero n => n
  | .nonneg n => n

section Cones

variable {K : Type} [Field K] [LinearOrder K]

/-- The slacks that a cone is made of. -/
def Cone.Contains (k : Cone) (s : List K) : Prop :=
  match k with
  | .zero n => s.length = n ∧ ∀ v ∈ s, v = 0
  | .nonneg n => s.length = n ∧ ∀ v ∈ s, 0 ≤ v

/-- The slacks fall into parts, one after the other, with a part in each cone. -/
def InProduct : List Cone → List K → Prop
  | [], s => s = []
  | k :: ks, s => k.Contains (s.take k.dim) ∧ InProduct ks (s.drop k.dim)

/-- The left-hand side of a row at a point. -/
def ConicRow.value (r : ConicRow K) (x : List K) : K :=
  (r.entries.map fun e => e.2 * x.getD e.1 0).sum

/-- The slacks that are left at a point: `A x + s = b`. -/
structure Conic.Slack (c : Conic K) (x s : List K) : Prop where
  length_eq : s.length = c.b.length
  sum_eq : ∀ i b v, c.b[i]? = some b → s[i]? = some v → c.a.rowDot i x + v = b

theorem inProduct_zero {n : Nat} {ks : List Cone} {s : List K} :
    InProduct ((if 0 < n then [.zero n] else []) ++ ks) s ↔
      n ≤ s.length ∧ (∀ v ∈ s.take n, v = 0) ∧ InProduct ks (s.drop n) := by
  split_ifs with h
  · simp only [List.singleton_append, InProduct, Cone.Contains, Cone.dim, List.length_take]
    grind
  · obtain rfl : n = 0 := by omega
    simp

theorem inProduct_nonneg {n : Nat} {s : List K} :
    InProduct (if 0 < n then [.nonneg n] else []) s ↔ s.length = n ∧ ∀ v ∈ s, 0 ≤ v := by
  split_ifs with h
  · simp only [InProduct, Cone.Contains, Cone.dim, List.length_take, List.drop_eq_nil_iff]
    constructor
    · rintro ⟨⟨hlength, hnonneg⟩, hle⟩
      rw [List.take_of_length_le hle] at hnonneg
      exact ⟨by omega, hnonneg⟩
    · rintro ⟨hlength, hnonneg⟩
      rw [List.take_of_length_le hlength.le]
      exact ⟨⟨by omega, hnonneg⟩, hlength.le⟩
  · obtain rfl : n = 0 := by omega
    simp only [InProduct, List.length_eq_zero_iff]
    constructor
    · rintro rfl
      simp
    · exact And.left

theorem inProduct_cones_iff {c : Conic K} {s : List K} :
    InProduct c.cones s ↔ s.length = c.nEq + c.nIneq + c.nBound ∧ (∀ v ∈ s.take c.nEq, v = 0) ∧
      ∀ v ∈ s.drop c.nEq, 0 ≤ v := by
  rw [Conic.cones, inProduct_zero, inProduct_nonneg, List.length_drop]
  constructor
  · rintro ⟨hle, hzero, hlength, hnonneg⟩
    exact ⟨by omega, hzero, hnonneg⟩
  · rintro ⟨hlength, hzero, hnonneg⟩
    exact ⟨by omega, hzero, by omega, hnonneg⟩

omit [Field K] [LinearOrder K] in
theorem sum_dim_cones (c : Conic K) : (c.cones.map Cone.dim).sum = c.nEq + c.nIneq + c.nBound := by
  unfold Conic.cones
  split_ifs <;> simp [Cone.dim] <;> omega

end Cones

namespace Model

/-! ### The list of rows -/

section Rows

variable {α : Type} [Scalar α]

/-- The rows for all finite bounds of a box. -/
def boundBlock (m : Model α) (lower upper : List α) : List (ConicRow α) :=
  (lower.zip upper).zipIdx.flatMap fun c => boundRows m.infinity c.2 c.1.1 c.1.2

/-- All rows of the conic form, in their order. -/
def conicRows (m : Model α) (lower upper : List α) : List (ConicRow α) :=
  m.rowsOf .equal ++ m.rowsOf .lessEqual ++ m.boundBlock lower upper

/-- The coefficients of a list of rows, each with the place of its row. -/
def placed (rows : List (ConicRow α)) : List (Triplet α) :=
  rows.zipIdx.flatMap fun r => r.1.entries.map fun e => ⟨r.2, e.1, e.2⟩

omit [Scalar α] in
theorem filter_placed {rows : List (ConicRow α)} {i : Nat} {r : ConicRow α}
    (h : rows[i]? = some r) :
    (placed rows).filter (·.row = i) = r.entries.map fun e => ⟨i, e.1, e.2⟩ := by
  have hfilter := Sparse.filter_numbered rows (fun k r => r.entries.map fun e => ⟨k, e.1, e.2⟩)
    (·.row) (fun k r t ht => by obtain ⟨e, -, rfl⟩ := List.mem_map.1 ht; rfl) i
  rwa [h] at hfilter

theorem assemble_eq (m : Model α) (lower upper : List α) :
    m.assemble lower upper =
      { p := m.quadratic.getD (.zeros m.nVar m.nVar)
        q := m.costs
        a := .ofTriplets (m.conicRows lower upper).length m.nVar (placed (m.conicRows lower upper))
        b := (m.conicRows lower upper).map (·.rhs)
        nEq := (m.rowsOf .equal).length
        nIneq := (m.rowsOf .lessEqual).length
        nBound := (m.boundBlock lower upper).length } := rfl

theorem length_b_assemble (m : Model α) (lower upper : List α) :
    (m.assemble lower upper).nEq + (m.assemble lower upper).nIneq +
      (m.assemble lower upper).nBound = (m.assemble lower upper).b.length := by
  simp [assemble_eq, conicRows, Nat.add_assoc]

omit [Scalar α] in
theorem getElem?_rowsOf (m : Model α) (sense : RowSense) (k : Nat) :
    (m.rowsOf sense)[k]? = (m.rows.filter (·.sense = sense))[k]?.map Row.toConic := by
  rw [rowsOf, List.getElem?_map]

omit [Scalar α] in
theorem mem_rowsOf {m : Model α} {sense : RowSense} {r : ConicRow α} :
    r ∈ m.rowsOf sense ↔ ∃ row ∈ m.rows, row.sense = sense ∧ Row.toConic row = r := by
  simp only [rowsOf, List.mem_map, List.mem_filter, decide_eq_true_eq, and_assoc]

theorem mem_boundBlock {m : Model α} {lower upper : List α} {r : ConicRow α} :
    r ∈ m.boundBlock lower upper ↔ ∃ j l u, lower[j]? = some l ∧ upper[j]? = some u ∧
      (u < m.infinity ∧ r = ⟨[(j, 1)], u⟩ ∨ -m.infinity < l ∧ r = ⟨[(j, -1)], -l⟩) := by
  -- a variable has a row for each of its bounds that is finite
  have hrows : ∀ j l u, r ∈ boundRows m.infinity j l u ↔
      u < m.infinity ∧ r = ⟨[(j, 1)], u⟩ ∨ -m.infinity < l ∧ r = ⟨[(j, -1)], -l⟩ := by
    intro j l u
    unfold boundRows
    split_ifs with hu hl hl <;> simp [hu, hl]
  constructor
  · intro hr
    obtain ⟨⟨⟨l, u⟩, j⟩, hmem, hr⟩ := List.mem_flatMap.1 hr
    have hzip := List.mk_mem_zipIdx_iff_getElem?.1 hmem
    obtain ⟨hl, hu⟩ := List.getElem?_zip_eq_some.1 hzip
    exact ⟨j, l, u, hl, hu, (hrows j l u).1 hr⟩
  · rintro ⟨j, l, u, hl, hu, hr⟩
    exact List.mem_flatMap.2 ⟨((l, u), j), List.mk_mem_zipIdx_iff_getElem?.2
      (List.getElem?_zip_eq_some.2 ⟨hl, hu⟩), (hrows j l u).2 hr⟩

theorem Sound.conicRows_lt {m : Model α} (hm : m.Sound) {lower upper : List α}
    (hlower : lower.length = m.nVar) {r : ConicRow α} (hr : r ∈ m.conicRows lower upper) :
    ∀ e ∈ r.entries, e.1 < m.nVar := by
  have hmodel : ∀ sense, r ∈ m.rowsOf sense → ∀ e ∈ r.entries, e.1 < m.nVar := by
    intro sense hr e he
    obtain ⟨row, hrow, -, rfl⟩ := mem_rowsOf.1 hr
    exact hm.cols_lt row hrow e.1 (List.of_mem_zip he).1
  rcases List.mem_append.1 hr with hr | hr
  · rcases List.mem_append.1 hr with hr | hr
    · exact hmodel .equal hr
    · exact hmodel .lessEqual hr
  · obtain ⟨j, l, u, hl, -, ⟨-, rfl⟩ | ⟨-, rfl⟩⟩ := mem_boundBlock.1 hr
    · intro e he
      obtain rfl := List.mem_singleton.1 he
      exact hlower ▸ (List.getElem?_eq_some_iff.1 hl).1
    · intro e he
      obtain rfl := List.mem_singleton.1 he
      exact hlower ▸ (List.getElem?_eq_some_iff.1 hl).1

end Rows

/-! ### The matrix and the slacks -/

section Values

variable {K : Type} [Field K] [LinearOrder K] [FloorRing K]

variable {m : Model K} {lower upper : List K}

theorem rowDot_assemble (hm : m.Sound) (hlower : lower.length = m.nVar) {i : Nat} {r : ConicRow K}
    (h : (m.conicRows lower upper)[i]? = some r) (x : List K) :
    (m.assemble lower upper).a.rowDot i x = r.value x := by
  have hcols : ∀ t ∈ placed (m.conicRows lower upper), t.col < m.nVar := by
    intro t ht
    obtain ⟨c, hc, ht⟩ := List.mem_flatMap.1 ht
    obtain ⟨e, he, rfl⟩ := List.mem_map.1 ht
    have hrow := List.mem_of_getElem? (List.mk_mem_zipIdx_iff_getElem?.1 hc)
    exact hm.conicRows_lt hlower hrow e he
  have hi : i < (m.conicRows lower upper).length := (List.getElem?_eq_some_iff.1 h).1
  rw [assemble_eq]
  simp only
  rw [Sparse.rowDot_ofTriplets hcols hi, filter_placed h, List.map_map]
  rfl

/-- What is left on the right of every row. -/
def slackOf (rows : List (ConicRow K)) (x : List K) : List K := rows.map fun r => r.rhs - r.value x

theorem slack_eq (hm : m.Sound) (hlower : lower.length = m.nVar) {x s : List K} :
    (m.assemble lower upper).Slack x s ↔ s = slackOf (m.conicRows lower upper) x := by
  have hb : (m.assemble lower upper).b = (m.conicRows lower upper).map (·.rhs) := rfl
  constructor
  -- in every row the slack is determined by the other two terms
  · rintro ⟨hlength, hsum⟩
    apply List.ext_getElem?
    intro i
    rw [slackOf, List.getElem?_map]
    cases hr : (m.conicRows lower upper)[i]? with
    | none =>
        rw [Option.map_none, List.getElem?_eq_none_iff, hlength, hb, List.length_map]
        exact List.getElem?_eq_none_iff.1 hr
    | some r =>
        have hi : i < s.length := by
          rw [hlength, hb, List.length_map]
          exact (List.getElem?_eq_some_iff.1 hr).1
        have hrow := hsum i r.rhs s[i] (by simp [hb, hr]) (List.getElem?_eq_getElem hi)
        rw [rowDot_assemble hm hlower hr] at hrow
        rw [List.getElem?_eq_getElem hi, Option.map_some, Option.some.injEq]
        exact eq_sub_of_add_eq' hrow
  · rintro rfl
    refine ⟨by simp [slackOf, hb], fun i b v hbi hvi => ?_⟩
    rw [slackOf, List.getElem?_map, Option.map_eq_some_iff] at hvi
    rw [hb, List.getElem?_map, Option.map_eq_some_iff] at hbi
    obtain ⟨r, hr, rfl⟩ := hvi
    obtain ⟨r', hr', rfl⟩ := hbi
    obtain rfl : r = r' := Option.some.inj (hr.symm.trans hr')
    rw [rowDot_assemble hm hlower hr, add_sub_cancel]

/-! ### Order of the rows -/

/-- Row `i` of the conic form is a row of the model. -/
def HasRow (c : Conic K) (i : Nat) (row : Row K) : Prop :=
  c.b[i]? = some row.rhs ∧ ∀ x, c.a.rowDot i x = row.value x

/-- Row `i` of the conic form is the finite upper bound of some variable, or the finite lower bound
with its sign changed. -/
def HasBound (c : Conic K) (infinity : K) (lower upper : List K) (i : Nat) : Prop :=
  ∃ j, (∃ u, upper[j]? = some u ∧ u < infinity ∧ c.b[i]? = some u ∧
      ∀ x, c.a.rowDot i x = x.getD j 0) ∨
    ∃ l, lower[j]? = some l ∧ -infinity < l ∧ c.b[i]? = some (-l) ∧
      ∀ x, c.a.rowDot i x = -x.getD j 0

theorem hasRow_of_getElem? (hm : m.Sound) (hlower : lower.length = m.nVar) {i : Nat} {row : Row K}
    (h : (m.conicRows lower upper)[i]? = some (Row.toConic row)) :
    HasRow (m.assemble lower upper) i row := by
  refine ⟨?_, fun x => rowDot_assemble hm hlower h x⟩
  rw [assemble_eq]
  simp only [List.getElem?_map, h, Option.map_some]
  rfl

/-- The equations come first, in their order. -/
theorem hasRow_equal (hm : m.Sound) (hlower : lower.length = m.nVar) {k : Nat} {row : Row K}
    (h : (m.rows.filter (·.sense = .equal))[k]? = some row) :
    HasRow (m.assemble lower upper) k row := by
  have hk : (m.rowsOf .equal)[k]? = some (Row.toConic row) := by
    rw [getElem?_rowsOf, h]
    rfl
  have hlt := (List.getElem?_eq_some_iff.1 hk).1
  refine hasRow_of_getElem? hm hlower ?_
  rw [conicRows, List.append_assoc, List.getElem?_append_left hlt, hk]

/-- The inequalities come next, in their order. -/
theorem hasRow_lessEqual (hm : m.Sound) (hlower : lower.length = m.nVar) {k : Nat} {row : Row K}
    (h : (m.rows.filter (·.sense = .lessEqual))[k]? = some row) :
    HasRow (m.assemble lower upper) ((m.assemble lower upper).nEq + k) row := by
  have hk : (m.rowsOf .lessEqual)[k]? = some (Row.toConic row) := by
    rw [getElem?_rowsOf, h]
    rfl
  have hlt := (List.getElem?_eq_some_iff.1 hk).1
  have hnEq : (m.assemble lower upper).nEq = (m.rowsOf .equal).length := rfl
  refine hasRow_of_getElem? hm hlower ?_
  rw [conicRows, hnEq, List.append_assoc, List.getElem?_append_right (by omega),
    Nat.add_sub_cancel_left, List.getElem?_append_left hlt, hk]

/-- Everything else is a bound. -/
theorem hasBound_of_le (hm : m.Sound) (hlower : lower.length = m.nVar) {i : Nat}
    (hle : (m.assemble lower upper).nEq + (m.assemble lower upper).nIneq ≤ i)
    (hlt : i < (m.assemble lower upper).b.length) :
    HasBound (m.assemble lower upper) m.infinity lower upper i := by
  have hi : i < (m.conicRows lower upper).length := by simpa [assemble_eq] using hlt
  have hrow : (m.conicRows lower upper)[i]? = some (m.conicRows lower upper)[i] :=
    List.getElem?_eq_getElem hi
  -- the rows of the model are all before place `i`
  have hbound : (m.conicRows lower upper)[i] ∈ m.boundBlock lower upper := by
    have hfront : (m.rowsOf .equal ++ m.rowsOf .lessEqual).length ≤ i := by
      simpa [assemble_eq] using hle
    refine List.mem_of_getElem? (i := i - (m.rowsOf .equal ++ m.rowsOf .lessEqual).length) ?_
    rw [← hrow, conicRows, List.getElem?_append_right hfront]
  have hb : (m.assemble lower upper).b[i]? = some (m.conicRows lower upper)[i].rhs := by
    simp [assemble_eq, hrow]
  have hvalue := rowDot_assemble hm hlower hrow
  generalize (m.conicRows lower upper)[i] = r at hbound hb hvalue
  obtain ⟨j, l, u, hl, hu, ⟨hfinite, rfl⟩ | ⟨hfinite, rfl⟩⟩ := mem_boundBlock.1 hbound
  · exact ⟨j, .inl ⟨u, hu, hfinite, hb, fun x => by simp [hvalue, ConicRow.value]⟩⟩
  · exact ⟨j, .inr ⟨l, hl, hfinite, hb, fun x => by simp [hvalue, ConicRow.value]⟩⟩

/-! ### Multipliers -/

/-- The multipliers belong to the rows of one sense, which start at an offset: there are as many,
and the `k`-th is the one that the engine gave to the `k`-th row of that sense. -/
def Paired (m : Model K) (sense : RowSense) (c : Conic K) (offset : Nat) (z duals : List K) :
    Prop :=
  duals.length = (m.rows.filter (·.sense = sense)).length ∧
    ∀ (k : Nat) (row : Row K), (m.rows.filter (·.sense = sense))[k]? = some row →
      HasRow c (offset + k) row ∧ ∃ v : K, z[offset + k]? = some v ∧ duals[k]? = some v

omit [LinearOrder K] [FloorRing K] in
theorem paired_slice {sense : RowSense} {c : Conic K} {offset n : Nat} {z : List K}
    (hn : n = (m.rows.filter (·.sense = sense)).length) (hlength : offset + n ≤ z.length)
    (hrows : ∀ (k : Nat) (row : Row K), (m.rows.filter (·.sense = sense))[k]? = some row →
      HasRow c (offset + k) row) :
    m.Paired sense c offset z ((z.take (offset + n)).drop offset) := by
  refine ⟨?_, fun k row hrow => ⟨hrows k row hrow, ?_⟩⟩
  · rw [List.length_drop, List.length_take]
    omega
  · have hk := (List.getElem?_eq_some_iff.1 hrow).1
    refine ⟨z[offset + k], List.getElem?_eq_getElem (by omega), ?_⟩
    rw [List.getElem?_drop, List.getElem?_take, if_pos (by omega)]
    exact List.getElem?_eq_getElem (by omega)

theorem relaxationOf_paired (hm : m.Sound) (hlower : lower.length = m.nVar) {answer : Answer K}
    (hx : answer.x.length = m.nVar)
    (hz : answer.z.length = (m.assemble lower upper).b.length) :
    ∃ r, m.relaxationOf (m.assemble lower upper) answer = .ok r ∧
      m.Paired .equal (m.assemble lower upper) 0 answer.z r.eqDuals ∧
      m.Paired .lessEqual (m.assemble lower upper) (m.assemble lower upper).nEq answer.z
        r.ineqDuals := by
  obtain ⟨v, hv⟩ := hm.objective_ok hx
  have hcount := length_b_assemble m lower upper
  have hequal := paired_slice (m := m) (c := m.assemble lower upper) (z := answer.z)
    (n := (m.assemble lower upper).nEq) (by simp [assemble_eq, rowsOf]) (by omega)
    fun k row h => (Nat.zero_add k).symm ▸ hasRow_equal hm hlower h
  have hless := paired_slice (m := m) (c := m.assemble lower upper) (z := answer.z)
    (n := (m.assemble lower upper).nIneq) (by simp [assemble_eq, rowsOf]) (by omega)
    fun k row h => hasRow_lessEqual hm hlower h
  rw [Nat.zero_add, List.drop_zero] at hequal
  refine ⟨_, by rw [relaxationOf, hv]; rfl, ?_, ?_⟩
  · simp only
    rwa [if_pos (by omega)]
  · simp only
    rwa [if_pos (by omega)]

/-! ### The points -/

theorem holds_iff {x : List K} :
    (∀ r ∈ m.rows, r.Holds x) ↔ (∀ r ∈ m.rowsOf .equal, r.value x = r.rhs) ∧
      ∀ r ∈ m.rowsOf .lessEqual, r.value x ≤ r.rhs := by
  constructor
  · intro h
    refine ⟨fun r hr => ?_, fun r hr => ?_⟩
    · obtain ⟨row, hrow, hsense, rfl⟩ := mem_rowsOf.1 hr
      have hholds := h row hrow
      rwa [Row.Holds, hsense] at hholds
    · obtain ⟨row, hrow, hsense, rfl⟩ := mem_rowsOf.1 hr
      have hholds := h row hrow
      rwa [Row.Holds, hsense] at hholds
  · rintro ⟨hequal, hless⟩ row hrow
    unfold Row.Holds
    cases hsense : row.sense with
    | equal => exact hequal _ (mem_rowsOf.2 ⟨row, hrow, hsense, rfl⟩)
    | lessEqual => exact hless _ (mem_rowsOf.2 ⟨row, hrow, hsense, rfl⟩)

variable [IsStrictOrderedRing K]

theorem inProduct_slackOf_iff {x : List K} :
    InProduct (m.assemble lower upper).cones (slackOf (m.conicRows lower upper) x) ↔
      (∀ r ∈ m.rowsOf .equal, r.value x = r.rhs) ∧ (∀ r ∈ m.rowsOf .lessEqual, r.value x ≤ r.rhs) ∧
        ∀ r ∈ m.boundBlock lower upper, r.value x ≤ r.rhs := by
  -- the cones cut the slacks where the equations end
  have hslack : slackOf (m.conicRows lower upper) x = slackOf (m.rowsOf .equal) x ++
      (slackOf (m.rowsOf .lessEqual) x ++ slackOf (m.boundBlock lower upper) x) := by
    simp [slackOf, conicRows]
  have hlength : (slackOf (m.rowsOf .equal) x).length = (m.assemble lower upper).nEq := by
    simp [slackOf, assemble_eq]
  have htotal : (slackOf (m.conicRows lower upper) x).length = (m.assemble lower upper).nEq +
      (m.assemble lower upper).nIneq + (m.assemble lower upper).nBound := by
    simp [slackOf, conicRows, assemble_eq, Nat.add_assoc]
  rw [inProduct_cones_iff]
  simp only [htotal, true_and]
  rw [hslack, List.take_left' hlength, List.drop_left' hlength]
  simp only [slackOf, List.mem_append, List.mem_map, or_imp, forall_and, forall_exists_index,
    and_imp, forall_apply_eq_imp_iff₂, sub_eq_zero, sub_nonneg]
  refine and_congr ?_ Iff.rfl
  exact forall₂_congr fun r _ => eq_comm

theorem within_iff (hlength : lower.length = upper.length) {x : List K} :
    (∀ r ∈ m.boundBlock lower upper, r.value x ≤ r.rhs) ↔ Within m.infinity lower upper x := by
  constructor
  · intro h
    refine ⟨fun j u hu hfinite => ?_, fun j l hl hfinite => ?_⟩
    · have hj : j < lower.length := hlength ▸ (List.getElem?_eq_some_iff.1 hu).1
      have hrow := h _ (mem_boundBlock.2 ⟨j, lower[j], u, List.getElem?_eq_getElem hj, hu,
        .inl ⟨hfinite, rfl⟩⟩)
      simpa [ConicRow.value] using hrow
    · have hj : j < upper.length := hlength ▸ (List.getElem?_eq_some_iff.1 hl).1
      have hrow := h _ (mem_boundBlock.2 ⟨j, l, upper[j], hl, List.getElem?_eq_getElem hj,
        .inr ⟨hfinite, rfl⟩⟩)
      simpa [ConicRow.value] using hrow
  · intro h r hr
    obtain ⟨j, l, u, hl, hu, ⟨hfinite, rfl⟩ | ⟨hfinite, rfl⟩⟩ := mem_boundBlock.1 hr
    · have hle := h.le_upper j u hu hfinite
      simpa [ConicRow.value] using hle
    · have hle := h.lower_le j l hl hfinite
      simpa [ConicRow.value] using hle

theorem exists_slack_iff (hm : m.Sound) (hlower : lower.length = m.nVar)
    (hupper : upper.length = m.nVar) {x : List K} (hx : x.length = m.nVar) :
    (∃ s, InProduct (m.assemble lower upper).cones s ∧ (m.assemble lower upper).Slack x s) ↔
      m.Feasible lower upper x := by
  simp only [slack_eq hm hlower, exists_eq_right, inProduct_slackOf_iff]
  rw [← and_assoc, ← holds_iff, within_iff (hlower.trans hupper.symm)]
  constructor
  · rintro ⟨hholds, hwithin⟩
    exact ⟨hx, hholds, hwithin⟩
  · rintro ⟨-, hholds, hwithin⟩
    exact ⟨hholds, hwithin⟩

/-! ### The whole -/

/-- What a conic form has to do with the model and the box that it was assembled from. -/
structure Assembles (m : Model K) (lower upper : List K) (c : Conic K) : Prop where
  /-- There are slacks in the cones exactly at the points that are feasible in the box. -/
  slack : ∀ x, x.length = m.nVar →
    ((∃ s, InProduct c.cones s ∧ c.Slack x s) ↔ m.Feasible lower upper x)
  nEq_eq : c.nEq = (m.rows.filter (·.sense = .equal)).length
  nIneq_eq : c.nIneq = (m.rows.filter (·.sense = .lessEqual)).length
  /-- First the equations in the order of the model. -/
  equation : ∀ (k : Nat) (row : Row K), (m.rows.filter (·.sense = .equal))[k]? = some row →
    HasRow c k row
  /-- Then the inequalities in the order of the model. -/
  inequality : ∀ (k : Nat) (row : Row K), (m.rows.filter (·.sense = .lessEqual))[k]? = some row →
    HasRow c (c.nEq + k) row
  /-- Then nothing but bounds. -/
  bound : ∀ i, c.nEq + c.nIneq ≤ i → i < c.b.length → HasBound c m.infinity lower upper i
  length_b : c.nEq + c.nIneq + c.nBound = c.b.length
  nrows_a : c.a.nrows = c.b.length
  dim_cones : (c.cones.map Cone.dim).sum = c.b.length
  /-- The multipliers in a relaxation are those of the rows of the model. -/
  duals : ∀ answer : Answer K, answer.x.length = m.nVar → answer.z.length = c.b.length →
    ∃ r, m.relaxationOf c answer = .ok r ∧ m.Paired .equal c 0 answer.z r.eqDuals ∧
      m.Paired .lessEqual c c.nEq answer.z r.ineqDuals

/-- **The conic form of a model over a box keeps its points and the order of its rows**, however
rows of both senses were mixed and whichever bounds are finite. -/
theorem assemble_assembles [EngineDefaults K] {m : Model K} (hm : m.Reachable)
    {lower upper : List K} (hlower : lower.length = m.nVar) (hupper : upper.length = m.nVar) :
    m.Assembles lower upper (m.assemble lower upper) where
  slack _ hx := exists_slack_iff hm.sound hlower hupper hx
  nEq_eq := by simp [assemble_eq, rowsOf]
  nIneq_eq := by simp [assemble_eq, rowsOf]
  equation _ _ h := hasRow_equal hm.sound hlower h
  inequality _ _ h := hasRow_lessEqual hm.sound hlower h
  bound _ hle hlt := hasBound_of_le hm.sound hlower hle hlt
  length_b := length_b_assemble m lower upper
  nrows_a := by simp [assemble_eq, Sparse.ofTriplets]
  dim_cones := (sum_dim_cones _).trans (length_b_assemble m lower upper)
  duals _ hx hz := relaxationOf_paired hm.sound hlower hx hz

/-- An inequality, an equation with a repeated variable, and another inequality, with one bound. -/
def mixedModel : Model ℚ :=
  (Call.addRows [([1], [-1])] .lessEqual [0]).after
    ((Call.addRows [([0, 1, 0], [1, 1, 1])] .equal [4]).after
      ((Call.addRows [([0], [1])] .lessEqual [3]).after
        ((Call.addVariables [1, 1] [0, -engineInfinity] [engineInfinity, engineInfinity]).after
          (empty engineInfinity))))

theorem assemble_assembles_mixed :
    mixedModel.Assembles [0, -engineInfinity] [engineInfinity, engineInfinity]
      (mixedModel.assemble [0, -engineInfinity] [engineInfinity, engineInfinity]) :=
  assemble_assembles (.call (.addRows [([1], [-1])] .lessEqual [0])
    (.call (.addRows [([0, 1, 0], [1, 1, 1])] .equal [4])
      (.call (.addRows [([0], [1])] .lessEqual [3])
        (.call (.addVariables [1, 1] [0, -engineInfinity] [engineInfinity, engineInfinity])
          (.empty engineInfinity))))) rfl rfl

end Values

end Model

end QuadProg
