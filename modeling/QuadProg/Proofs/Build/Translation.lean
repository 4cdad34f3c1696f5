import QuadProg.Proofs.Model.Feasible
import QuadProg.Proofs.Sparse.Rows

/-!
# The model of a problem

The model that is built of a problem has the same points.  Three things have to come out right.

* The rows: the matrices are given by columns and are cut into rows, the equations come before the
  inequalities, and every row meets its own right-hand side (`getElem?_blockRows`).
* The kinds: integral variables are marked after the binary ones, so that a variable in both lists
  is integral (`getElem?_kinds`).
* The bounds: the model says nothing of variables but that they are free, and being zero or one
  comes from the kind alone (`within_of_allows`).
-/

namespace QuadProg

open Edit Model

namespace Problem

variable {α : Type}

/-! ### What a checked problem satisfies -/

/-- The dimensions of a problem fit together, and integrality is asked of variables that exist. -/
structure Consistent (d : Problem α) : Prop where
  q_length : d.q.length = d.nVar
  p_size : d.p.nrows = d.nVar ∧ d.p.ncols = d.nVar
  a_size : d.a.nrows = d.nEq ∧ d.a.ncols = d.nVar ∧ d.b.length = d.nEq
  f_size : d.f.nrows = d.nIneq ∧ d.f.ncols = d.nVar ∧ d.g.length = d.nIneq
  integral_lt : ∀ i ∈ d.binary ++ d.integer, i < d.nVar

theorem checkBlock_eq_ok {name : String} {m : Sparse α} {rhs : List α} {rows n : Nat}
    (h : checkBlock name m rhs rows n = .ok ()) :
    m.nrows = rows ∧ m.ncols = n ∧ rhs.length = rows := by
  unfold checkBlock at h
  split_ifs at h with hsize
  simp only [not_or, ne_eq, not_not] at hsize
  exact hsize

variable [Scalar α]

theorem consistent_of_check {d : Problem α} (h : d.check = .ok ()) : d.Consistent := by
  unfold check at h
  obtain ⟨hq, h⟩ := guard_eq_ok.1 h
  obtain ⟨hp, h⟩ := guard_eq_ok.1 h
  obtain ⟨-, h⟩ := guard_eq_ok.1 h
  obtain ⟨_, ha, h⟩ := bind_eq_ok.1 h
  obtain ⟨_, hf, h⟩ := bind_eq_ok.1 h
  refine ⟨not_not.1 hq, by simpa using hp, checkBlock_eq_ok ha, checkBlock_eq_ok hf,
    fun i hi => ?_⟩
  cases hfind : (d.binary ++ d.integer).find? (d.nVar ≤ ·) with
  | some i =>
      rw [hfind] at h
      cases h
  | none => simpa using List.find?_eq_none.1 hfind i hi

/-! ### The model in full -/

variable [EngineDefaults α]

/-- Free variables, marked with their kinds. -/
def modelColumns (d : Problem α) : List (Column α) :=
  markKind .integer d.integer (markKind .binary d.binary
    (freshColumns d.q (List.replicate d.nVar (-engineInfinity))
      (List.replicate d.nVar engineInfinity)))

def blockRows (sense : RowSense) (m : Sparse α) (rhs : List α) : List (Row α) :=
  freshRows sense (m.rowSlices.zip (rhs.map (clamp engineInfinity)))

def modelRows (d : Problem α) : List (Row α) :=
  blockRows .equal d.a d.b ++ blockRows .lessEqual d.f d.g

/-- Every row has its own right-hand side, which is moved to infinity if it was beyond. -/
theorem map_rhs_blockRows (sense : RowSense) {m : Sparse α} {rhs : List α}
    (hrhs : rhs.length = m.nrows) :
    (blockRows sense m rhs).map (·.rhs) = rhs.map (clamp engineInfinity) := by
  have hlength : (rhs.map (clamp engineInfinity)).length ≤ m.rowSlices.length := by
    simp [Sparse.rowSlices, hrhs]
  rw [blockRows, freshRows, List.map_map]
  exact List.map_snd_zip hlength

theorem length_blockRows {sense : RowSense} {m : Sparse α} {rhs : List α}
    (hrhs : rhs.length = m.nrows) : (blockRows sense m rhs).length = rhs.length := by
  simp [blockRows, freshRows, Sparse.rowSlices, hrhs]

/-- A row of a block is the row of its matrix, with its right-hand side. -/
theorem blockRows_of_rhs (sense : RowSense) {m : Sparse α} {rhs : List α} {i : Nat} {b : α}
    (hi : i < m.nrows) (hb : rhs[i]? = some b) :
    (blockRows sense m rhs)[i]? = some ⟨(m.triplets.filter (·.row = i)).map (·.col),
      (m.triplets.filter (·.row = i)).map (·.value), sense, clamp engineInfinity b⟩ := by
  have hclamp : (rhs.map (clamp engineInfinity))[i]? = some (clamp engineInfinity b) := by
    simp [hb]
  have hzip : (m.rowSlices.zip (rhs.map (clamp engineInfinity)))[i]? =
      some (_, clamp engineInfinity b) :=
    List.getElem?_zip_eq_some.2 ⟨m.getElem?_rowSlices hi, hclamp⟩
  rw [blockRows, freshRows, List.getElem?_map, hzip]
  rfl

theorem filter_blockRows (sense sense' : RowSense) (m : Sparse α) (rhs : List α) :
    (blockRows sense m rhs).filter (·.sense = sense') =
      if sense = sense' then blockRows sense m rhs else [] := by
  have hsense : ∀ r ∈ blockRows sense m rhs, r.sense = sense := by
    intro r hr
    obtain ⟨_, -, rfl⟩ := List.mem_map.1 hr
    rfl
  split_ifs with h
  · exact List.filter_eq_self.2 fun r hr => by simp [hsense r hr, h]
  · exact List.filter_eq_nil_iff.2 fun r hr => by simp [hsense r hr, h]

theorem filter_modelRows (d : Problem α) :
    d.modelRows.filter (·.sense = .equal) = blockRows .equal d.a d.b ∧
      d.modelRows.filter (·.sense = .lessEqual) = blockRows .lessEqual d.f d.g := by
  simp [modelRows, List.filter_append, filter_blockRows]

/-- There is a quadratic cost only where some stored entry is not zero. -/
def modelQuadratic (d : Problem α) : Option (Sparse α) :=
  if d.p.hasNonzero then some d.p.upperTriangle else none

theorem length_modelColumns {d : Problem α} (hd : d.Consistent) :
    d.modelColumns.length = d.nVar := by
  simp [modelColumns, freshColumns, hd.q_length]

omit [Scalar α] in
theorem cols_lt_of_mem_rowSlices {m : Sparse α} (hm : m.WellFormed) {r : List Nat × List α}
    (hr : r ∈ m.rowSlices) : ∀ c ∈ r.1, c < m.ncols := by
  intro c hc
  obtain ⟨i, -, rfl⟩ := List.mem_map.1 hr
  obtain ⟨t, ht, rfl⟩ := List.mem_map.1 hc
  exact hm.col_lt (List.mem_of_mem_filter ht)

theorem apply_addBlock {m : Sparse α} {rhs : List α} (hm : m.WellFormed) {w : Model α}
    (hncols : m.ncols = w.nVar) (hrhs : rhs.length = m.nrows) (sense : RowSense) :
    apply (addRows m.rowSlices sense (rhs.map (clamp engineInfinity))) w =
      (.ok (), { w with rows := w.rows ++ blockRows sense m rhs }) :=
  apply_addRows_of_fits (by simp [Sparse.rowSlices, hrhs])
    (fun _ hr c hc => hncols ▸ cols_lt_of_mem_rowSlices hm hr c hc) sense

/-- The variables of a checked problem are added and marked; rows and cost come after them. -/
theorem apply_build_eq {d : Problem α} (hd : d.Consistent) :
    apply d.build (.empty engineInfinity) =
      apply (do
        addRows d.a.rowSlices .equal (d.b.map (clamp engineInfinity))
        addRows d.f.rowSlices .lessEqual (d.g.map (clamp engineInfinity))
        if d.p.hasNonzero then setQuadratic d.p)
        ⟨d.modelColumns, [], none, .default, engineInfinity⟩ := by
  let free : List (Column α) := freshColumns d.q (List.replicate d.nVar (-engineInfinity))
    (List.replicate d.nVar engineInfinity)
  have hfree : free.length = d.nVar := by simp [free, freshColumns, hd.q_length]
  have hvariables : apply (addVariables d.q (List.replicate d.nVar (-engineInfinity))
      (List.replicate d.nVar engineInfinity)) (.empty engineInfinity) =
      (.ok 0, ⟨free, [], none, .default, engineInfinity⟩) := by
    rw [apply_addVariables, if_neg (by simp [hd.q_length])]
    rfl
  -- from here on every edit acts on the model that the one before it left
  have hmarked : (markKind .binary d.binary free).length = d.nVar := by simp [hfree]
  have hbinary := apply_forM_setKind .binary
    (m := ⟨free, [], none, .default, engineInfinity⟩) fun i hi =>
      (hd.integral_lt i (List.mem_append_left _ hi)).trans_eq hfree.symm
  have hinteger := apply_forM_setKind .integer
    (m := ⟨markKind .binary d.binary free, [], none, .default, engineInfinity⟩) fun i hi =>
      (hd.integral_lt i (List.mem_append_right _ hi)).trans_eq hmarked.symm
  unfold build
  exact (apply_bind_of_ok hvariables).trans ((apply_bind_of_ok hbinary).trans
    (apply_bind_of_ok hinteger))

/-- The quadratic cost of a checked problem fits. -/
theorem apply_buildQuadratic {d : Problem α} (hd : d.Consistent) (rows : List (Row α)) :
    apply (if d.p.hasNonzero then setQuadratic d.p else pure ())
        ⟨d.modelColumns, rows, none, .default, engineInfinity⟩ =
      (.ok (), ⟨d.modelColumns, rows, d.modelQuadratic, .default, engineInfinity⟩) := by
  unfold modelQuadratic
  split_ifs with hp
  · have hsize : ¬ (d.p.nrows ≠ d.modelColumns.length ∨ d.p.ncols ≠ d.modelColumns.length) := by
      simp [length_modelColumns hd, hd.p_size]
    rw [apply_setQuadratic]
    exact if_neg hsize
  · rfl

/-- Building goes through: no edit of a checked problem fails. -/
theorem apply_build {d : Problem α} (hd : d.Consistent) (ha : d.a.WellFormed)
    (hf : d.f.WellFormed) :
    apply d.build (.empty engineInfinity) =
      (.ok (), ⟨d.modelColumns, d.modelRows, d.modelQuadratic, .default, engineInfinity⟩) := by
  have hcolumns := length_modelColumns hd
  obtain ⟨hap, haq, hab⟩ := hd.a_size
  obtain ⟨hfp, hfq, hfb⟩ := hd.f_size
  have hequations := apply_addBlock (w := ⟨d.modelColumns, [], none, .default, engineInfinity⟩) ha
    (haq.trans hcolumns.symm) (hab.trans hap.symm) .equal
  have hinequalities := apply_addBlock (w := ⟨d.modelColumns, blockRows .equal d.a d.b, none,
    .default, engineInfinity⟩) hf (hfq.trans hcolumns.symm) (hfb.trans hfp.symm) .lessEqual
  exact (apply_build_eq hd).trans ((apply_bind_of_ok hequations).trans
    ((apply_bind_of_ok hinequalities).trans (apply_buildQuadratic hd _)))

/-- What is built of a checked problem, whether its matrices are well-formed or not. -/
theorem eq_of_build {d : Problem α} (hd : d.Consistent) {m : Model α}
    (h : apply d.build (.empty engineInfinity) = (.ok (), m)) :
    m = ⟨d.modelColumns, d.modelRows, d.modelQuadratic, .default, engineInfinity⟩ := by
  rw [apply_build_eq hd] at h
  obtain ⟨⟨⟩, w, hequations, h⟩ := apply_bind_eq_ok_iff.1 h
  obtain ⟨⟨⟩, w', hinequalities, h⟩ := apply_bind_eq_ok_iff.1 h
  obtain rfl := eq_of_apply_addRows hequations
  obtain rfl := eq_of_apply_addRows hinequalities
  exact (Prod.mk.inj (h.symm.trans (apply_buildQuadratic hd _))).2

omit [EngineDefaults α] in
/-- Options that are accepted one by one are accepted together. -/
theorem apply_setControls {options : Options α}
    (h : ∀ e ∈ options.entries, ∃ c d : Controls α, c.set e.1 e.2 = .ok d) (m : Model α) :
    ∃ c, apply (setControls options) m = (.ok (), { m with controls := c }) := by
  unfold setControls
  generalize options.entries = entries at h
  induction entries generalizing m with
  | nil => exact ⟨m.controls, rfl⟩
  | cons e es ih =>
      obtain ⟨c, d, hset⟩ := h e List.mem_cons_self
      obtain ⟨d', hset'⟩ := Controls.set_ok_of_ok hset m.controls
      obtain ⟨c', hrest⟩ := ih { m with controls := d' }
        fun f hf => h f (List.mem_cons_of_mem _ hf)
      exact ⟨c', by rw [apply_forM_cons, apply_setControl, hset']; exact hrest⟩

theorem toModel_eq_ok {d : Problem α} (hcheck : d.check = .ok ()) (ha : d.a.WellFormed)
    (hf : d.f.WellFormed) {options : Options α}
    (hoptions : ∀ e ∈ options.entries, ∃ c d : Controls α, c.set e.1 e.2 = .ok d)
    (verbose : Bool) :
    ∃ p c, d.toModel verbose options =
      .ok ⟨d.modelColumns, d.modelRows, p, c, engineInfinity⟩ := by
  have hbuild := apply_build (consistent_of_check hcheck) ha hf
  obtain ⟨c, hcontrols⟩ := apply_setControls hoptions (setVerbose verbose
    ⟨d.modelColumns, d.modelRows, d.modelQuadratic, .default, engineInfinity⟩)
  exact ⟨_, c, toModel_eq_ok_iff.2 ⟨hcheck, _, hbuild, hcontrols⟩⟩

/-- There is no other model of the problem, since options change nothing but the controls. -/
theorem eq_of_toModel {d : Problem α} {verbose : Bool} {options : Options α} {m : Model α}
    (h : d.toModel verbose options = .ok m) :
    ∃ c, m = ⟨d.modelColumns, d.modelRows, d.modelQuadratic, c, engineInfinity⟩ := by
  obtain ⟨hcheck, built, hbuild, hcontrols⟩ := toModel_eq_ok_iff.1 h
  obtain rfl := eq_of_build (consistent_of_check hcheck) hbuild
  have hkeeps : ∀ e : String × OptionValue α, Keeps (fun m : Model α => ∃ c,
      m = ⟨d.modelColumns, d.modelRows, d.modelQuadratic, c, engineInfinity⟩)
      (setControl e.1 e.2) := by
    rintro e m ⟨c, rfl⟩
    rw [apply_setControl]
    cases c.set e.1 e.2 with
    | error fault => exact ⟨c, rfl⟩
    | ok c' => exact ⟨c', rfl⟩
  have hm := keeps_forM hkeeps options.entries (setVerbose verbose
    ⟨d.modelColumns, d.modelRows, d.modelQuadratic, .default, engineInfinity⟩) ⟨_, rfl⟩
  unfold setControls at hcontrols
  rwa [hcontrols] at hm

/-! ### Its columns -/

theorem getElem?_modelColumns {d : Problem α} (hd : d.Consistent) {j : Nat} (hj : j < d.nVar) :
    ∃ cost, d.modelColumns[j]? = some ⟨cost, -engineInfinity, engineInfinity,
      if j ∈ d.integer then .integer else if j ∈ d.binary then .binary else .continuous⟩ := by
  have hq : j < d.q.length := hd.q_length ▸ hj
  refine ⟨d.q[j], ?_⟩
  have hfree : (freshColumns d.q (List.replicate d.nVar (-engineInfinity))
      (List.replicate d.nVar engineInfinity))[j]? =
      some ⟨d.q[j], -engineInfinity, engineInfinity, .continuous⟩ := by
    simp [freshColumns, hq, hj]
  simp only [modelColumns, markKind, List.getElem?_mapIdx, hfree, Option.map_some]
  split_ifs <;> rfl

section Kinds

variable {d : Problem α} {m : Model α}

/-- Integral variables are marked last. -/
theorem getElem?_kinds (hd : d.Consistent) (hm : m.columns = d.modelColumns) {j : Nat}
    (hj : j < d.nVar) :
    m.kinds[j]? =
      some (if j ∈ d.integer then .integer else if j ∈ d.binary then .binary else .continuous) := by
  obtain ⟨cost, hcolumn⟩ := getElem?_modelColumns hd hj
  rw [kinds, hm, List.getElem?_map, hcolumn]
  rfl

theorem lt_nVar_of_kinds (hd : d.Consistent) (hm : m.columns = d.modelColumns) {j : Nat}
    {k : VarKind} (hk : m.kinds[j]? = some k) : j < d.nVar := by
  have hj := (List.getElem?_eq_some_iff.1 hk).1
  rwa [kinds, List.length_map, hm, length_modelColumns hd] at hj

/-- The variables of a model are free, and it knows their kinds. -/
theorem exists_column (hd : d.Consistent) (hm : m.columns = d.modelColumns) {j : Nat}
    {c : Column α} (hc : m.columns[j]? = some c) :
    c.lower = -engineInfinity ∧ c.upper = engineInfinity ∧ m.kinds[j]? = some c.kind := by
  have hj : j < d.nVar := by
    have := (List.getElem?_eq_some_iff.1 hc).1
    rwa [hm, length_modelColumns hd] at this
  obtain ⟨cost, hcolumn⟩ := getElem?_modelColumns hd hj
  obtain rfl := Option.some.inj (hc.symm.trans (hm ▸ hcolumn))
  exact ⟨rfl, rfl, by rw [kinds, List.getElem?_map, hc]; rfl⟩

theorem mem_integerIndices_iff (hd : d.Consistent) (hm : m.columns = d.modelColumns) {j : Nat} :
    j ∈ m.integerIndices ↔ j ∈ d.binary ∨ j ∈ d.integer := by
  rw [mem_integerIndices]
  constructor
  · rintro ⟨k, hk, hne⟩
    -- of the three kinds only the continuous one is ruled out
    rw [getElem?_kinds hd hm (lt_nVar_of_kinds hd hm hk)] at hk
    obtain rfl := Option.some.inj hk
    split_ifs at hne with hint hbin
    · exact .inr hint
    · exact .inl hbin
    · exact absurd rfl hne
  · intro hmem
    have hj : j < d.nVar := hd.integral_lt j (List.mem_append.2 hmem)
    refine ⟨_, getElem?_kinds hd hm hj, ?_⟩
    split_ifs with hint hbin
    · simp
    · simp
    · exact absurd hmem (not_or.2 ⟨hbin, hint⟩)

theorem isMixed_eq (hd : d.Consistent) (hm : m.columns = d.modelColumns) :
    m.isMixed = d.isMixed := by
  rw [Bool.eq_iff_iff, isMixed_iff]
  simp only [mem_integerIndices_iff hd hm, isMixed, Bool.or_eq_true, Bool.not_eq_true',
    List.isEmpty_eq_false_iff_exists_mem, exists_or]

end Kinds

/-! ### Its rows -/

section Exact

variable {K : Type} [Field K] [LinearOrder K] [FloorRing K] [EngineDefaults K]

/-- The row is row `i` of the matrix, with its right-hand side. -/
structure Reads (r : Row K) (sense : RowSense) (m : Sparse K) (i : Nat) (rhs : K) : Prop where
  sense_eq : r.sense = sense
  rhs_eq : r.rhs = clamp engineInfinity rhs
  length_eq : r.cols.length = r.vals.length
  value_eq : ∀ x, r.value x = m.rowDot i x

/-- Cut into rows, a matrix is the same, whatever it stores. -/
theorem getElem?_blockRows (sense : RowSense) {m : Sparse K} (hm : m.WellFormed) {rhs : List K}
    (hrhs : rhs.length = m.nrows) {i : Nat} {b : K} (hb : rhs[i]? = some b) :
    ∃ r, (blockRows sense m rhs)[i]? = some r ∧ Reads r sense m i b := by
  have hi : i < m.nrows := hrhs ▸ (List.getElem?_eq_some_iff.1 hb).1
  refine ⟨_, blockRows_of_rhs sense hi hb, rfl, rfl, by simp, fun x => ?_⟩
  rw [hm.rowDot_eq_sum, Row.value, List.zip_map', List.map_map]
  rfl

theorem holds_blockRows_iff (sense : RowSense) {m : Sparse K} (hm : m.WellFormed) {rhs : List K}
    (hrhs : rhs.length = m.nrows) {x : List K} :
    (∀ r ∈ blockRows sense m rhs, r.Holds x) ↔
      ∀ i b, rhs[i]? = some b → sense.Relates (m.rowDot i x) (clamp engineInfinity b) := by
  constructor
  · intro h i b hb
    obtain ⟨r, hr, hreads⟩ := getElem?_blockRows sense hm hrhs hb
    have hholds := h r (List.mem_of_getElem? hr)
    rwa [Row.Holds, hreads.sense_eq, hreads.value_eq, hreads.rhs_eq] at hholds
  · intro h r hr
    obtain ⟨i, hi⟩ := List.mem_iff_getElem?.1 hr
    have hlt := (List.getElem?_eq_some_iff.1 hi).1
    rw [length_blockRows hrhs] at hlt
    have hb : rhs[i]? = some rhs[i] := List.getElem?_eq_getElem hlt
    obtain ⟨r', hr', hreads⟩ := getElem?_blockRows sense hm hrhs hb
    obtain rfl : r = r' := Option.some.inj (hi.symm.trans hr')
    rw [Row.Holds, hreads.sense_eq, hreads.value_eq, hreads.rhs_eq]
    exact h i _ hb

/-! ### Its points -/

/-- The points that a problem allows.  Right-hand sides beyond the engine's infinity count as that,
and integrality without bounds takes precedence over being zero or one. -/
structure Feasible (d : Problem K) (x : List K) : Prop where
  equations : ∀ i b, d.b[i]? = some b → d.a.rowDot i x = clamp engineInfinity b
  inequalities : ∀ i g, d.g[i]? = some g → d.f.rowDot i x ≤ clamp engineInfinity g
  binary : ∀ j ∈ d.binary, j ∉ d.integer → x.getD j 0 = 0 ∨ x.getD j 0 = 1
  integer : ∀ j ∈ d.integer, IsWhole (x.getD j 0)

variable {d : Problem K} {m : Model K} {x : List K}

theorem allows_iff (hd : d.Consistent) (hm : m.columns = d.modelColumns) :
    (∀ (j : Nat) (k : VarKind), m.kinds[j]? = some k → k.Allows (x.getD j 0)) ↔
      (∀ j ∈ d.binary, j ∉ d.integer → x.getD j 0 = 0 ∨ x.getD j 0 = 1) ∧
        ∀ j ∈ d.integer, IsWhole (x.getD j 0) := by
  constructor
  · intro h
    refine ⟨fun j hj hint => ?_, fun j hj => ?_⟩
    · have hk := h j _ (getElem?_kinds hd hm (hd.integral_lt j (List.mem_append_left _ hj)))
      simpa [hint, hj, VarKind.Allows] using hk
    · have hk := h j _ (getElem?_kinds hd hm (hd.integral_lt j (List.mem_append_right _ hj)))
      simpa [hj, VarKind.Allows] using hk
  · rintro ⟨hbinary, hinteger⟩ j k hk
    rw [getElem?_kinds hd hm (lt_nVar_of_kinds hd hm hk)] at hk
    obtain rfl := Option.some.inj hk
    split_ifs with hint hbin
    · exact hinteger j hint
    · exact hbinary j hbin hint
    · trivial

variable [IsStrictOrderedRing K]

/-- The bounds add nothing to the kinds. -/
theorem within_of_allows (hd : d.Consistent) (hm : m.columns = d.modelColumns)
    (hinf : m.infinity = engineInfinity)
    (h : ∀ (j : Nat) (k : VarKind), m.kinds[j]? = some k → k.Allows (x.getD j 0)) :
    Within m.infinity m.effectiveBounds.1 m.effectiveBounds.2 x where
  le_upper j u hu hfinite := by
    obtain ⟨c, hc, rfl⟩ : ∃ c, m.columns[j]? = some c ∧ Column.effectiveUpper c = u := by
      simpa [effectiveBounds] using hu
    obtain ⟨-, hupper, hkind⟩ := exists_column hd hm hc
    have hallows := h j c.kind hkind
    -- only a binary variable has a finite bound
    by_cases hbinary : c.kind = .binary
    · rw [Column.effectiveUpper, if_pos hbinary, smaller_eq_min, hupper,
        min_eq_right one_lt_engineInfinity.le]
      rw [hbinary] at hallows
      rcases hallows with h0 | h1
      · rw [h0]; exact zero_le_one
      · exact h1.le
    · rw [Column.effectiveUpper, if_neg hbinary, hupper, hinf] at hfinite
      exact absurd hfinite (lt_irrefl _)
  lower_le j l hl hfinite := by
    obtain ⟨c, hc, rfl⟩ : ∃ c, m.columns[j]? = some c ∧ Column.effectiveLower c = l := by
      simpa [effectiveBounds] using hl
    obtain ⟨hlower, -, hkind⟩ := exists_column hd hm hc
    have hallows := h j c.kind hkind
    by_cases hbinary : c.kind = .binary
    · have hneg : (-engineInfinity : K) ≤ 0 := by
        have := one_lt_engineInfinity (α := K)
        linarith
      rw [Column.effectiveLower, if_pos hbinary, larger_eq_max, hlower, max_eq_right hneg]
      rw [hbinary] at hallows
      rcases hallows with h0 | h1
      · exact h0.ge
      · rw [h1]; exact zero_le_one
    · rw [Column.effectiveLower, if_neg hbinary, hlower, hinf] at hfinite
      exact absurd hfinite (lt_irrefl _)

omit [IsStrictOrderedRing K] in
theorem holds_modelRows_iff (hd : d.Consistent) (ha : d.a.WellFormed) (hf : d.f.WellFormed) :
    (∀ r ∈ d.modelRows, r.Holds x) ↔
      (∀ i b, d.b[i]? = some b → d.a.rowDot i x = clamp engineInfinity b) ∧
        ∀ i g, d.g[i]? = some g → d.f.rowDot i x ≤ clamp engineInfinity g := by
  have hequal := holds_blockRows_iff .equal ha (hd.a_size.2.2.trans hd.a_size.1.symm) (x := x)
  have hless := holds_blockRows_iff .lessEqual hf (hd.f_size.2.2.trans hd.f_size.1.symm) (x := x)
  simp only [modelRows, List.mem_append, or_imp, forall_and]
  rw [hequal, hless]
  rfl

/-- What the model of a problem has to do with the problem. -/
structure Represents (m : Model K) (d : Problem K) : Prop where
  nVar_eq : m.nVar = d.nVar
  /-- The equations come first, then the inequalities, each in the order of its matrix. -/
  length_rows : m.rows.length = d.nEq + d.nIneq
  equation : ∀ i < d.nEq, ∃ r b, m.rows[i]? = some r ∧ d.b[i]? = some b ∧ Reads r .equal d.a i b
  inequality : ∀ i < d.nIneq, ∃ r g, m.rows[d.nEq + i]? = some r ∧ d.g[i]? = some g ∧
    Reads r .lessEqual d.f i g
  /-- Rows, bounds and kinds of the model allow the points that the problem allows. -/
  points : ∀ x, x.length = d.nVar →
    ((∀ r ∈ m.rows, r.Holds x) ∧ Within m.infinity m.effectiveBounds.1 m.effectiveBounds.2 x ∧
      (∀ (j : Nat) (k : VarKind), m.kinds[j]? = some k → k.Allows (x.getD j 0)) ↔ d.Feasible x)
  /-- So do those that a search is after. -/
  integerFeasible : ∀ x, m.IntegerFeasible x ↔ x.length = d.nVar ∧ d.Feasible x
  integers_sorted : m.integerIndices.Pairwise (· < ·)
  mem_integers : ∀ j, j ∈ m.integerIndices ↔ j ∈ d.binary ∨ j ∈ d.integer
  isMixed_eq : m.isMixed = d.isMixed

theorem represents (hd : d.Consistent) (ha : d.a.WellFormed) (hf : d.f.WellFormed)
    (p : Option (Sparse K)) (c : Controls K) :
    Represents ⟨d.modelColumns, d.modelRows, p, c, engineInfinity⟩ d := by
  obtain ⟨hap, -, hb⟩ := hd.a_size
  obtain ⟨hfp, -, hg⟩ := hd.f_size
  have hequations : (blockRows .equal d.a d.b).length = d.nEq :=
    (length_blockRows (hb.trans hap.symm)).trans hb
  have hinequalities : (blockRows .lessEqual d.f d.g).length = d.nIneq :=
    (length_blockRows (hg.trans hfp.symm)).trans hg
  have hpoints : ∀ x, (∀ r ∈ d.modelRows, r.Holds x) ∧
      (∀ (j : Nat) (k : VarKind), (d.modelColumns.map (·.kind))[j]? = some k →
        k.Allows (x.getD j 0)) ↔ d.Feasible x := by
    intro x
    rw [holds_modelRows_iff hd ha hf]
    have hallows := allows_iff (m := ⟨d.modelColumns, d.modelRows, p, c, engineInfinity⟩)
      (x := x) hd rfl
    constructor
    · rintro ⟨⟨heq, hle⟩, hkinds⟩
      obtain ⟨hbinary, hinteger⟩ := hallows.1 hkinds
      exact ⟨heq, hle, hbinary, hinteger⟩
    · rintro ⟨heq, hle, hbinary, hinteger⟩
      exact ⟨⟨heq, hle⟩, hallows.2 ⟨hbinary, hinteger⟩⟩
  refine ⟨length_modelColumns hd, ?_, fun i hi => ?_, fun i hi => ?_, fun x _ => ?_, fun x => ?_,
    integerIndices_sorted _, fun j => mem_integerIndices_iff hd rfl, isMixed_eq hd rfl⟩
  · simp [modelRows, hequations, hinequalities]
  · have hbi : d.b[i]? = some d.b[i] := List.getElem?_eq_getElem (by omega)
    obtain ⟨r, hr, hreads⟩ := getElem?_blockRows .equal ha (hb.trans hap.symm) hbi
    refine ⟨r, _, ?_, hbi, hreads⟩
    rw [modelRows, List.getElem?_append_left (by omega), hr]
  · have hgi : d.g[i]? = some d.g[i] := List.getElem?_eq_getElem (by omega)
    obtain ⟨r, hr, hreads⟩ := getElem?_blockRows .lessEqual hf (hg.trans hfp.symm) hgi
    refine ⟨r, _, ?_, hgi, hreads⟩
    rw [modelRows, List.getElem?_append_right (by omega), hequations, Nat.add_sub_cancel_left, hr]
  · rw [← hpoints x]
    constructor
    · rintro ⟨hrows, -, hkinds⟩
      exact ⟨hrows, hkinds⟩
    · rintro ⟨hrows, hkinds⟩
      exact ⟨hrows, within_of_allows hd rfl rfl hkinds, hkinds⟩
  · rw [integerFeasible_iff one_lt_engineInfinity, ← hpoints x]
    constructor
    · rintro ⟨⟨hlength, hrows, -⟩, hkinds⟩
      exact ⟨hlength.trans (length_modelColumns hd), hrows, hkinds⟩
    · rintro ⟨hlength, hrows, hkinds⟩
      exact ⟨⟨hlength.trans (length_modelColumns hd).symm, hrows,
        within_of_allows hd rfl rfl hkinds⟩, hkinds⟩

/-- **Every problem that passes its check has a model that means the same**, whatever its matrices
store and however its lists of integral variables overlap, under all options that are accepted. -/
theorem toModel_represents {d : Problem K} (hcheck : d.check = .ok ()) (ha : d.a.WellFormed)
    (hf : d.f.WellFormed) {options : Options K}
    (hoptions : ∀ e ∈ options.entries, ∃ c c' : Controls K, c.set e.1 e.2 = .ok c')
    (verbose : Bool) :
    ∃ m, d.toModel verbose options = .ok m ∧ Represents m d := by
  obtain ⟨p, c, h⟩ := toModel_eq_ok hcheck ha hf hoptions verbose
  exact ⟨_, h, represents (consistent_of_check hcheck) ha hf p c⟩

/-- Two variables, the second of which is whole although it is also said to be zero or one, with an
empty row, a stored zero and a right-hand side beyond infinity. -/
def overlapping : Problem ℚ where
  p := .zeros 2 2
  q := [1, -1]
  a := .ofTriplets 1 2 [⟨0, 0, 1⟩, ⟨0, 1, 0⟩]
  b := [1]
  f := .ofTriplets 2 2 [⟨1, 0, 1⟩, ⟨1, 1, 1⟩]
  g := [10 ^ 30, 3]
  nVar := 2
  nEq := 1
  nIneq := 2
  binary := [1, 0, 1]
  integer := [1]

theorem toModel_represents_overlapping :
    ∃ m, overlapping.toModel false ⟨[("max_iter", .int 50)], by simp⟩ = .ok m ∧
      Represents m overlapping := by
  refine toModel_represents rfl (Sparse.wellFormed_ofTriplets _ _ _)
    (Sparse.wellFormed_ofTriplets _ _ _) ?_ false
  intro e he
  obtain rfl := List.mem_singleton.1 he
  exact ⟨.default, _, rfl⟩

end Exact

end Problem

end QuadProg
