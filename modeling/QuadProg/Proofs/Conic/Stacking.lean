import QuadProg.Proofs.Build.Translation
import QuadProg.Proofs.Conic.Assembly
import QuadProg.Proofs.Ordered

/-!
# The conic form of a continuous problem

Without integral variables the bounds of the model are all infinite, so that the conic form has no
rows for them.  What is left are the rows of the two matrices, one block on top of the other:

```text
rows               matrix     right-hand side
0 … nEq            d.a        d.b
nEq … nEq + nIneq  d.f        d.g
```

The quadratic cost is there as its upper triangle, or not at all where it is zero.
-/

namespace QuadProg

open Model

variable {K : Type} [Field K]

/-- The conic form has the cost of the problem, and its rows in their order and no others. -/
structure Conic.Stacks (c : Conic K) (d : Problem K) : Prop where
  ncols_p : c.p.ncols = d.nVar
  entry_p : ∀ i < d.nVar, ∀ j < d.nVar, c.p.entry i j = if i ≤ j then d.p.entry i j else 0
  q_eq : c.q = d.q
  size_a : c.a.nrows = d.nEq + d.nIneq ∧ c.a.ncols = d.nVar
  equation : ∀ i < d.nEq, ∀ x, c.a.rowDot i x = d.a.rowDot i x
  inequality : ∀ i < d.nIneq, ∀ x, c.a.rowDot (d.nEq + i) x = d.f.rowDot i x
  b_eq : c.b = d.b ++ d.g
  counts : c.nEq = d.nEq ∧ c.nIneq = d.nIneq ∧ c.nBound = 0

variable [LinearOrder K] [FloorRing K]

namespace Problem

/-! ### Rows -/

theorem clamp_eq_self [IsStrictOrderedRing K] {limit v : K} (h : |v| < limit) :
    clamp limit v = v := by
  obtain ⟨hlower, hupper⟩ := abs_lt.1 h
  rw [clamp, if_neg hupper.not_ge, if_neg hlower.not_ge]

variable [EngineDefaults K]

theorem rhs_blockRows [IsStrictOrderedRing K] (sense : RowSense) {m : Sparse K} {rhs : List K}
    (hrhs : rhs.length = m.nrows) (hbelow : ∀ v ∈ rhs, |v| < engineInfinity) :
    (blockRows sense m rhs).map (·.rhs) = rhs := by
  rw [map_rhs_blockRows sense hrhs]
  exact (List.map_congr_left fun v hv => clamp_eq_self (hbelow v hv)).trans (List.map_id' rhs)

/-- The conic form has the equations of the problem and then its inequalities. -/
theorem counts_conic {α : Type} [Scalar α] [EngineDefaults α] {d : Problem α} {m : Model α}
    (hd : d.Consistent) (hrows : m.rows = d.modelRows) :
    m.conic.nEq = d.nEq ∧ m.conic.nIneq = d.nIneq := by
  obtain ⟨hequal, hless⟩ := filter_modelRows d
  obtain ⟨hap, -, hb⟩ := hd.a_size
  obtain ⟨hfp, -, hg⟩ := hd.f_size
  rw [conic, assemble_eq]
  simp only [rowsOf, hrows, hequal, hless, List.length_map, length_blockRows (hb.trans hap.symm),
    length_blockRows (hg.trans hfp.symm)]
  exact ⟨hb, hg⟩

/-! ### Columns -/

variable {d : Problem K} {m : Model K}

theorem costs_modelColumns (hd : d.Consistent) : d.modelColumns.map (·.cost) = d.q := by
  have hmark : ∀ kind indices (columns : List (Column K)),
      (markKind kind indices columns).map (·.cost) = columns.map (·.cost) := by
    intro kind indices columns
    apply List.ext_getElem
    · simp
    · intro j hj hj'
      simp only [markKind, List.getElem_map, List.getElem_mapIdx]
      split_ifs <;> rfl
  rw [modelColumns, hmark, hmark, freshColumns, List.map_map]
  exact List.map_fst_zip (by simp [hd.q_length])

/-- The variables of a continuous problem have no bounds. -/
theorem boundBlock_eq_nil {α : Type} [Scalar α] [Scalar.Ordered α] [EngineDefaults α]
    {d : Problem α} {m : Model α} (hd : d.Consistent) (hcontinuous : d.isMixed = false)
    (hm : m.columns = d.modelColumns) (hinf : m.infinity = engineInfinity) :
    m.boundBlock m.effectiveBounds.1 m.effectiveBounds.2 = [] := by
  have hkind : ∀ c ∈ m.columns, c.kind ≠ .binary := by
    intro c hc hbinary
    have hmixed : m.isMixed = true := by
      simp only [Model.isMixed, kinds, List.any_map, List.any_eq_true]
      exact ⟨c, hc, by simp [hbinary]⟩
    rw [isMixed_eq hd hm, hcontinuous] at hmixed
    cases hmixed
  refine List.eq_nil_iff_forall_not_mem.2 fun r hr => ?_
  obtain ⟨j, l, u, hl, hu, hr⟩ := mem_boundBlock.1 hr
  obtain ⟨c, hc, rfl⟩ : ∃ c, m.columns[j]? = some c ∧ Column.effectiveLower c = l := by
    simpa [effectiveBounds] using hl
  obtain ⟨c', hc', rfl⟩ : ∃ c, m.columns[j]? = some c ∧ Column.effectiveUpper c = u := by
    simpa [effectiveBounds] using hu
  obtain rfl : c = c' := Option.some.inj (hc.symm.trans hc')
  obtain ⟨hlower, hupper, -⟩ := exists_column hd hm hc
  have hfree := hkind c (List.mem_of_getElem? hc)
  rw [Column.effectiveUpper, Column.effectiveLower, if_neg hfree, if_neg hfree, hlower, hupper,
    hinf] at hr
  simp [not_lt_self] at hr

/-! ### The cost -/

omit [EngineDefaults K] in
theorem ncols_modelQuadratic (hd : d.Consistent) :
    (d.modelQuadratic.getD (.zeros d.nVar d.nVar)).ncols = d.nVar := by
  unfold modelQuadratic
  split_ifs
  · exact hd.p_size.2
  · rfl

omit [EngineDefaults K] in
theorem entry_modelQuadratic (hd : d.Consistent) {i j : Nat} (hi : i < d.nVar) (hj : j < d.nVar) :
    (d.modelQuadratic.getD (.zeros d.nVar d.nVar)).entry i j =
      if i ≤ j then d.p.entry i j else 0 := by
  unfold modelQuadratic
  by_cases hp : d.p.hasNonzero = true
  · rw [if_pos hp]
    exact Sparse.entry_upperTriangle _ (hd.p_size.1 ▸ hi) (hd.p_size.2 ▸ hj)
  -- no cost was set, because all entries are zero
  · have hzero : (Sparse.zeros d.nVar d.nVar : Sparse K).entry i j = 0 := by
      simp [Sparse.entry, Sparse.zeros, hj]
    rw [if_neg hp, Option.getD_none, hzero, Sparse.entry_of_hasNonzero (by simpa using hp),
      ite_self]

/-! ### The whole -/

section Rows

variable (hd : d.Consistent) (hrows : m.rows = d.modelRows)

include hd hrows

theorem rowDot_equation (hm : m.Sound) (ha : d.a.WellFormed) {i : Nat} (hi : i < d.nEq)
    (x : List K) : m.conic.a.rowDot i x = d.a.rowDot i x := by
  obtain ⟨hap, -, hb⟩ := hd.a_size
  have hbi : d.b[i]? = some d.b[i] := List.getElem?_eq_getElem (by omega)
  obtain ⟨r, hr, hreads⟩ := getElem?_blockRows .equal ha (hb.trans hap.symm) hbi
  have hfilter : (m.rows.filter (·.sense = .equal))[i]? = some r := by
    rw [hrows, (filter_modelRows d).1, hr]
  have hrow : HasRow m.conic i r := hasRow_equal hm (length_effectiveBounds m).1 hfilter
  exact (hrow.2 x).trans (hreads.value_eq x)

theorem rowDot_inequality (hm : m.Sound) (hf : d.f.WellFormed) {i : Nat} (hi : i < d.nIneq)
    (x : List K) : m.conic.a.rowDot (d.nEq + i) x = d.f.rowDot i x := by
  obtain ⟨hfp, -, hg⟩ := hd.f_size
  have hgi : d.g[i]? = some d.g[i] := List.getElem?_eq_getElem (by omega)
  obtain ⟨r, hr, hreads⟩ := getElem?_blockRows .lessEqual hf (hg.trans hfp.symm) hgi
  have hfilter : (m.rows.filter (·.sense = .lessEqual))[i]? = some r := by
    rw [hrows, (filter_modelRows d).2, hr]
  have hrow : HasRow m.conic (m.conic.nEq + i) r :=
    hasRow_lessEqual hm (length_effectiveBounds m).1 hfilter
  rw [(counts_conic hd hrows).1] at hrow
  exact (hrow.2 x).trans (hreads.value_eq x)

theorem b_conic [IsStrictOrderedRing K]
    (hbound : m.boundBlock m.effectiveBounds.1 m.effectiveBounds.2 = [])
    (hbelow : ∀ v ∈ d.b ++ d.g, |v| < engineInfinity) : m.conic.b = d.b ++ d.g := by
  obtain ⟨hequal, hless⟩ := filter_modelRows d
  obtain ⟨hap, -, hb⟩ := hd.a_size
  obtain ⟨hfp, -, hg⟩ := hd.f_size
  have hequations := rhs_blockRows .equal (hb.trans hap.symm)
    fun v hv => hbelow v (List.mem_append_left _ hv)
  have hinequalities := rhs_blockRows .lessEqual (hg.trans hfp.symm)
    fun v hv => hbelow v (List.mem_append_right _ hv)
  calc m.conic.b = (m.conicRows m.effectiveBounds.1 m.effectiveBounds.2).map (·.rhs) := rfl
    _ = (blockRows .equal d.a d.b).map (·.rhs) ++ (blockRows .lessEqual d.f d.g).map (·.rhs) := by
        rw [conicRows, hbound, List.append_nil, rowsOf, rowsOf, hrows, hequal, hless,
          List.map_append, List.map_map, List.map_map]
        rfl
    _ = d.b ++ d.g := by rw [hequations, hinequalities]

end Rows

/-- **The conic form of a continuous problem has its cost and its rows and nothing else.** -/
theorem stacks_conic [IsStrictOrderedRing K] (hd : d.Consistent) (ha : d.a.WellFormed)
    (hf : d.f.WellFormed) (hcontinuous : d.isMixed = false)
    (hbelow : ∀ v ∈ d.b ++ d.g, |v| < engineInfinity) {verbose : Bool} {options : Options K}
    (hm : d.toModel verbose options = .ok m) : m.conic.Stacks d := by
  have hsound := (reachable_of_toModel hm).sound
  obtain ⟨c, heq⟩ := eq_of_toModel hm
  have hcolumns : m.columns = d.modelColumns := by rw [heq]
  have hrows : m.rows = d.modelRows := by rw [heq]
  have hquadratic : m.quadratic = d.modelQuadratic := by rw [heq]
  have hinf : m.infinity = engineInfinity := by rw [heq]
  have hnVar : m.nVar = d.nVar := by rw [Model.nVar, hcolumns, length_modelColumns hd]
  have hbound := boundBlock_eq_nil hd hcontinuous hcolumns hinf
  have hb := b_conic hd hrows hbound hbelow
  exact {
    ncols_p := by
      rw [conic, assemble_eq, hnVar, hquadratic]
      exact ncols_modelQuadratic hd
    entry_p := fun i hi j hj => by
      rw [conic, assemble_eq, hnVar, hquadratic]
      exact entry_modelQuadratic hd hi hj
    q_eq := by
      rw [← costs_modelColumns hd, ← hcolumns]
      rfl
    size_a := by
      refine ⟨?_, hnVar⟩
      have hlength := congrArg List.length hb
      rw [List.length_append, hd.a_size.2.2, hd.f_size.2.2] at hlength
      rw [← hlength, conic, assemble_eq]
      simp [Sparse.ofTriplets]
    equation := fun i hi => rowDot_equation hd hrows hsound ha hi
    inequality := fun i hi => rowDot_inequality hd hrows hsound hf hi
    b_eq := hb
    counts := by
      refine ⟨(counts_conic hd hrows).1, (counts_conic hd hrows).2, ?_⟩
      rw [conic, assemble_eq, hbound]
      rfl }

end Problem

end QuadProg
