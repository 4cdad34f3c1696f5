import QuadProg.Proofs.Conic.Blocks
import QuadProg.Proofs.Conic.Stacking
import QuadProg.Proofs.Double
import QuadProg.Proofs.Session.Transition
import QuadProg.Proofs.Sparse.Pattern

/-!
# What the pattern of a model tells

A pattern is made of packed lists of the conic form, and of the record of the controls.  For the
models of continuous problems it tells exactly what new data must have in common with the old:

```text
part of the pattern        of the problem                             by
columns                    nVar
lists of P                 nonzero entries on or above the diagonal   `isStored_upperTriangle_iff`
lists of A                 stored entries of both matrices, zeros     `top_assemble`
                           included
equations, others          nEq, nIneq                                 `boundBlock_eq_nil`
controls, verbosity        options, verbosity                         `record_of_toModel`
```

Where the first matrix ends and the second one begins is not seen in the lists of `A`.  It is known
from the number of equations, without which the blocks could not be told apart.

Patterns are compared by `==`, and a session keeps its entry under the pattern of the model that it
was loaded for, though it may since have been reused for others.  So that the entry after a step can
be judged by the model of that step alone, comparing has to be symmetric and transitive; it is for
doubles, some of which are not even the same as themselves.
-/

namespace QuadProg

variable {α μ : Type} [Scalar α]

/-! ### Comparing patterns -/

/-- Only numbers may differ where values compare as the same. -/
theorem OptionValue.beq_cases {v w : OptionValue α} (h : (v == w) = true) :
    (v = w ∧ (v == v) = true) ∨ ∃ x y, v = .number x ∧ w = .number y ∧ (x == y) = true := by
  cases OptionValue.agrees_of_beq h with
  | number _ => exact .inr ⟨_, _, rfl, rfl, h⟩
  | _ => exact .inl ⟨rfl, h⟩

section Comparing

variable [PartialEquivBEq α]

instance : PartialEquivBEq (OptionValue α) where
  symm {v w} h := by
    rcases OptionValue.beq_cases h with ⟨rfl, hself⟩ | ⟨x, y, rfl, rfl, hxy⟩
    · exact hself
    · exact PartialEquivBEq.symm (α := α) hxy
  trans {u v w} huv hvw := by
    rcases OptionValue.beq_cases huv with ⟨rfl, -⟩ | ⟨x, y, rfl, rfl, hxy⟩
    · exact hvw
    rcases OptionValue.beq_cases hvw with ⟨rfl, -⟩ | ⟨y', z, heq, rfl, hyz⟩
    · exact huv
    · cases heq
      exact PartialEquivBEq.trans (α := α) hxy hyz

theorem record_beq_symm {record record' : List (String × OptionValue α)}
    (h : (record == record') = true) : (record' == record) = true := by
  rw [Controls.record_beq_iff] at h ⊢
  exact (h.imp fun _ _ hentry => ⟨hentry.1.symm, PartialEquivBEq.symm hentry.2⟩).flip

theorem record_beq_trans {first second third : List (String × OptionValue α)}
    (h : (first == second) = true) (h' : (second == third) = true) : (first == third) = true := by
  rw [Controls.record_beq_iff] at h h' ⊢
  induction h generalizing third with
  | nil =>
      cases h'
      exact .nil
  | cons hentry _ ih =>
      cases h' with
      | cons hentry' hrest =>
          exact .cons ⟨hentry.1.trans hentry'.1, PartialEquivBEq.trans hentry.2 hentry'.2⟩
            (ih hrest)

/-- Patterns that compare as the same are not told apart. -/
instance : PartialEquivBEq (Pattern α) where
  symm h := by
    obtain ⟨hnVar, hp, ha, hcounts, hcontrols, hverbose⟩ := Pattern.beq_iff.1 h
    exact Pattern.beq_iff.2 ⟨hnVar.symm, hp.imp Eq.symm Eq.symm, ha.imp Eq.symm Eq.symm,
      hcounts.imp Eq.symm Eq.symm, record_beq_symm hcontrols, hverbose.symm⟩
  trans h h' := by
    obtain ⟨hnVar, hp, ha, hcounts, hcontrols, hverbose⟩ := Pattern.beq_iff.1 h
    obtain ⟨hnVar', hp', ha', hcounts', hcontrols', hverbose'⟩ := Pattern.beq_iff.1 h'
    exact Pattern.beq_iff.2 ⟨hnVar.trans hnVar', ⟨hp.1.trans hp'.1, hp.2.trans hp'.2⟩,
      ⟨ha.1.trans ha'.1, ha.2.trans ha'.2⟩,
      ⟨hcounts.1.trans hcounts'.1, hcounts.2.trans hcounts'.2⟩,
      record_beq_trans hcontrols hcontrols', hverbose.trans hverbose'⟩

end Comparing

/-! ### The conic form of a continuous problem -/

namespace Problem

/-- The matrices of a problem are packed as they should be. -/
structure WellFormed (d : Problem α) : Prop where
  p : d.p.WellFormed
  a : d.a.WellFormed
  f : d.f.WellFormed

/-- Two problems of the same dimensions that store something at the same positions of their
constraints, and something other than zero at the same positions of the upper triangle of their
costs. -/
structure SamePattern (d d' : Problem α) : Prop where
  nVar : d.nVar = d'.nVar
  nEq : d.nEq = d'.nEq
  nIneq : d.nIneq = d'.nIneq
  a : ∀ i j, d.a.IsStored i j ↔ d'.a.IsStored i j
  f : ∀ i j, d.f.IsStored i j ↔ d'.f.IsStored i j
  p : ∀ i j, i ≤ j → (d.p.IsNonzero i j ↔ d'.p.IsNonzero i j)

/-- What the conic form of a problem stores, and where. -/
structure Packed (d : Problem α) (c : Conic α) : Prop where
  q : c.q.length = d.nVar
  p : c.p.WellFormed ∧ c.p.ncols = d.nVar
  isStored_p : ∀ i j, c.p.IsStored i j ↔ i ≤ j ∧ d.p.IsNonzero i j
  a : c.a = d.a.stack d.f
  nEq : c.nEq = d.nEq
  nNonneg : c.nIneq + c.nBound = d.nIneq

section Cost

variable {d : Problem α}

theorem wellFormed_modelQuadratic (hd : d.Consistent) :
    (d.modelQuadratic.getD (.zeros d.nVar d.nVar)).WellFormed ∧
      (d.modelQuadratic.getD (.zeros d.nVar d.nVar)).ncols = d.nVar := by
  unfold modelQuadratic
  split_ifs
  · exact ⟨Sparse.wellFormed_ofTriplets _ _ _, hd.p_size.2⟩
  · exact ⟨Sparse.wellFormed_zeros _ _, rfl⟩

/-- A cost that was not set stores nothing, and nothing of it is other than zero. -/
theorem isStored_modelQuadratic_iff (hp : d.p.WellFormed) (i j : Nat) :
    (d.modelQuadratic.getD (.zeros d.nVar d.nVar)).IsStored i j ↔ i ≤ j ∧ d.p.IsNonzero i j := by
  unfold modelQuadratic
  split_ifs with hnonzero
  · exact hp.isStored_upperTriangle_iff i j
  · refine iff_of_false (Sparse.not_isStored_zeros _ _ i j) fun h => ?_
    exact hp.not_isNonzero (by simpa using hnonzero) i j h.2

end Cost

/-- The conic form of a continuous problem has its rows and no others. -/
theorem packed_of_toModel [Scalar.Ordered α] [EngineDefaults α] {d : Problem α}
    (hd : d.WellFormed) (hcontinuous : d.isMixed = false) {verbose : Bool} {options : Options α}
    {m : Model α} (hm : d.toModel verbose options = .ok m) : d.Packed m.conic := by
  have hconsistent := consistent_of_check (Model.toModel_eq_ok_iff.1 hm).1
  have hsound := (Model.reachable_of_toModel hm).sound
  obtain ⟨c, rfl⟩ := eq_of_toModel hm
  generalize hbuilt :
    (⟨d.modelColumns, d.modelRows, d.modelQuadratic, c, engineInfinity⟩ : Model α) = m at *
  have hcolumns : m.columns = d.modelColumns := by rw [← hbuilt]
  have hrows : m.rows = d.modelRows := by rw [← hbuilt]
  have hquadratic : m.quadratic = d.modelQuadratic := by rw [← hbuilt]
  have hnVar : m.nVar = d.nVar := by rw [Model.nVar, hcolumns, length_modelColumns hconsistent]
  have hp : m.conic.p = d.modelQuadratic.getD (.zeros d.nVar d.nVar) := by
    rw [← hquadratic, ← hnVar]
    rfl
  have hbound := boundBlock_eq_nil hconsistent hcontinuous hcolumns (by rw [← hbuilt])
  obtain ⟨hnEq, hnIneq⟩ := counts_conic hconsistent hrows
  refine ⟨?_, hp ▸ wellFormed_modelQuadratic hconsistent,
    hp ▸ isStored_modelQuadratic_iff hd.p, ?_, hnEq, ?_⟩
  · rw [← hnVar]
    exact List.length_map _
  · have hnrows := nrows_assemble hconsistent hrows m.effectiveBounds.1 m.effectiveBounds.2
    rw [hbound, List.length_nil, Nat.add_zero] at hnrows
    rw [← top_assemble hconsistent hrows hsound hnVar hd.a hd.f]
    exact (Sparse.WellFormed.top_eq_self (hsound.collects _ _).wellFormed hnrows.le).symm
  · have hnBound : m.conic.nBound = 0 := congrArg List.length hbound
    rw [hnIneq, hnBound, Nat.add_zero]

/-! ### Lists and positions -/

section Lists

variable {d d' : Problem α} {c c' : Conic α}

theorem Packed.sameLists_p_iff (h : d.Packed c) (h' : d'.Packed c') (hnVar : d.nVar = d'.nVar) :
    c.p.SameLists c'.p ↔ ∀ i j, i ≤ j → (d.p.IsNonzero i j ↔ d'.p.IsNonzero i j) := by
  rw [h.p.1.sameLists_iff h'.p.1 (h.p.2.trans (hnVar.trans h'.p.2.symm))]
  simp only [h.isStored_p, h'.isStored_p, and_congr_right_iff]

/-- With the number of equations known, the blocks can be told apart. -/
theorem Packed.sameLists_a_iff (h : d.Packed c) (h' : d'.Packed c') (hd : d.WellFormed)
    (hd' : d'.WellFormed) (hcheck : d.Consistent) (hcheck' : d'.Consistent)
    (hnVar : d.nVar = d'.nVar) (hnEq : d.nEq = d'.nEq) :
    c.a.SameLists c'.a ↔ (∀ i j, d.a.IsStored i j ↔ d'.a.IsStored i j) ∧
      ∀ i j, d.f.IsStored i j ↔ d'.f.IsStored i j := by
  obtain ⟨hrows, hcols, -⟩ := hcheck.a_size
  obtain ⟨hrows', hcols', -⟩ := hcheck'.a_size
  have hwidth : d.a.ncols = d.f.ncols := hcols.trans hcheck.f_size.2.1.symm
  have hwidth' : d'.a.ncols = d'.f.ncols := hcols'.trans hcheck'.f_size.2.1.symm
  have hcols : (d.a.stack d.f).ncols = (d'.a.stack d'.f).ncols :=
    hcols.trans (hnVar.trans hcols'.symm)
  rw [h.a, h'.a, (hd.a.stack hd.f hwidth).sameLists_iff (hd'.a.stack hd'.f hwidth') hcols]
  exact hd.a.isStored_stack_iff hd'.a hd.f hd'.f hwidth hwidth'
    (hrows.trans (hnEq.trans hrows'.symm))

end Lists

end Problem

/-! ### Steps of the same pattern -/

namespace Step

/-- The problem of the step is continuous and passes its check, and all of its options are
accepted. -/
structure Admissible (t : Step α μ) : Prop where
  wellFormed : t.problem.WellFormed
  check : t.problem.check = .ok ()
  continuous : t.problem.isMixed = false
  options : ∀ e ∈ t.request.options.entries, ∃ c d : Controls α, c.set e.1 e.2 = .ok d

/-- From one step to the other only values change: those of the linear cost and of the right-hand
sides, stored ones of the constraints, and nonzero ones of the quadratic cost. -/
structure Alike (t t' : Step α μ) : Prop where
  problem : t.problem.SamePattern t'.problem
  verbose : t.request.verbose = t'.request.verbose
  options : (t.request.options == t'.request.options) = true

variable [EngineDefaults α] {t t' : Step α μ} {m m' : Model α}

theorem Admissible.exists_model (ht : t.Admissible) : ∃ m, t.model = .ok m := by
  obtain ⟨p, c, hm⟩ := Problem.toModel_eq_ok ht.check ht.wellFormed.a ht.wellFormed.f ht.options
    t.request.verbose
  exact ⟨_, hm⟩

/-- The patterns of two models tell exactly whether the steps are alike. -/
theorem Admissible.pattern_beq_iff [Scalar.Ordered α] (ht : t.Admissible) (ht' : t'.Admissible)
    (hm : t.model = .ok m) (hm' : t'.model = .ok m') :
    (m.pattern == m'.pattern) = true ↔ t.Alike t' := by
  have hpacked := Problem.packed_of_toModel ht.wellFormed ht.continuous hm
  have hpacked' := Problem.packed_of_toModel ht'.wellFormed ht'.continuous hm'
  have hconsistent := Problem.consistent_of_check ht.check
  have hconsistent' := Problem.consistent_of_check ht'.check
  obtain ⟨haccepted, hverbose⟩ := Model.record_of_toModel hm
  obtain ⟨haccepted', hverbose'⟩ := Model.record_of_toModel hm'
  have hoptions : (m.pattern.controls == m'.pattern.controls) =
      (t.request.options == t'.request.options) := by
    show (m.controls.accepted == m'.controls.accepted) = _
    rw [haccepted, haccepted']
    rfl
  have hlists_p := fun hnVar => hpacked.sameLists_p_iff hpacked' hnVar
  have hlists_a := fun hnVar hnEq => hpacked.sameLists_a_iff hpacked' ht.wellFormed ht'.wellFormed
    hconsistent hconsistent' hnVar hnEq
  rw [Pattern.beq_iff, hoptions]
  constructor
  · intro h
    obtain ⟨hnVar, hp, ha, ⟨hnEq, hnNonneg⟩, hsame, hverbosity⟩ := h
    have hnVar : t.problem.nVar = t'.problem.nVar := hpacked.q.symm.trans (hnVar.trans hpacked'.q)
    have hnEq : t.problem.nEq = t'.problem.nEq :=
      hpacked.nEq.symm.trans (hnEq.trans hpacked'.nEq)
    have hnIneq : t.problem.nIneq = t'.problem.nIneq :=
      hpacked.nNonneg.symm.trans (hnNonneg.trans hpacked'.nNonneg)
    obtain ⟨ha, hf⟩ := (hlists_a hnVar hnEq).1 ha
    exact ⟨⟨hnVar, hnEq, hnIneq, ha, hf, (hlists_p hnVar).1 hp⟩,
      hverbose.symm.trans (hverbosity.trans hverbose'), hsame⟩
  · intro h
    obtain ⟨⟨hnVar, hnEq, hnIneq, ha, hf, hp⟩, hverbosity, hsame⟩ := h
    exact ⟨hpacked.q.trans (hnVar.trans hpacked'.q.symm), (hlists_p hnVar).2 hp,
      (hlists_a hnVar hnEq).2 ⟨ha, hf⟩, ⟨hpacked.nEq.trans (hnEq.trans hpacked'.nEq.symm),
        hpacked.nNonneg.trans (hnIneq.trans hpacked'.nNonneg.symm)⟩, hsame,
      hverbose.trans (hverbosity.trans hverbose'.symm)⟩

end Step

/-! ### What is matched -/

/-- The session has an entry whose pattern compares as that of the model. -/
def Session.Matches (s : Session α μ) (m : Model α) : Prop :=
  ∃ stored l, s.entry = some (stored, l) ∧ (stored == m.pattern) = true

namespace Step

variable [EngineDefaults α] {t t' : Step α μ} {m m' : Model α} {s s' : Session α μ}

omit [EngineDefaults α] in
/-- After a step that went through the session, its entry can be judged by the model of the step. -/
theorem Changes.matches_iff [PartialEquivBEq α] {warmStarted : Bool}
    (h : t.Changes m s s' warmStarted) (hpasses : ¬ t.PassesBy m) (m' : Model α) :
    s'.Matches m' ↔ ¬ t.BreaksDown m s ∧ (m.pattern == m'.pattern) = true := by
  by_cases hbreaks : t.BreaksDown m s
  · obtain ⟨rfl, -⟩ := h.brokenDown hbreaks
    simp [Session.Matches, hbreaks]
  · obtain ⟨⟨stored, l, hentry, hstored⟩, -⟩ := h.stored hbreaks hpasses
    -- the entry may have been stored for an earlier model of the same pattern
    have hjudged : (stored == m'.pattern) = true ↔ (m.pattern == m'.pattern) = true := by
      rcases hstored with rfl | hstored
      · exact Iff.rfl
      · exact ⟨fun h => PartialEquivBEq.trans (PartialEquivBEq.symm hstored) h,
          fun h => PartialEquivBEq.trans hstored h⟩
    simp [Session.Matches, hbreaks, hentry, hjudged]

/-- **The pattern is exact.**  The models of two continuous problems have the same pattern if and
only if only values changed from one to the other.  So after a step that went through a session and
did not break down, the session has a matching entry for exactly such problems, whatever the session
was before. -/
theorem pattern_exact [Scalar.Ordered α] [PartialEquivBEq α] (ht : t.Admissible)
    (ht' : t'.Admissible) :
    ∃ m m', t.model = .ok m ∧ t'.model = .ok m' ∧
      ((m.pattern == m'.pattern) = true ↔ t.Alike t') ∧
      ∀ (s s' : Session α μ) (sol : Solution α), ¬ t.PassesBy m →
        t.solve (some s) = (.ok sol, some s') →
        (s'.Matches m' ↔ ¬ t.BreaksDown m s ∧ t.Alike t') := by
  obtain ⟨m, hm⟩ := ht.exists_model
  obtain ⟨m', hm'⟩ := ht'.exists_model
  have hpattern := ht.pattern_beq_iff ht' hm hm'
  refine ⟨m, m', hm, hm', hpattern, fun s s' sol hpasses hsolve => ?_⟩
  obtain ⟨result, s'', hsolve', htransition⟩ := t.transition s
  obtain ⟨rfl, hsession⟩ := Prod.mk.inj (hsolve.symm.trans hsolve')
  obtain rfl : s' = s'' := Option.some.inj hsession
  obtain ⟨m'', hm'', hchanges⟩ := htransition.answered sol rfl
  obtain rfl : m = m'' := Except.ok.inj (hm.symm.trans hm'')
  rw [hchanges.matches_iff hpasses, hpattern]

/-- A matrix with one row, one column and a number that it stores. -/
def single (v : ℚ) : Sparse ℚ := ⟨1, 1, [[(0, v)]]⟩

theorem value?_single (v : ℚ) (i j : Nat) :
    (single v).value? i j = if i = 0 ∧ j = 0 then some v else none := by
  cases j with
  | zero => simp [single, Sparse.value?, lookup_cons_eq]
  | succ j => simp [single, Sparse.value?]

/-- One variable with a quadratic cost and an inequality, in a warm step. -/
def curveStep (curvature coefficient bound : ℚ) : Step ℚ Unit where
  engine := Session.echoEngine
  clock := ⟨fun _ => .ok fun _ => false, 0⟩
  available := .ok ()
  problem :=
    { p := single curvature, q := [1], a := .zeros 0 1, b := [], f := single coefficient
      g := [bound], nVar := 1, nEq := 0, nIneq := 1 }
  layout := {}
  request := ⟨true, false, .empty⟩
  staged := true

/-- A stored zero becomes another coefficient, and the entry matches; where the curvature becomes
zero it does not. -/
theorem pattern_exact_curve : ∃ m m' m'' sol s',
    (curveStep 2 0 1).model = .ok m ∧ (curveStep 3 4 (-5)).model = .ok m' ∧
      (curveStep 0 4 1).model = .ok m'' ∧
      (curveStep 2 0 1).solve (some {}) = (.ok sol, some s') ∧
      s'.Matches m' ∧ ¬ s'.Matches m'' := by
  have hsingle : ∀ v, (single v).WellFormed := fun v =>
    ⟨rfl, by simp [single], by simp [single]⟩
  have hadmissible : ∀ p v g, (curveStep p v g).problem.check.toOption = some () →
      (curveStep p v g).Admissible := by
    intro p v g hcheck
    exact ⟨⟨hsingle p, Sparse.wellFormed_zeros 0 1, hsingle v⟩, eq_ok_of_toOption hcheck, rfl,
      fun e he => absurd he List.not_mem_nil⟩
  have ht := hadmissible 2 0 1 (by decide +kernel)
  have halike : (curveStep 2 0 1).Alike (curveStep 3 4 (-5)) := by
    refine ⟨⟨rfl, rfl, rfl, fun i j => Iff.rfl, fun i j => ?_, fun i j _ => ?_⟩, rfl, by decide⟩
    · simp [curveStep, Sparse.IsStored, value?_single]
    · simp [curveStep, Sparse.IsNonzero, value?_single]
  have hunlike : ¬ (curveStep 2 0 1).Alike (curveStep 0 4 1) := by
    intro h
    have hcorner := h.problem.p 0 0 le_rfl
    simp [curveStep, Sparse.IsNonzero, value?_single] at hcorner
  have ht' := hadmissible 3 4 (-5) (by decide +kernel)
  have ht'' := hadmissible 0 4 1 (by decide +kernel)
  obtain ⟨m, m', hm, hm', -, hmatches⟩ := pattern_exact ht ht'
  obtain ⟨w, m'', hw, hm'', -, hdiffers⟩ := pattern_exact ht ht''
  obtain rfl : m = w := Except.ok.inj (hm.symm.trans hw)
  -- the first step goes through the session and does not break down
  have hthrough : (curveStep 2 0 1).model.toOption.any (fun m => !m.isMixed && m.isCacheable &&
      (m.solve Session.echoEngine ⟨fun _ => .ok fun _ => false, 0⟩ (some {}) true).1.isOk) =
        true := by
    decide +kernel
  have hok : ((curveStep 2 0 1).solve (some {})).1.isOk = true := by decide +kernel
  rw [hm] at hthrough
  simp only [Except.toOption, Option.any_some, Bool.and_eq_true, Bool.not_eq_true'] at hthrough
  obtain ⟨⟨hcontinuous, hcacheable⟩, hruns⟩ := hthrough
  have hpasses : ¬ (curveStep 2 0 1).PassesBy m := by
    rw [passesBy_iff hm, hcontinuous, hcacheable]
    simp
  have hbreaks : ¬ (curveStep 2 0 1).BreaksDown m {} := by
    intro h
    obtain ⟨b, hb⟩ := h
    have hfails : (m.solve Session.echoEngine ⟨fun _ => .ok fun _ => false, 0⟩ (some {})
        true).1.isOk = false := congrArg Except.isOk hb
    rw [hfails] at hruns
    cases hruns
  obtain ⟨result, s', hsolve, -⟩ := (curveStep 2 0 1).transition {}
  rw [hsolve] at hok
  cases result with
  | error error => cases hok
  | ok sol =>
      exact ⟨m, m', m'', sol, s', hm, hm', hm'', hsolve,
        (hmatches {} s' sol hpasses hsolve).2 ⟨hbreaks, halike⟩,
        fun h => hunlike ((hdiffers {} s' sol hpasses hsolve).1 h).2⟩

end Step

end QuadProg
