import QuadProg.Proofs.Model.Controls
import QuadProg.Proofs.Model.Edit
import QuadProg.Proofs.Sparse.Entry

/-!
# Reachable models

A model is reached from an empty one by calls, in any order and with any arguments.  A call may
fail, and the model goes on as the failed call left it.  What holds of the parts of every reachable
model is proved by two inductions: `Sound` is about its rows and its quadratic cost, and
`Reachable.controls` carries over to its controls whatever accepted changes preserve.
-/

namespace QuadProg.Model

variable {α : Type} [Scalar α]

/-- A call that changes a model. -/
inductive Call (α : Type) where
  | addVariables (costs lower upper : List α)
  | setKind (index : Nat) (kind : VarKind)
  | addRows (rows : List (List Nat × List α)) (sense : RowSense) (rhs : List α)
  | setQuadratic (p : Sparse α)
  | setControl (name : String) (value : OptionValue α)
  | setVerbose (verbose : Bool)

/-- The model after a call, failed or not. -/
def Call.after (m : Model α) : Call α → Model α
  | addVariables costs lower upper => ((Model.addVariables costs lower upper).apply m).2
  | setKind index kind => ((Model.setKind index kind).apply m).2
  | addRows rows sense rhs => ((Model.addRows rows sense rhs).apply m).2
  | setQuadratic p => ((Model.setQuadratic p).apply m).2
  | setControl name value => ((Model.setControl name value).apply m).2
  | setVerbose verbose => Model.setVerbose verbose m

/-- What holds of every model on the way: rows and the quadratic cost mention variables that exist,
and only the upper triangle of the cost is there. -/
structure Sound (m : Model α) : Prop where
  cols_lt : ∀ r ∈ m.rows, ∀ c ∈ r.cols, c < m.nVar
  upper : ∀ p, m.quadratic = some p → ∀ t ∈ p.triplets, t.row ≤ t.col ∧ t.col < m.nVar

omit [Scalar α] in
/-- Nothing is lost by more variables, or by other bounds and kinds of those that exist. -/
theorem Sound.withColumns {m : Model α} (h : m.Sound) {columns : List (Column α)}
    (hle : m.nVar ≤ columns.length) : ({ m with columns } : Model α).Sound where
  cols_lt r hr c hc := (h.cols_lt r hr c hc).trans_le hle
  upper p hp t ht := ⟨(h.upper p hp t ht).1, (h.upper p hp t ht).2.trans_le hle⟩

theorem Sound.after {m : Model α} (h : m.Sound) (c : Call α) : (c.after m).Sound := by
  cases c with
  | addVariables costs lower upper =>
      simp only [Call.after, apply_addVariables]
      split_ifs with hlen
      · exact h
      · exact h.withColumns (by simp [nVar])
  | setKind index kind =>
      simp only [Call.after, apply_setKind]
      split_ifs with hlt
      · exact h.withColumns (by simp [nVar])
      · exact h
  | addRows rows sense rhs =>
      simp only [Call.after, apply_addRows]
      split_ifs with hlen
      · exact h
      · refine ⟨fun r hr => ?_, h.upper⟩
        rcases List.mem_append.1 hr with hr | hr
        · exact h.cols_lt r hr
        · exact cols_lt_of_mem_freshRows hr
  | setQuadratic p =>
      simp only [Call.after, apply_setQuadratic]
      split_ifs with hsize
      · exact h
      -- a cost of another size is refused, so its columns are variables
      · have hcols : p.ncols = m.nVar := by tauto
        refine ⟨h.cols_lt, fun q hq t ht => ?_⟩
        obtain rfl : p.upperTriangle = q := Option.some.inj hq
        exact hcols ▸ Sparse.mem_upperTriangle ht
  | setControl name value =>
      simp only [Call.after, apply_setControl]
      cases m.controls.set name value with
      | error e => exact h
      | ok c => exact ⟨h.cols_lt, h.upper⟩
  | setVerbose verbose => exact ⟨h.cols_lt, h.upper⟩

theorem Call.controls_after (c : Call α) (m : Model α) :
    (c.after m).controls = m.controls ∨
      (∃ name value, m.controls.set name value = .ok (c.after m).controls) ∨
      ∃ verbose, (c.after m).controls = m.controls.withVerbose verbose := by
  cases c with
  | addVariables costs lower upper =>
      simp only [Call.after, apply_addVariables]
      split_ifs <;> exact .inl rfl
  | setKind index kind =>
      simp only [Call.after, apply_setKind]
      split_ifs <;> exact .inl rfl
  | addRows rows sense rhs =>
      simp only [Call.after, apply_addRows]
      split_ifs <;> exact .inl rfl
  | setQuadratic p =>
      simp only [Call.after, apply_setQuadratic]
      split_ifs <;> exact .inl rfl
  | setControl name value =>
      simp only [Call.after, apply_setControl]
      cases hset : m.controls.set name value with
      | error e => exact .inl rfl
      | ok d => exact .inr (.inl ⟨name, value, hset⟩)
  | setVerbose verbose => exact .inr (.inr ⟨verbose, rfl⟩)

section Reachable

variable [EngineDefaults α]

/-- The models that calls reach from an empty one. -/
inductive Reachable : Model α → Prop
  | empty (infinity : α) : Reachable (.empty infinity)
  | call {m : Model α} (c : Call α) : Reachable m → Reachable (c.after m)

theorem sound_empty (infinity : α) : (empty infinity).Sound where
  cols_lt := by simp [empty]
  upper := by simp [empty]

theorem Reachable.sound {m : Model α} (h : m.Reachable) : m.Sound := by
  induction h with
  | empty infinity => exact sound_empty infinity
  | call c _ ih => exact ih.after c

/-- What accepted changes preserve, and the verbosity does not touch, holds of the controls of
every reachable model. -/
theorem Reachable.controls {P : Controls α → Prop} (default : P .default)
    (set : ∀ {c d name value}, P c → c.set name value = .ok d → P d)
    (verbose : ∀ {c} verbose, P c → P (c.withVerbose verbose)) {m : Model α} (h : m.Reachable) :
    P m.controls := by
  induction h with
  | empty infinity => exact default
  | @call m c _ ih =>
      rcases c.controls_after m with heq | ⟨name, value, hset⟩ | ⟨b, heq⟩
      · exact heq ▸ ih
      · exact set ih hset
      · exact heq ▸ verbose b ih

theorem Reachable.recorded {m : Model α} (h : m.Reachable) : m.controls.Recorded :=
  h.controls Controls.recorded_default (fun hc hset => hc.set hset) fun b hc => hc.withVerbose b

theorem Reachable.limitsInRange {K : Type} [Field K] [LinearOrder K] [IsStrictOrderedRing K]
    [FloorRing K] [EngineDefaults K] {m : Model K} (h : m.Reachable) : m.controls.LimitsInRange :=
  h.controls Controls.limitsInRange_default
    (fun hc hset => Controls.limitsInRange_of_set hset hc) fun _ hc => hc

end Reachable

/-! ### Models of problems -/

/-- A call that leaves the controls alone. -/
def Call.Builds : Call α → Prop
  | .setControl _ _ => False
  | .setVerbose _ => False
  | _ => True

theorem Call.Builds.controls_after {c : Call α} (h : c.Builds) (m : Model α) :
    (c.after m).controls = m.controls := by
  cases c with
  | addVariables costs lower upper =>
      simp only [Call.after, apply_addVariables]
      split_ifs <;> rfl
  | setKind index kind =>
      simp only [Call.after, apply_setKind]
      split_ifs <;> rfl
  | addRows rows sense rhs =>
      simp only [Call.after, apply_addRows]
      split_ifs <;> rfl
  | setQuadratic p =>
      simp only [Call.after, apply_setQuadratic]
      split_ifs <;> rfl
  | setControl name value => exact h.elim
  | setVerbose verbose => exact h.elim

/-- An edit that preserves a property of models, whether it fails or not. -/
def Keeps (P : Model α → Prop) {β : Type} (edit : Edit α β) : Prop :=
  ∀ m : Model α, P m → P (edit.apply m).2

section Keeps

variable {P : Model α → Prop}

omit [Scalar α] in
theorem Keeps.bind {β γ : Type} {first : Edit α β} {second : β → Edit α γ}
    (hfirst : Keeps P first) (hsecond : ∀ b, Keeps P (second b)) :
    Keeps P (first >>= second) := by
  intro m hm
  have hm' := hfirst m hm
  rw [Edit.apply_bind]
  cases happly : first.apply m with
  | mk result m' =>
      rw [happly] at hm'
      cases result with
      | error e => exact hm'
      | ok b => exact hsecond b m' hm'

omit [Scalar α] in
theorem keeps_forM {γ : Type} {f : γ → Edit α Unit} (h : ∀ c, Keeps P (f c)) (cs : List γ) :
    Keeps P (cs.forM f) := by
  induction cs with
  | nil => exact fun m hm => hm
  | cons c cs ih => exact (h c).bind fun _ => ih

end Keeps

/-- Setting options puts all of them on record, and does not change the verbosity. -/
theorem accepted_of_forM {entries : List (String × OptionValue α)} {m m' : Model α}
    (h : (entries.forM fun e => setControl e.1 e.2).apply m = (.ok (), m')) :
    m'.controls.accepted = m.controls.accepted ++ entries ∧
      m'.controls.settings.verbose = m.controls.settings.verbose := by
  induction entries generalizing m with
  | nil =>
      cases h
      simp
  | cons e es ih =>
      rw [Edit.apply_forM_cons, apply_setControl] at h
      cases hset : m.controls.set e.1 e.2 with
      | error fault => simp [hset] at h
      | ok c =>
          rw [hset] at h
          obtain ⟨haccepted, hverbose⟩ := ih h
          obtain ⟨control, d, -, htakes, rfl⟩ := Controls.set_eq_ok_iff.1 hset
          obtain ⟨hrecord, hkept⟩ := htakes.frame
          exact ⟨by simp [haccepted, hrecord], hverbose.trans hkept⟩

/-- Names come in order, so an option is set once. -/
theorem asksPresolve_of_forM {entries : List (String × OptionValue α)}
    (hsorted : entries.Pairwise (·.1 < ·.1)) {m m' : Model α}
    (h : (entries.forM fun e => setControl e.1 e.2).apply m = (.ok (), m')) :
    m'.controls.AsksPresolve ↔
      (entries.lookup Control.presolve.name).elim m.controls.AsksPresolve (· = .bool true) := by
  induction entries generalizing m with
  | nil =>
      cases h
      rfl
  | cons e es ih =>
      obtain ⟨hfirst, hsorted⟩ := List.pairwise_cons.1 hsorted
      rw [Edit.apply_forM_cons, apply_setControl] at h
      cases hset : m.controls.set e.1 e.2 with
      | error fault => simp [hset] at h
      | ok c =>
          rw [hset] at h
          rw [ih hsorted h, List.lookup_cons]
          have hc := Controls.asksPresolve_of_set hset
          by_cases hname : e.1 = Control.presolve.name
          · have hlater : es.lookup Control.presolve.name = none := by
              refine List.lookup_eq_none_iff.2 fun f hf => ?_
              have hlt := hname ▸ hfirst f hf
              simpa using hlt.ne
            rw [if_pos hname] at hc
            simp [hlater, hname, hc]
          · rw [if_neg hname] at hc
            have hbeq : (Control.presolve.name == e.1) = false := by simpa using Ne.symm hname
            rw [hbeq]
            simp only [hc]

variable [EngineDefaults α]

theorem keeps_build {P : Model α → Prop}
    (h : ∀ (c : Call α) (m : Model α), c.Builds → P m → P (c.after m)) (d : Problem α) :
    Keeps P d.build := by
  have hquadratic : Keeps P (if d.p.hasNonzero then Model.setQuadratic d.p else pure ()) := by
    split_ifs
    · exact fun m hm => h (.setQuadratic d.p) m trivial hm
    · exact fun m hm => hm
  have hkind : ∀ kind i, Keeps P (setKind i kind) :=
    fun kind i m hm => h (.setKind i kind) m trivial hm
  have hrows : ∀ rows sense rhs, Keeps P (addRows rows sense rhs) :=
    fun rows sense rhs m hm => h (.addRows rows sense rhs) m trivial hm
  refine Keeps.bind (fun m hm => h (.addVariables d.q _ _) m trivial hm) fun _ => ?_
  refine (keeps_forM (hkind .binary) d.binary).bind fun _ => ?_
  refine (keeps_forM (hkind .integer) d.integer).bind fun _ => ?_
  exact (hrows _ _ _).bind fun _ => (hrows _ _ _).bind fun _ => hquadratic

/-- A problem that passes its check is built, and then the options are set. -/
theorem toModel_eq_ok_iff {d : Problem α} {verbose : Bool} {options : Options α} {m : Model α} :
    d.toModel verbose options = .ok m ↔ d.check = .ok () ∧ ∃ built,
      d.build.apply (.empty engineInfinity) = (.ok (), built) ∧
      (setControls options).apply (setVerbose verbose built) = (.ok (), m) := by
  let edit : Edit α Unit := do
    d.build
    modify (setVerbose verbose)
    setControls options
  have hedit : edit.apply (.empty engineInfinity) = (.ok (), m) ↔ ∃ built,
      d.build.apply (.empty engineInfinity) = (.ok (), built) ∧
      (setControls options).apply (setVerbose verbose built) = (.ok (), m) := by
    rw [Edit.apply_bind_eq_ok_iff]
    constructor
    · rintro ⟨⟨⟩, built, hbuild, h⟩
      exact ⟨built, hbuild, h⟩
    · rintro ⟨built, hbuild, h⟩
      exact ⟨(), built, hbuild, h⟩
  have hresult : d.toModel verbose options = (do
      d.check
      match edit.apply (.empty engineInfinity) with
      | (.error e, _) => throw e
      | (.ok (), m) => return m) := rfl
  rw [hresult, ← hedit, bind_eq_ok]
  constructor
  · rintro ⟨⟨⟩, hcheck, h⟩
    refine ⟨hcheck, ?_⟩
    split at h
    · cases h
    · next heq =>
        cases h
        exact heq
  · rintro ⟨hcheck, h⟩
    exact ⟨(), hcheck, by rw [h]; rfl⟩

theorem reachable_of_toModel {d : Problem α} {verbose : Bool} {options : Options α} {m : Model α}
    (h : d.toModel verbose options = .ok m) : m.Reachable := by
  obtain ⟨-, built, hbuild, hcontrols⟩ := toModel_eq_ok_iff.1 h
  have hbuilt : (d.build.apply (.empty engineInfinity)).2.Reachable :=
    keeps_build (fun c m _ hm => hm.call c) d _ (.empty engineInfinity)
  rw [hbuild] at hbuilt
  have hm : ((setControls options).apply (setVerbose verbose built)).2.Reachable :=
    keeps_forM (fun e m hm => hm.call (.setControl e.1 e.2)) options.entries _
      (hbuilt.call (.setVerbose verbose))
  rwa [hcontrols] at hm

/-- Building leaves the controls alone. -/
theorem controls_of_build {d : Problem α} {built : Model α}
    (h : d.build.apply (.empty engineInfinity) = (.ok (), built)) : built.controls = .default := by
  have hbuilt : (d.build.apply (.empty engineInfinity)).2.controls = .default :=
    keeps_build (P := fun m => m.controls = .default)
      (fun c m hc hm => (hc.controls_after m).trans hm) d _ rfl
  rwa [h] at hbuilt

/-- The record of a model is the options it was made with. -/
theorem record_of_toModel {d : Problem α} {verbose : Bool} {options : Options α} {m : Model α}
    (h : d.toModel verbose options = .ok m) :
    m.controls.accepted = options.entries ∧ m.controls.settings.verbose = verbose := by
  obtain ⟨-, built, hbuild, hcontrols⟩ := toModel_eq_ok_iff.1 h
  obtain ⟨haccepted, hverbose⟩ := accepted_of_forM hcontrols
  rw [setVerbose, controls_of_build hbuild] at haccepted
  exact ⟨haccepted, hverbose⟩

/-- The model of a problem asks for presolving if and only if the options do. -/
theorem asksPresolve_iff {d : Problem α} {verbose : Bool} {options : Options α} {m : Model α}
    (h : d.toModel verbose options = .ok m) :
    m.controls.AsksPresolve ↔ options.get? Control.presolve.name = some (.bool true) := by
  obtain ⟨-, built, hbuild, hcontrols⟩ := toModel_eq_ok_iff.1 h
  have hdefault : ¬ (setVerbose verbose built).controls.AsksPresolve := by
    simp only [setVerbose, Controls.AsksPresolve]
    rw [controls_of_build hbuild]
    simp [Controls.default]
  rw [asksPresolve_of_forM options.sorted hcontrols, Options.get?]
  cases options.entries.lookup Control.presolve.name with
  | none => simpa using hdefault
  | some v => simp

end QuadProg.Model
