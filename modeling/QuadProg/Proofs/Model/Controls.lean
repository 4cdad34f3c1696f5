import QuadProg.Proofs.Exact
import QuadProg.Proofs.Outcome
import QuadProg.Settings

/-!
# Controls and their record

`assign_eq_ok_iff` says for every control what an accepted value does.  From it follows what the
record of accepted changes is worth: replaying it (`Controls.replay`) gives back all controls except
the verbosity, which is set apart from them.
-/

namespace QuadProg

variable {α : Type} [Scalar α]

theorem OptionValue.demandNonnegative_eq_ok {v : OptionValue α} {x : α}
    (h : v.demandNonnegative = .ok x) : v.asNumber? = some x ∧ 0 ≤ x := by
  unfold demandNonnegative at h
  split at h
  · next y hy =>
      split_ifs at h with hx
      cases h
      exact ⟨hy, hx⟩
  · cases h

theorem OptionValue.demandPositive_eq_ok {v : OptionValue α} {x : α}
    (h : v.demandPositive = .ok x) : v.asNumber? = some x ∧ 0 < x ∧ Scalar.isFinite x := by
  unfold demandPositive at h
  split at h
  · next y hy =>
      split_ifs at h with hx
      cases h
      exact ⟨hy, hx⟩
  · cases h

omit [Scalar α] in
theorem OptionValue.demandBool_eq_ok {v : OptionValue α} {b : Bool} (h : v.demandBool = .ok b) :
    v = .bool b := by
  cases v <;> cases h
  rfl

theorem Control.name_of_ofName? {name : String} {control : Control}
    (h : Control.ofName? name = some control) : control.name = name := by
  simpa using List.find?_some h

namespace Controls

def withVerbose (c : Controls α) (verbose : Bool) : Controls α :=
  { c with settings.verbose := verbose }

/-- What it means that a control accepted a value: the value is what the control demands, and it
is in force afterwards. -/
def Takes (c : Controls α) (control : Control) (v : OptionValue α) (d : Controls α) : Prop :=
  match control with
  | .maxIter => ∃ n, v.demandCount = .ok n ∧ d = { c with settings.maxIter := n }
  | .timeLimit => ∃ x, v.demandNonnegative = .ok x ∧ d = { c with settings.timeLimit := some x }
  | .tolGapAbs => ∃ x, v.demandPositive = .ok x ∧ d = { c with settings.tolGapAbs := x }
  | .tolGapRel => ∃ x, v.demandPositive = .ok x ∧ d = { c with settings.tolGapRel := x }
  | .tolFeas => ∃ x, v.demandPositive = .ok x ∧ d = { c with settings.tolFeas := x }
  | .tolInfeasAbs => ∃ x, v.demandPositive = .ok x ∧ d = { c with settings.tolInfeasAbs := x }
  | .tolInfeasRel => ∃ x, v.demandPositive = .ok x ∧ d = { c with settings.tolInfeasRel := x }
  | .equilibrate => ∃ b, v.demandBool = .ok b ∧ d = { c with settings.equilibrate := b }
  | .presolve =>
    ∃ b, v.demandBool = .ok b ∧ d = { c with settings.presolve := b, presolveNamed := true }
  | .maxNodes => ∃ n, v.demandCount = .ok n ∧ d = { c with limits.maxNodes := n }
  | .intTol => ∃ x, v.demandPositive = .ok x ∧ d = { c with limits.intTol := x }
  | .gapAbs => ∃ x, v.demandNonnegative = .ok x ∧ d = { c with limits.gapAbs := x }

theorem assign_eq_ok_iff {c d : Controls α} {control : Control} {v : OptionValue α} :
    c.assign control v = .ok d ↔ c.Takes control v d := by
  cases control <;>
    simp only [assign, Takes, bind_eq_ok, pure_eq_ok, eq_comm (a := d)]

theorem set_eq_ok_iff {c d : Controls α} {name : String} {v : OptionValue α} :
    c.set name v = .ok d ↔ ∃ control e, Control.ofName? name = some control ∧
      c.Takes control v e ∧ d = { e with accepted := e.accepted ++ [(name, v)] } := by
  constructor
  · intro h
    cases hname : Control.ofName? name with
    | none => simp [set, hname] at h
    | some control =>
        cases hassign : c.assign control v with
        | error f => simp [set, hname, hassign] at h
        | ok e =>
            refine ⟨control, e, rfl, assign_eq_ok_iff.1 hassign, ?_⟩
            simpa [set, hname, hassign, eq_comm] using h
  · rintro ⟨control, e, hname, htakes, rfl⟩
    simp [set, hname, assign_eq_ok_iff.2 htakes]

/-- An accepted change leaves the record and the verbosity to others. -/
theorem Takes.frame {c d : Controls α} {control : Control} {v : OptionValue α}
    (h : c.Takes control v d) :
    d.accepted = c.accepted ∧ d.settings.verbose = c.settings.verbose := by
  cases control <;> obtain ⟨x, -, rfl⟩ := h <;> exact ⟨rfl, rfl⟩

theorem Takes.withVerbose {c d : Controls α} {control : Control} {v : OptionValue α}
    (h : c.Takes control v d) (verbose : Bool) :
    (c.withVerbose verbose).Takes control v (d.withVerbose verbose) := by
  cases control <;> obtain ⟨x, hx, rfl⟩ := h <;> exact ⟨x, hx, rfl⟩

theorem set_ok_of_ok {c d : Controls α} {name : String} {v : OptionValue α}
    (h : c.set name v = .ok d) (c' : Controls α) : ∃ d', c'.set name v = .ok d' := by
  obtain ⟨control, e, hname, htakes, -⟩ := set_eq_ok_iff.1 h
  -- what a control demands of a value says nothing of the other controls
  have hother : ∃ e', c'.Takes control v e' := by
    cases control <;> obtain ⟨x, hx, -⟩ := htakes <;> exact ⟨_, x, hx, rfl⟩
  obtain ⟨e', htakes'⟩ := hother
  exact ⟨_, set_eq_ok_iff.2 ⟨control, e', hname, htakes', rfl⟩⟩

/-- The tolerance for whole numbers is positive, and the gap is not negative. -/
def LimitsInRange (c : Controls α) : Prop := 0 < c.limits.intTol ∧ 0 ≤ c.limits.gapAbs

theorem Takes.limitsInRange {c d : Controls α} {control : Control} {v : OptionValue α}
    (h : c.Takes control v d) (hc : c.LimitsInRange) : d.LimitsInRange := by
  cases control with
  | intTol =>
      obtain ⟨x, hx, rfl⟩ := h
      exact ⟨(OptionValue.demandPositive_eq_ok hx).2.1, hc.2⟩
  | gapAbs =>
      obtain ⟨x, hx, rfl⟩ := h
      exact ⟨hc.1, (OptionValue.demandNonnegative_eq_ok hx).2⟩
  | _ =>
      obtain ⟨x, -, rfl⟩ := h
      exact hc

theorem limitsInRange_of_set {c d : Controls α} {name : String} {v : OptionValue α}
    (h : c.set name v = .ok d) (hc : c.LimitsInRange) : d.LimitsInRange := by
  obtain ⟨control, e, -, htakes, rfl⟩ := set_eq_ok_iff.1 h
  exact htakes.limitsInRange hc

theorem set_withVerbose {c d : Controls α} {name : String} {v : OptionValue α}
    (h : c.set name v = .ok d) (verbose : Bool) :
    (c.withVerbose verbose).set name v = .ok (d.withVerbose verbose) := by
  obtain ⟨control, e, hname, htakes, rfl⟩ := set_eq_ok_iff.1 h
  exact set_eq_ok_iff.2 ⟨control, e.withVerbose verbose, hname, htakes.withVerbose verbose, rfl⟩

theorem accepted_of_set {c d : Controls α} {name : String} {v : OptionValue α}
    (h : c.set name v = .ok d) : d.accepted = c.accepted ++ [(name, v)] := by
  obtain ⟨control, e, -, htakes, rfl⟩ := set_eq_ok_iff.1 h
  rw [htakes.frame.1]

section Record

variable [EngineDefaults α]

/-- The controls after the changes of a record, one after the other from the defaults. -/
def replay (record : List (String × OptionValue α)) : Except (Error α) (Controls α) :=
  record.foldlM (fun c e => c.set e.1 e.2) .default

theorem replay_append {record : List (String × OptionValue α)} {c d : Controls α} {name : String}
    {v : OptionValue α} (h : replay record = .ok c) (hset : c.set name v = .ok d) :
    replay (record ++ [(name, v)]) = .ok d := by
  unfold replay at h ⊢
  rw [List.foldlM_append, h]
  change (List.foldlM (fun c e => c.set e.1 e.2) c [(name, v)]) = Except.ok d
  rw [List.foldlM_cons, hset]
  rfl

/-- The controls that a record accounts for, up to the verbosity. -/
def Recorded (c : Controls α) : Prop :=
  ∃ verbose, replay c.accepted = .ok (c.withVerbose verbose)

theorem recorded_default : (default : Controls α).Recorded := ⟨_, rfl⟩

theorem Recorded.withVerbose {c : Controls α} (h : c.Recorded) (verbose : Bool) :
    (c.withVerbose verbose).Recorded := h

theorem Recorded.set {c d : Controls α} {name : String} {v : OptionValue α} (h : c.Recorded)
    (hset : c.set name v = .ok d) : d.Recorded := by
  obtain ⟨verbose, hreplay⟩ := h
  refine ⟨verbose, ?_⟩
  rw [accepted_of_set hset]
  exact replay_append hreplay (set_withVerbose hset verbose)

end Record

theorem limitsInRange_default {K : Type} [Field K] [LinearOrder K] [IsStrictOrderedRing K]
    [FloorRing K] [EngineDefaults K] : (default : Controls K).LimitsInRange := by
  constructor <;> norm_num [default, SearchLimits.default]

/-! ### Presolving -/

/-- Presolving was asked for by name. -/
def AsksPresolve (c : Controls α) : Prop :=
  c.presolveNamed = true ∧ c.settings.presolve = true

theorem Takes.asksPresolve_iff {c d : Controls α} {control : Control} {v : OptionValue α}
    (h : c.Takes control v d) :
    d.AsksPresolve ↔ if control = .presolve then v = .bool true else c.AsksPresolve := by
  cases control with
  | presolve =>
      obtain ⟨b, hb, rfl⟩ := h
      obtain rfl := OptionValue.demandBool_eq_ok hb
      simp [AsksPresolve]
  | _ =>
      obtain ⟨x, -, rfl⟩ := h
      rfl

theorem asksPresolve_of_set {c d : Controls α} {name : String} {v : OptionValue α}
    (h : c.set name v = .ok d) :
    d.AsksPresolve ↔ if name = Control.presolve.name then v = .bool true else c.AsksPresolve := by
  obtain ⟨control, e, hname, htakes, rfl⟩ := set_eq_ok_iff.1 h
  obtain rfl := Control.name_of_ofName? hname
  have hpresolve : control.name = Control.presolve.name ↔ control = .presolve := by
    cases control <;> decide
  rw [if_congr hpresolve rfl rfl]
  exact htakes.asksPresolve_iff

end Controls

end QuadProg
