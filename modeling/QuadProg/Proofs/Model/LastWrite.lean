import QuadProg.Proofs.Double
import QuadProg.Proofs.Model.Representation
import QuadProg.Proofs.Options.ByName

/-!
# The last accepted value counts

The controls are looked at one by one: `Controls.held` is what a control holds, `Control.read?` what
it takes a value for, if the value is what it demands.  An accepted call changes what its own
control holds and nothing else (`Takes.held`), and a refused call changes nothing.  So after any
calls a control holds what the last accepted call for its name gave it (`held_run`):

```text
calls                      max_iter 7   tol_feas -1   max_iter "ten"   tol_feas 1e-7   max_iter 9
written to max_iter        7                                                            9
written to tol_feas                                                    1e-7
```

The calls before are those on record (`Reachable.held`).  What holds of every value that a control
takes, and of its default, then holds at all times; this is how the ranges of the limits are found
(`Reachable.inRange`).
-/

namespace QuadProg

variable {α : Type}

/-- What a control can hold. -/
def Control.Value (α : Type) : Control → Type
  | .maxIter => Nat
  | .timeLimit => Option α
  | .tolGapAbs => α
  | .tolGapRel => α
  | .tolFeas => α
  | .tolInfeasAbs => α
  | .tolInfeasRel => α
  | .equilibrate => Bool
  | .presolve => Bool
  | .maxNodes => Nat
  | .intTol => α
  | .gapAbs => α

/-- What a control holds. -/
def Controls.held (c : Controls α) : (k : Control) → k.Value α
  | .maxIter => c.settings.maxIter
  | .timeLimit => c.settings.timeLimit
  | .tolGapAbs => c.settings.tolGapAbs
  | .tolGapRel => c.settings.tolGapRel
  | .tolFeas => c.settings.tolFeas
  | .tolInfeasAbs => c.settings.tolInfeasAbs
  | .tolInfeasRel => c.settings.tolInfeasRel
  | .equilibrate => c.settings.equilibrate
  | .presolve => c.settings.presolve
  | .maxNodes => c.limits.maxNodes
  | .intTol => c.limits.intTol
  | .gapAbs => c.limits.gapAbs

/-- The controls and the verbosity are all that settings and limits consist of. -/
theorem Controls.eq_of_held {c d : Controls α} (h : ∀ k, c.held k = d.held k)
    (hverbose : c.settings.verbose = d.settings.verbose) :
    c.settings = d.settings ∧ c.limits = d.limits := by
  obtain ⟨⟨_, _, _, _, _, _, _, _, _, _⟩, ⟨_, _, _⟩, _, _⟩ := c
  obtain ⟨⟨_, _, _, _, _, _, _, _, _, _⟩, ⟨_, _, _⟩, _, _⟩ := d
  cases h .maxIter
  cases h .timeLimit
  cases h .tolGapAbs
  cases h .tolGapRel
  cases h .tolFeas
  cases h .tolInfeasAbs
  cases h .tolInfeasRel
  cases h .equilibrate
  cases h .presolve
  cases h .maxNodes
  cases h .intTol
  cases h .gapAbs
  cases hverbose
  exact ⟨rfl, rfl⟩

variable [Scalar α]

/-- What the control takes a value for; nothing where the value is not what it demands. -/
def Control.read? : (k : Control) → OptionValue α → Option (k.Value α)
  | .maxIter, v => v.demandCount.toOption
  | .timeLimit, v => v.demandNonnegative.toOption.map some
  | .tolGapAbs, v => v.demandPositive.toOption
  | .tolGapRel, v => v.demandPositive.toOption
  | .tolFeas, v => v.demandPositive.toOption
  | .tolInfeasAbs, v => v.demandPositive.toOption
  | .tolInfeasRel, v => v.demandPositive.toOption
  | .equilibrate, v => v.demandBool.toOption
  | .presolve, v => v.demandBool.toOption
  | .maxNodes, v => v.demandCount.toOption
  | .intTol, v => v.demandPositive.toOption
  | .gapAbs, v => v.demandNonnegative.toOption

/-- What a call gives the control; nothing where it names another one or is refused. -/
def Control.written? (k : Control) (e : String × OptionValue α) : Option (k.Value α) :=
  if e.1 = k.name then k.read? e.2 else none

/-- What the last accepted call for the control gives it. -/
def Control.lastWritten (k : Control) (calls : List (String × OptionValue α)) :
    Option (k.Value α) :=
  (calls.filterMap k.written?).getLast?

namespace Control

variable {k : Control} {e : String × OptionValue α} {calls calls' : List (String × OptionValue α)}

theorem name_injective {k k' : Control} (h : k.name = k'.name) : k = k' := by
  cases k <;> cases k' <;> first | rfl | exact absurd h (by decide)

theorem ofName?_name (k : Control) : ofName? k.name = some k := by
  cases k <;> decide

theorem lastWritten_append (k : Control) (calls calls' : List (String × OptionValue α)) :
    k.lastWritten (calls ++ calls') = (k.lastWritten calls').or (k.lastWritten calls) := by
  rw [lastWritten, List.filterMap_append, List.getLast?_append]
  rfl

theorem lastWritten_singleton (k : Control) (e : String × OptionValue α) :
    k.lastWritten [e] = k.written? e := by
  rw [lastWritten, List.filterMap_cons]
  cases k.written? e <;> rfl

theorem lastWritten_cons (k : Control) (e : String × OptionValue α)
    (calls : List (String × OptionValue α)) :
    k.lastWritten (e :: calls) = (k.lastWritten calls).or (k.written? e) := by
  rw [← List.singleton_append, lastWritten_append, lastWritten_singleton]

/-- What was written last was read from a value. -/
theorem exists_of_lastWritten {x : k.Value α} (h : k.lastWritten calls = some x) :
    ∃ v, k.read? v = some x := by
  obtain ⟨e, -, he⟩ := List.mem_filterMap.1 (List.mem_of_getLast? h)
  unfold written? at he
  split_ifs at he
  exact ⟨e.2, he⟩

/-- Calls with different names can change places. -/
theorem lastWritten_perm (hperm : calls.Perm calls') (hnames : (calls.map (·.1)).Nodup) :
    k.lastWritten calls = k.lastWritten calls' := by
  induction hperm with
  | nil => rfl
  | cons e _ ih =>
      rw [lastWritten_cons, lastWritten_cons, ih (List.nodup_cons.1 hnames).2]
  | swap e f calls =>
      rw [lastWritten_cons, lastWritten_cons, lastWritten_cons, lastWritten_cons, Option.or_assoc,
        Option.or_assoc]
      -- at most one of the two has the name of the control
      have hne : f.1 ≠ e.1 := fun heq => (List.nodup_cons.1 hnames).1 (by simp [heq])
      unfold written?
      split_ifs with hf he
      · exact absurd (hf.trans he.symm) hne.symm
      · rw [Option.or_none, Option.none_or]
      · rw [Option.or_none, Option.none_or]
      · rfl
  | trans hfirst _ ih ih' =>
      exact (ih hnames).trans (ih' (((hfirst.map _).nodup_iff).1 hnames))

end Control

/-! ### What calls write -/

namespace Controls

/-- **An accepted value is in force for its own control**, and no other control minds. -/
theorem Takes.held {c d : Controls α} {k : Control} {v : OptionValue α} (h : c.Takes k v d) :
    k.read? v = some (d.held k) ∧ (∀ k', k' ≠ k → d.held k' = c.held k') ∧
      d.presolveNamed = (c.presolveNamed || decide (k = .presolve)) := by
  cases k <;> obtain ⟨x, hx, rfl⟩ := h <;>
    refine ⟨by rw [Control.read?, hx]; rfl, fun k' hk => ?_, by simp⟩ <;>
    cases k' <;> first | rfl | exact absurd rfl hk

/-- What a control demands has nothing to do with the controls in force. -/
theorem exists_takes {k : Control} {v : OptionValue α} {x : k.Value α} (h : k.read? v = some x)
    (c : Controls α) : ∃ d, c.Takes k v d := by
  cases k with
  | timeLimit =>
      obtain ⟨y, hy, -⟩ := Option.map_eq_some_iff.1 h
      exact ⟨_, y, eq_ok_of_toOption hy, rfl⟩
  | _ => exact ⟨_, x, eq_ok_of_toOption h, rfl⟩

theorem held_of_set {c d : Controls α} {e : String × OptionValue α} (h : c.set e.1 e.2 = .ok d)
    (k : Control) : d.held k = (k.written? e).getD (c.held k) := by
  obtain ⟨k', d, hname, htakes, rfl⟩ := set_eq_ok_iff.1 h
  obtain ⟨hread, hothers, -⟩ := htakes.held
  show d.held k = _
  rw [Control.written?, ← Control.name_of_ofName? hname]
  split_ifs with hk
  · obtain rfl := Control.name_injective hk
    rw [hread, Option.getD_some]
  · exact hothers k fun heq => hk (heq ▸ rfl)

theorem presolveNamed_of_set {c d : Controls α} {e : String × OptionValue α}
    (h : c.set e.1 e.2 = .ok d) :
    d.presolveNamed = (c.presolveNamed || (Control.presolve.written? e).isSome) := by
  obtain ⟨k', d, hname, htakes, rfl⟩ := set_eq_ok_iff.1 h
  obtain ⟨hread, -, hnamed⟩ := htakes.held
  show d.presolveNamed = _
  rw [hnamed, Control.written?, ← Control.name_of_ofName? hname]
  split_ifs with hk
  · obtain rfl := Control.name_injective hk
    rw [hread]
    rfl
  · rw [decide_eq_false fun heq : k' = .presolve => hk (by rw [heq])]
    rfl

/-- A refused call writes nothing. -/
theorem written?_of_set_error {c : Controls α} {e : String × OptionValue α} {error : Error α}
    (h : c.set e.1 e.2 = .error error) (k : Control) : k.written? e = none := by
  refine Option.eq_none_iff_forall_ne_some.2 fun x hx => ?_
  unfold Control.written? at hx
  split_ifs at hx with hname
  obtain ⟨d, htakes⟩ := exists_takes hx c
  have hset := set_eq_ok_iff.2 ⟨k, d, hname ▸ Control.ofName?_name k, htakes, rfl⟩
  rw [h] at hset
  cases hset

theorem verbose_of_set {c d : Controls α} {name : String} {v : OptionValue α}
    (h : c.set name v = .ok d) : d.settings.verbose = c.settings.verbose := by
  obtain ⟨k, d, -, htakes, rfl⟩ := set_eq_ok_iff.1 h
  exact htakes.frame.2

end Controls

/-! ### Sequences of calls -/

namespace Model

/-- The model after calls that set controls, one after the other, refused ones included. -/
def setEach (m : Model α) (calls : List (String × OptionValue α)) : Model α :=
  Call.run m (calls.map fun e => .setControl e.1 e.2)

theorem setEach_cons (m : Model α) (e : String × OptionValue α)
    (calls : List (String × OptionValue α)) :
    m.setEach (e :: calls) = ((Call.setControl e.1 e.2).after m).setEach calls := rfl

/-- What calls that set controls come to: every control holds what was written to it last, and
nothing else is touched. -/
structure Writes (m : Model α) (calls : List (String × OptionValue α)) (m' : Model α) : Prop where
  frame : m' = { m with controls := m'.controls }
  held (k : Control) :
    m'.controls.held k = (k.lastWritten calls).getD (m.controls.held k)
  presolveNamed : m'.controls.presolveNamed =
    (m.controls.presolveNamed || (Control.presolve.lastWritten calls).isSome)
  verbose : m'.controls.settings.verbose = m.controls.settings.verbose

theorem setControl_writes (m : Model α) (e : String × OptionValue α) :
    m.Writes [e] ((Call.setControl e.1 e.2).after m) := by
  simp only [Call.after, apply_setControl]
  cases hset : m.controls.set e.1 e.2 with
  | error error =>
      have hnone := Controls.written?_of_set_error hset
      constructor
      · rfl
      · intro k
        rw [Control.lastWritten_singleton, hnone, Option.getD_none]
      · rw [Control.lastWritten_singleton, hnone, Option.isSome_none, Bool.or_false]
      · rfl
  | ok c =>
      constructor
      · rfl
      · intro k
        rw [Control.lastWritten_singleton]
        exact Controls.held_of_set hset k
      · rw [Control.lastWritten_singleton]
        exact Controls.presolveNamed_of_set hset
      · exact Controls.verbose_of_set hset

theorem Writes.trans {m m' m'' : Model α} {calls calls' : List (String × OptionValue α)}
    (h : m.Writes calls m') (h' : m'.Writes calls' m'') : m.Writes (calls ++ calls') m'' := by
  constructor
  · rw [h'.frame, h.frame]
  · intro k
    rw [h'.held, h.held, Control.lastWritten_append]
    cases k.lastWritten calls' <;> rfl
  · rw [h'.presolveNamed, h.presolveNamed, Control.lastWritten_append, Bool.or_assoc]
    cases Control.presolve.lastWritten calls' <;> simp
  · exact h'.verbose.trans h.verbose

/-- **The last accepted call for a control counts**, by induction over the calls. -/
theorem setEach_writes (m : Model α) (calls : List (String × OptionValue α)) :
    m.Writes calls (m.setEach calls) := by
  induction calls generalizing m with
  | nil => exact ⟨rfl, fun k => rfl, (Bool.or_false _).symm, rfl⟩
  | cons e calls ih => exact (m.setControl_writes e).trans (ih _)

section Record

variable [EngineDefaults α]

/-- The controls of a reachable model hold what was written last, going by its record, and their
defaults where nothing was written. -/
theorem Reachable.held {m : Model α} (h : m.Reachable) (k : Control) :
    m.controls.held k =
      (k.lastWritten m.controls.accepted).getD ((Controls.default : Controls α).held k) := by
  refine h.controls
    (P := fun c => c.held k = (k.lastWritten c.accepted).getD (Controls.default.held k))
    (by cases k <;> rfl) (fun {c d name v} hc hset => ?_) (fun b hc => by cases k <;> exact hc)
  rw [Controls.accepted_of_set hset, Control.lastWritten_append, Control.lastWritten_singleton,
    Controls.held_of_set (e := (name, v)) hset, hc]
  cases k.written? (name, v) <;> rfl

/-- So a control holds its default or a value that it takes. -/
theorem Reachable.held_cases {m : Model α} (h : m.Reachable) (k : Control) :
    m.controls.held k = (Controls.default : Controls α).held k ∨
      ∃ v, k.read? v = some (m.controls.held k) := by
  rw [h.held k]
  cases hlast : k.lastWritten m.controls.accepted with
  | none => exact .inl rfl
  | some x => exact .inr (Control.exists_of_lastWritten hlast)

theorem Reachable.presolveNamed {m : Model α} (h : m.Reachable) :
    m.controls.presolveNamed = (Control.presolve.lastWritten m.controls.accepted).isSome := by
  refine h.controls
    (P := fun c => c.presolveNamed = (Control.presolve.lastWritten c.accepted).isSome)
    rfl (fun {c d name v} hc hset => ?_) (fun _ hc => hc)
  rw [Controls.accepted_of_set hset, Control.lastWritten_append, Control.lastWritten_singleton,
    Controls.presolveNamed_of_set (e := (name, v)) hset, hc]
  cases Control.presolve.written? (name, v) <;> simp

theorem Reachable.setEach {m : Model α} (h : m.Reachable)
    (calls : List (String × OptionValue α)) : (m.setEach calls).Reachable := by
  induction calls generalizing m with
  | nil => exact h
  | cons e calls ih => exact ih (h.call (.setControl e.1 e.2))

end Record

/-- A call is accepted if and only if it writes to some control. -/
theorem setControl_eq_ok_iff (m : Model α) (e : String × OptionValue α) :
    ((setControl e.1 e.2).apply m).1 = .ok () ↔ ∃ k, (Control.written? k e).isSome := by
  rw [apply_setControl]
  cases hset : m.controls.set e.1 e.2 with
  | error error =>
      have hnone := Controls.written?_of_set_error hset
      simp [hnone]
  | ok c =>
      obtain ⟨k, d, hname, htakes, -⟩ := Controls.set_eq_ok_iff.1 hset
      refine iff_of_true rfl ⟨k, ?_⟩
      rw [Control.written?, if_pos (Control.name_of_ofName? hname).symm, htakes.held.1]
      rfl

/-- Setting options that are all accepted is setting them one after the other. -/
theorem eq_of_setControls {entries : List (String × OptionValue α)} {m m' : Model α}
    (h : (entries.forM fun e => setControl e.1 e.2).apply m = (.ok (), m')) :
    m' = m.setEach entries := by
  induction entries generalizing m with
  | nil =>
      cases h
      rfl
  | cons e es ih =>
      rw [Edit.apply_forM_cons] at h
      rw [setEach_cons, Call.after]
      cases hset : (setControl e.1 e.2).apply m with
      | mk result after =>
          rw [hset] at h
          cases result with
          | error error => cases h
          | ok _ => exact ih h

end Model

/-- The same settings and limits, whatever the record. -/
def Controls.SameSettings (c d : Controls α) : Prop :=
  c.settings = d.settings ∧ c.limits = d.limits ∧ c.presolveNamed = d.presolveNamed

namespace Model

/-- Calls with different names come to the same settings in any order. -/
theorem sameSettings_of_perm (m : Model α) {calls calls' : List (String × OptionValue α)}
    (hperm : calls.Perm calls') (hnames : (calls.map (·.1)).Nodup) :
    (m.setEach calls).controls.SameSettings (m.setEach calls').controls := by
  have h := m.setEach_writes calls
  have h' := m.setEach_writes calls'
  have hheld : ∀ k, (m.setEach calls).controls.held k = (m.setEach calls').controls.held k := by
    intro k
    rw [h.held, h'.held, Control.lastWritten_perm hperm hnames]
  obtain ⟨hsettings, hlimits⟩ := Controls.eq_of_held hheld (h.verbose.trans h'.verbose.symm)
  refine ⟨hsettings, hlimits, ?_⟩
  rw [h.presolveNamed, h'.presolveNamed, Control.lastWritten_perm hperm hnames]

end Model

/-- What options write to a control is their value for its name, if it is what the control
demands. -/
theorem Control.lastWritten_entries (k : Control) (o : Options α) :
    k.lastWritten o.entries = (o.get? k.name).bind k.read? := by
  obtain ⟨entries, hsorted⟩ := o
  rw [Options.get?]
  induction entries with
  | nil => rfl
  | cons e es ih =>
      obtain ⟨he, hes⟩ := List.pairwise_cons.1 hsorted
      rw [lastWritten_cons, ih hes, lookup_cons_eq, written?]
      by_cases hname : e.1 = k.name
      · rw [if_pos hname, if_pos hname.symm, lookup_eq_none_of_lt fun f hf => hname ▸ he f hf]
        rfl
      · rw [if_neg hname, if_neg (Ne.symm hname), Option.or_none]

/-! ### Doubles -/

theorem Double.isNaN_of_nonneg {x : Float} (h : 0 ≤ x) : x.isNaN = false := by
  obtain ⟨⟨-, hx⟩, -⟩ := Double.le_iff.1 h
  show x.toModel.unpack.isNaN = false
  cases hunpack : x.toModel.unpack with
  | notANumber => exact absurd hunpack hx
  | _ => rfl

/-- The tolerance for whole numbers is positive and finite, and neither the gap nor a time limit is
negative or no number at all. -/
structure Controls.InRange (c : Controls Float) : Prop where
  intTol : 0 < c.limits.intTol ∧ c.limits.intTol.isFinite = true
  gapAbs : 0 ≤ c.limits.gapAbs ∧ c.limits.gapAbs.isNaN = false
  timeLimit : ∀ x, c.settings.timeLimit = some x → 0 ≤ x ∧ x.isNaN = false

namespace Model

/-- Every value that a control takes is in its range, and so is its default. -/
theorem Reachable.inRange {m : Model Float} (h : m.Reachable) : m.controls.InRange := by
  have hgap : 0 ≤ m.controls.limits.gapAbs := by
    rcases h.held_cases .gapAbs with hdefault | ⟨v, hv⟩
    · rw [show m.controls.limits.gapAbs = 1e-6 from hdefault]
      decide +kernel
    · exact (OptionValue.demandNonnegative_eq_ok (eq_ok_of_toOption hv)).2
  have htime : ∀ x, m.controls.settings.timeLimit = some x → 0 ≤ x := by
    intro x hx
    rcases h.held_cases .timeLimit with hdefault | ⟨v, hv⟩
    · have hnone : m.controls.settings.timeLimit = none :=
        hdefault.trans EngineDefaults.timeLimit_eq_none
      cases hnone.symm.trans hx
    · obtain ⟨y, hy, heq⟩ := Option.map_eq_some_iff.1 hv
      obtain rfl : y = x := Option.some.inj (heq.trans hx)
      exact (OptionValue.demandNonnegative_eq_ok (eq_ok_of_toOption hy)).2
  refine ⟨?_, ⟨hgap, Double.isNaN_of_nonneg hgap⟩,
    fun x hx => ⟨htime x hx, Double.isNaN_of_nonneg (htime x hx)⟩⟩
  rcases h.held_cases .intTol with hdefault | ⟨v, hv⟩
  · rw [show m.controls.limits.intTol = 1e-5 from hdefault]
    decide +kernel
  · exact (OptionValue.demandPositive_eq_ok (eq_ok_of_toOption hv)).2

/-- **Controls are independent, and the last accepted value counts.**  Let calls set controls of a
reachable model, with any names and values, some accepted and some not.  Afterwards every control
holds what the last accepted call for it gave it, and what it held before if there is none; that is
what the record of earlier calls says was written last, or its default.  The same goes for whether
presolving was named; the verbosity, and what is not a control, stays as it is, and the limits are
in their ranges.  So calls with different names come to the same settings in any order, and options
do not tell in which order they were made: only the last value for each name is set. -/
theorem setEach_lastWrite {m : Model Float} (hm : m.Reachable)
    (calls : List (String × OptionValue Float)) :
    (∀ e, ((setControl e.1 e.2).apply m).1 = .ok () ↔ ∃ k, (Control.written? k e).isSome) ∧
      m.Writes calls (m.setEach calls) ∧
      (∀ k, m.controls.held k =
        (k.lastWritten m.controls.accepted).getD ((Controls.default : Controls Float).held k)) ∧
      m.controls.presolveNamed = (Control.presolve.lastWritten m.controls.accepted).isSome ∧
      (m.setEach calls).controls.InRange ∧
      (∀ calls', calls.Perm calls' → (calls.map (·.1)).Nodup →
        (m.setEach calls).controls.SameSettings (m.setEach calls').controls) ∧
      ∀ es fs, (∀ name, Options.lastValue name es = Options.lastValue name fs) →
        (setControls (.ofList es)).apply m = (setControls (.ofList fs)).apply m ∧
        ∀ m', (setControls (.ofList es)).apply m = (.ok (), m') → ∀ k,
          m'.controls.held k =
            ((Options.lastValue k.name es).bind k.read?).getD (m.controls.held k) := by
  refine ⟨m.setControl_eq_ok_iff, m.setEach_writes calls, hm.held, hm.presolveNamed,
    (hm.setEach calls).inRange, fun calls' => m.sameSettings_of_perm, fun es fs hlast => ⟨?_, ?_⟩⟩
  · rw [Options.ofList_congr hlast]
  · intro m' h k
    rw [eq_of_setControls h, (m.setEach_writes _).held, Control.lastWritten_entries,
      Options.get?_ofList]

/-- A model with a history. -/
def patientModel : Model Float :=
  Call.run (.empty engineInfinity) [.setControl "max_iter" (.int 7), .setVerbose false,
    .setControl "tol_feas" (.number 1e-7), .setControl "presolve_enable" (.int 1)]

/-- Names that are all different, one of them unknown, and values of which two are refused. -/
def mixedControls : List (String × OptionValue Float) :=
  [("max_iter", .int 9), ("nonsense", .int 1), ("mip_gap_abs", .number (0 / 0)),
    ("time_limit", .int 2), ("tol_feas", .text "tight"), ("presolve_enable", .bool false)]

/-- The calls backwards come to the same; nothing accepted was said of the gap, which has its
default, nor of the tolerance, which is from the history.  Options lose what was overwritten. -/
theorem setEach_lastWrite_backwards :
    (patientModel.setEach mixedControls).controls.held .maxIter = (9 : Nat) ∧
    (patientModel.setEach mixedControls).controls.held .tolFeas = (1e-7 : Float) ∧
    (patientModel.setEach mixedControls).controls.held .gapAbs = (1e-6 : Float) ∧
    (patientModel.setEach mixedControls).controls.presolveNamed = true ∧
    (patientModel.setEach mixedControls).controls.settings.verbose = false ∧
    (patientModel.setEach mixedControls).controls.SameSettings
      (patientModel.setEach mixedControls.reverse).controls ∧
    (setControls (.ofList [("max_iter", .int 9), ("tol_feas", .int 1)])).apply patientModel =
      (setControls (.ofList
        [("tol_feas", .int (-1)), ("max_iter", .int 9), ("tol_feas", .int 1)])).apply
          patientModel := by
  have hm : patientModel.Reachable := by
    refine .call (.setControl "presolve_enable" (.int 1)) (.call (.setControl "tol_feas" _)
      (.call (.setVerbose false) (.call (.setControl "max_iter" _) (.empty _))))
  obtain ⟨-, hwrites, hheld, hnamed, -, hperm, hoptions⟩ := setEach_lastWrite hm mixedControls
  have hiter : Control.maxIter.lastWritten mixedControls = some (9 : Nat) := rfl
  have hfeas : Control.tolFeas.lastWritten mixedControls = none := rfl
  have hgap : Control.gapAbs.lastWritten mixedControls = none := rfl
  have hpresolve : Control.presolve.lastWritten mixedControls = some false := rfl
  refine ⟨?_, ?_, ?_, ?_, ?_, ?_, ?_⟩
  · rw [hwrites.held, hiter]
    rfl
  · rw [hwrites.held, hfeas, Option.getD_none]
    rfl
  · rw [hwrites.held, hgap, Option.getD_none, hheld]
    rfl
  · rw [hwrites.presolveNamed, hpresolve]
    exact Bool.or_true _
  · rw [hwrites.verbose]
    rfl
  · exact hperm _ mixedControls.reverse_perm.symm (by decide)
  · refine (hoptions _ _ fun name => ?_).1
    simp only [Options.lastValue_cons]
    split_ifs <;> simp_all

end Model

end QuadProg
