import QuadProg.Proofs.Model.Controls
import QuadProg.Session

/-!
# Settings that agree

Patterns are compared by comparing their parts, and numbers in them by `==`, which on doubles takes
zero and its negative for the same.  So problems of one pattern need not have identical settings,
but their settings *agree*: they differ in such numbers at most.

Settings are not part of a pattern.  They come out the same because the record of the controls is:
what a control demands of two values that agree is the same number (`demandNonnegative_agree` and
the like), so a step of a replay keeps agreement (`Takes.agree`), and so does the whole replay
(`replay_agree`).
-/

namespace QuadProg

variable {α : Type} [Scalar α]

/-- The same number, identically or by comparison. -/
def SameNumber (x y : α) : Prop := x = y ∨ (x == y) = true

/-- The same settings, up to numbers that compare as the same. -/
structure Settings.Agrees (s t : Settings α) : Prop where
  maxIter : s.maxIter = t.maxIter
  timeLimit : Option.Rel SameNumber s.timeLimit t.timeLimit
  tolGapAbs : SameNumber s.tolGapAbs t.tolGapAbs
  tolGapRel : SameNumber s.tolGapRel t.tolGapRel
  tolFeas : SameNumber s.tolFeas t.tolFeas
  tolInfeasAbs : SameNumber s.tolInfeasAbs t.tolInfeasAbs
  tolInfeasRel : SameNumber s.tolInfeasRel t.tolInfeasRel
  equilibrate : s.equilibrate = t.equilibrate
  presolve : s.presolve = t.presolve
  verbose : s.verbose = t.verbose

theorem Settings.agrees_rfl (s : Settings α) : s.Agrees s := by
  refine ⟨rfl, ?_, .inl rfl, .inl rfl, .inl rfl, .inl rfl, .inl rfl, rfl, rfl, rfl⟩
  cases s.timeLimit with
  | none => exact .none
  | some x => exact .some (.inl rfl)

namespace OptionValue

/-- The same value, up to numbers that compare as the same. -/
inductive Agrees : OptionValue α → OptionValue α → Prop
  | bool (b : Bool) : Agrees (.bool b) (.bool b)
  | int (i : Int) : Agrees (.int i) (.int i)
  | number {x y : α} : SameNumber x y → Agrees (.number x) (.number y)
  | text (s : String) : Agrees (.text s) (.text s)

theorem agrees_of_beq {v w : OptionValue α} (h : (v == w) = true) : v.Agrees w := by
  cases v with
  | bool b =>
      cases w with
      | bool c =>
          obtain rfl : b = c := eq_of_beq h
          exact .bool b
      | _ => cases h
  | int i =>
      cases w with
      | int j =>
          obtain rfl : i = j := eq_of_beq h
          exact .int i
      | _ => cases h
  | number x =>
      cases w with
      | number y => exact .number (.inr h)
      | _ => cases h
  | text s =>
      cases w with
      | text t =>
          obtain rfl : s = t := eq_of_beq h
          exact .text s
      | _ => cases h

theorem sameNumber_of_asNumber {v w : OptionValue α} (h : v.Agrees w) {x y : α}
    (hv : v.asNumber? = some x) (hw : w.asNumber? = some y) : SameNumber x y := by
  cases h with
  | int i => exact .inl (Option.some.inj (hv.symm.trans hw))
  | number hxy =>
      cases hv
      cases hw
      exact hxy
  | _ => cases hv

theorem demandBool_agree {v w : OptionValue α} (h : v.Agrees w) {b c : Bool}
    (hv : v.demandBool = .ok b) (hw : w.demandBool = .ok c) : b = c := by
  cases h with
  | bool d =>
      cases hv
      cases hw
      rfl
  | _ => cases hv

theorem demandCount_agree {v w : OptionValue α} (h : v.Agrees w) {m n : Nat}
    (hv : v.demandCount = .ok m) (hw : w.demandCount = .ok n) : m = n := by
  cases h with
  | int i => exact Except.ok.inj (hv.symm.trans hw)
  | _ => cases hv

theorem demandNonnegative_agree {v w : OptionValue α} (h : v.Agrees w) {x y : α}
    (hv : v.demandNonnegative = .ok x) (hw : w.demandNonnegative = .ok y) : SameNumber x y :=
  sameNumber_of_asNumber h (demandNonnegative_eq_ok hv).1 (demandNonnegative_eq_ok hw).1

theorem demandPositive_agree {v w : OptionValue α} (h : v.Agrees w) {x y : α}
    (hv : v.demandPositive = .ok x) (hw : w.demandPositive = .ok y) : SameNumber x y :=
  sameNumber_of_asNumber h (demandPositive_eq_ok hv).1 (demandPositive_eq_ok hw).1

end OptionValue

namespace Controls

theorem Takes.agree {c d c' d' : Controls α} {control : Control} {v w : OptionValue α}
    (hc : c.Takes control v c') (hd : d.Takes control w d') (hvw : v.Agrees w)
    (h : c.settings.Agrees d.settings) : c'.settings.Agrees d'.settings := by
  cases control <;> obtain ⟨x, hx, rfl⟩ := hc <;> obtain ⟨y, hy, rfl⟩ := hd
  case maxIter => exact { h with maxIter := OptionValue.demandCount_agree hvw hx hy }
  case timeLimit =>
    exact { h with timeLimit := .some (OptionValue.demandNonnegative_agree hvw hx hy) }
  case tolGapAbs => exact { h with tolGapAbs := OptionValue.demandPositive_agree hvw hx hy }
  case tolGapRel => exact { h with tolGapRel := OptionValue.demandPositive_agree hvw hx hy }
  case tolFeas => exact { h with tolFeas := OptionValue.demandPositive_agree hvw hx hy }
  case tolInfeasAbs => exact { h with tolInfeasAbs := OptionValue.demandPositive_agree hvw hx hy }
  case tolInfeasRel => exact { h with tolInfeasRel := OptionValue.demandPositive_agree hvw hx hy }
  case equilibrate => exact { h with equilibrate := OptionValue.demandBool_agree hvw hx hy }
  case presolve => exact { h with presolve := OptionValue.demandBool_agree hvw hx hy }
  -- the limits of a search are not among the settings
  case maxNodes => exact h
  case intTol => exact h
  case gapAbs => exact h

theorem set_agree {c d c' d' : Controls α} {name : String} {v w : OptionValue α}
    (hc : c.set name v = .ok c') (hd : d.set name w = .ok d') (hvw : v.Agrees w)
    (h : c.settings.Agrees d.settings) : c'.settings.Agrees d'.settings := by
  obtain ⟨control, e, hname, htakes, rfl⟩ := set_eq_ok_iff.1 hc
  obtain ⟨control', e', hname', htakes', rfl⟩ := set_eq_ok_iff.1 hd
  obtain rfl : control = control' := Option.some.inj (hname.symm.trans hname')
  have hstep : e.settings.Agrees e'.settings := htakes.agree htakes' hvw h
  exact hstep

/-- Records of the same names in the same order, with values that agree. -/
abbrev RecordsAgree : List (String × OptionValue α) → List (String × OptionValue α) → Prop :=
  List.Forall₂ fun e f => e.1 = f.1 ∧ e.2.Agrees f.2

omit [Scalar α] in
/-- Records are compared entry by entry. -/
theorem record_beq_iff [BEq α] {record record' : List (String × OptionValue α)} :
    (record == record') = true ↔
      List.Forall₂ (fun e f => e.1 = f.1 ∧ (e.2 == f.2) = true) record record' := by
  induction record generalizing record' with
  | nil => cases record' <;> simp
  | cons e es ih =>
      cases record' with
      | nil => simp
      | cons f fs =>
          have hhead : (e == f) = (e.1 == f.1 && e.2 == f.2) := rfl
          rw [List.cons_beq_cons, List.forall₂_cons, hhead, Bool.and_eq_true, Bool.and_eq_true, ih,
            beq_iff_eq]

theorem recordsAgree_of_beq {record record' : List (String × OptionValue α)}
    (h : (record == record') = true) : RecordsAgree record record' :=
  (record_beq_iff.1 h).imp fun _ _ hentry => ⟨hentry.1, OptionValue.agrees_of_beq hentry.2⟩

variable [EngineDefaults α]

theorem replay_agree {record record' : List (String × OptionValue α)} {c d : Controls α}
    (h : RecordsAgree record record') (hc : replay record = .ok c) (hd : replay record' = .ok d) :
    c.settings.Agrees d.settings := by
  suffices hfrom : ∀ start start' : Controls α, start.settings.Agrees start'.settings →
      record.foldlM (fun c e => c.set e.1 e.2) start = .ok c →
      record'.foldlM (fun c e => c.set e.1 e.2) start' = .ok d →
      c.settings.Agrees d.settings from
    hfrom .default .default (Settings.agrees_rfl _) hc hd
  clear hc hd
  induction h with
  | nil =>
      intro start start' hagree hc hd
      cases hc
      cases hd
      exact hagree
  | @cons e f es fs hef _ ih =>
      intro start start' hagree hc hd
      rw [List.foldlM_cons] at hc hd
      obtain ⟨next, hset, hc⟩ := bind_eq_ok.1 hc
      obtain ⟨next', hset', hd⟩ := bind_eq_ok.1 hd
      rw [← hef.1] at hset'
      exact ih next next' (set_agree hset hset' hef.2 hagree) hc hd

/-- Controls with records that agree have settings that agree, up to the verbosity. -/
theorem Recorded.agree {c d : Controls α} (hc : c.Recorded) (hd : d.Recorded)
    (h : RecordsAgree c.accepted d.accepted) (hverbose : c.settings.verbose = d.settings.verbose) :
    c.settings.Agrees d.settings := by
  obtain ⟨_, hc⟩ := hc
  obtain ⟨_, hd⟩ := hd
  exact { replay_agree h hc hd with verbose := hverbose }

end Controls

end QuadProg
