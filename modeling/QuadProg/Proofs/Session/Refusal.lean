import QuadProg.Proofs.Build.Translation
import QuadProg.Proofs.Session.Transition

/-!
# What is refused

A step with an engine that can be used has an error or a solution, and which of the two is settled
before the engine is asked anything.  Three things are looked at, and the first that is wrong is
reported:

```text
the layout     its dimensions differ from those of the problem       `.layoutSize`
the problem    it does not pass its check                            the error of the check
the options    one is refused; the first such, by the order of names `.invalidOption` with its name
```

Options are refused one by one, since no control minds the others (`Controls.accepts_or_refuses`).
Before them the model is built, by edits that have checks of their own.  These cannot fail any more:
the check of the problem implies all of them (`Problem.apply_build`).

What goes wrong in the engine is not an error.  A breakdown ends in a solution that says so and has
nothing else to show.
-/

namespace QuadProg

variable {α μ : Type} [Scalar α]

/-! ### Options -/

theorem bind_pure_eq_error {ε β γ : Type} {x : Except ε β} {f : β → γ} {e : ε} :
    (x >>= fun b => pure (f b)) = .error e ↔ x = .error e := by
  cases x with
  | error e' => exact ⟨fun h => by cases h; rfl, fun h => by cases h; rfl⟩
  | ok b => exact ⟨fun h => (nomatch h), fun h => (nomatch h)⟩

namespace Controls

/-- The option is accepted, whatever the controls are. -/
def Accepts (α : Type) [Scalar α] (e : String × OptionValue α) : Prop :=
  ∀ c : Controls α, ∃ d, c.set e.1 e.2 = .ok d

/-- The option is refused for a reason, whatever the controls are, and the error has its name. -/
def Refuses (e : String × OptionValue α) (fault : OptionFault α) : Prop :=
  ∀ c : Controls α, c.set e.1 e.2 = .error (.invalidOption e.1 fault)

theorem assign_error_of_error {c : Controls α} {control : Control} {v : OptionValue α}
    {fault : OptionFault α} (h : c.assign control v = .error fault) (c' : Controls α) :
    c'.assign control v = .error fault := by
  cases control <;> simpa only [assign, bind_pure_eq_error] using h

variable [EngineDefaults α]

theorem accepts_or_refuses (e : String × OptionValue α) :
    Accepts α e ∨ ∃ fault, Refuses e fault := by
  cases hname : Control.ofName? e.1 with
  | none => exact .inr ⟨.unknownName engineName, fun c => by rw [set, hname]⟩
  | some control =>
      cases hassign : (default : Controls α).assign control e.2 with
      | error fault =>
          refine .inr ⟨fault, fun c => ?_⟩
          rw [set, hname]
          simp only [assign_error_of_error hassign c]
      | ok d =>
          have hset : (default : Controls α).set e.1 e.2 =
              .ok { d with accepted := d.accepted ++ [(e.1, e.2)] } := by
            rw [set, hname]
            simp only [hassign]
          exact .inl (set_ok_of_ok hset)

theorem Accepts.not_refuses {e : String × OptionValue α} (h : Accepts α e) (fault : OptionFault α) :
    ¬ Refuses e fault := by
  intro hrefuses
  obtain ⟨d, hd⟩ := h .default
  rw [hrefuses .default] at hd
  cases hd

end Controls

namespace Model

/-- Options are set up to the first that is refused. -/
theorem apply_setControls_refused {before after : List (String × OptionValue α)}
    {e : String × OptionValue α} {fault : OptionFault α}
    (hbefore : ∀ f ∈ before, Controls.Accepts α f) (hrefuses : Controls.Refuses e fault)
    (m : Model α) :
    (((before ++ e :: after).forM fun f => setControl f.1 f.2).apply m).1 =
      .error (.invalidOption e.1 fault) := by
  induction before generalizing m with
  | nil => rw [List.nil_append, Edit.apply_forM_cons, apply_setControl, hrefuses m.controls]
  | cons f fs ih =>
      obtain ⟨d, hset⟩ := hbefore f List.mem_cons_self m.controls
      rw [List.cons_append, Edit.apply_forM_cons, apply_setControl, hset]
      exact ih (fun g hg => hbefore g (List.mem_cons_of_mem _ hg)) _

end Model

/-- Some option is refused if not all are accepted, and then there is a first one. -/
theorem Options.first_refused [EngineDefaults α] (entries : List (String × OptionValue α)) :
    (∀ e ∈ entries, Controls.Accepts α e) ∨ ∃ before e after fault,
      entries = before ++ e :: after ∧ (∀ f ∈ before, Controls.Accepts α f) ∧
        Controls.Refuses e fault := by
  induction entries with
  | nil => exact .inl fun e he => absurd he List.not_mem_nil
  | cons e es ih =>
      rcases Controls.accepts_or_refuses e with haccepts | ⟨fault, hrefuses⟩
      · rcases ih with hall | ⟨before, f, after, fault, rfl, hbefore, hrefuses⟩
        · exact .inl (List.forall_mem_cons.2 ⟨haccepts, hall⟩)
        · exact .inr ⟨e :: before, f, after, fault, rfl,
            List.forall_mem_cons.2 ⟨haccepts, hbefore⟩, hrefuses⟩
      · exact .inr ⟨[], e, es, fault, rfl, fun f hf => absurd hf List.not_mem_nil, hrefuses⟩

/-! ### Problems -/

namespace Problem

variable [EngineDefaults α] {d : Problem α}

theorem toModel_of_check_error {error : Error α} (h : d.check = .error error) (verbose : Bool)
    (options : Options α) : d.toModel verbose options = .error error := by
  rw [toModel, h]
  rfl

/-- Only the options can still be refused once a problem has passed its check. -/
theorem toModel_of_check (hcheck : d.check = .ok ()) (ha : d.a.WellFormed) (hf : d.f.WellFormed)
    (verbose : Bool) (options : Options α) :
    ∃ built : Model α, d.toModel verbose options =
      match (Model.setControls options).apply built with
      | (.error error, _) => .error error
      | (.ok (), m) => .ok m := by
  let built : Model α := Model.setVerbose verbose
    ⟨d.modelColumns, d.modelRows, d.modelQuadratic, .default, engineInfinity⟩
  have hbuild := apply_build (consistent_of_check hcheck) ha hf
  let edit : Edit α Unit := do
    d.build
    modify (Model.setVerbose verbose)
    Model.setControls options
  have hedit : edit.apply (.empty engineInfinity) = (Model.setControls options).apply built := by
    refine (Edit.apply_bind_of_ok hbuild).trans ?_
    exact Edit.apply_bind_of_ok (b := ⟨⟩) rfl
  have hresult : d.toModel verbose options = (do
      d.check
      match edit.apply (.empty engineInfinity) with
      | (.error e, _) => throw e
      | (.ok (), m) => return m) := rfl
  refine ⟨built, ?_⟩
  rw [hresult, hcheck, hedit]
  rfl

end Problem

/-! ### Steps -/

/-- The dimensions of the layout and of the problem, which have to agree. -/
def Layout.Mismatches (l : Layout) (d : Problem α) : Prop :=
  (l.nVar, l.nEq, l.nIneq) ≠ (d.nVar, d.nEq, d.nIneq)

/-- The errors that bad input is refused with: a layout that does not cover the problem comes before
a problem that does not pass its check, and that before an option that is refused; of several such
options the first by name is the one that counts. -/
inductive Refusal (d : Problem α) (l : Layout) (options : Options α) : Error α → Prop
  | layout (h : l.Mismatches d) : Refusal d l options
      (.invalidProblem (.layoutSize (l.nVar, l.nEq, l.nIneq) (d.nVar, d.nEq, d.nIneq)))
  | problem {error : Error α} (hdims : ¬ l.Mismatches d) (h : d.check = .error error) :
      Refusal d l options error
  | option {e : String × OptionValue α} {fault : OptionFault α} (hdims : ¬ l.Mismatches d)
      (hcheck : d.check = .ok ()) (he : e ∈ options.entries)
      (hbefore : ∀ f ∈ options.entries, f.1 < e.1 → Controls.Accepts α f)
      (h : Controls.Refuses e fault) : Refusal d l options (.invalidOption e.1 fault)

/-- The layout does not cover the problem, or the problem does not pass its check, or an option is
refused. -/
def BadInput (d : Problem α) (l : Layout) (options : Options α) : Prop :=
  l.Mismatches d ∨ (∃ error, d.check = .error error) ∨
    ∃ e ∈ options.entries, ∃ fault, Controls.Refuses e fault

section Input

variable {d : Problem α} {l : Layout} {options : Options α}

omit [Scalar α] in
theorem Layout.check_eq (l : Layout) (d : Problem α) :
    (l.Mismatches d ∧ l.check d = .error
        (.invalidProblem (.layoutSize (l.nVar, l.nEq, l.nIneq) (d.nVar, d.nEq, d.nIneq)))) ∨
      ¬ l.Mismatches d ∧ l.check d = .ok () := by
  unfold Layout.check Layout.Mismatches
  simp only [ne_eq, Prod.mk.injEq]
  split_ifs with h
  · exact .inr ⟨not_not.2 h, rfl⟩
  · exact .inl ⟨h, rfl⟩

omit [Scalar α] in
/-- In ascending order the entries before one are those with a smaller name. -/
theorem Options.lt_of_append (options : Options α) {before after : List (String × OptionValue α)}
    {e : String × OptionValue α} (h : options.entries = before ++ e :: after) :
    ∀ f, f ∈ before ↔ f ∈ options.entries ∧ f.1 < e.1 := by
  have hsorted := options.sorted
  rw [h] at hsorted ⊢
  obtain ⟨-, hafter, hbefore⟩ := List.pairwise_append.1 hsorted
  intro f
  constructor
  · intro hf
    exact ⟨List.mem_append_left _ hf, hbefore f hf e List.mem_cons_self⟩
  · rintro ⟨hf, hlt⟩
    rcases List.mem_append.1 hf with hf | hf
    · exact hf
    · rcases List.mem_cons.1 hf with rfl | hf
      · exact absurd hlt (lt_irrefl _)
      · exact absurd hlt ((List.pairwise_cons.1 hafter).1 f hf).not_gt

/-- Bad input is refused with some error, and nothing else is. -/
theorem badInput_iff [EngineDefaults α] :
    BadInput d l options ↔ ∃ error, Refusal d l options error := by
  constructor
  · intro hbad
    by_cases hdims : l.Mismatches d
    · exact ⟨_, .layout hdims⟩
    cases hcheck : d.check with
    | error error => exact ⟨error, .problem hdims hcheck⟩
    | ok =>
        rcases Options.first_refused options.entries with
          hall | ⟨before, e, after, fault, hentries, hbefore, hrefuses⟩
        · rcases hbad with h | ⟨error, h⟩ | ⟨e, he, fault, hrefuses⟩
          · exact absurd h hdims
          · simp [hcheck] at h
          · exact absurd hrefuses ((hall e he).not_refuses fault)
        · have hmem : e ∈ options.entries := hentries ▸ List.mem_append_right _ List.mem_cons_self
          exact ⟨_, .option hdims hcheck hmem
            (fun f hf hlt => hbefore f ((options.lt_of_append hentries f).2 ⟨hf, hlt⟩)) hrefuses⟩
  · rintro ⟨error, h⟩
    cases h with
    | layout h => exact .inl h
    | problem hdims h => exact .inr (.inl ⟨error, h⟩)
    | option hdims hcheck he hbefore h => exact .inr (.inr ⟨_, he, _, h⟩)

theorem exists_model [EngineDefaults α] (hgood : ¬ BadInput d l options) (ha : d.a.WellFormed)
    (hf : d.f.WellFormed) (verbose : Bool) :
    l.check d = .ok () ∧ d.check = .ok () ∧ ∃ m, d.toModel verbose options = .ok m := by
  simp only [BadInput, not_or, not_exists, not_and] at hgood
  obtain ⟨hdims, hcheck, hoptions⟩ := hgood
  have hlayout : l.check d = .ok () := ((l.check_eq d).resolve_left fun h => hdims h.1).2
  have hcheck : d.check = .ok () := by
    cases h : d.check with
    | error error => exact absurd h (hcheck error)
    | ok => rfl
  have haccepts : ∀ e ∈ options.entries, ∃ c c' : Controls α, c.set e.1 e.2 = .ok c' := by
    intro e he
    rcases Controls.accepts_or_refuses e with h | ⟨fault, h⟩
    · exact ⟨.default, h .default⟩
    · exact absurd h (hoptions e he fault)
  obtain ⟨p, c, h⟩ := Problem.toModel_eq_ok hcheck ha hf haccepts verbose
  exact ⟨hlayout, hcheck, _, h⟩

/-- A refusal comes from the check of the layout or from making the model. -/
theorem Refusal.reported [EngineDefaults α] {error : Error α} (h : Refusal d l options error)
    (ha : d.a.WellFormed) (hf : d.f.WellFormed) (verbose : Bool) :
    l.check d = .error error ∨ l.check d = .ok () ∧ d.toModel verbose options = .error error := by
  have hagrees (hdims : ¬ l.Mismatches d) : l.check d = .ok () :=
    ((l.check_eq d).resolve_left fun h => hdims h.1).2
  cases h with
  | layout h => exact .inl ((l.check_eq d).resolve_right fun h' => h'.1 h).2
  | problem hdims h => exact .inr ⟨hagrees hdims, Problem.toModel_of_check_error h verbose options⟩
  | @option e fault hdims hcheck he hbefore h =>
      refine .inr ⟨hagrees hdims, ?_⟩
      obtain ⟨built, hmodel⟩ := Problem.toModel_of_check hcheck ha hf verbose options
      obtain ⟨before, after, hentries⟩ := List.append_of_mem he
      have hearlier : ∀ f ∈ before, Controls.Accepts α f := by
        intro f hmem
        obtain ⟨hf, hlt⟩ := (options.lt_of_append hentries f).1 hmem
        exact hbefore f hf hlt
      have hset : ((Model.setControls options).apply built).1 =
          .error (.invalidOption e.1 fault) := by
        rw [Model.setControls, hentries]
        exact Model.apply_setControls_refused hearlier h built
      rw [hmodel]
      split
      · next heq =>
          rw [heq] at hset
          cases hset
          rfl
      · next heq =>
          rw [heq] at hset
          cases hset

end Input

namespace Step

variable [EngineDefaults α] {t : Step α μ}

/-- Input that is refused is refused whatever the engine is, and the session stays as it is. -/
theorem solve_of_refusal (hstaged : t.staged = false) (havailable : t.available = .ok ())
    (ha : t.problem.a.WellFormed) (hf : t.problem.f.WellFormed) {error : Error α}
    (h : Refusal t.problem t.layout t.request.options error) (session : Option (Session α μ)) :
    t.solve session = (.error error, session) := by
  rw [solve_eq, checks_eq hstaged havailable]
  rcases h.reported ha hf t.request.verbose with hlayout | ⟨hlayout, hmodel⟩
  · rw [hlayout]
  · rw [hlayout, model, hmodel]

omit [EngineDefaults α] in
/-- A breakdown ends in a solution without a point, and in an empty session. -/
theorem invoke_of_breakdown {e : Engine α μ} {clock : Clock α} {m : Model α}
    {session : Option (Session α μ)} {warm : Bool} {b : Breakdown}
    (h : (m.solve e clock session warm).1 = .error b) (l : Layout) :
    ∃ (statistics : Statistics α) (after : Option (Session α μ)), invoke e clock m session warm =
        (.brokenDown b.reason (some clock.elapsed), after.map fun _ => {}) ∧
      (Results.brokenDown (α := α) b.reason (some clock.elapsed)).toSolution l =
        .failure .solverError statistics := by
  refine ⟨{ solveTime := some clock.elapsed }, (m.solve e clock session warm).2, ?_, rfl⟩
  unfold invoke
  cases hsolve : m.solve e clock session warm with
  | mk result after =>
      obtain rfl : result = .error b := by
        rw [hsolve] at h
        exact h
      rfl

/-- Good input has a model and a solution, and a breakdown of the engine shows in the solution. -/
theorem solve_of_good (hstaged : t.staged = false) (havailable : t.available = .ok ())
    (ha : t.problem.a.WellFormed) (hf : t.problem.f.WellFormed)
    (h : ¬ BadInput t.problem t.layout t.request.options) (session : Option (Session α μ)) :
    ∃ m sol after, t.model = .ok m ∧ t.solve session = (.ok sol, after) ∧
      ∀ b, (m.solve t.engine t.clock session t.request.warm).1 = .error b →
        sol.status = .solverError ∧ sol.objective = .posInfinity ∧ sol.primal = none ∧
          sol.dual = none := by
  obtain ⟨hlayout, -, m, hmodel⟩ := exists_model h ha hf t.request.verbose
  have hm : t.model = .ok m := hmodel
  have hsolve := solve_of_checks ((checks_eq hstaged havailable).trans hlayout) hm session
  refine ⟨m, _, _, hm, hsolve, fun b hb => ?_⟩
  obtain ⟨statistics, after, hinvoke, hfailure⟩ := invoke_of_breakdown hb t.layout
  rw [hinvoke, hfailure]
  exact ⟨rfl, rfl, rfl, rfl⟩

/-- **A step fails on bad input, with the first thing that is wrong, and on nothing else.**  Where
it fails, it would have failed with any other engine, and the session is as before.  Once the
problem has passed its check the model can be built.  A breakdown of the engine is no error. -/
theorem solve_refuses (hstaged : t.staged = false) (havailable : t.available = .ok ())
    (ha : t.problem.a.WellFormed) (hf : t.problem.f.WellFormed) (session : Option (Session α μ)) :
    ((∃ error, (t.solve session).1 = .error error) ↔
        BadInput t.problem t.layout t.request.options) ∧
      (∀ error, (t.solve session).1 = .error error ↔
        Refusal t.problem t.layout t.request.options error) ∧
      (∀ error, Refusal t.problem t.layout t.request.options error →
        ∀ (engine : Engine α μ) (clock : Clock α),
          { t with engine, clock }.solve session = (.error error, session)) ∧
      (t.problem.check = .ok () →
        ∃ built, t.problem.build.apply (.empty engineInfinity) = (.ok (), built)) ∧
      (¬ BadInput t.problem t.layout t.request.options →
        ∃ m sol after, t.model = .ok m ∧ t.solve session = (.ok sol, after) ∧
          ∀ b, (m.solve t.engine t.clock session t.request.warm).1 = .error b →
            sol.status = .solverError ∧ sol.objective = .posInfinity ∧ sol.primal = none ∧
              sol.dual = none) := by
  have hgood := fun h => solve_of_good hstaged havailable ha hf h session
  have hreports : ∀ error, (t.solve session).1 = .error error ↔
      Refusal t.problem t.layout t.request.options error := by
    intro error
    constructor
    · intro herror
      by_cases hbad : BadInput t.problem t.layout t.request.options
      -- there is an error that the input is refused with, and it is this one
      · obtain ⟨error', h⟩ := badInput_iff.1 hbad
        rw [solve_of_refusal hstaged havailable ha hf h session] at herror
        cases herror
        exact h
      · obtain ⟨m, sol, after, -, hsolve, -⟩ := hgood hbad
        rw [hsolve] at herror
        cases herror
    · intro h
      rw [solve_of_refusal hstaged havailable ha hf h session]
  refine ⟨?_, hreports, fun error h engine clock => ?_, fun hcheck => ?_, hgood⟩
  · rw [badInput_iff]
    exact exists_congr hreports
  · exact solve_of_refusal (t := { t with engine, clock }) hstaged havailable ha hf h session
  · exact ⟨_, Problem.apply_build (Problem.consistent_of_check hcheck) ha hf⟩

end Step

/-- One variable, at least one, with an engine that breaks down on everything. -/
def brokenStep (options : Options ℚ) : Step ℚ Unit where
  engine :=
    { prepare := fun _ _ => .error .unknown
      refresh := fun _ _ => .error .unknown
      run := fun _ _ => .error .unknown }
  clock := ⟨fun _ => .ok fun _ => false, 0⟩
  available := .ok ()
  problem :=
    { p := .zeros 1 1, q := [1], a := .zeros 0 1, b := [], f := .ofTriplets 1 1 [⟨0, 0, -1⟩],
      g := [-1], nVar := 1, nEq := 0, nIneq := 1 }
  layout := (({} : Layout).addVar ⟨0⟩ .scalar).addIneq ⟨1⟩ 1
  request := ⟨true, false, options⟩
  staged := false

/-- Of two options that are refused the first is reported, and without them the breakdown shows. -/
theorem Step.solve_refuses_broken :
    (∃ options, options.entries = [("max_iter", .bool true), ("verbose", .bool true)] ∧
      (brokenStep options).solve (some {}) =
        (.error (.invalidOption "max_iter" (.badValue .nonnegativeInt (.bool true))), some {})) ∧
    ∃ sol after, (brokenStep {}).solve (some {}) = (.ok sol, after) ∧ sol.status = .solverError ∧
      sol.objective = .posInfinity ∧ sol.primal = none ∧ sol.dual = none := by
  have hempty : (Sparse.zeros 0 1 : Sparse ℚ).WellFormed :=
    ⟨rfl, fun col hcol e he => by simp_all [Sparse.zeros],
      fun col hcol => by simp_all [Sparse.zeros]⟩
  have hlayout : ∀ options, ¬ (brokenStep options).layout.Mismatches (brokenStep options).problem :=
    fun options h => h rfl
  have hcheck : ∀ options, (brokenStep options).problem.check = .ok () := fun _ => rfl
  refine ⟨⟨⟨[("max_iter", .bool true), ("verbose", .bool true)], by decide⟩, rfl, ?_⟩, ?_⟩
  · have hrefuses : Controls.Refuses (("max_iter", .bool true) : String × OptionValue ℚ)
        (.badValue .nonnegativeInt (.bool true)) := fun c => rfl
    refine (solve_refuses rfl rfl hempty (Sparse.wellFormed_ofTriplets _ _ _) (some {})).2.2.1 _
      (.option (hlayout _) (hcheck _) List.mem_cons_self (fun f hf hlt => ?_) hrefuses) _ _
    -- neither name comes before the first
    rcases List.mem_cons.1 hf with rfl | hf
    · exact absurd hlt (by decide)
    · obtain rfl := List.mem_singleton.1 hf
      exact absurd hlt (by decide)
  · have hgood : ¬ BadInput (brokenStep {}).problem (brokenStep {}).layout
        (brokenStep {}).request.options := by
      rintro (h | ⟨error, h⟩ | ⟨e, he, -⟩)
      · exact hlayout _ h
      · cases (hcheck {}).symm.trans h
      · exact absurd he List.not_mem_nil
    obtain ⟨m, sol, after, hm, hsolve, hbroken⟩ := (solve_refuses rfl rfl hempty
      (Sparse.wellFormed_ofTriplets _ _ _) (some {})).2.2.2.2 hgood
    have hrun : (brokenStep {}).model.toOption.map (fun m => (m.solve (brokenStep {}).engine
        (brokenStep {}).clock (some {}) true).1.toOption.isNone) = some true := by
      decide +kernel
    rw [hm] at hrun
    cases hresult : (m.solve (brokenStep {}).engine (brokenStep {}).clock (some {}) true).1 with
    | ok native => simp [Except.toOption, hresult] at hrun
    | error b => exact ⟨sol, after, hsolve, hbroken b hresult⟩

end QuadProg
