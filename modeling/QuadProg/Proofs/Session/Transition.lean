import QuadProg.Proofs.Layout.Cut
import QuadProg.Proofs.Search.Explore
import QuadProg.Proofs.Session.Reuse

/-!
# What a step does to a session

A step solves one problem in a session.  What it leaves there is settled by four questions, asked in
this order:

```text
was the problem or the request refused?          yes  the session is as before
did the engine break down?                       yes  the session is empty
does the model not go through the session?       yes  the session is as before
otherwise                                             the session has an entry for the model
```

Only in the last case can the solution be marked as warm started, and it is if and only if that was
asked for, the entry before the step had the pattern of the model and the engine took the new data.

All of this holds whatever problems, options and engines there are, and in whatever state the
session was (`Step.transition`), so it holds of every step of a history (`Session.follows_history`).
-/

namespace QuadProg

variable {α μ : Type} [Scalar α]

/-- A problem to solve in a session, with the engine as it behaves this time. -/
structure Step (α μ : Type) where
  engine : Engine α μ
  clock : Clock α
  /-- Whether the engine can be used at all, as was found out before. -/
  available : Except (Error α) Unit
  problem : Problem α
  layout : Layout
  request : Request α
  /-- Solving and mapping back are asked for one after the other, with no checks before. -/
  staged : Bool

namespace Step

variable [EngineDefaults α]

def solve (t : Step α μ) (session : Option (Session α μ)) :
    Except (Error α) (Solution α) × Option (Session α μ) :=
  if t.staged then
    let (results, session) := solveData t.engine t.clock t.problem t.request session
    (results.map (·.toSolution t.layout), session)
  else
    Backend.solve { adapter t.engine t.clock with available := t.available } t.problem t.layout
      t.request session

/-- What is checked before a model is made of the problem. -/
def checks (t : Step α μ) : Except (Error α) Unit :=
  if t.staged then .ok ()
  else Backend.precheck { adapter t.engine t.clock with available := t.available }
    t.problem t.layout

def model (t : Step α μ) : Except (Error α) (Model α) :=
  t.problem.toModel t.request.verbose t.request.options

/-- Solving the model in the session ends in a breakdown. -/
def BreaksDown (t : Step α μ) (m : Model α) (s : Session α μ) : Prop :=
  ∃ b, (m.solve t.engine t.clock (some s) t.request.warm).1 = .error b

/-- The model has integral variables, a row that is left to presolving, or presolving was asked
for. -/
def PassesBy (t : Step α μ) (m : Model α) : Prop :=
  m.isMixed = true ∨ (∃ r ∈ m.rows, m.infinity ≤ magnitude r.rhs) ∨
    t.request.options.get? Control.presolve.name = some (.bool true)

/-- The loaded problem has the pattern of the model, and the engine takes the new data. -/
def Refreshes (t : Step α μ) (m : Model α) (s : Session α μ) : Prop :=
  ∃ stored old memory, s.entry = some (stored, old) ∧ (stored == m.pattern) = true ∧
    t.engine.refresh old m.conic = .ok (some memory)

/-- The entry of the session has the pattern of the model: its own, or one that compares as the
same where an entry was reused. -/
def Stores (m : Model α) (s : Session α μ) : Prop :=
  ∃ pattern l, s.entry = some (pattern, l) ∧ (pattern = m.pattern ∨ (pattern == m.pattern) = true)

/-- What a step that was not refused does to the session. -/
structure Changes (t : Step α μ) (m : Model α) (s s' : Session α μ) (warmStarted : Bool) :
    Prop where
  brokenDown : t.BreaksDown m s → s' = {} ∧ warmStarted = false
  passedBy : ¬ t.BreaksDown m s → t.PassesBy m → s' = s ∧ warmStarted = false
  stored : ¬ t.BreaksDown m s → ¬ t.PassesBy m →
    Stores m s' ∧ (warmStarted = true ↔ t.request.warm = true ∧ t.Refreshes m s)

/-- What a step does to the session. -/
structure Transition (t : Step α μ) (s : Session α μ)
    (result : Except (Error α) (Solution α)) (s' : Session α μ) : Prop where
  refused : ∀ error, result = .error error → s' = s
  answered : ∀ sol, result = .ok sol →
    ∃ m, t.model = .ok m ∧ t.Changes m s s' sol.statistics.warmStarted

end Step

/-! ### Models in sessions -/

namespace Session

variable {m : Model α} {e : Engine α μ} {s s' : Session α μ} {sol : ModelSolution α}

/-- What is loaded is reused if and only if its pattern compares as the same and the engine takes
the new data. -/
theorem reuse_eq_some_iff {pattern : Pattern α} {c : Conic α} {l : Loaded α μ} {t : Session α μ} :
    s.reuse e pattern c = (.ok (some l), t) ↔
      ∃ stored old memory, s.entry = some (stored, old) ∧ (stored == pattern) = true ∧
        e.refresh old c = .ok (some memory) ∧ l = old.withData c memory ∧
        t = ⟨some (stored, l)⟩ := by
  constructor
  · intro h
    rcases reuse_cases e s pattern c with ⟨result, heq, hne⟩ | heq |
      ⟨stored, old, memory, hentry, hsame, hrefresh, heq⟩
    · rw [heq] at h
      exact absurd (congrArg Prod.fst h) (hne l)
    · rw [heq] at h
      cases h
    · rw [heq] at h
      cases h
      exact ⟨stored, old, memory, hentry, hsame, hrefresh, rfl, rfl⟩
  · rintro ⟨stored, old, memory, hentry, hsame, hrefresh, rfl, rfl⟩
    have hreload := Engine.reload_eq_ok_iff.2 ⟨memory, hrefresh, rfl⟩
    unfold reuse
    rw [hentry]
    dsimp only
    rw [if_pos hsame, hreload]

theorem warmStarted_branchAndBound {clock : Clock α} (h : m.branchAndBound e clock = .ok sol) :
    sol.warmStarted = false := by
  obtain ⟨_, _, -, -, rfl⟩ := Model.branchAndBound_eq_ok_iff.1 h
  rfl

theorem warmStarted_solveAlone (h : m.solveAlone e = .ok sol) : sol.warmStarted = false := by
  simp only [Model.solveAlone, bind_eq_ok, pure_eq_ok] at h
  obtain ⟨_, -, rfl⟩ := h
  rfl

theorem stores_of_solveAnew (h : m.solveAnew e s = (.ok sol, s')) : Step.Stores m s' := by
  unfold Model.solveAnew at h
  split at h
  · cases h
  · cases h
    exact ⟨_, _, rfl, .inl rfl⟩

/-- Solving again keeps the entry and marks the solution. -/
theorem solveAgain_eq_ok {l : Loaded α μ} (h : m.solveAgain e l s = (.ok sol, s')) :
    sol.warmStarted = true ∧ ∃ memory, s' = s.remember memory := by
  unfold Model.solveAgain at h
  split at h
  · cases h
  · next answer memory heq =>
      obtain ⟨hsol, rfl⟩ := Prod.mk.inj h
      cases hr : m.relaxationOf m.conic answer with
      | error b => simp [hr, Except.map] at hsol
      | ok r =>
          rw [hr] at hsol
          cases hsol
          exact ⟨rfl, memory, rfl⟩

/-- The ways to solve a model in a session: what is loaded is reused, or the engine breaks down
while taking the new data, or the model is loaded anew. -/
theorem solveCached_cases (m : Model α) (e : Engine α μ) (s : Session α μ) (warm : Bool) :
    (∃ l t, warm = true ∧ s.reuse e m.pattern m.conic = (.ok (some l), t) ∧
        m.solveCached e s warm = m.solveAgain e l t) ∨
      (∃ b t, s.reuse e m.pattern m.conic = (.error b, t) ∧
        m.solveCached e s warm = (.error b, t)) ∨
      ∃ t, (∀ l u, warm = true → s.reuse e m.pattern m.conic ≠ (.ok (some l), u)) ∧
        m.solveCached e s warm = m.solveAnew e t := by
  unfold Model.solveCached
  cases warm with
  | false => exact .inr (.inr ⟨s, fun _ _ h => (nomatch h), rfl⟩)
  | true =>
      rw [if_pos rfl]
      cases s.reuse e m.pattern m.conic with
      | mk result t =>
          rcases result with b | (_ | l)
          · exact .inr (.inl ⟨b, t, rfl, rfl⟩)
          · exact .inr (.inr ⟨t, fun _ _ _ h => (nomatch h), rfl⟩)
          · exact .inl ⟨l, t, rfl, rfl, rfl⟩

theorem solveCached_eq_ok {warm : Bool} (h : m.solveCached e s warm = (.ok sol, s')) :
    Step.Stores m s' ∧ (sol.warmStarted = true ↔ warm = true ∧
      ∃ stored old memory, s.entry = some (stored, old) ∧ (stored == m.pattern) = true ∧
        e.refresh old m.conic = .ok (some memory)) := by
  rcases solveCached_cases m e s warm with ⟨l, t, rfl, hreuse, heq⟩ | ⟨b, t, -, heq⟩ |
    ⟨t, hnone, heq⟩
  · obtain ⟨hwarm, memory', rfl⟩ := solveAgain_eq_ok (heq ▸ h)
    obtain ⟨stored, old, memory, hentry, hsame, hrefresh, rfl, rfl⟩ := reuse_eq_some_iff.1 hreuse
    exact ⟨⟨stored, _, rfl, .inr hsame⟩,
      iff_of_true hwarm ⟨rfl, stored, old, memory, hentry, hsame, hrefresh⟩⟩
  · rw [heq] at h
    cases h
  · rw [heq] at h
    have hcold : sol.warmStarted = false := warmStarted_solveAnew h
    refine ⟨stores_of_solveAnew h, iff_of_false (by simp [hcold]) ?_⟩
    -- what the engine takes would have been reused
    rintro ⟨hwarm, stored, old, memory, hentry, hsame, hrefresh⟩
    exact hnone _ _ hwarm
      (reuse_eq_some_iff.2 ⟨stored, old, memory, hentry, hsame, hrefresh, rfl, rfl⟩)

/-- The model goes through the session unless it is mixed or has to be presolved. -/
theorem isCacheable_iff : m.isCacheable = true ↔
    ¬ ((∃ r ∈ m.rows, m.infinity ≤ magnitude r.rhs) ∨ m.controls.AsksPresolve) := by
  simp only [Model.isCacheable, Model.hasInfiniteRhs, Controls.AsksPresolve, Bool.and_eq_true,
    Bool.not_eq_true', ← Bool.not_eq_true, List.any_eq_true, decide_eq_true_eq, not_or]

theorem exists_solve (m : Model α) (e : Engine α μ) (clock : Clock α) (s : Session α μ)
    (warm : Bool) : ∃ result s', m.solve e clock (some s) warm = (result, some s') := by
  unfold Model.solve
  split_ifs
  · exact ⟨_, _, rfl⟩
  · exact ⟨_, _, rfl⟩
  · exact ⟨_, _, rfl⟩

end Session

/-! ### Runs of the engine -/

namespace Model

variable {m : Model α} {e : Engine α μ} {s s' : Session α μ} {sol : ModelSolution α}
  {P : Loaded α μ → Prop}

/-- The solution is what a run of the engine gave, on a loaded problem with the property. -/
def RunOn (m : Model α) (e : Engine α μ) (P : Loaded α μ → Prop) (sol : ModelSolution α) : Prop :=
  ∃ turn l answer memory r warm, P l ∧ e.run turn l = .ok (answer, memory) ∧
    m.relaxationOf m.conic answer = .ok r ∧ sol = continuousSolution r warm

theorem runOn_solveAlone (hload : ∀ l, e.load m.controls.settings m.conic = .ok l → P l)
    (h : m.solveAlone e = .ok sol) : m.RunOn e P sol := by
  simp only [solveAlone, relax, bind_eq_ok, pure_eq_ok] at h
  obtain ⟨r, ⟨l, hl, ⟨answer, memory⟩, hrun, hr⟩, rfl⟩ := h
  exact ⟨0, l, answer, memory, r, _, hload l hl, hrun, hr, rfl⟩

theorem runOn_solveAnew (hload : ∀ l, e.load m.sessionSettings m.conic = .ok l → P l)
    (h : m.solveAnew e s = (.ok sol, s')) : m.RunOn e P sol := by
  unfold solveAnew at h
  split at h
  · cases h
  · next r loaded heq =>
      simp only [bind_eq_ok, pure_eq_ok] at heq
      obtain ⟨l, hl, ⟨answer, memory⟩, hrun, r', hr, hpair⟩ := heq
      cases hpair
      cases h
      exact ⟨0, l, answer, memory, r, _, hload l hl, hrun, hr, rfl⟩

theorem runOn_solveAgain {l : Loaded α μ} (hl : P l) (h : m.solveAgain e l s = (.ok sol, s')) :
    m.RunOn e P sol := by
  unfold solveAgain at h
  split at h
  · cases h
  · next answer memory hrun =>
      cases hr : m.relaxationOf m.conic answer with
      | error b => simp [hr, Except.map] at h
      | ok r =>
          rw [hr] at h
          cases h
          exact ⟨0, l, answer, memory, r, _, hl, hrun, hr, rfl⟩

/-- Every solution of a continuous model comes from a run, on a problem that was loaded for it or
reused. -/
theorem runOn_solve {clock : Clock α} {session after : Option (Session α μ)} {warm : Bool}
    (hload : ∀ settings l, settings = m.controls.settings ∨ settings = m.sessionSettings →
      e.load settings m.conic = .ok l → P l)
    (hreuse : ∀ s l t, session = some s → s.reuse e m.pattern m.conic = (.ok (some l), t) → P l)
    (hcontinuous : m.isMixed = false) (h : m.solve e clock session warm = (.ok sol, after)) :
    m.RunOn e P sol := by
  have halone (h : m.solveAlone e = .ok sol) : m.RunOn e P sol :=
    runOn_solveAlone (fun l => hload _ l (.inl rfl)) h
  unfold solve at h
  rw [hcontinuous, if_neg Bool.false_ne_true] at h
  cases session with
  | none => exact halone (congrArg Prod.fst h)
  | some s =>
      dsimp only at h
      split_ifs at h with hcacheable
      · have hcached : m.solveCached e s warm = (.ok sol, (m.solveCached e s warm).2) :=
          Prod.ext (Prod.mk.inj h).1 rfl
        rcases Session.solveCached_cases m e s warm with ⟨l, t, -, hl, heq⟩ | ⟨b, t, -, heq⟩ |
          ⟨t, -, heq⟩
        · exact runOn_solveAgain (hreuse s l t rfl hl) (heq ▸ hcached)
        · rw [heq] at hcached
          cases hcached
        · exact runOn_solveAnew (fun l => hload _ l (.inr rfl)) (heq ▸ hcached)
      · exact halone (congrArg Prod.fst h)

end Model

/-! ### Steps -/

namespace Step

variable [EngineDefaults α] {t : Step α μ} {m : Model α} {s s' : Session α μ}

theorem passesBy_iff (hm : t.model = .ok m) :
    t.PassesBy m ↔ m.isMixed = true ∨ ¬ m.isCacheable = true := by
  rw [PassesBy, ← Model.asksPresolve_iff hm, Session.isCacheable_iff, not_not]

/-- What solving the model does to the session, where it does not break down. -/
theorem changes_of_solve (hm : t.model = .ok m) {sol : ModelSolution α}
    (h : m.solve t.engine t.clock (some s) t.request.warm = (.ok sol, some s')) :
    t.Changes m s s' sol.warmStarted := by
  have hruns : ¬ t.BreaksDown m s := by
    rintro ⟨b, hb⟩
    rw [h] at hb
    cases hb
  unfold Model.solve at h
  dsimp only at h
  refine ⟨fun hbreak => absurd hbreak hruns, fun _ hpasses => ?_, fun _ hpasses => ?_⟩
  · rw [passesBy_iff hm] at hpasses
    split_ifs at h with hmixed hcacheable
    · obtain ⟨hsol, heq⟩ := Prod.mk.inj h
      exact ⟨(Option.some.inj heq).symm, Session.warmStarted_branchAndBound hsol⟩
    · exact absurd hcacheable (hpasses.resolve_left hmixed)
    · obtain ⟨hsol, heq⟩ := Prod.mk.inj h
      exact ⟨(Option.some.inj heq).symm, Session.warmStarted_solveAlone hsol⟩
  · rw [passesBy_iff hm, not_or, not_not] at hpasses
    rw [if_neg hpasses.1, if_pos hpasses.2] at h
    obtain ⟨hsol, heq⟩ := Prod.mk.inj h
    exact Session.solveCached_eq_ok (Prod.ext hsol (Option.some.inj heq))

omit [EngineDefaults α] in
/-- A solution is reported with its status and its mark, whether it has a point or not. -/
theorem toSolution_ok (sol : ModelSolution α) (l : Layout) (phase : Phase) (time : Option α) :
    ((⟨phase, .ok sol, time⟩ : Results α).toSolution l).status = sol.status.status ∧
      ((⟨phase, .ok sol, time⟩ : Results α).toSolution l).statistics.warmStarted =
        sol.warmStarted := by
  refine ⟨?_, (Results.statistics_toSolution rfl l).2⟩
  obtain ⟨p, hpoint, hstatus⟩ | hpointless := Results.reports_or_pointless sol
  · rw [Results.toSolution_of_point rfl hpoint hstatus]
  · rw [Results.toSolution_of_pointless rfl hpointless]
    rfl

/-- What a request does to the session once its problem has a model. -/
theorem changes_of_invoke (hm : t.model = .ok m) (s : Session α μ) :
    ∃ results s', invoke t.engine t.clock m (some s) t.request.warm = (results, some s') ∧
      t.Changes m s s' (results.toSolution t.layout).statistics.warmStarted := by
  obtain ⟨result, s', hsolve⟩ :=
    Session.exists_solve m t.engine t.clock s t.request.warm
  unfold invoke
  rw [hsolve]
  cases result with
  | error b =>
      have hbreaks : t.BreaksDown m s := ⟨b, by rw [hsolve]⟩
      exact ⟨_, _, rfl, fun _ => ⟨rfl, rfl⟩, fun hruns => absurd hbreaks hruns,
        fun hruns => absurd hbreaks hruns⟩
  | ok sol =>
      refine ⟨_, _, rfl, ?_⟩
      rw [(toSolution_ok ..).2]
      exact changes_of_solve hm hsolve

/-- A step is refused, or its problem has a model that is solved in the session. -/
theorem solve_eq (t : Step α μ) (session : Option (Session α μ)) :
    t.solve session = match t.checks, t.model with
      | .error error, _ => (.error error, session)
      | .ok (), .error error => (.error error, session)
      | .ok (), .ok m =>
        let (results, after) := invoke t.engine t.clock m session t.request.warm
        (.ok (results.toSolution t.layout), after) := by
  unfold solve checks Backend.solve model
  split_ifs
  · unfold solveData
    cases t.problem.toModel t.request.verbose t.request.options <;> rfl
  · cases Backend.precheck { adapter t.engine t.clock with available := t.available } t.problem
      t.layout with
    | error error => rfl
    | ok =>
        dsimp only [adapter, solveData]
        cases t.problem.toModel t.request.verbose t.request.options <;> rfl

/-- Where the engine is available only the layout is checked: the adapter can handle mixed problems
and others. -/
theorem checks_eq {t : Step α μ} (hstaged : t.staged = false) (havailable : t.available = .ok ()) :
    t.checks = t.layout.check t.problem := by
  unfold checks Backend.precheck
  rw [hstaged, havailable]
  simp only [Bool.false_eq_true, if_false, adapter, Bool.not_true, Bool.and_false]
  cases t.layout.check t.problem <;> rfl

theorem solve_of_checks {t : Step α μ} {m : Model α} (hchecks : t.checks = .ok ())
    (hm : t.model = .ok m) (session : Option (Session α μ)) :
    t.solve session =
      (.ok ((invoke t.engine t.clock m session t.request.warm).1.toSolution t.layout),
        (invoke t.engine t.clock m session t.request.warm).2) := by
  rw [solve_eq, hchecks, hm]

/-- A step has a solution only where its problem has a model. -/
theorem solve_eq_ok {session after : Option (Session α μ)} {sol : Solution α}
    (h : t.solve session = (.ok sol, after)) :
    ∃ m results, t.model = .ok m ∧
      invoke t.engine t.clock m session t.request.warm = (results, after) ∧
      sol = results.toSolution t.layout := by
  rw [solve_eq] at h
  cases hchecks : t.checks with
  | error error =>
      rw [hchecks] at h
      cases h
  | ok =>
      cases hm : t.model with
      | error error =>
          rw [hchecks, hm] at h
          cases h
      | ok m =>
          rw [hchecks, hm] at h
          obtain ⟨hsol, hafter⟩ := Prod.mk.inj h
          exact ⟨m, _, rfl, Prod.ext rfl hafter, (Except.ok.inj hsol).symm⟩

/-- **What a step does to a session**, whatever the session was before. -/
theorem transition (t : Step α μ) (s : Session α μ) :
    ∃ result s', t.solve (some s) = (result, some s') ∧ t.Transition s result s' := by
  rw [solve_eq]
  cases t.checks with
  | error error => exact ⟨_, s, rfl, fun _ _ => rfl, fun sol h => nomatch h⟩
  | ok =>
      cases hm : t.model with
      | error error => exact ⟨_, s, rfl, fun _ _ => rfl, fun sol h => nomatch h⟩
      | ok m =>
          obtain ⟨results, s', hinvoke, hchanges⟩ := changes_of_invoke hm s
          dsimp only
          rw [hinvoke]
          refine ⟨_, s', rfl, fun error h => (nomatch h), fun sol h => ?_⟩
          cases h
          exact ⟨m, hm, hchanges⟩

end Step

/-! ### Histories -/

/-- Every step of a history changes the session that the steps before it left as `Step.Transition`
says. -/
def Session.Follows [EngineDefaults α] : Session α μ → List (Step α μ) → Prop
  | _, [] => True
  | s, t :: ts => ∃ result s', t.solve (some s) = (result, some s') ∧ t.Transition s result s' ∧
      s'.Follows ts

/-- **Sessions change as they should.**  Whatever a session holds, and whatever problems, options
and engines follow, every step gives the session back as the law of transitions says. -/
theorem Session.follows_history [EngineDefaults α] (s : Session α μ) (ts : List (Step α μ)) :
    s.Follows ts := by
  induction ts generalizing s with
  | nil => trivial
  | cons t ts ih =>
      obtain ⟨result, s', hsolve, htransition⟩ := t.transition s
      exact ⟨result, s', hsolve, htransition, ih s'⟩

end QuadProg
