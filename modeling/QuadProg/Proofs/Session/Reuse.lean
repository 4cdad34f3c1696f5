import QuadProg.Adapter
import QuadProg.Proofs.Model.Reachable
import QuadProg.Proofs.Session.Agreement

/-!
# Reusing a loaded problem

A session keeps the problem that was loaded last under the pattern of the model that it was loaded
for.  Later models replace its data and nothing else, so its settings and cones stay those of that
first model for as long as the session keeps it; this is the invariant `Fits`.

A model whose pattern compares as the same may reuse the loaded problem.  Its data are then those
of the model, and what was not replaced comes out right for two reasons:

* the cones depend on two counts, and both are in the pattern, although the split of the second one
  into inequalities and bounds is not (`cones_eq_of_beq`);
* the settings are what the record of the controls and the verbosity make them, and both are in the
  pattern (`sessionSettings_agree_of_beq`).

So the engine runs on what it would be given by loading the model anew (`reuse_isFresh`).
-/

namespace QuadProg

variable {α μ : Type} [Scalar α]

/-- The same problem under settings that agree, whatever the engine remembers of it. -/
structure Loaded.Agrees (l fresh : Loaded α μ) : Prop where
  settings : l.settings.Agrees fresh.settings
  cones : l.cones = fresh.cones
  p : l.p = fresh.p
  q : l.q = fresh.q
  a : l.a = fresh.a
  b : l.b = fresh.b

/-- A loaded problem with the data of another one. -/
def Loaded.withData (l : Loaded α μ) (c : Conic α) (memory : μ) : Loaded α μ :=
  ⟨l.settings, l.cones, c.p, c.q, c.a, c.b, memory⟩

/-- What is loaded agrees with what any engine would make of the model by loading it anew, without
presolving. -/
def Model.IsFresh (m : Model α) (l : Loaded α μ) : Prop :=
  ∀ (e : Engine α μ) (fresh : Loaded α μ),
    e.load m.sessionSettings m.conic = .ok fresh → l.Agrees fresh

/-! ### Engines -/

namespace Engine

omit [Scalar α] in
theorem load_eq_ok {e : Engine α μ} {settings : Settings α} {c : Conic α} {l : Loaded α μ}
    (h : e.load settings c = .ok l) :
    ∃ memory, l = ⟨settings, c.cones, c.p, c.q, c.a, c.b, memory⟩ := by
  simp only [load, bind_eq_ok, pure_eq_ok] at h
  obtain ⟨memory, -, rfl⟩ := h
  exact ⟨memory, rfl⟩

omit [Scalar α] in
/-- New data leave settings and cones alone. -/
theorem reload_eq_ok_iff {e : Engine α μ} {l l' : Loaded α μ} {c : Conic α} :
    e.reload l c = .ok (some l') ↔
      ∃ memory, e.refresh l c = .ok (some memory) ∧ l' = l.withData c memory := by
  simp only [reload, bind_eq_ok, pure_eq_ok, Option.map_eq_some_iff]
  constructor
  · rintro ⟨_, hrefresh, memory, rfl, rfl⟩
    exact ⟨memory, hrefresh, rfl⟩
  · rintro ⟨memory, hrefresh, rfl⟩
    exact ⟨_, hrefresh, memory, rfl, rfl⟩

end Engine

/-! ### Patterns that compare as the same -/

/-- Patterns are compared part by part. -/
theorem Pattern.beq_iff {c d : Pattern α} :
    (c == d) = true ↔ c.nVar = d.nVar ∧ (c.pOffsets = d.pOffsets ∧ c.pRows = d.pRows) ∧
      (c.aOffsets = d.aOffsets ∧ c.aRows = d.aRows) ∧ (c.nEq = d.nEq ∧ c.nNonneg = d.nNonneg) ∧
      (c.controls == d.controls) = true ∧ c.verbose = d.verbose := by
  have hparts : (c == d) = (c.nVar == d.nVar && (c.pOffsets == d.pOffsets && (c.pRows == d.pRows &&
      (c.aOffsets == d.aOffsets && (c.aRows == d.aRows && (c.nEq == d.nEq &&
      (c.nNonneg == d.nNonneg && (c.controls == d.controls && c.verbose == d.verbose)))))))) := rfl
  simp only [hparts, Bool.and_eq_true, beq_iff_eq, and_assoc]

theorem Pattern.parts_of_beq {c d : Pattern α} (h : (c == d) = true) :
    c.nEq = d.nEq ∧ c.nNonneg = d.nNonneg ∧ Controls.RecordsAgree c.controls d.controls ∧
      c.verbose = d.verbose := by
  obtain ⟨-, -, -, ⟨hnEq, hnNonneg⟩, hcontrols, hverbose⟩ := Pattern.beq_iff.1 h
  exact ⟨hnEq, hnNonneg, Controls.recordsAgree_of_beq hcontrols, hverbose⟩

namespace Model

theorem cones_eq_of_beq {m m' : Model α} (h : (m.pattern == m'.pattern) = true) :
    m.conic.cones = m'.conic.cones := by
  obtain ⟨hnEq, hnNonneg, -, -⟩ := Pattern.parts_of_beq h
  have heq : m.conic.nEq = m'.conic.nEq := hnEq
  have hnonneg : m.conic.nIneq + m.conic.nBound = m'.conic.nIneq + m'.conic.nBound := hnNonneg
  unfold Conic.cones
  rw [heq, hnonneg]

theorem sessionSettings_agree_of_beq [EngineDefaults α] {m m' : Model α} (hm : m.Reachable)
    (hm' : m'.Reachable) (h : (m.pattern == m'.pattern) = true) :
    m.sessionSettings.Agrees m'.sessionSettings := by
  obtain ⟨-, -, hcontrols, hverbose⟩ := Pattern.parts_of_beq h
  have hagree := hm.recorded.agree hm'.recorded hcontrols hverbose
  exact { hagree with presolve := rfl }

end Model

namespace Session

/-! ### What is run -/

section Runs

variable {m : Model α} {s : Session α μ}

/-- The ways to try to reuse what is loaded: it does not fit or the engine breaks down, the engine
refuses, or the loaded problem takes the new data. -/
theorem reuse_cases (e : Engine α μ) (s : Session α μ) (pattern : Pattern α) (c : Conic α) :
    (∃ result, s.reuse e pattern c = (result, s) ∧ ∀ l, result ≠ .ok (some l)) ∨
      s.reuse e pattern c = (.ok none, {}) ∨
      ∃ stored old memory, s.entry = some (stored, old) ∧ (stored == pattern) = true ∧
        e.refresh old c = .ok (some memory) ∧
        s.reuse e pattern c = (.ok (some (old.withData c memory)),
          ⟨some (stored, old.withData c memory)⟩) := by
  unfold reuse
  cases hentry : s.entry with
  | none => exact .inl ⟨_, rfl, by simp⟩
  | some entry =>
      obtain ⟨stored, old⟩ := entry
      dsimp only
      split_ifs with hsame
      · cases hreload : e.reload old c with
        | error b => exact .inl ⟨_, rfl, by simp⟩
        | ok new =>
            cases new with
            | none => exact .inr (.inl rfl)
            | some l =>
                obtain ⟨memory, hrefresh, rfl⟩ := Engine.reload_eq_ok_iff.1 hreload
                exact .inr (.inr ⟨stored, old, memory, rfl, hsame, hrefresh, rfl⟩)
      · exact .inl ⟨_, rfl, by simp⟩

theorem warmStarted_solveAnew {e : Engine α μ} {sol : ModelSolution α} {s' : Session α μ}
    (h : m.solveAnew e s = (.ok sol, s')) : sol.warmStarted = false := by
  unfold Model.solveAnew at h
  split at h
  · cases h
  · cases h
    rfl

/-- A solution that says it was warm started is the answer to what was reused. -/
theorem reuse_of_warmStarted {e : Engine α μ} {warm : Bool} {sol : ModelSolution α}
    {s' : Session α μ} (h : m.solveCached e s warm = (.ok sol, s'))
    (hwarm : sol.warmStarted = true) :
    ∃ l t, s.reuse e m.pattern m.conic = (.ok (some l), t) ∧
      m.solveAgain e l t = (.ok sol, s') := by
  -- both ways to solve anew are ruled out by the mark
  have hanew : ∀ t : Session α μ, m.solveAnew e t ≠ (.ok sol, s') := by
    intro t ht
    rw [warmStarted_solveAnew ht] at hwarm
    cases hwarm
  unfold Model.solveCached at h
  split_ifs at h
  · cases hreuse : s.reuse e m.pattern m.conic with
    | mk result t =>
        rw [hreuse] at h
        cases result with
        | error b => cases h
        | ok new =>
            cases new with
            | none => exact absurd h (hanew t)
            | some l => exact ⟨l, t, rfl, h⟩
  · exact absurd h (hanew s)

end Runs

/-! ### The invariant -/

variable [EngineDefaults α]

/-- Sessions that a history of solves leads to, from a new or an emptied one.  Any reachable model
can be solved in any engine, warm or not; engines may differ from solve to solve and refuse new
data.  They may also break down where breakdowns are caught. -/
inductive Reachable : Session α μ → Prop
  | empty : Reachable {}
  | solve {s s' : Session α μ} {m : Model α} {sol : ModelSolution α} (e : Engine α μ)
      (clock : Clock α) (warm : Bool) : Reachable s → m.Reachable →
      m.solve e clock (some s) warm = (.ok sol, some s') → Reachable s'
  | invoke {s s' : Session α μ} {m : Model α} (e : Engine α μ) (clock : Clock α) (warm : Bool) :
      Reachable s → m.Reachable → (invoke e clock m (some s) warm).2 = some s' → Reachable s'
  | solveData {s s' : Session α μ} (e : Engine α μ) (clock : Clock α) (d : Problem α)
      (request : Request α) : Reachable s →
      (solveData e clock d request (some s)).2 = some s' → Reachable s'

/-- What is loaded has the settings and the cones of a model with the pattern that it is stored
under. -/
def Fits (s : Session α μ) : Prop :=
  ∀ pattern l, s.entry = some (pattern, l) → ∃ m : Model α, m.Reachable ∧ pattern = m.pattern ∧
    l.settings = m.sessionSettings ∧ l.cones = m.conic.cones

theorem fits_empty : ({} : Session α μ).Fits := by
  intro pattern l h
  cases h

theorem Fits.remember {s : Session α μ} (h : s.Fits) (memory : μ) : (s.remember memory).Fits := by
  intro pattern l hentry
  obtain ⟨⟨stored, old⟩, hold, heq⟩ := Option.map_eq_some_iff.1 hentry
  cases heq
  exact h _ old hold

theorem Fits.reuse {s : Session α μ} (h : s.Fits) (e : Engine α μ) (pattern : Pattern α)
    (c : Conic α) : (s.reuse e pattern c).2.Fits := by
  rcases reuse_cases e s pattern c with ⟨result, hreuse, -⟩ | hreuse |
    ⟨stored, old, memory, hentry, -, -, hreuse⟩
  · rw [hreuse]
    exact h
  · rw [hreuse]
    exact fits_empty
  · rw [hreuse]
    intro pattern' l hl
    cases hl
    exact h _ old hentry

/-- What is reused of a session of the history agrees with what loading anew would give. -/
theorem Fits.isFresh {s s' : Session α μ} (h : s.Fits) {m : Model α} (hm : m.Reachable)
    {e : Engine α μ} {l : Loaded α μ}
    (hreuse : s.reuse e m.pattern m.conic = (.ok (some l), s')) : m.IsFresh l := by
  intro e' fresh hfresh
  obtain ⟨memory', rfl⟩ := Engine.load_eq_ok hfresh
  rcases reuse_cases e s m.pattern m.conic with ⟨result, heq, hne⟩ | heq |
    ⟨stored, old, memory, hentry, hsame, -, heq⟩
  · rw [heq] at hreuse
    exact absurd (congrArg Prod.fst hreuse) (hne l)
  · rw [heq] at hreuse
    cases hreuse
  · rw [heq] at hreuse
    cases hreuse
    -- the data are new; settings and cones are still those of the model of the entry
    obtain ⟨m₀, hm₀, rfl, hsettings, hcones⟩ := h stored old hentry
    refine ⟨?_, ?_, rfl, rfl, rfl, rfl⟩
    · change old.settings.Agrees m.sessionSettings
      rw [hsettings]
      exact Model.sessionSettings_agree_of_beq hm₀ hm hsame
    · exact hcones.trans (Model.cones_eq_of_beq hsame)

/-! ### Solves -/

variable {m : Model α} {s : Session α μ}

theorem Fits.solveAnew (h : s.Fits) (hm : m.Reachable) (e : Engine α μ) :
    (m.solveAnew e s).2.Fits := by
  unfold Model.solveAnew
  split
  · exact h
  · next r l heq =>
      simp only [bind_eq_ok, pure_eq_ok] at heq
      obtain ⟨loaded, hload, ⟨answer, memory⟩, -, _, -, heq⟩ := heq
      obtain ⟨old, rfl⟩ := Engine.load_eq_ok hload
      cases heq
      -- the entry is that of the model itself
      intro pattern l hl
      cases hl
      exact ⟨m, hm, rfl, rfl, rfl⟩

theorem Fits.solveAgain (h : s.Fits) (e : Engine α μ) (l : Loaded α μ) :
    (m.solveAgain e l s).2.Fits := by
  unfold Model.solveAgain
  split
  · exact h
  · exact h.remember _

theorem Fits.solveCached (h : s.Fits) (hm : m.Reachable) (e : Engine α μ) (warm : Bool) :
    (m.solveCached e s warm).2.Fits := by
  have hreuse := h.reuse e m.pattern m.conic
  unfold Model.solveCached
  split_ifs
  · split
    · next heq => exact (heq ▸ hreuse :)
    · next heq => exact Fits.solveAgain (heq ▸ hreuse :) e _
    · next heq => exact Fits.solveAnew (heq ▸ hreuse :) hm e
  · exact h.solveAnew hm e

/-- A search does not touch the session, and neither does a model that must not go through it. -/
theorem Fits.solve (h : s.Fits) (hm : m.Reachable) (e : Engine α μ) (clock : Clock α) (warm : Bool)
    {s' : Session α μ} (hsolve : (m.solve e clock (some s) warm).2 = some s') : s'.Fits := by
  unfold Model.solve at hsolve
  split_ifs at hsolve with hmixed hcacheable
  · cases hsolve
    exact h
  · cases hsolve
    exact h.solveCached hm e warm
  · cases hsolve
    exact h

theorem Fits.invoke (h : s.Fits) (hm : m.Reachable) (e : Engine α μ) (clock : Clock α) (warm : Bool)
    {s' : Session α μ} (hinvoke : (invoke e clock m (some s) warm).2 = some s') : s'.Fits := by
  have hsolve : ∀ t, (m.solve e clock (some s) warm).2 = some t → t.Fits :=
    fun _ ht => h.solve hm e clock warm ht
  unfold QuadProg.invoke at hinvoke
  cases hrun : m.solve e clock (some s) warm with
  | mk result after =>
      rw [hrun] at hinvoke hsolve
      dsimp only at hinvoke
      split at hinvoke
      · exact hsolve s' hinvoke
      -- a breakdown may have left anything, so it empties the session
      · obtain ⟨t, -, rfl⟩ := Option.map_eq_some_iff.1 hinvoke
        exact fits_empty

/-- **Every session of a history fits.** -/
theorem Reachable.fits (h : s.Reachable) : s.Fits := by
  induction h with
  | empty => exact fits_empty
  | solve e clock warm _ hm hsolve ih =>
      exact ih.solve hm e clock warm (congrArg Prod.snd hsolve)
  | invoke e clock warm _ hm hinvoke ih => exact ih.invoke hm e clock warm hinvoke
  | solveData e clock d request _ hsolve ih =>
      unfold QuadProg.solveData at hsolve
      split at hsolve
      · cases hsolve
        exact ih
      · next hmodel =>
          exact ih.invoke (Model.reachable_of_toModel hmodel) e clock request.warm hsolve

/-- **A warm start never solves a stale problem.**  In whatever session a history of solves left,
a loaded problem that is reused for a model has the data of that model, and settings and cones that
agree with loading it anew; it is what the engine then runs on, and a solution that says it was
warm started comes from nothing else. -/
theorem reuse_isFresh {s : Session α μ} (hs : s.Reachable) {m : Model α} (hm : m.Reachable)
    (e : Engine α μ) :
    (∀ l t, s.reuse e m.pattern m.conic = (.ok (some l), t) →
      m.IsFresh l ∧ m.solveCached e s true = m.solveAgain e l t) ∧
      ∀ warm sol s', m.solveCached e s warm = (.ok sol, s') → sol.warmStarted = true →
        ∃ l t, s.reuse e m.pattern m.conic = (.ok (some l), t) ∧ m.IsFresh l ∧
          m.solveAgain e l t = (.ok sol, s') := by
  refine ⟨fun l t hreuse => ⟨hs.fits.isFresh hm hreuse, ?_⟩, fun warm sol s' h hwarm => ?_⟩
  · unfold Model.solveCached
    rw [if_pos rfl, hreuse]
  · obtain ⟨l, t, hreuse, hagain⟩ := reuse_of_warmStarted h hwarm
    exact ⟨l, t, hreuse, hs.fits.isFresh hm hreuse, hagain⟩

/-- Minimize a multiple of one variable between two bounds, with a tolerance that was set. -/
def boxModel (cost lower upper : ℚ) : Model ℚ :=
  (Model.Call.setControl "tol_feas" (.number (1 / 100))).after
    ((Model.Call.addVariables [cost] [lower] [upper]).after (.empty engineInfinity))

/-- An engine that takes everything and answers with what it was given. -/
def echoEngine : Engine ℚ Unit where
  prepare _ _ := .ok ()
  refresh _ _ := .ok (some ())
  run _ l := .ok (⟨.solved, l.q, l.b, 1⟩, ())

/-- After one box, another one with the same finite bounds is solved by a warm start, and what is
reused is up to date. -/
theorem reuse_isFresh_box : ∃ s l t, Session.Reachable s ∧
    s.reuse echoEngine (boxModel 2 1 5).pattern (boxModel 2 1 5).conic = (.ok (some l), t) ∧
      (boxModel 2 1 5).IsFresh l ∧
      (boxModel 2 1 5).solveCached echoEngine s true =
        (boxModel 2 1 5).solveAgain echoEngine l t := by
  have hmodel : ∀ cost lower upper, (boxModel cost lower upper).Reachable := fun _ _ _ =>
    .call (.setControl _ _) (.call (.addVariables _ _ _) (.empty _))
  have hrun : (invoke echoEngine ⟨fun _ => .ok fun _ => false, 0⟩ (boxModel 1 0 10) (some {})
      false).2.any (fun s => (s.reuse echoEngine (boxModel 2 1 5).pattern
        (boxModel 2 1 5).conic).1.toOption.join.isSome) = true := by
    decide +kernel
  cases hs : (invoke echoEngine ⟨fun _ => .ok fun _ => false, 0⟩ (boxModel 1 0 10) (some {})
      false).2 with
  | none => simp [hs] at hrun
  | some s =>
      rw [hs, Option.any_some] at hrun
      have hreachable : Session.Reachable s := .invoke _ _ _ .empty (hmodel 1 0 10) hs
      have hfresh := (reuse_isFresh hreachable (hmodel 2 1 5) echoEngine).1
      cases hreuse : s.reuse echoEngine (boxModel 2 1 5).pattern (boxModel 2 1 5).conic with
      | mk result t =>
          rw [hreuse] at hrun
          cases result with
          | error b => cases hrun
          | ok new =>
              cases new with
              | none => cases hrun
              | some l => exact ⟨s, l, t, hreachable, hreuse, hfresh l t hreuse⟩

end Session

end QuadProg
