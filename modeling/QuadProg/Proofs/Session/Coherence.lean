import QuadProg.Proofs.Build.Translation
import QuadProg.Proofs.Search.Unfinished
import QuadProg.Proofs.Session.Transition

/-!
# Solutions are coherent

The parts of a solution are computed apart from each other: the status by the engine or the search,
the objective value by the model, the values by cutting a point, the dual values by cutting
multipliers.  They fit together all the same:

```text
status                              values      objective        dual values
optimal, optimal inaccurate         a point     its cost         if nothing is mixed
user limit                          a point     its cost         if nothing is mixed
                                    or none     + infinity       none
unbounded, unbounded inaccurate     none        - infinity       none
any other                           none        + infinity       none
```

Which of the two lines of a limit holds depends on the whole search, and so does that an optimum
always has a point.  What is used of a search is that its best point is the last one it accepted
(`State.Traced.accepted`), and that the verdict of an optimum is given for nothing else
(`State.Traced.optimal`).
-/

namespace QuadProg

open Search

variable {α μ : Type} [Scalar α]

/-! ### The solution of a model -/

namespace Model

/-- The search of the model ends with this as its best point, found by rounding that of a
relaxation. -/
def EndsAt (m : Model α) (e : Engine α μ) (clock : Clock α) (p : Point α) : Prop :=
  ∃ stopped s, m.Searches e clock stopped s ∧ s.incumbent = some p ∧
    ∃ v ∈ s.log, v.fate = .accepted p ∧ p.x = roundAt m.integerIndices v.relaxation.x

/-- The point is the best of a search, or an answer of the engine where there is nothing to search
for; and its objective value is what the model says of it. -/
structure Finds (m : Model α) (e : Engine α μ) (clock : Clock α) (p : Point α) : Prop where
  objective : m.objective p.x = .ok p.objective
  mixed : m.isMixed = true → m.EndsAt e clock p
  continuous : m.isMixed = false → ∃ turn l answer memory,
    e.run turn l = .ok (answer, memory) ∧ p.x = answer.x

/-- What the parts of a model's solution have to do with each other. -/
structure Explains (m : Model α) (e : Engine α μ) (clock : Clock α) (sol : ModelSolution α) :
    Prop where
  point : ∀ p, sol.point = some p → m.Finds e clock p
  optimal : sol.status.status.isOptimal = true → sol.point.isSome = true
  duals : m.isMixed = false → sol.eqDuals.isSome = true ∧ sol.ineqDuals.isSome = true
  nodes : sol.nodes.isSome = m.isMixed

variable {m : Model α} {e : Engine α μ} {clock : Clock α} {sol : ModelSolution α}

theorem explains_branchAndBound (hmixed : m.isMixed = true)
    (h : m.branchAndBound e clock = .ok sol) : m.Explains e clock sol := by
  obtain ⟨stopped, s, hsearches, rfl⟩ := exists_searches h
  obtain ⟨htraced, -⟩ := hsearches.traced
  obtain ⟨expired, -, hended⟩ := hsearches.ended
  have hcontinuous : m.isMixed ≠ false := by simp [hmixed]
  refine ⟨fun p hp => ?_, fun hoptimal => ?_, fun h => absurd h hcontinuous, hmixed.symm⟩
  · have hincumbent := incumbent_of_point hp
    obtain ⟨v, hv, hfate, hx, hobjective⟩ := htraced.accepted hsearches.latest hincumbent
    exact ⟨hobjective, fun _ => ⟨stopped, s, hsearches, hincumbent, v, hv, hfate, hx⟩,
      fun h => absurd h hcontinuous⟩
  · have hverdict := htraced.optimal hended hoptimal
    obtain ⟨-, -, -, hfound⟩ := hended.of_verdict (.inl hverdict)
    rw [searchSolution, hverdict]
    exact hfound.1 hverdict

theorem explains_continuous (hcontinuous : m.isMixed = false) {answer : Answer α} {turn : Nat}
    {l : Loaded α μ} {memory : μ} (hrun : e.run turn l = .ok (answer, memory)) {r : Relaxation α}
    (hr : m.relaxationOf m.conic answer = .ok r) (warm : Bool) :
    m.Explains e clock (continuousSolution r warm) := by
  simp only [relaxationOf, bind_eq_ok, pure_eq_ok] at hr
  obtain ⟨v, hv, rfl⟩ := hr
  refine ⟨fun p hp => ?_, fun _ => rfl, fun _ => ⟨rfl, rfl⟩, hcontinuous.symm⟩
  obtain rfl := Option.some.inj hp
  refine ⟨hv, fun h => ?_, fun _ => ⟨turn, l, answer, memory, hrun, rfl⟩⟩
  rw [hcontinuous] at h
  cases h

/-- Whatever was loaded, stored or reused, the parts of a solution fit together. -/
theorem explains_solve {session after : Option (Session α μ)} {warm : Bool}
    (h : m.solve e clock session warm = (.ok sol, after)) : m.Explains e clock sol := by
  cases hmixed : m.isMixed with
  | true =>
      unfold solve at h
      rw [hmixed, if_pos rfl] at h
      exact explains_branchAndBound hmixed (Prod.mk.inj h).1
  | false =>
      obtain ⟨turn, l, answer, memory, r, w, -, hrun, hr, rfl⟩ :=
        runOn_solve (P := fun _ => True) (fun _ _ _ _ => trivial) (fun _ _ _ _ _ => trivial)
          hmixed h
      exact explains_continuous hmixed hrun hr w

/-- Multipliers are cut unless the model or the layout is mixed. -/
theorem Explains.isSome_duals (h : m.Explains e clock sol) (l : Layout) :
    (Results.duals (l.isMixed || sol.nodes.isSome) sol l).isSome = true ↔
      m.isMixed = false ∧ l.isMixed = false := by
  rw [h.nodes]
  cases hmixed : m.isMixed with
  | true => simp [Results.duals]
  | false =>
      obtain ⟨heqDuals, hineqDuals⟩ := h.duals hmixed
      obtain ⟨y, hy⟩ := Option.isSome_iff_exists.1 heqDuals
      obtain ⟨w, hw⟩ := Option.isSome_iff_exists.1 hineqDuals
      cases l.isMixed <;> simp [Results.duals, hy, hw]

end Model

/-! ### The solution of a problem -/

/-- The parts of a solution fit together, where solving the model of the problem had the given
result. -/
structure Solution.Coherent (sol : Solution α) (t : Step α μ) (m : Model α)
    (result : Except Breakdown (ModelSolution α)) : Prop where
  primal : ∀ a, sol.primal = some a →
    (sol.status = .optimal ∨ sol.status = .optimalInaccurate ∨ sol.status = .userLimit) ∧
      ∃ p, m.Finds t.engine t.clock p ∧ a = t.layout.cutVars p.x ∧
        sol.objective = .value p.objective
  missing : sol.primal = none → sol.dual = none ∧
    sol.objective = if sol.status = .unbounded ∨ sol.status = .unboundedInaccurate
      then .negInfinity else .posInfinity
  dual : sol.dual.isSome = true ↔
    sol.primal.isSome = true ∧ t.problem.isMixed = false ∧ t.layout.isMixed = false
  optimal : sol.status = .optimal ∨ sol.status = .optimalInaccurate → sol.primal.isSome = true
  nodes : sol.statistics.nodes.isSome = true ↔
    (∃ native, result = .ok native) ∧ m.isMixed = true

namespace Step

variable {t : Step α μ} {m : Model α}

/-- Without a point, the status alone gives the objective value. -/
theorem coherent_failure {result : Except Breakdown (ModelSolution α)} {status : Status}
    {statistics : Statistics α} (hstatus : status.isOptimal = false)
    (hnodes : statistics.nodes.isSome = true ↔
      (∃ native, result = .ok native) ∧ m.isMixed = true) :
    (Solution.failure status statistics).Coherent t m result where
  primal a ha := nomatch ha
  missing _ := ⟨rfl, by cases status <;> rfl⟩
  dual := by simp [Solution.failure]
  optimal h := by
    simp only [Status.isOptimal, decide_eq_false_iff_not] at hstatus
    exact absurd h hstatus
  nodes := hnodes

theorem coherent_toSolution {native : ModelSolution α} (h : m.Explains t.engine t.clock native)
    (hmixed : m.isMixed = t.problem.isMixed) {results : Results α}
    (hresults : results.outcome = .ok native) :
    (results.toSolution t.layout).Coherent t m (.ok native) := by
  have hnodes : (results.toSolution t.layout).statistics.nodes.isSome = true ↔
      (∃ n, (.ok native : Except Breakdown (ModelSolution α)) = .ok n) ∧ m.isMixed = true := by
    rw [(Results.statistics_toSolution hresults _).1, h.nodes]
    simp
  obtain ⟨p, hp, hstatus⟩ | hpointless := Results.reports_or_pointless native
  · rw [Results.toSolution_of_point hresults hp hstatus t.layout]
    refine ⟨fun a ha => ⟨?_, p, h.point p hp, (Option.some.inj ha).symm, rfl⟩,
      fun hnone => (nomatch hnone), ?_, fun _ => rfl, hnodes⟩
    · simpa [Status.hasSolution, Status.withSolution] using hstatus
    · simp only [h.isSome_duals, hmixed, Option.isSome_some, true_and]
  · -- an optimum would have a point
    have hstatus : native.status.status.isOptimal = false := by
      rw [← Bool.not_eq_true]
      intro hoptimal
      have hsolution := Status.hasSolution_of_isOptimal hoptimal
      have hpoint := h.optimal hoptimal
      simp [hsolution, Option.isSome_iff_ne_none.1 hpoint] at hpointless
    rw [Results.toSolution_of_pointless hresults hpointless t.layout]
    exact coherent_failure hstatus hnodes

/-- **Solutions are coherent.**  Whatever problem is solved in whatever session, and whatever the
engine does meanwhile, the parts of the solution fit together. -/
theorem solve_coherent [EngineDefaults α] {session after : Option (Session α μ)} {sol : Solution α}
    (h : t.solve session = (.ok sol, after)) :
    ∃ m, t.model = .ok m ∧ m.isMixed = t.problem.isMixed ∧
      sol.Coherent t m (m.solve t.engine t.clock session t.request.warm).1 := by
  obtain ⟨m, results, hm, hinvoke, rfl⟩ := solve_eq_ok h
  obtain ⟨hcheck, -⟩ := Model.toModel_eq_ok_iff.1 hm
  have hmixed : m.isMixed = t.problem.isMixed := by
    obtain ⟨c, rfl⟩ := Problem.eq_of_toModel hm
    exact Problem.isMixed_eq (Problem.consistent_of_check hcheck) rfl
  refine ⟨m, hm, hmixed, ?_⟩
  unfold invoke at hinvoke
  cases hsolve : m.solve t.engine t.clock session t.request.warm with
  | mk result after' =>
      rw [hsolve] at hinvoke
      cases result with
      | error b =>
          cases hinvoke
          have hfailure : (Solution.failure .solverError
              { solveTime := some t.clock.elapsed }).Coherent t m (.error b) :=
            coherent_failure rfl (by simp)
          exact hfailure
      | ok native =>
          cases hinvoke
          exact coherent_toSolution (Model.explains_solve hsolve) hmixed rfl

/-- A whole number is wanted.  The upper half of the search is cut short, after the lower one gave
a point. -/
def wholeStep : Step ℚ Unit where
  engine := Model.limitedEngine
  clock := Model.noClock
  available := .ok ()
  problem :=
    { p := .zeros 1 1, q := [1], a := .zeros 0 1, b := [], f := .zeros 0 1, g := []
      nVar := 1, nEq := 0, nIneq := 0, integer := [0] }
  layout := ({} : Layout).addVar ⟨0⟩ .scalar
  request := ⟨false, false, .empty⟩
  staged := false

theorem solve_coherent_whole : ∃ m sol after, wholeStep.solve (some {}) = (.ok sol, after) ∧
    sol.status = .userLimit ∧ sol.primal.isSome = true ∧
    sol.Coherent wholeStep m (m.solve Model.limitedEngine Model.noClock (some {}) false).1 := by
  have hrun : (wholeStep.solve (some {})).1.toOption.map
      (fun sol => (sol.status, sol.primal.isSome)) = some (.userLimit, true) := by
    decide +kernel
  obtain ⟨sol, hsol, hseen⟩ := Option.map_eq_some_iff.1 hrun
  obtain ⟨hstatus, hprimal⟩ := Prod.mk.inj hseen
  have hsolve : wholeStep.solve (some {}) = (.ok sol, (wholeStep.solve (some {})).2) :=
    Prod.ext (eq_ok_of_toOption hsol) rfl
  obtain ⟨m, -, -, hcoherent⟩ := solve_coherent hsolve
  exact ⟨m, sol, _, hsolve, hstatus, hprimal, hcoherent⟩

end Step

end QuadProg
