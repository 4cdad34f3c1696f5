import QuadProg.Proofs.Search.Verdict

/-!
# Searches that were not finished

A search is *unfinished* if a node is still open at its end or some relaxation was undecided.  It
then claims no proof, neither of optimality nor of infeasibility, whatever the engine answers and
whenever time or nodes run out:

```text
                    a point was accepted           none was
a node is open      a limit, with the last point   a limit
one was undecided   a limit, with the last point   what the first undecided one ended with
```

The first column is the reason why the log of a search also tells which point it reports: the best
point so far is always the last one accepted (`State.Latest`).
-/

namespace QuadProg

open Search

namespace Search

variable {α : Type}

/-- The points accepted in a log, the last one first. -/
def acceptedPoints (log : List (Visit α)) : List (Point α) :=
  log.filterMap fun v => match v.fate with
    | .accepted p => some p
    | _ => none

theorem mem_acceptedPoints {log : List (Visit α)} {p : Point α} :
    p ∈ acceptedPoints log ↔ ∃ v ∈ log, v.fate = .accepted p := by
  simp only [acceptedPoints, List.mem_filterMap]
  refine exists_congr fun v => and_congr_right fun _ => ?_
  cases v.fate <;> simp

/-- The best point so far is the last one accepted. -/
def State.Latest (s : State α) : Prop := s.incumbent = (acceptedPoints s.log).head?

/-- A node is still open, or some relaxation was undecided. -/
def State.Unfinished (s : State α) : Prop := s.stack ≠ [] ∨ ∃ v ∈ s.log, v.Undecided

theorem latest_start (lower upper : List α) : (State.start lower upper).Latest := rfl

variable [Scalar α]

theorem State.Latest.visit {s : State α} (h : s.Latest) (rest : List (Node α)) (v : Visit α) :
    (s.visit rest v).Latest := by
  unfold State.Latest at h ⊢
  cases hfate : v.fate with
  | accepted p => simp [State.visit, acceptedPoints, hfate]
  | _ =>
      simp only [State.visit, hfate, acceptedPoints, List.filterMap_cons]
      exact h

variable {target : Target α} {s : State α} {expired : Nat → Bool} {limit : Nat}
  {stopped : Option SearchStatus}

/-- The best point so far is that of a relaxation, with whole numbers in place of the nearby ones,
and its cost is the cost there. -/
theorem State.Traced.accepted (hs : s.Traced target) (hlatest : s.Latest) {p : Point α}
    (hp : s.incumbent = some p) : ∃ v ∈ s.log, v.fate = .accepted p ∧
      p.x = roundAt target.integers v.relaxation.x ∧ target.objective p.x = .ok p.objective := by
  have hmem : p ∈ acceptedPoints s.log := List.mem_of_head? (hlatest ▸ hp)
  obtain ⟨v, hv, hfate⟩ := mem_acceptedPoints.1 hmem
  obtain ⟨-, -, hx, hobjective⟩ := hs.of_accepted hv hfate
  exact ⟨v, hv, hfate, hx, hobjective⟩

/-- A proof is claimed only where nothing is open and every relaxation was decided. -/
theorem State.Traced.finished (hs : s.Traced target) (h : Ended expired limit s stopped)
    (hproof : verdict stopped s = .optimal ∨ verdict stopped s = .infeasible) :
    ¬ s.Unfinished := by
  obtain ⟨hstack, hproceeds, hunresolved, -⟩ := h.of_verdict hproof
  intro hunfinished
  rcases hunfinished with hopen | ⟨v, hv, hundecided⟩
  · exact hopen hstack
  · exact hs.decided hv (hs.remembers hunresolved v hv) (hproceeds v hv) hundecided

/-- A search that came to its end with every relaxation decided claims a proof. -/
theorem State.Traced.of_finished (hs : s.Traced target) (h : Ended expired limit s stopped)
    (hfinished : ¬ s.Unfinished) :
    verdict stopped s = .optimal ∨ verdict stopped s = .infeasible := by
  obtain ⟨hstack, hdecided⟩ : s.stack = [] ∧ ∀ v ∈ s.log, ¬ v.Undecided := by
    simpa [State.Unfinished] using hfinished
  cases h with
  | exhausted =>
      cases hunresolved : s.unresolved with
      | none => cases hpoint : s.incumbent <;> simp [verdict, hunresolved, hpoint]
      | some t =>
          obtain ⟨v, hfirst, -⟩ := hs.first t hunresolved
          exact absurd hfirst.undecided (hdecided v hfirst.mem)
  | outOfNodes hopen => exact absurd hstack hopen
  | outOfTime hopen => exact absurd hstack hopen
  | halted v log hlog hfate _ =>
      have hv : v ∈ s.log := by simp [hlog]
      obtain ⟨incumbent, hsettles⟩ := hs.settled v hv
      rw [hfate] at hsettles
      cases hsettles with
      | halted hundecided _ => exact absurd hundecided (hdecided v hv)

/-- A point that was found is reported. -/
theorem State.Traced.keeps (hs : s.Traced target) (hlatest : s.Latest)
    (h : Ended expired limit s stopped) {p : Point α} (hp : s.incumbent = some p) :
    keepsIncumbent (verdict stopped s) = true := by
  cases h with
  | exhausted =>
      unfold verdict
      rw [hp]
      cases s.unresolved with
      | none => rfl
      | some t => cases t <;> rfl
  | outOfNodes => rfl
  | outOfTime => rfl
  | halted v log hlog hfate _ =>
      -- the root was halted, so that nothing was accepted
      obtain ⟨incumbent, hsettles⟩ := hs.settled v (by simp [hlog])
      rw [hfate] at hsettles
      obtain rfl := (hs.depth [] v log hlog).1 hsettles.depth_eq_zero
      rw [State.Latest, hlog] at hlatest
      simp [hp, acceptedPoints, hfate] at hlatest

theorem cases_of_keepsIncumbent {v : SearchStatus} (h : keepsIncumbent v = true) :
    v = .optimal ∨ v = .nodeLimit ∨ v = .timeLimit ∨ ∃ t, v = .unresolved t := by
  cases v <;> simp_all [keepsIncumbent]

/-- If the search was left unfinished, it is reported under a limit. -/
theorem State.Traced.reports (hs : s.Traced target) (hlatest : s.Latest)
    (h : Ended expired limit s stopped) (hunfinished : s.Unfinished) {p : Point α}
    (hp : s.incumbent = some p) :
    (verdict stopped s).status = .userLimit ∧ keepsIncumbent (verdict stopped s) = true := by
  have hkeeps := hs.keeps hlatest h hp
  refine ⟨?_, hkeeps⟩
  rcases cases_of_keepsIncumbent hkeeps with hoptimal | hlimit | hlimit | ⟨t, hlimit⟩
  · exact absurd hunfinished (hs.finished h (.inl hoptimal))
  all_goals rw [hlimit]; rfl

end Search

namespace Model

variable {α μ : Type} [Scalar α]

theorem Searches.latest {m : Model α} {e : Engine α μ} {clock : Clock α}
    {stopped : Option SearchStatus} {s : State α} (h : m.Searches e clock stopped s) :
    s.Latest := by
  obtain ⟨expired, -, hexplore⟩ := h
  exact (explore_explores hexplore).induction (P := State.Latest)
    (fun hs _ _ _ => hs.visit _ _) (latest_start _ _)

theorem Searches.ended {m : Model α} {e : Engine α μ} {clock : Clock α}
    {stopped : Option SearchStatus} {s : State α} (h : m.Searches e clock stopped s) :
    ∃ expired, clock.expiry m.controls.settings.timeLimit = .ok expired ∧
      Ended expired m.controls.limits.maxNodes s stopped := by
  obtain ⟨expired, hclock, hexplore⟩ := h
  have hended := (explore_explores hexplore).ended (proceeds_start _ _)
  rw [show (State.start m.effectiveBounds.1 m.effectiveBounds.2).log.length = 0 from rfl,
    Nat.zero_add] at hended
  exact ⟨expired, hclock, hended⟩

/-- **An unfinished search claims no proof.**  Whatever the engine answers and whatever the limits
are, a search with an open node or an undecided relaxation ends neither with an optimum nor with
the verdict that there is no point; and if it accepted a point before, it reports a limit and the
last point that was accepted. -/
theorem branchAndBound_unfinished {m : Model α} {e : Engine α μ} {clock : Clock α}
    {sol : ModelSolution α} (h : m.branchAndBound e clock = .ok sol) :
    ∃ stopped s, m.Searches e clock stopped s ∧ sol = searchSolution stopped s ∧
      (s.Unfinished → sol.status ≠ .mixed .optimal ∧ sol.status ≠ .mixed .infeasible) ∧
      (s.Unfinished → ∀ p earlier, acceptedPoints s.log = p :: earlier →
        sol.status.status = .userLimit ∧ sol.point = some p) := by
  obtain ⟨stopped, s, hsearches, rfl⟩ := exists_searches h
  obtain ⟨htraced, -⟩ := hsearches.traced
  obtain ⟨expired, -, hended⟩ := hsearches.ended
  refine ⟨stopped, s, hsearches, rfl, fun hunfinished => ⟨fun hoptimal => ?_,
    fun hinfeasible => ?_⟩, fun hunfinished p earlier haccepted => ?_⟩
  · exact htraced.finished hended (.inl (ModelStatus.mixed.inj hoptimal)) hunfinished
  · exact htraced.finished hended (.inr (ModelStatus.mixed.inj hinfeasible)) hunfinished
  · have hp : s.incumbent = some p := by
      rw [hsearches.latest, haccepted]
      rfl
    obtain ⟨hstatus, hkeeps⟩ := htraced.reports hsearches.latest hended hunfinished hp
    refine ⟨hstatus, ?_⟩
    simp only [searchSolution, hkeeps, if_true]
    exact hp

/-- An engine that answers with the statuses and points of a list, one run after the other. -/
def scriptEngine (answers : List (Termination × List ℚ)) : Engine ℚ Unit where
  prepare _ _ := .ok ()
  refresh _ _ := .ok none
  run turn _ :=
    let (status, x) := answers.getD turn (.unsolved, [])
    .ok (⟨status, x, [], 0⟩, ())

/-- After a half at the root, the lower part gives a point and the upper one is not finished. -/
def limitedEngine : Engine ℚ Unit :=
  scriptEngine [(.solved, [1 / 2]), (.solved, [0]), (.maxIterations, [1])]

theorem branchAndBound_unfinished_unit :
    ∃ sol, unitModel.branchAndBound limitedEngine noClock = .ok sol ∧
      sol.status ≠ .mixed .optimal ∧ sol.status.status = .userLimit ∧
      sol.point.map (·.x) = some [0] := by
  have hreport : (explore unitModel.searchTarget (unitModel.nodeRelax limitedEngine)
      (fun _ => false) unitModel.controls.limits.maxNodes
      (.start unitModel.effectiveBounds.1 unitModel.effectiveBounds.2)).toOption.map
        (fun stop => (outline stop.2.log, (acceptedPoints stop.2.log).map (·.x))) =
      some ([(.maxIterations, 1), (.solved, 1), (.solved, 0)], [[0]]) := by
    decide +kernel
  obtain ⟨stop, hexplore, hseen⟩ := Option.map_eq_some_iff.1 hreport
  obtain ⟨hlog, haccepted⟩ := Prod.mk.inj hseen
  have hrun := eq_ok_of_toOption hexplore
  have hok : unitModel.branchAndBound limitedEngine noClock =
      .ok (searchSolution stop.1 stop.2) :=
    branchAndBound_eq_ok_iff.2 ⟨_, _, rfl, hrun, rfl⟩
  obtain ⟨stopped, s, hsearches, -, hproof, hpoint⟩ := branchAndBound_unfinished hok
  obtain ⟨rfl, rfl⟩ := hsearches.unique ⟨_, rfl, hrun⟩
  have hunfinished : stop.2.Unfinished := by
    obtain ⟨v, hv, hend, -⟩ := exists_of_outline hlog .maxIterations 1 (by simp)
    refine .inr ⟨v, hv, ?_⟩
    simp [Visit.Undecided, Termination.Undecided, Termination.Solves, hend]
  obtain ⟨p, earlier, hcons, hx, -⟩ := List.map_eq_cons_iff.1 haccepted
  obtain ⟨hstatus, hreported⟩ := hpoint hunfinished p earlier hcons
  exact ⟨_, hok, (hproof hunfinished).1, hstatus, by rw [hreported, Option.map_some, hx]⟩

end Model

end QuadProg
