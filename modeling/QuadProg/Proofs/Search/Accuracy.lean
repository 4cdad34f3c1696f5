import QuadProg.Proofs.Model.Representation
import QuadProg.Proofs.Search.Found

/-!
# How accurate a verdict is

An engine reaches its verdicts to full or to reduced accuracy.  A continuous problem is reported
with the accuracy of its one verdict.  A search has many, and what it reports rests on some of them:

```text
optimal                  the relaxation of the point, and those that their bound closed
infeasible               all relaxations whose boxes were not split
unbounded                the root, or the first undecided relaxation below it
inaccurate verdicts      the first undecided relaxation
```

A box counts as empty by a verdict of full accuracy only, and a verdict that rests on an undecided
relaxation below the root keeps its accuracy.  But a relaxation solved to reduced accuracy is taken
for solved, so that nothing that is returned tells the two apart (`branchAndBound_sharpened`), and
no optimum is reported as an inaccurate one.  An inaccurately unbounded root is taken for unbounded.
So a report is as accurate as it claims where no relaxation was solved, or found unbounded, to less
than full accuracy (`branchAndBound_accuracy`), and may be less so elsewhere: see
`branchAndBound_overstates`.
-/

namespace QuadProg

open Search

variable {α μ : Type}

/-! ### Taking reduced accuracy for full -/

/-- The verdict, with reduced accuracy taken for full where a best point was found. -/
def Termination.sharpened : Termination → Termination
  | .almostSolved => .solved
  | t => t

theorem Termination.Undecided.sharpened_eq {t : Termination} (h : t.Undecided) :
    t.sharpened = t := by
  cases t with
  | almostSolved => exact absurd (.inr rfl) h.1
  | _ => rfl

/-- The engine that says solved wherever the given one says almost solved. -/
def Engine.sharpened (e : Engine α μ) : Engine α μ where
  prepare := e.prepare
  refresh := e.refresh
  run turn l := (e.run turn l).map fun a => ({ a.1 with status := a.1.status.sharpened }, a.2)

def Relaxation.sharpened (r : Relaxation α) : Relaxation α :=
  { r with status := r.status.sharpened }

namespace Search

def Visit.sharpened (v : Visit α) : Visit α := { v with relaxation := v.relaxation.sharpened }

def State.sharpened (s : State α) : State α := { s with log := s.log.map Visit.sharpened }

@[simp] theorem State.length_sharpened (s : State α) :
    s.sharpened.log.length = s.log.length := by
  simp [State.sharpened]

variable [Scalar α] {target : Target α}

/-- The accuracy is not asked for when the fate of a node is settled. -/
theorem fate_sharpened (incumbent : Option (Point α)) (node : Node α) (r : Relaxation α) :
    fate target incumbent node r.sharpened = fate target incumbent node r := by
  obtain ⟨status, x, eqDuals, ineqDuals, objective, iterations⟩ := r
  cases status <;> rfl

/-- What is remembered of an undecided relaxation keeps its accuracy. -/
theorem State.visit_sharpened (s : State α) (rest : List (Node α)) {incumbent : Option (Point α)}
    {node : Node α} {r : Relaxation α} {f : Fate α} (h : Settles target incumbent node r f) :
    (s.visit rest ⟨node, r, f⟩).sharpened = s.sharpened.visit rest ⟨node, r.sharpened, f⟩ := by
  cases h with
  | unresolved hundecided _ =>
      have hstatus : r.sharpened.status = r.status := hundecided.sharpened_eq
      simp only [State.visit, State.sharpened, Visit.sharpened, List.map_cons, hstatus]
  | _ => rfl

/-- The search goes the same way with the accuracy taken for full. -/
theorem explore_sharpened {relax relax' : Relax α} {expired : Nat → Bool}
    (hrelax : ∀ {turn node r}, relax turn node = .ok r → relax' turn node = .ok r.sharpened)
    {n : Nat} {s s' : State α} {stopped : Option SearchStatus}
    (h : explore target relax expired n s = .ok (stopped, s')) :
    explore target relax' expired n s.sharpened = .ok (stopped, s'.sharpened) := by
  induction n generalizing s with
  | zero =>
      by_cases hstack : s.stack = []
      · rw [explore_nil hstack] at h
        cases h
        exact explore_nil hstack
      · rw [explore_zero hstack] at h
        cases h
        exact explore_zero hstack
  | succ n ih =>
      cases hstack : s.stack with
      | nil =>
          rw [explore_nil hstack] at h
          cases h
          exact explore_nil hstack
      | cons node rest =>
          have hne : s.stack ≠ [] := by simp [hstack]
          by_cases hexpired : expired s.log.length = true
          · rw [explore_expired hne hexpired] at h
            cases h
            exact explore_expired hne (by rwa [State.length_sharpened])
          · rw [Bool.not_eq_true] at hexpired
            rw [explore_visit hstack hexpired] at h
            rw [explore_visit (s := s.sharpened) hstack (by rwa [State.length_sharpened])]
            obtain ⟨r, f, hr, hf, hgo⟩ := h
            have hvisit := s.visit_sharpened rest (fate_settles hf)
            refine ⟨r.sharpened, f, ?_, ?_, ?_⟩
            · rw [State.length_sharpened]
              exact hrelax hr
            · exact (fate_sharpened s.incumbent node r).trans hf
            · rcases hgo with ⟨st, hst, hfinal⟩ | ⟨hproceeds, hrest⟩
              · obtain ⟨rfl, rfl⟩ := Prod.mk.inj hfinal
                exact .inl ⟨st, hst, by rw [hvisit]⟩
              · exact .inr ⟨hproceeds, hvisit ▸ ih hrest⟩

end Search

namespace Model

variable [Scalar α] {m : Model α} {e : Engine α μ}

theorem relax_sharpened {turn : Nat} {lower upper : List α} {r : Relaxation α}
    (h : m.relax e turn lower upper = .ok r) :
    m.relax e.sharpened turn lower upper = .ok r.sharpened := by
  simp only [relax, relaxationOf, bind_eq_ok, pure_eq_ok] at h ⊢
  obtain ⟨loaded, hload, a, hrun, objective, hobjective, rfl⟩ := h
  have hrun' : e.sharpened.run turn loaded =
      .ok ({ a.1 with status := a.1.status.sharpened }, a.2) := by
    show (e.run turn loaded).map _ = _
    rw [hrun]
    rfl
  exact ⟨loaded, hload, _, hrun', objective, hobjective, rfl⟩

omit [Scalar α] in
theorem searchSolution_sharpened (stopped : Option SearchStatus) (s : State α) :
    searchSolution stopped s.sharpened = searchSolution stopped s := by
  have hverdict : verdict stopped s.sharpened = verdict stopped s := rfl
  rw [searchSolution, hverdict, State.length_sharpened]
  rfl

/-- What a search returns does not tell whether relaxations were solved to reduced accuracy. -/
theorem branchAndBound_sharpened {clock : Clock α} {sol : ModelSolution α}
    (h : m.branchAndBound e clock = .ok sol) : m.branchAndBound e.sharpened clock = .ok sol := by
  obtain ⟨expired, ⟨stopped, s⟩, hclock, hexplore, rfl⟩ := branchAndBound_eq_ok_iff.1 h
  have hrelax : ∀ {turn node r}, m.nodeRelax e turn node = .ok r →
      m.nodeRelax e.sharpened turn node = .ok r.sharpened := relax_sharpened
  have hsharpened := explore_sharpened hrelax hexplore
  exact branchAndBound_eq_ok_iff.2 ⟨expired, _, hclock, hsharpened,
    (searchSolution_sharpened stopped s).symm⟩

end Model

/-! ### What a report rests on -/

namespace Search

variable [Scalar α] {target : Target α} {log : List (Visit α)} {returned : Option (Point α)}

/-- The relaxation that found the returned point, and those that their bound closed, ended as `Ends`
says.  The box of every other one was split or found empty, or an earlier point was found there. -/
structure OptimumRests (Ends : Termination → Prop) (target : Target α) (log : List (Visit α))
    (returned : Option (Point α)) : Prop where
  returned : ∃ v p, returned = some p ∧ LastFound target log v ∧ v.fate = .accepted p ∧
    Ends v.relaxation.status
  pruned : ∀ v ∈ log, v.fate = .pruned → Ends v.relaxation.status
  others : ∀ v ∈ log, (v.Branched ∨ v.fate = .pruned ∨ ∃ p, v.fate = .accepted p) ∨
    v.relaxation.status = .primalInfeasible

/-- The root, which is visited first, ended as `t` says. -/
def RootEnded (log : List (Visit α)) (t : Termination) : Prop :=
  ∃ root, log.getLast? = some root ∧ root.relaxation.status = t

theorem OptimumRests.imp {Ends Ends' : Termination → Prop}
    (h : OptimumRests Ends target log returned)
    (himp : ∀ v ∈ log, Ends v.relaxation.status → Ends' v.relaxation.status) :
    OptimumRests Ends' target log returned where
  returned := by
    obtain ⟨v, p, hp, hlast, hfate, hends⟩ := h.returned
    exact ⟨v, p, hp, hlast, hfate, himp v hlast.mem hends⟩
  pruned v hv hfate := himp v hv (h.pruned v hv hfate)
  others := h.others

theorem Settles.solves_of_pruned {incumbent : Option (Point α)} {node : Node α} {r : Relaxation α}
    (h : Settles target incumbent node r .pruned) : r.status.Solves := by
  cases h with
  | pruned _ hsolves _ _ => exact hsolves

/-- An optimum rests on relaxations that were solved, to full or to reduced accuracy. -/
theorem State.Traced.optimumRests {s : State α} (hs : s.Traced target)
    (hsettled : s.Settled target) (hlatest : s.Latest) {expired : Nat → Bool} {limit : Nat}
    {stopped : Option SearchStatus} (h : Ended expired limit s stopped)
    (hv : verdict stopped s = .optimal) :
    OptimumRests Termination.Solves target s.log s.incumbent := by
  obtain ⟨-, hproceeds, hunresolved, hpoint⟩ := h.of_verdict (.inl hv)
  obtain ⟨p, hp⟩ := Option.isSome_iff_exists.1 (hpoint.1 hv)
  refine ⟨?_, fun v hv hfate => ?_, fun v hv => ?_⟩
  · obtain ⟨v, hlast, hfate⟩ := hsettled.lastFound hlatest hp
    exact ⟨v, p, hp, hlast, hfate, (hs.of_accepted hlast.mem hfate).1⟩
  · obtain ⟨incumbent, hsettles⟩ := hs.settled v hv
    rw [hfate] at hsettles
    exact hsettles.solves_of_pruned
  · have hdecided := hs.decided hv (hs.remembers hunresolved v hv) (hproceeds v hv)
    rcases hs.ways hv with hsolved | hinfeasible | hundecided
    · exact .inl hsolved
    · exact .inr hinfeasible
    · exact absurd hundecided hdecided

end Search

namespace Model

variable [Scalar α]

/-- **A search does not report reduced accuracy.**  Whatever the engine answers, the search returns
the same if the engine says solved instead of almost solved, and no optimum is reported as an
inaccurate one.  An optimum rests on relaxations that were solved, to full accuracy if none was
solved to less; and an unbounded problem rests on the first undecided relaxation, which was the root
and ended unbounded to full accuracy if none ended unbounded below it or to less. -/
theorem branchAndBound_accuracy {m : Model α} {e : Engine α μ} {clock : Clock α}
    {sol : ModelSolution α} (h : m.branchAndBound e clock = .ok sol) :
    m.branchAndBound e.sharpened clock = .ok sol ∧
    ∃ stopped s, m.Searches e clock stopped s ∧ sol = searchSolution stopped s ∧
      sol.status.status ≠ .optimalInaccurate ∧
      (sol.status.status = .optimal →
        OptimumRests Termination.Solves m.searchTarget s.log sol.point ∧
        ((∀ v ∈ s.log, v.relaxation.status ≠ .almostSolved) →
          OptimumRests (· = .solved) m.searchTarget s.log sol.point)) ∧
      (sol.status.status = .unbounded →
        (∃ v, FirstUndecided s.log v ∧ (v.relaxation.status = .dualInfeasible ∨
          v.relaxation.status = .almostDualInfeasible ∧ s.log = [v])) ∧
        ((∀ v ∈ s.log, v.EndedUnbounded →
            v.node.depth = 0 ∧ v.relaxation.status = .dualInfeasible) →
          RootEnded s.log .dualInfeasible)) := by
  obtain ⟨stopped, s, hsearches, rfl⟩ := exists_searches h
  obtain ⟨htraced, hbacked⟩ := hsearches.traced
  obtain ⟨expired, -, hended⟩ := hsearches.ended
  have hverdict : (verdict stopped s).status.isOptimal = true → verdict stopped s = .optimal :=
    htraced.optimal hended
  refine ⟨branchAndBound_sharpened h, stopped, s, hsearches, rfl, fun hinaccurate => ?_,
    fun hoptimal => ?_, fun hunbounded => ?_⟩
  · have hstatus : (verdict stopped s).status = .optimalInaccurate := hinaccurate
    rw [hverdict (by rw [hstatus]; rfl)] at hstatus
    cases hstatus
  · have hstatus : (verdict stopped s).status = .optimal := hoptimal
    have hv := hverdict (by rw [hstatus]; rfl)
    have hrests := htraced.optimumRests hsearches.settled hsearches.latest hended hv
    rw [hsearches.point_eq]
    exact ⟨hrests, fun hfull => hrests.imp fun v hv hsolves => hsolves.resolve_right (hfull v hv)⟩
  · obtain ⟨v, hfirst, hends, hor⟩ := hbacked.unbounded hunbounded
    refine ⟨⟨v, hfirst, ?_⟩, fun hfull => ?_⟩
    · rcases hor with hstatus | hlone
      · exact .inl hstatus
      · exact hends.imp_right fun hstatus => ⟨hstatus, hlone⟩
    · obtain ⟨hdepth, hstatus⟩ := hfull v hfirst.mem hends
      exact ⟨v, htraced.getLast_of_depth hfirst.mem hdepth, hstatus⟩

/-- The lower half gives a point, and its bound closes the upper one. -/
theorem branchAndBound_accuracy_unit :
    ∃ sol stopped s,
      unitModel.branchAndBound (scriptEngine [(.solved, [1 / 2]), (.solved, [0]), (.solved, [1])])
        noClock = .ok sol ∧
      unitModel.Searches (scriptEngine [(.solved, [1 / 2]), (.solved, [0]), (.solved, [1])])
        noClock stopped s ∧
      sol.status.status = .optimal ∧
      OptimumRests (· = .solved) unitModel.searchTarget s.log sol.point := by
  have hreport : searchReport unitModel
      (scriptEngine [(.solved, [1 / 2]), (.solved, [0]), (.solved, [1])]) =
      some (.optimal, [(.solved, 1), (.solved, 1), (.solved, 0)]) := by
    decide +kernel
  obtain ⟨stopped, s, hsearches, hok, hoptimal, hlog⟩ := searches_of_report rfl hreport
  obtain ⟨-, stopped', s', hsearches', -, -, hrests, -⟩ := branchAndBound_accuracy hok
  obtain ⟨rfl, rfl⟩ := hsearches.unique hsearches'
  have hfull : ∀ v ∈ s.log, v.relaxation.status ≠ .almostSolved :=
    forall_of_outline hlog (P := fun o => o.1 ≠ .almostSolved) (by simp)
  exact ⟨_, stopped, s, hok, hsearches, hoptimal, (hrests hoptimal).2 hfull⟩

/-- Minimize `-1.7 x - 0.6 y` subject to `x ≤ 3`, `1.3 y ≤ 2.6` and `-x - y ≤ 4.1`, where `x` and
`y` are whole, with six iterations at most and tolerances of the gap that no iterate meets.  The
best point `(3, 2)` of the first relaxation is whole already. -/
def ledgeModel : Model ℚ :=
  Call.run (empty engineInfinity) [
    .addVariables [-1.7, -0.6] [-engineInfinity, -engineInfinity] [engineInfinity, engineInfinity],
    .setKind 0 .integer, .setKind 1 .integer,
    .addRows [([0], [1]), ([1], [1.3]), ([0, 1], [-1, -1])] .lessEqual [3, 2.6, 4.1],
    .setVerbose false, .setControl "max_iter" (.int 6),
    .setControl "tol_gap_abs" (.number 1e-300), .setControl "tol_gap_rel" (.number 1e-300)]

/-- Minimize `-x` subject to `-x ≤ 0`, where `x` is whole, with six iterations at most and a
tolerance of unboundedness that no iterate meets. -/
def rayModel : Model ℚ :=
  Call.run (empty engineInfinity) [
    .addVariables [-1] [-engineInfinity] [engineInfinity], .setKind 0 .integer,
    .addRows [([0], [-1])] .lessEqual [0],
    .setVerbose false, .setControl "max_iter" (.int 6),
    .setControl "tol_infeas_rel" (.number 1e-300)]

/-- An optimum is claimed of a point that was found to reduced accuracy, or after a box was closed
by the bound of a relaxation that was solved to reduced accuracy; and a problem is called unbounded
after the root was found so to reduced accuracy. -/
theorem branchAndBound_overstates :
    (∃ stopped s, ledgeModel.Searches
        (scriptEngine [(.almostSolved, [2.9999999997, 1.9999999994])]) noClock stopped s ∧
      (searchSolution stopped s).status.status = .optimal ∧
      ¬ OptimumRests (· = .solved) ledgeModel.searchTarget s.log
        (searchSolution stopped s).point) ∧
    (∃ stopped s, unitModel.Searches
        (scriptEngine [(.solved, [1 / 2]), (.solved, [0]), (.almostSolved, [1])])
        noClock stopped s ∧
      (searchSolution stopped s).status.status = .optimal ∧
      ∃ v ∈ s.log, v.fate = .pruned ∧ v.relaxation.status = .almostSolved) ∧
    ∃ stopped s, rayModel.Searches (scriptEngine [(.almostDualInfeasible, [1])])
        noClock stopped s ∧
      (searchSolution stopped s).status.status = .unbounded ∧
      ¬ RootEnded s.log .dualInfeasible := by
  refine ⟨?_, ?_, ?_⟩
  · have hreport : searchReport ledgeModel
        (scriptEngine [(.almostSolved, [2.9999999997, 1.9999999994])]) =
        some (.optimal, [(.almostSolved, 0)]) := by
      decide +kernel
    have hlimit : ledgeModel.controls.settings.timeLimit = none := by decide +kernel
    obtain ⟨stopped, s, hsearches, -, hoptimal, hlog⟩ := searches_of_report hlimit hreport
    refine ⟨stopped, s, hsearches, hoptimal, fun hrests => ?_⟩
    obtain ⟨v, p, -, hlast, -, hsolved⟩ := hrests.returned
    have hall : ∀ v ∈ s.log, v.relaxation.status ≠ .solved :=
      forall_of_outline hlog (P := fun o => o.1 ≠ .solved) (by simp)
    exact hall v hlast.mem hsolved
  · have hreport : (explore unitModel.searchTarget (unitModel.nodeRelax
          (scriptEngine [(.solved, [1 / 2]), (.solved, [0]), (.almostSolved, [1])]))
        (fun _ => false) unitModel.controls.limits.maxNodes
        (.start unitModel.effectiveBounds.1 unitModel.effectiveBounds.2)).toOption.map
          (fun stop => ((verdict stop.1 stop.2).status,
            stop.2.log.map fun v => (v.relaxation.status, v.fate matches .pruned))) =
        some (.optimal, [(.almostSolved, true), (.solved, false), (.solved, false)]) := by
      decide +kernel
    obtain ⟨stopped, s, hsearches, -, hseen⟩ := searches_of_explore noClock rfl hreport
    obtain ⟨hoptimal, hlog⟩ := Prod.mk.inj hseen
    obtain ⟨v, earlier, (hcons : s.log = v :: earlier), hv, -⟩ := List.map_eq_cons_iff.1 hlog
    obtain ⟨hstatus, hpruned⟩ := Prod.mk.inj hv
    refine ⟨stopped, s, hsearches, hoptimal, v, by simp [hcons], ?_, hstatus⟩
    cases hfate : v.fate with
    | pruned => rfl
    | _ =>
        rw [hfate] at hpruned
        cases hpruned
  · have hreport : searchReport rayModel (scriptEngine [(.almostDualInfeasible, [1])]) =
        some (.unbounded, [(.almostDualInfeasible, 0)]) := by
      decide +kernel
    have hlimit : rayModel.controls.settings.timeLimit = none := by decide +kernel
    obtain ⟨stopped, s, hsearches, -, hunbounded, hlog⟩ := searches_of_report hlimit hreport
    refine ⟨stopped, s, hsearches, hunbounded, ?_⟩
    rintro ⟨root, hroot, hstatus⟩
    have hall : ∀ v ∈ s.log, v.relaxation.status ≠ .dualInfeasible :=
      forall_of_outline hlog (P := fun o => o.1 ≠ .dualInfeasible) (by simp)
    exact hall root (List.mem_of_getLast? hroot) hstatus

end Model

end QuadProg
