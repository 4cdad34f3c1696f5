import QuadProg.Proofs.Search.Loop
import QuadProg.Proofs.Search.Optimality
import QuadProg.Proofs.Search.Unfinished

/-!
# The number of nodes

A search reports how many nodes it visited.  The number is the length of its log, and it is what
the engine was asked: an engine that answers `k` times and then breaks down (`Engine.upTo`) leads to
the same solution if and only if `k` is at least that number.

Between its visits a search asks three questions in a fixed order, which decides what is reported
when several have the same answer at once:

```text
no node is open              the end, even if the last visit was the last one allowed
as many visits as allowed    the limit, even if the time is over
the time is over             the time limit
```

A visit that halts the search comes before all of them.  So the limit is reported if and only if all
visits were made, none of them halted the search, and a node is still open.  No box has to shrink
for any of this, and nothing is assumed of the engine, of the clock or of the numbers.
-/

namespace QuadProg

open Relation Search

/-! ### Engines that break down -/

/-- The engine that breaks down from its run number `k` on. -/
def Engine.upTo {α μ : Type} (e : Engine α μ) (k : Nat) : Engine α μ where
  prepare := e.prepare
  refresh := e.refresh
  run turn l := if turn < k then e.run turn l else .error .unknown

namespace Model

variable {α μ : Type} [Scalar α] {m : Model α} {e : Engine α μ}

theorem nodeRelax_upTo {k turn : Nat} (h : turn < k) :
    m.nodeRelax (e.upTo k) turn = m.nodeRelax e turn := by
  funext node
  simp only [nodeRelax, relax, Engine.upTo, Engine.load, if_pos h]

theorem lt_of_nodeRelax_upTo {k turn : Nat} {node : Node α} {r : Relaxation α}
    (h : m.nodeRelax (e.upTo k) turn node = .ok r) : turn < k := by
  obtain ⟨l, a, -, hrun, -⟩ := relax_eq_ok h
  by_contra hturn
  simp only [Engine.upTo, if_neg hturn] at hrun
  cases hrun

end Model

namespace Search

variable {α : Type} [Scalar α] {target : Target α} {relax : Relax α} {expired : Nat → Bool}
  {limit : Nat} {s last : State α} {stopped : Option SearchStatus}

/-! ### What the rounds preserve -/

/-- The log holds the relaxation of every turn. -/
def State.Recorded (relax : Relax α) (s : State α) : Prop :=
  ∀ later v earlier, s.log = later ++ v :: earlier →
    relax earlier.length v.node = .ok v.relaxation

omit [Scalar α] in
theorem recorded_start (lower upper : List α) : (State.start lower upper).Recorded relax := by
  intro later v earlier hlog
  simp [State.start] at hlog

theorem State.Recorded.visit (h : s.Recorded relax) {node : Node α} {r : Relaxation α}
    (hr : relax s.log.length node = .ok r) (rest : List (Node α)) (f : Fate α) :
    (s.visit rest ⟨node, r, f⟩).Recorded relax := by
  intro later v earlier hlog
  cases later with
  | nil =>
      obtain ⟨rfl, rfl⟩ := List.cons.inj hlog
      exact hr
  | cons w later =>
      obtain ⟨-, hlog⟩ := List.cons.inj hlog
      exact h later v earlier hlog

theorem State.Proceeds.leads {s' : State α} (h : s.Proceeds)
    (hstep : Leads target relax expired limit s s') : s'.Proceeds := by
  obtain ⟨node, rest, v, -, -, -, -, hgo, rfl⟩ := hstep.cases
  intro w hw
  rcases List.mem_cons.1 hw with rfl | hw
  · exact hgo
  · exact h w hw

/-- No more nodes are visited than are allowed, and no visit before the end halts the search. -/
theorem proceeds_of_leads (h : ReflTransGen (Leads target relax expired limit) s last)
    (hs : s.Proceeds) (hlength : s.log.length ≤ limit) :
    last.Proceeds ∧ last.log.length ≤ limit := by
  induction h with
  | refl => exact ⟨hs, hlength⟩
  | tail _ hstep ih =>
      obtain ⟨hlt, hnext⟩ := hstep.length
      exact ⟨ih.1.leads hstep, by omega⟩

/-! ### How the loop ends -/

theorem rootVerdict_ne_nodeLimit (t : Termination) : rootVerdict t ≠ .nodeLimit := by
  rw [rootVerdict]
  split_ifs <;> simp

omit [Scalar α] in
theorem verdict_none_ne_nodeLimit (s : State α) : verdict none s ≠ .nodeLimit := by
  unfold verdict
  split <;> simp_all

/-- What halts a search is not the limit. -/
theorem ne_nodeLimit_of_examine {node : Node α} {v : Visit α} {st : SearchStatus}
    (h : examine target relax s node = .ok v) (hfate : v.fate = .halted st) :
    st ≠ .nodeLimit := by
  obtain ⟨r, f, -, hf, rfl⟩ := examine_eq_ok_iff.1 h
  obtain rfl : f = .halted st := hfate
  cases fate_settles hf with
  | halted => exact rootVerdict_ne_nodeLimit _

/-- The limit is reported where it is what ended the loop. -/
theorem Over.nodeLimit_iff (h : Over target relax expired limit s (.ok (stopped, last)))
    (hs : s.Proceeds) (hlength : s.log.length ≤ limit) :
    verdict stopped last = .nodeLimit ↔
      last.log.length = limit ∧ last.Proceeds ∧ last.stack ≠ [] := by
  cases h with
  | exhausted hstack =>
      exact iff_of_false (verdict_none_ne_nodeLimit _) fun hall => hall.2.2 hstack
  | outOfNodes hopen hlimit => exact iff_of_true rfl ⟨le_antisymm hlength hlimit, hs, hopen⟩
  | outOfTime hopen hlt hexpired =>
      exact iff_of_false (by simp [verdict]) fun hall => hlt.ne hall.1
  | @halted node rest v st hstack hlt hexpired hvisit hfate =>
      refine iff_of_false (ne_nodeLimit_of_examine hvisit hfate) fun hall => ?_
      exact hall.2.1 v List.mem_cons_self st hfate

theorem Over.length_le (h : Over target relax expired limit s (.ok (stopped, last)))
    (hlength : s.log.length ≤ limit) : last.log.length ≤ limit := by
  cases h with
  | exhausted => exact hlength
  | outOfNodes => exact hlength
  | outOfTime => exact hlength
  | halted _ hlt => exact hlt

/-- Settling a fate breaks down only where the objective does. -/
theorem fate_eq_error {incumbent : Option (Point α)} {node : Node α} {r : Relaxation α}
    {b : Breakdown} (h : fate target incumbent node r = .error b) :
    target.objective (roundAt target.integers r.x) = .error b := by
  by_cases hsolves : r.status.Solves
  · rw [fate_of_solves hsolves] at h
    split_ifs at h
    cases hmost : mostFractional r.x target.integers target.limits.intTol with
    | some j => simp [hmost] at h
    | none =>
        cases hobjective : target.objective (roundAt target.integers r.x) with
        | ok w => simp [hmost, hobjective, bind, Except.bind, pure, Except.pure] at h
        | error b' => simpa [hmost, hobjective, bind, Except.bind] using h
  by_cases hinfeasible : r.status = .primalInfeasible
  · rw [fate_of_infeasible hinfeasible] at h
    cases h
  · rw [fate_of_undecided ⟨hsolves, hinfeasible⟩] at h
    split_ifs at h

/-- If every relaxation comes with a point where the objective is defined, and it is defined at as
many numbers as there, then the loop breaks down only where a relaxation does. -/
theorem Over.relax_eq_error {b : Breakdown}
    (hdefined : ∀ {turn node r}, relax turn node = .ok r →
      ∃ w, target.objective (roundAt target.integers r.x) = .ok w)
    (h : Over target relax expired limit s (.error b)) :
    ∃ turn < limit, ∃ node, relax turn node = .error b := by
  cases h with
  | @brokeDown node rest _ hstack hlt hexpired hvisit =>
      refine ⟨s.log.length, hlt, node, ?_⟩
      cases hr : relax s.log.length node with
      | error b' => simpa [examine, hr, bind, Except.bind] using hvisit
      | ok r =>
          cases hf : fate target s.incumbent node r with
          | ok f => simp [examine, hr, hf, bind, Except.bind, pure, Except.pure] at hvisit
          | error b' =>
              obtain ⟨w, hw⟩ := hdefined hr
              rw [fate_eq_error hf] at hw
              cases hw

/-- The loop ends: no sequence of rounds goes on longer than the limit, and the result is what some
round, which the rounds before it lead to, finds the loop over with. -/
structure Terminates (target : Target α) (relax : Relax α) (expired : Nat → Bool) (limit : Nat)
    (start : State α) (result : Except Breakdown (Option SearchStatus × State α)) : Prop where
  stops : ∀ states : Nat → State α, states 0 = start →
    ∃ n ≤ limit, ¬ Leads target relax expired limit (states n) (states (n + 1))
  reaches : ∃ last, ReflTransGen (Leads target relax expired limit) start last ∧
    advance target relax expired limit last = .over result

theorem terminates_explore (target : Target α) (relax : Relax α) (expired : Nat → Bool)
    (limit : Nat) (lower upper : List α) :
    Terminates target relax expired limit (.start lower upper)
      (explore target relax expired limit (.start lower upper)) where
  stops states _ := exists_not_leads target relax expired limit states
  reaches := explore_start_eq_iff.1 rfl

end Search

namespace Model

variable {α μ : Type} [Scalar α] {m : Model α} {e : Engine α μ} {clock : Clock α}
  {stopped : Option SearchStatus} {s : State α}

/-! ### Where the objective is defined -/

/-- Whether the objective is defined depends on nothing but how many numbers it is given. -/
theorem objective_ok_of_length {x y : List α} {v : α} (h : m.objective x = .ok v)
    (hlength : y.length = x.length) : ∃ w, m.objective y = .ok w := by
  rw [objective_ok_iff, hlength]
  exact objective_ok_iff.1 ⟨v, h⟩

/-! ### What a search asks for -/

theorem Searches.recorded (h : m.Searches e clock stopped s) : s.Recorded (m.nodeRelax e) := by
  obtain ⟨expired, -, hexplore⟩ := h
  exact (explore_explores hexplore).induction (P := State.Recorded (m.nodeRelax e))
    (fun hs _ hr _ => hs.visit hr _ _) (recorded_start _ _)

/-- The end of a search is where its loop ends. -/
theorem Searches.over (h : m.Searches e clock stopped s) :
    ∃ expired before, before.Proceeds ∧ before.log.length ≤ m.controls.limits.maxNodes ∧
      Over m.searchTarget (m.nodeRelax e) expired m.controls.limits.maxNodes before
        (.ok (stopped, s)) := by
  obtain ⟨expired, -, hexplore⟩ := h
  obtain ⟨before, hleads, hover⟩ := explore_start_eq_iff.1 hexplore
  obtain ⟨hproceeds, hlength⟩ := proceeds_of_leads hleads (proceeds_start _ _) (Nat.zero_le _)
  exact ⟨expired, before, hproceeds, hlength, advance_eq_over_iff.1 hover⟩

/-- With an engine that breaks down, a search goes the same way if it is over by then. -/
theorem Searches.upTo (h : m.Searches e clock stopped s) {k : Nat} (hk : s.log.length ≤ k) :
    m.Searches (e.upTo k) clock stopped s := by
  obtain ⟨expired, hclock, hexplore⟩ := h
  exact ⟨expired, hclock, explore_congr (s := .start _ _) hexplore
    fun turn hturn => nodeRelax_upTo (hturn.trans_le hk)⟩

/-- A search that is not over by then asks for a run that breaks down. -/
theorem Searches.length_le_of_upTo {k : Nat} (h : m.Searches (e.upTo k) clock stopped s) :
    s.log.length ≤ k := by
  cases hlog : s.log with
  | nil => exact Nat.zero_le _
  | cons v earlier => exact lt_of_nodeRelax_upTo (h.recorded [] v earlier hlog)

theorem branchAndBound_of_searches (h : m.Searches e clock stopped s) :
    m.branchAndBound e clock = .ok (searchSolution stopped s) := by
  obtain ⟨expired, hclock, hexplore⟩ := h
  exact branchAndBound_eq_ok_iff.2 ⟨expired, _, hclock, hexplore, rfl⟩

/-- A search breaks down only where its clock or a relaxation does. -/
theorem branchAndBound_eq_error {b : Breakdown} (h : m.branchAndBound e clock = .error b) :
    clock.expiry m.controls.settings.timeLimit = .error b ∨
      ∃ turn < m.controls.limits.maxNodes, ∃ node, m.nodeRelax e turn node = .error b := by
  cases hclock : clock.expiry m.controls.settings.timeLimit with
  | error b' => exact .inl (by simpa [branchAndBound, hclock, bind, Except.bind] using h)
  | ok expired =>
      cases hexplore : explore m.searchTarget (m.nodeRelax e) expired m.controls.limits.maxNodes
          (.start m.effectiveBounds.1 m.effectiveBounds.2) with
      | ok stop =>
          rw [branchAndBound_eq_ok_iff.2 ⟨expired, stop, hclock, hexplore, rfl⟩] at h
          cases h
      | error b' =>
          obtain rfl : b' = b := by
            rw [branchAndBound, bind_of_ok hclock] at h
            change ((explore m.searchTarget (m.nodeRelax e) expired m.controls.limits.maxNodes
              (.start m.effectiveBounds.1 m.effectiveBounds.2)) >>= _) >>= _ = _ at h
            rw [hexplore] at h
            exact Except.error.inj h
          obtain ⟨before, -, hover⟩ := explore_start_eq_iff.1 hexplore
          refine .inr ((advance_eq_over_iff.1 hover).relax_eq_error fun {turn node r} hr => ?_)
          exact objective_ok_of_length (objective_relax hr) (length_roundAt _ _)

/-- What the number of nodes in the solution of a search says, where `s` is its last state. -/
structure Accounts (m : Model α) (e : Engine α μ) (clock : Clock α) (sol : ModelSolution α)
    (s : State α) : Prop where
  nodes : sol.nodes = some s.log.length
  le_limit : s.log.length ≤ m.controls.limits.maxNodes
  /-- The log holds what the engine answered, turn by turn. -/
  recorded : s.Recorded (m.nodeRelax e)
  /-- The engine is asked as many times as there are nodes. -/
  runs : ∀ k, m.branchAndBound (e.upTo k) clock = .ok sol ↔ s.log.length ≤ k
  limited : sol.status = .mixed .nodeLimit ↔
    s.log.length = m.controls.limits.maxNodes ∧ s.Proceeds ∧ s.stack ≠ []

theorem Searches.accounts (h : m.Searches e clock stopped s) :
    m.Accounts e clock (searchSolution stopped s) s := by
  obtain ⟨expired, before, hproceeds, hlength, hover⟩ := h.over
  refine ⟨rfl, hover.length_le hlength, h.recorded, fun k => ⟨fun hk => ?_, fun hk => ?_⟩, ?_⟩
  · obtain ⟨stopped', s', hsearches, heq⟩ := exists_searches hk
    have hnodes : s.log.length = s'.log.length :=
      Option.some.inj (congrArg ModelSolution.nodes heq)
    rw [hnodes]
    exact hsearches.length_le_of_upTo
  · exact branchAndBound_of_searches (h.upTo hk)
  · rw [← hover.nodeLimit_iff hproceeds hlength]
    exact ⟨ModelStatus.mixed.inj, congrArg _⟩

/-- **The nodes of a search are what the engine was asked.**  Whatever the engine answers, even
points outside of the boxes that it is given, the loop of the search terminates, and it breaks down
only where the clock or the engine does.  The number of nodes in its solution is the number of
relaxations that were solved, is at most the limit, and comes with the verdict of the limit if and
only if it is the limit, no visit halted the search, and a node is still open. -/
theorem branchAndBound_accounts (m : Model α) (e : Engine α μ) (clock : Clock α) :
    (∀ expired, Terminates m.searchTarget (m.nodeRelax e) expired m.controls.limits.maxNodes
      (.start m.effectiveBounds.1 m.effectiveBounds.2)
      (explore m.searchTarget (m.nodeRelax e) expired m.controls.limits.maxNodes
        (.start m.effectiveBounds.1 m.effectiveBounds.2))) ∧
    (∀ b, m.branchAndBound e clock = .error b →
      clock.expiry m.controls.settings.timeLimit = .error b ∨
        ∃ turn < m.controls.limits.maxNodes, ∃ node, m.nodeRelax e turn node = .error b) ∧
    ∀ sol, m.branchAndBound e clock = .ok sol →
      ∃ stopped s, m.Searches e clock stopped s ∧ sol = searchSolution stopped s ∧
        m.Accounts e clock sol s := by
  refine ⟨fun expired => terminates_explore _ _ _ _ _ _, fun b => branchAndBound_eq_error,
    fun sol h => ?_⟩
  obtain ⟨stopped, s, hsearches, rfl⟩ := exists_searches h
  exact ⟨stopped, s, hsearches, rfl, hsearches.accounts⟩

/-- Minimize `x` subject to `0 ≤ x ≤ 1`, where `x` is whole, with at most `n` nodes. -/
def limitedUnit (n : Nat) : Model ℚ := { unitModel with controls.limits.maxNodes := n }

/-- Every point is outside of its box after the first split, so that the lower half of a box is the
box itself. -/
theorem branchAndBound_accounts_stuck :
    ∃ sol,
      (limitedUnit 3).branchAndBound (turnEngine [.solved, .solved, .solved]) noClock = .ok sol ∧
      sol.nodes = some 3 ∧ sol.status = .mixed .nodeLimit ∧
      (limitedUnit 3).branchAndBound ((turnEngine [.solved, .solved, .solved]).upTo 2) noClock ≠
        .ok sol := by
  have hreport : (explore (limitedUnit 3).searchTarget
      ((limitedUnit 3).nodeRelax (turnEngine [.solved, .solved, .solved])) (fun _ => false)
      (limitedUnit 3).controls.limits.maxNodes
      (.start (limitedUnit 3).effectiveBounds.1 (limitedUnit 3).effectiveBounds.2)).toOption.map
        (fun stop => (searchSolution stop.1 stop.2).status) =
      some (.mixed .nodeLimit) := by
    decide +kernel
  obtain ⟨stopped, s, -, hok, hstatus⟩ := searches_of_explore noClock rfl hreport
  obtain ⟨stopped', s', -, -, haccounts⟩ :=
    (branchAndBound_accounts (limitedUnit 3) _ noClock).2.2 _ hok
  have hlength : s'.log.length = 3 := (haccounts.limited.1 hstatus).1
  refine ⟨_, hok, haccounts.nodes.trans (congrArg some hlength), hstatus, fun hruns => ?_⟩
  have hle := (haccounts.runs 2).1 hruns
  omega

/-- The last node that is allowed is the last one that is open. -/
example :
    searchReport (limitedUnit 3) (turnEngine [.solved, .primalInfeasible, .primalInfeasible]) =
    some (.infeasible, [(.primalInfeasible, 1), (.primalInfeasible, 1), (.solved, 0)]) := by
  decide +kernel

end Model

end QuadProg
