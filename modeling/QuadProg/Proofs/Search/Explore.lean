import QuadProg.Proofs.Outcome
import QuadProg.Session

/-!
# How a search proceeds

A visit settles the fate of one node.  `Settles` lists the ways in which this can happen, with what
is known in each of them, and `fate_settles` says that there are no others.  A search is a sequence
of visits (`Explores`): `Explores.induction` carries to its end whatever every visit preserves, and
`Explores.ended` says in which four ways it can end.

* `exhausted`: no node is open any more;
* `outOfNodes`: a node is open, and as many were visited as may be;
* `outOfTime`: a node is open, and the time is over;
* `halted`: the last visit, at the root, gave no reason to go on.
-/

namespace QuadProg

/-- The engine found a best point, perhaps to reduced accuracy. -/
def Termination.Solves (t : Termination) : Prop := t = .solved ∨ t = .almostSolved

/-- The engine neither found a best point nor showed that there is none. -/
def Termination.Undecided (t : Termination) : Prop := ¬ t.Solves ∧ t ≠ .primalInfeasible

namespace Search

variable {α : Type} [Scalar α]

/-- The relaxation may improve on the best point so far by more than the gap. -/
def Improves (target : Target α) (incumbent : Option (Point α)) (r : Relaxation α) : Prop :=
  ∀ best, incumbent = some best → ¬ best.objective - target.limits.gapAbs ≤ r.objective

/-- What a search ends with when the root is undecided. -/
def rootVerdict (t : Termination) : SearchStatus :=
  if t = .dualInfeasible ∨ t = .almostDualInfeasible then .unbounded else .relaxationFailed t

/-- The ways to settle the fate of a node. -/
inductive Settles (target : Target α) (incumbent : Option (Point α)) (node : Node α)
    (r : Relaxation α) : Fate α → Prop
  | infeasible : r.status = .primalInfeasible → Settles target incumbent node r .infeasible
  | unresolved : r.status.Undecided → node.depth ≠ 0 → Settles target incumbent node r .unresolved
  | halted : r.status.Undecided → node.depth = 0 →
      Settles target incumbent node r (.halted (rootVerdict r.status))
  | pruned (best : Point α) : r.status.Solves → incumbent = some best →
      best.objective - target.limits.gapAbs ≤ r.objective →
      Settles target incumbent node r .pruned
  | branched (j : Nat) : r.status.Solves → Improves target incumbent r →
      mostFractional r.x target.integers target.limits.intTol = some j →
      Settles target incumbent node r (.branched j)
  | accepted (objective : α) : r.status.Solves → Improves target incumbent r →
      mostFractional r.x target.integers target.limits.intTol = none →
      target.objective (roundAt target.integers r.x) = .ok objective →
      Settles target incumbent node r (.accepted ⟨roundAt target.integers r.x, objective⟩)

/-- What is known of a relaxation that gave a point. -/
theorem Settles.of_accepted {target : Target α} {incumbent : Option (Point α)} {node : Node α}
    {r : Relaxation α} {p : Point α} (h : Settles target incumbent node r (.accepted p)) :
    r.status.Solves ∧ mostFractional r.x target.integers target.limits.intTol = none ∧
      p.x = roundAt target.integers r.x ∧ target.objective p.x = .ok p.objective := by
  cases h with
  | accepted objective hsolves _ hmost hobjective => exact ⟨hsolves, hmost, rfl, hobjective⟩

theorem fate_of_solves {target : Target α} {incumbent : Option (Point α)} {node : Node α}
    {r : Relaxation α} (h : r.status.Solves) :
    fate target incumbent node r =
      if incumbent.any fun best => best.objective - target.limits.gapAbs ≤ r.objective then
        .ok .pruned
      else
        match mostFractional r.x target.integers target.limits.intTol with
        | some j => .ok (.branched j)
        | none => do
          let x := roundAt target.integers r.x
          return .accepted ⟨x, ← target.objective x⟩ := by
  obtain ⟨status, _, _, _, _, _⟩ := r
  rcases h with h | h
  · obtain rfl : status = .solved := h
    rfl
  · obtain rfl : status = .almostSolved := h
    rfl

theorem fate_of_undecided {target : Target α} {incumbent : Option (Point α)} {node : Node α}
    {r : Relaxation α} (h : r.status.Undecided) :
    fate target incumbent node r =
      if node.depth = 0 then .ok (.halted (rootVerdict r.status)) else .ok .unresolved := by
  unfold fate
  obtain ⟨hsolves, hinfeasible⟩ := h
  split
  · next heq => exact absurd (.inl heq) hsolves
  · next heq => exact absurd (.inr heq) hsolves
  · next heq => exact absurd heq hinfeasible
  · rfl

theorem fate_of_infeasible {target : Target α} {incumbent : Option (Point α)} {node : Node α}
    {r : Relaxation α} (h : r.status = .primalInfeasible) :
    fate target incumbent node r = .ok .infeasible := by
  unfold fate
  rw [h]

theorem improves_iff {target : Target α} {incumbent : Option (Point α)} {r : Relaxation α} :
    Improves target incumbent r ↔
      ¬ (incumbent.any fun best => best.objective - target.limits.gapAbs ≤ r.objective) := by
  cases incumbent <;> simp [Improves]

/-- There is no other way to settle the fate of a node. -/
theorem fate_settles {target : Target α} {incumbent : Option (Point α)} {node : Node α}
    {r : Relaxation α} {f : Fate α} (h : fate target incumbent node r = .ok f) :
    Settles target incumbent node r f := by
  by_cases hsolves : r.status.Solves
  · rw [fate_of_solves hsolves] at h
    split_ifs at h with hprune
    · cases h
      cases incumbent with
      | none => simp at hprune
      | some best => exact .pruned best hsolves rfl (by simpa using hprune)
    · have himproves := improves_iff.2 hprune
      cases hmost : mostFractional r.x target.integers target.limits.intTol with
      | some j =>
          rw [hmost] at h
          cases h
          exact .branched j hsolves himproves hmost
      | none =>
          rw [hmost] at h
          cases hobj : target.objective (roundAt target.integers r.x) with
          | error b => simp [hobj] at h
          | ok v =>
              simp only [hobj] at h
              cases h
              exact .accepted v hsolves himproves hmost hobj
  by_cases hinfeasible : r.status = .primalInfeasible
  · rw [fate_of_infeasible hinfeasible] at h
    cases h
    exact .infeasible hinfeasible
  · have hundecided : r.status.Undecided := ⟨hsolves, hinfeasible⟩
    rw [fate_of_undecided hundecided] at h
    split_ifs at h with hdepth
    · cases h
      exact .halted hundecided hdepth
    · cases h
      exact .unresolved hundecided hdepth

section Explore

variable {target : Target α} {relax : Relax α} {expired : Nat → Bool}

theorem explore_nil {n : Nat} {s : State α} (hstack : s.stack = []) :
    explore target relax expired n s = .ok (none, s) := by
  unfold explore
  rw [hstack]

theorem explore_zero {s : State α} (hstack : s.stack ≠ []) :
    explore target relax expired 0 s = .ok (some .nodeLimit, s) := by
  obtain ⟨node, rest, hcons⟩ := List.exists_cons_of_ne_nil hstack
  unfold explore
  rw [hcons]

theorem explore_expired {n : Nat} {s : State α} (hstack : s.stack ≠ [])
    (hexpired : expired s.log.length = true) :
    explore target relax expired (n + 1) s = .ok (some .timeLimit, s) := by
  obtain ⟨node, rest, hcons⟩ := List.exists_cons_of_ne_nil hstack
  unfold explore
  simp only [hcons, hexpired, if_true]

/-- Exploring where a node may be visited: the node's relaxation is solved, its fate is settled, and
the search goes on unless it was halted. -/
theorem explore_visit {n : Nat} {s : State α} {node : Node α} {rest : List (Node α)}
    (hstack : s.stack = node :: rest) (hexpired : expired s.log.length = false)
    (final : Option SearchStatus × State α) :
    explore target relax expired (n + 1) s = .ok final ↔
      ∃ r f, relax s.log.length node = .ok r ∧ fate target s.incumbent node r = .ok f ∧
        ((∃ st, f = .halted st ∧ (some st, s.visit rest ⟨node, r, f⟩) = final) ∨
          (∀ st, f ≠ .halted st) ∧
            explore target relax expired n (s.visit rest ⟨node, r, f⟩) = .ok final) := by
  conv_lhs => unfold explore
  simp only [hstack, hexpired, Bool.false_eq_true, if_false, bind_eq_ok]
  constructor
  · rintro ⟨r, hr, f, hf, h⟩
    refine ⟨r, f, hr, hf, ?_⟩
    cases f with
    | halted st => exact .inl ⟨st, rfl, Except.ok.inj h⟩
    | _ => exact .inr ⟨by simp, h⟩
  · rintro ⟨r, f, hr, hf, h⟩
    refine ⟨r, hr, f, hf, ?_⟩
    rcases h with ⟨st, rfl, rfl⟩ | ⟨hgo, h⟩
    · rfl
    · cases f with
      | halted st => exact absurd rfl (hgo st)
      | _ => exact h

/-- What a search does, visit by visit. -/
inductive Explores (target : Target α) (relax : Relax α) (expired : Nat → Bool) :
    Nat → State α → Option SearchStatus → State α → Prop
  | exhausted {n : Nat} {s : State α} : s.stack = [] → Explores target relax expired n s none s
  | outOfNodes {s : State α} : s.stack ≠ [] →
      Explores target relax expired 0 s (some .nodeLimit) s
  | outOfTime {n : Nat} {s : State α} : s.stack ≠ [] → expired s.log.length = true →
      Explores target relax expired (n + 1) s (some .timeLimit) s
  | halted {n : Nat} {s : State α} {node : Node α} {rest : List (Node α)} {r : Relaxation α}
      {st : SearchStatus} : s.stack = node :: rest → relax s.log.length node = .ok r →
      Settles target s.incumbent node r (.halted st) →
      Explores target relax expired (n + 1) s (some st) (s.visit rest ⟨node, r, .halted st⟩)
  | visited {n : Nat} {s s' : State α} {node : Node α} {rest : List (Node α)} {r : Relaxation α}
      {f : Fate α} {stopped : Option SearchStatus} : s.stack = node :: rest →
      relax s.log.length node = .ok r → Settles target s.incumbent node r f →
      (∀ st, f ≠ .halted st) →
      Explores target relax expired n (s.visit rest ⟨node, r, f⟩) stopped s' →
      Explores target relax expired (n + 1) s stopped s'

theorem explore_explores {n : Nat} {s s' : State α} {stopped : Option SearchStatus}
    (h : explore target relax expired n s = .ok (stopped, s')) :
    Explores target relax expired n s stopped s' := by
  induction n generalizing s with
  | zero =>
      by_cases hstack : s.stack = []
      · rw [explore_nil hstack] at h
        cases h
        exact .exhausted hstack
      · rw [explore_zero hstack] at h
        cases h
        exact .outOfNodes hstack
  | succ n ih =>
      cases hstack : s.stack with
      | nil =>
          rw [explore_nil hstack] at h
          cases h
          exact .exhausted hstack
      | cons node rest =>
          have hne : s.stack ≠ [] := by simp [hstack]
          by_cases hexpired : expired s.log.length = true
          · rw [explore_expired hne hexpired] at h
            cases h
            exact .outOfTime hne hexpired
          · rw [explore_visit hstack (by simpa using hexpired)] at h
            obtain ⟨r, f, hr, hf, ⟨st, rfl, hfinal⟩ | ⟨hgo, hrest⟩⟩ := h
            · cases hfinal
              exact .halted hstack hr (fate_settles hf)
            · exact .visited hstack hr (fate_settles hf) hgo (ih hrest)

/-- What every visit preserves holds at the end of the search. -/
theorem Explores.induction {P : State α → Prop}
    (visit : ∀ {s node rest r f}, P s → s.stack = node :: rest →
      relax s.log.length node = .ok r → Settles target s.incumbent node r f →
      P (s.visit rest ⟨node, r, f⟩))
    {n : Nat} {s s' : State α} {stopped : Option SearchStatus}
    (h : Explores target relax expired n s stopped s') (hs : P s) : P s' := by
  induction h with
  | exhausted _ => exact hs
  | outOfNodes _ => exact hs
  | outOfTime _ _ => exact hs
  | halted hstack hr hf => exact visit hs hstack hr hf
  | visited hstack hr hf _ _ ih => exact ih (visit hs hstack hr hf)

/-- No visit halted the search. -/
def State.Proceeds (s : State α) : Prop := ∀ v ∈ s.log, ∀ st, v.fate ≠ .halted st

omit [Scalar α] in
theorem proceeds_start (lower upper : List α) : (State.start lower upper).Proceeds := by
  intro v hv
  cases hv

/-- The ways in which a search with a limit on the number of visits ends. -/
inductive Ended (expired : Nat → Bool) (limit : Nat) (s : State α) : Option SearchStatus → Prop
  | exhausted : s.stack = [] → s.Proceeds → Ended expired limit s none
  | outOfNodes : s.stack ≠ [] → s.log.length = limit → s.Proceeds →
      Ended expired limit s (some .nodeLimit)
  | outOfTime : s.stack ≠ [] → expired s.log.length = true → s.Proceeds →
      Ended expired limit s (some .timeLimit)
  | halted (v : Visit α) (log : List (Visit α)) : s.log = v :: log →
      v.fate = .halted (rootVerdict v.relaxation.status) → (∀ w ∈ log, ∀ st, w.fate ≠ .halted st) →
      Ended expired limit s (some (rootVerdict v.relaxation.status))

theorem Explores.ended {n : Nat} {s s' : State α} {stopped : Option SearchStatus}
    (h : Explores target relax expired n s stopped s') (hs : s.Proceeds) :
    Ended expired (s.log.length + n) s' stopped := by
  induction h with
  | exhausted hstack => exact .exhausted hstack hs
  | outOfNodes hstack => exact .outOfNodes hstack rfl hs
  | outOfTime hstack hexpired => exact .outOfTime hstack hexpired hs
  | @halted n s node rest r st hstack hr hf =>
      cases hf with
      | halted => exact .halted ⟨node, r, _⟩ s.log rfl rfl hs
  | @visited n s s' node rest r f stopped hstack hr hf hgo hrest ih =>
      have hs' : (s.visit rest ⟨node, r, f⟩).Proceeds := by
        intro v hv
        rcases List.mem_cons.1 hv with rfl | hv
        · exact hgo
        · exact hs v hv
      have hlen : (s.visit rest ⟨node, r, f⟩).log.length + n = s.log.length + (n + 1) := by
        simp only [State.visit, List.length_cons]
        omega
      exact hlen ▸ ih hs'

/-- A search breaks down only where a relaxation or the objective does. -/
theorem explore_ok (expired : Nat → Bool) {P : State α → Prop}
    (visit : ∀ {s node rest r f}, P s → s.stack = node :: rest →
      relax s.log.length node = .ok r → Settles target s.incumbent node r f →
      P (s.visit rest ⟨node, r, f⟩))
    (answers : ∀ {s node rest}, P s → s.stack = node :: rest →
      ∃ r f, relax s.log.length node = .ok r ∧ fate target s.incumbent node r = .ok f)
    (n : Nat) {s : State α} (hs : P s) :
    ∃ final, explore target relax expired n s = .ok final := by
  induction n generalizing s with
  | zero =>
      by_cases hstack : s.stack = []
      · exact ⟨_, explore_nil hstack⟩
      · exact ⟨_, explore_zero hstack⟩
  | succ n ih =>
      cases hstack : s.stack with
      | nil => exact ⟨_, explore_nil hstack⟩
      | cons node rest =>
          by_cases hexpired : expired s.log.length = true
          · exact ⟨_, explore_expired (by simp [hstack]) hexpired⟩
          · obtain ⟨r, f, hr, hf⟩ := answers hs hstack
            have hvisit := @explore_visit _ _ target relax expired n s node rest hstack
              (by simpa using hexpired)
            -- the search goes on from the visit unless it was halted there
            by_cases hhalt : ∃ st, f = .halted st
            · obtain ⟨st, hst⟩ := hhalt
              exact ⟨_, (hvisit _).2 ⟨r, f, hr, hf, .inl ⟨st, hst, rfl⟩⟩⟩
            · obtain ⟨final, hfinal⟩ := ih (visit hs hstack hr (fate_settles hf))
              exact ⟨final, (hvisit _).2
                ⟨r, f, hr, hf, .inr ⟨fun st hst => hhalt ⟨st, hst⟩, hfinal⟩⟩⟩

end Explore

/-! ### What is reported -/

/-- Whatever was left undecided is remembered: nothing was where nothing is. -/
def State.Remembers (s : State α) : Prop :=
  s.unresolved = none → ∀ v ∈ s.log, v.fate ≠ .unresolved

omit [Scalar α] in
theorem remembers_start (lower upper : List α) : (State.start lower upper).Remembers := by
  intro _ v hv
  cases hv

theorem State.Remembers.visit {s : State α} (h : s.Remembers) (rest : List (Node α))
    (v : Visit α) : (s.visit rest v).Remembers := by
  intro hnone w hw
  rcases List.mem_cons.1 hw with rfl | hw
  · intro hfate
    cases hs : s.unresolved <;> simp [State.visit, hfate, hs] at hnone
  · have hs : s.unresolved = none := by
      cases hs : s.unresolved with
      | none => rfl
      | some t => cases hfate : v.fate <;> simp [State.visit, hfate, hs] at hnone
    exact h hs w hw

omit [Scalar α] in
/-- A search that claims a proof, of optimality or of infeasibility, came to its end by itself with
nothing left undecided, and it claims the one if and only if it found a point. -/
theorem Ended.of_verdict {expired : Nat → Bool} {limit : Nat} {s : State α}
    {stopped : Option SearchStatus} (h : Ended expired limit s stopped)
    (hv : verdict stopped s = .optimal ∨ verdict stopped s = .infeasible) :
    s.stack = [] ∧ s.Proceeds ∧ s.unresolved = none ∧
      (verdict stopped s = .optimal ↔ s.incumbent.isSome) := by
  cases h with
  | exhausted hstack hs =>
      unfold verdict at hv ⊢
      split at hv <;> simp_all
  | outOfNodes => simp [verdict] at hv
  | outOfTime => simp [verdict] at hv
  | halted v log _ _ _ =>
      simp only [verdict, rootVerdict] at hv
      split_ifs at hv <;> simp at hv

end Search

/-! ### The search of a model -/

namespace Model

open Search

variable {α μ : Type} [Scalar α] {m : Model α} {e : Engine α μ}

def nodeRelax (m : Model α) (e : Engine α μ) : Relax α :=
  fun turn node => m.relax e turn node.lower node.upper

def searchSolution (stopped : Option SearchStatus) (s : State α) : ModelSolution α where
  status := .mixed (verdict stopped s)
  point := if keepsIncumbent (verdict stopped s) then s.incumbent else none
  eqDuals := none
  ineqDuals := none
  iterations := 0
  nodes := some s.log.length
  warmStarted := false

omit [Scalar α] in
/-- A point that is returned is the best one of the search. -/
theorem incumbent_of_point {stopped : Option SearchStatus} {s : State α} {p : Point α}
    (h : (searchSolution stopped s).point = some p) : s.incumbent = some p := by
  simp only [searchSolution] at h
  split_ifs at h
  exact h

theorem branchAndBound_eq_ok_iff {clock : Clock α} {sol : ModelSolution α} :
    m.branchAndBound e clock = .ok sol ↔
      ∃ expired stop, clock.expiry m.controls.settings.timeLimit = .ok expired ∧
        explore m.searchTarget (m.nodeRelax e) expired m.controls.limits.maxNodes
          (.start m.effectiveBounds.1 m.effectiveBounds.2) = .ok stop ∧
        sol = searchSolution stop.1 stop.2 := by
  unfold branchAndBound run
  simp only [bind_eq_ok, pure_eq_ok]
  constructor
  · rintro ⟨expired, hclock, o, ⟨stop, hexplore, rfl⟩, rfl⟩
    exact ⟨expired, stop, hclock, hexplore, rfl⟩
  · rintro ⟨expired, stop, hclock, hexplore, rfl⟩
    exact ⟨expired, hclock, _, ⟨stop, hexplore, rfl⟩, rfl⟩

end Model

end QuadProg
