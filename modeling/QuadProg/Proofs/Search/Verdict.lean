import QuadProg.Proofs.Exact
import QuadProg.Proofs.Search.Explore

/-!
# What a verdict rests on

Nothing is assumed of the engine here: whatever it answers, the log of a search tells what its
verdict rests on.  A relaxation is *undecided* if it was neither solved nor shown infeasible.  Only
the first undecided one is remembered, and at the end of a search without a point it alone gives
the verdict:

```text
infeasible              no relaxation was undecided
infeasible, inaccurate  the first undecided one ended almost infeasible
unbounded               the first undecided one ended unbounded, or almost so at the root
unbounded, inaccurate   the first undecided one ended almost unbounded, below the root
```

So an inaccurate verdict of infeasibility speaks for the whole tree if all undecided relaxations
ended alike, and a verdict of unboundedness speaks for the root if no relaxation below it ended
unbounded.  Without these conditions neither does: see `branchAndBound_unsupported`.
-/

namespace QuadProg

open Search

theorem Termination.solves_of_isOptimal {t : Termination} (h : t.status.isOptimal = true) :
    t.Solves := by
  cases t with
  | solved => exact .inl rfl
  | almostSolved => exact .inr rfl
  | _ => cases h

theorem SearchStatus.cases_of_isOptimal {v : SearchStatus} (h : v.status.isOptimal = true) :
    v = .optimal ∨ ∃ t, v = .relaxationFailed t ∧ t.Solves := by
  cases v with
  | optimal => exact .inl rfl
  | relaxationFailed t => exact .inr ⟨t, rfl, Termination.solves_of_isOptimal h⟩
  | _ => cases h

theorem Status.hasSolution_of_isOptimal {s : Status} (h : s.isOptimal = true) :
    s.hasSolution = true := by
  cases s with
  | optimal => rfl
  | optimalInaccurate => rfl
  | _ => cases h

namespace Search

variable {α : Type}

/-- Two halves are searched in place of the node. -/
def Visit.Branched (v : Visit α) : Prop := ∃ j, v.fate = .branched j

def Visit.Undecided (v : Visit α) : Prop := v.relaxation.status.Undecided

/-- The relaxation ended with a direction of unbounded improvement, perhaps an inaccurate one. -/
def Visit.EndedUnbounded (v : Visit α) : Prop :=
  v.relaxation.status = .dualInfeasible ∨ v.relaxation.status = .almostDualInfeasible

/-- The relaxation ended with a proof that nothing is feasible, perhaps an inaccurate one. -/
def Visit.EndedInfeasible (v : Visit α) : Prop :=
  v.relaxation.status = .primalInfeasible ∨ v.relaxation.status = .almostPrimalInfeasible

/-- In a log, whose latest visit is the first of the list, no visit before `v` is undecided. -/
def FirstUndecided (log : List (Visit α)) (v : Visit α) : Prop :=
  ∃ later earlier, log = later ++ v :: earlier ∧ v.Undecided ∧ ∀ w ∈ earlier, ¬ w.Undecided

/-- What the log says where no integer point is reported to exist, or no best one. -/
structure Backed (log : List (Visit α)) (status : Status) : Prop where
  infeasible : status = .infeasible →
    ∀ v ∈ log, v.Branched ∨ v.relaxation.status = .primalInfeasible
  infeasibleInaccurate : status = .infeasibleInaccurate →
    (∃ v, FirstUndecided log v ∧ v.relaxation.status = .almostPrimalInfeasible) ∧
      ∀ v ∈ log, v.Branched ∨ v.relaxation.status = .primalInfeasible ∨ v.Undecided
  unbounded : status = .unbounded →
    ∃ v, FirstUndecided log v ∧ v.EndedUnbounded ∧
      (v.relaxation.status = .dualInfeasible ∨ log = [v])
  unboundedInaccurate : status = .unboundedInaccurate →
    ∃ v, FirstUndecided log v ∧ v.relaxation.status = .almostDualInfeasible ∧ v.node.depth ≠ 0

/-- The whole tree speaks for a verdict of infeasibility. -/
def TreeInfeasible (log : List (Visit α)) : Prop :=
  ∀ v ∈ log, v.Branched ∨ v.EndedInfeasible

/-- The root, which is visited first, speaks for a verdict of unboundedness. -/
def RootUnbounded (log : List (Visit α)) : Prop :=
  ∃ root, log.getLast? = some root ∧ root.EndedUnbounded

theorem FirstUndecided.mem {log : List (Visit α)} {v : Visit α} (h : FirstUndecided log v) :
    v ∈ log := by
  obtain ⟨later, earlier, rfl, -, -⟩ := h
  simp

theorem FirstUndecided.undecided {log : List (Visit α)} {v : Visit α} (h : FirstUndecided log v) :
    v.Undecided := by
  obtain ⟨-, -, -, h, -⟩ := h
  exact h

theorem FirstUndecided.cons {log : List (Visit α)} {v : Visit α} (h : FirstUndecided log v)
    (w : Visit α) : FirstUndecided (w :: log) v := by
  obtain ⟨later, earlier, rfl, hv, hearlier⟩ := h
  exact ⟨w :: later, earlier, rfl, hv, hearlier⟩

theorem firstUndecided_singleton {v : Visit α} (h : v.Undecided) : FirstUndecided [v] v :=
  ⟨[], [], rfl, h, by simp⟩

theorem Visit.EndedUnbounded.undecided {v : Visit α} (h : v.EndedUnbounded) : v.Undecided := by
  rcases h with h | h <;> simp [Visit.Undecided, Termination.Undecided, Termination.Solves, h]

/-- If all undecided relaxations ended alike, the first speaks for all. -/
theorem Backed.treeInfeasible {log : List (Visit α)} {status : Status} (h : Backed log status)
    (hstatus : status.isInfeasible)
    (halike : ∀ v ∈ log, ∀ w ∈ log, v.Undecided → w.Undecided →
      v.relaxation.status = w.relaxation.status) : TreeInfeasible log := by
  intro w hw
  obtain hstatus | hstatus : status = .infeasible ∨ status = .infeasibleInaccurate := by
    simpa [Status.isInfeasible] using hstatus
  · rcases h.infeasible hstatus w hw with hbranched | hinfeasible
    · exact .inl hbranched
    · exact .inr (.inl hinfeasible)
  · obtain ⟨⟨v, hfirst, hv⟩, hcases⟩ := h.infeasibleInaccurate hstatus
    rcases hcases w hw with hbranched | hinfeasible | hundecided
    · exact .inl hbranched
    · exact .inr (.inl hinfeasible)
    · exact .inr (.inr (halike w hw v hfirst.mem hundecided hfirst.undecided ▸ hv))

/-! ### What the visits leave behind -/

variable [Scalar α] {target : Target α}

/-- What the log of a search says at any time about the fates, the root, the point and the first
undecided relaxation. -/
structure State.Traced (target : Target α) (s : State α) : Prop where
  settled : ∀ v ∈ s.log, ∃ incumbent, Settles target incumbent v.node v.relaxation v.fate
  root : ∀ node ∈ s.stack, node.depth = 0 ↔ s.log = []
  alone : s.log = [] → s.stack.tail = []
  depth : ∀ later v earlier, s.log = later ++ v :: earlier → (v.node.depth = 0 ↔ earlier = [])
  halted : ∀ v ∈ s.log, ∀ st, v.fate = .halted st → s.stack = []
  pointless : s.incumbent = none → ∀ v ∈ s.log, v.fate ≠ .pruned ∧ ∀ p, v.fate ≠ .accepted p
  first : ∀ t, s.unresolved = some t →
    ∃ v, FirstUndecided s.log v ∧ v.relaxation.status = t ∧ v.node.depth ≠ 0
  remembers : s.Remembers

theorem traced_start (lower upper : List α) : (State.start lower upper).Traced target where
  settled := by simp [State.start]
  root := by simp [State.start]
  alone := by simp [State.start]
  depth := by simp [State.start]
  halted := by simp [State.start]
  pointless := by simp [State.start]
  first := by simp [State.start]
  remembers := remembers_start lower upper

theorem Settles.undecided {incumbent : Option (Point α)} {node : Node α} {r : Relaxation α}
    {f : Fate α} (h : Settles target incumbent node r f) (hr : r.status.Undecided) :
    f = .unresolved ∨ ∃ st, f = .halted st := by
  cases h with
  | infeasible hstatus => exact absurd hstatus hr.2
  | unresolved _ _ => exact .inl rfl
  | halted _ _ => exact .inr ⟨_, rfl⟩
  | pruned _ hsolves => exact absurd hsolves hr.1
  | branched _ hsolves => exact absurd hsolves hr.1
  | accepted _ hsolves => exact absurd hsolves hr.1

theorem Settles.depth_eq_zero {incumbent : Option (Point α)} {node : Node α} {r : Relaxation α}
    {st : SearchStatus} (h : Settles target incumbent node r (.halted st)) : node.depth = 0 := by
  cases h with
  | halted _ hdepth => exact hdepth

/-- A visit that was not halted and left nothing undecided was decided. -/
theorem State.Traced.decided {s : State α} (hs : s.Traced target) {v : Visit α} (hv : v ∈ s.log)
    (hunresolved : v.fate ≠ .unresolved) (hhalted : ∀ st, v.fate ≠ .halted st) : ¬ v.Undecided := by
  intro hundecided
  obtain ⟨incumbent, hsettles⟩ := hs.settled v hv
  rcases hsettles.undecided hundecided with h | ⟨st, h⟩
  · exact hunresolved h
  · exact hhalted st h

theorem State.Traced.visit {s : State α} (hs : s.Traced target) {node : Node α}
    {rest : List (Node α)} {r : Relaxation α} {f : Fate α} (hstack : s.stack = node :: rest)
    (hf : Settles target s.incumbent node r f) : (s.visit rest ⟨node, r, f⟩).Traced target := by
  have hproceeds : s.Proceeds := by
    intro v hv st hst
    have := hs.halted v hv st hst
    simp [hstack] at this
  have htop : node.depth = 0 ↔ s.log = [] := hs.root node (by simp [hstack])
  have hrest : s.log = [] → rest = [] := by
    intro hlog
    simpa [hstack] using hs.alone hlog
  refine ⟨?settled, ?root, ?alone, ?depth, ?halted, ?pointless, ?first, hs.remembers.visit rest _⟩
  case settled =>
    intro v hv
    rcases List.mem_cons.1 hv with rfl | hv
    · exact ⟨_, hf⟩
    · exact hs.settled v hv
  case root =>
    -- what was open beside the root is nothing, and a half is deeper than its node
    have hdeeper : ∀ other ∈ rest, other.depth ≠ 0 := by
      intro other hother hzero
      have hlog := (hs.root other (by simp [hstack, hother])).1 hzero
      simp [hrest hlog] at hother
    intro other hother
    refine iff_of_false ?_ (by simp [State.visit])
    cases f with
    | branched j =>
        rcases List.mem_append.1 hother with hhalf | hother
        · obtain rfl | rfl := by simpa [split] using hhalf
          · simp
          · simp
        · exact hdeeper other hother
    | _ => exact hdeeper other hother
  case alone => simp [State.visit]
  case depth =>
    intro later v earlier hlog
    cases later with
    | nil =>
        obtain ⟨rfl, rfl⟩ := List.cons.inj hlog
        exact htop
    | cons w later =>
        obtain ⟨-, hlog⟩ := List.cons.inj hlog
        exact hs.depth later v earlier hlog
  case halted =>
    intro v hv st hst
    rcases List.mem_cons.1 hv with rfl | hv
    · obtain rfl : f = .halted st := hst
      exact hrest (htop.1 hf.depth_eq_zero)
    · exact absurd hst (hproceeds v hv st)
  case pointless =>
    intro hnone v hv
    have hs' : s.incumbent = none := by
      cases f with
      | accepted p => simp [State.visit] at hnone
      | _ => exact hnone
    rcases List.mem_cons.1 hv with rfl | hv
    · cases hf with
      | pruned best _ hbest _ => simp [hs'] at hbest
      | accepted => simp [State.visit] at hnone
      | _ => simp
    · exact hs.pointless hs' v hv
  case first =>
    intro t ht
    cases hold : s.unresolved with
    | some u =>
        obtain rfl : u = t := by
          cases f <;> simpa [State.visit, hold] using ht
        obtain ⟨v, hv, hstatus, hdepth⟩ := hs.first u hold
        exact ⟨v, hv.cons _, hstatus, hdepth⟩
    | none =>
        cases hf with
        | unresolved hundecided hdepth =>
            obtain rfl : r.status = t := by simpa [State.visit, hold] using ht
            refine ⟨⟨node, r, .unresolved⟩, ⟨[], s.log, rfl, hundecided, fun w hw => ?_⟩, rfl,
              hdepth⟩
            exact hs.decided hw (hs.remembers hold w hw) (hproceeds w hw)
        | _ => simp [State.visit, hold] at ht

/-! ### What the end rests on -/

/-- A node without depth is the root, which was visited first. -/
theorem State.Traced.getLast_of_depth {s : State α} (hs : s.Traced target) {v : Visit α}
    (hv : v ∈ s.log) (hdepth : v.node.depth = 0) : s.log.getLast? = some v := by
  obtain ⟨later, earlier, hlog⟩ := List.append_of_mem hv
  obtain rfl := (hs.depth later v earlier hlog).1 hdepth
  simp [hlog]

theorem State.Traced.not_branched {s : State α} (hs : s.Traced target) {v : Visit α}
    (hv : v ∈ s.log) (h : v.Undecided) : ¬ v.Branched := by
  rintro ⟨j, hj⟩
  obtain ⟨incumbent, hsettles⟩ := hs.settled v hv
  rcases hsettles.undecided h with hfate | ⟨st, hfate⟩
  · simp [hfate] at hj
  · simp [hfate] at hj

theorem State.Traced.of_accepted {s : State α} (hs : s.Traced target) {v : Visit α}
    (hv : v ∈ s.log) {p : Point α} (h : v.fate = .accepted p) :
    v.relaxation.status.Solves ∧
      mostFractional v.relaxation.x target.integers target.limits.intTol = none ∧
      p.x = roundAt target.integers v.relaxation.x ∧ target.objective p.x = .ok p.objective := by
  obtain ⟨incumbent, hsettles⟩ := hs.settled v hv
  rw [h] at hsettles
  exact hsettles.of_accepted

/-- A visit was split, closed by its bound or accepted, unless it was infeasible or undecided. -/
theorem State.Traced.ways {s : State α} (hs : s.Traced target) {v : Visit α} (hv : v ∈ s.log) :
    (v.Branched ∨ v.fate = .pruned ∨ ∃ p, v.fate = .accepted p) ∨
      v.relaxation.status = .primalInfeasible ∨ v.Undecided := by
  obtain ⟨node, r, f⟩ := v
  obtain ⟨incumbent, hsettles⟩ := hs.settled _ hv
  have hsettles : Settles target incumbent node r f := hsettles
  cases hsettles with
  | infeasible hstatus => exact .inr (.inl hstatus)
  | unresolved hundecided _ => exact .inr (.inr hundecided)
  | halted hundecided _ => exact .inr (.inr hundecided)
  | pruned _ _ _ _ => exact .inl (.inr (.inl rfl))
  | branched j _ _ _ => exact .inl (.inl ⟨j, rfl⟩)
  | accepted _ _ _ _ _ => exact .inl (.inr (.inr ⟨_, rfl⟩))

/-- As long as no point was found, a visit was branched, shown infeasible or left undecided. -/
theorem State.Traced.of_pointless {s : State α} (hs : s.Traced target) (hpoint : s.incumbent = none)
    {v : Visit α} (hv : v ∈ s.log) :
    v.Branched ∨ v.relaxation.status = .primalInfeasible ∨ v.Undecided := by
  obtain ⟨hpruned, haccepted⟩ := hs.pointless hpoint v hv
  rcases hs.ways hv with (hbranched | hfate | ⟨p, hfate⟩) | hclosed
  · exact .inl hbranched
  · exact absurd hfate hpruned
  · exact absurd hfate (haccepted p)
  · exact .inr hclosed

/-- The ways in which a search ends that neither found a best point nor met a limit. -/
inductive Rests (log : List (Visit α)) : SearchStatus → Prop
  /-- All of the tree was searched. -/
  | tree : (∀ v ∈ log, v.Branched ∨ v.relaxation.status = .primalInfeasible) →
      Rests log .infeasible
  /-- The tree was searched but for some nodes below the root. -/
  | first (v : Visit α) : FirstUndecided log v → v.node.depth ≠ 0 →
      (∀ w ∈ log, w.Branched ∨ w.relaxation.status = .primalInfeasible ∨ w.Undecided) →
      Rests log (.relaxationFailed v.relaxation.status)
  /-- Nothing was searched. -/
  | root (v : Visit α) : log = [v] → v.Undecided → Rests log (rootVerdict v.relaxation.status)

theorem State.Traced.rests {s : State α} (hs : s.Traced target) {expired : Nat → Bool}
    {limit : Nat} {stopped : Option SearchStatus} (h : Ended expired limit s stopped)
    (hoptimal : (verdict stopped s).status ≠ .optimal)
    (hlimit : (verdict stopped s).status ≠ .userLimit) : Rests s.log (verdict stopped s) := by
  cases h with
  | exhausted _ hproceeds =>
      cases hpoint : s.incumbent with
      | some p =>
          -- with a point the search reports the best one, or a limit
          unfold verdict at hoptimal hlimit
          split at hoptimal <;> simp_all [SearchStatus.status]
      | none =>
          have hcases := fun v => hs.of_pointless hpoint (v := v)
          cases hunresolved : s.unresolved with
          | none =>
              have hverdict : verdict none s = .infeasible := by
                simp [verdict, hpoint, hunresolved]
              rw [hverdict]
              refine .tree fun v hv => ?_
              have hdecided := hs.decided hv (hs.remembers hunresolved v hv) (hproceeds v hv)
              rcases hcases v hv with h | h | h
              · exact .inl h
              · exact .inr h
              · exact absurd h hdecided
          | some t =>
              obtain ⟨v, hv, rfl, hdepth⟩ := hs.first t hunresolved
              have hverdict : verdict none s = .relaxationFailed v.relaxation.status := by
                simp [verdict, hpoint, hunresolved]
              rw [hverdict]
              exact .first v hv hdepth hcases
  | outOfNodes => exact absurd rfl hlimit
  | outOfTime => exact absurd rfl hlimit
  | halted v log hlog hfate _ =>
      obtain ⟨incumbent, hsettles⟩ := hs.settled v (by simp [hlog])
      rw [hfate] at hsettles
      obtain rfl := (hs.depth [] v log hlog).1 hsettles.depth_eq_zero
      cases hsettles with
      | halted hundecided _ => exact .root v hlog hundecided

theorem status_rootVerdict (t : Termination) : (rootVerdict t).status =
    if t = .almostDualInfeasible then .unbounded else t.status := by
  cases t <;> rfl

omit [Scalar α] in
theorem Rests.backed {log : List (Visit α)} {verdict : SearchStatus} (h : Rests log verdict) :
    Backed log verdict.status := by
  cases h with
  | tree htree =>
      exact ⟨fun _ => htree, nofun, nofun, nofun⟩
  | first v hfirst hdepth hcases =>
      have hne := hfirst.undecided.2
      refine ⟨fun h => ?_, fun h => ⟨⟨v, hfirst, ?_⟩, hcases⟩, fun h => ⟨v, hfirst, ?_⟩,
        fun h => ⟨v, hfirst, ?_, hdepth⟩⟩
      all_goals cases hstatus : v.relaxation.status <;>
        simp_all [SearchStatus.status, Termination.status, Visit.EndedUnbounded]
  | root v hlog hundecided =>
      subst hlog
      have hfirst := firstUndecided_singleton hundecided
      have hne := hundecided.2
      rw [status_rootVerdict]
      refine ⟨fun h => ?_, fun h => ⟨⟨v, hfirst, ?_⟩, ?_⟩, fun h => ⟨v, hfirst, ?_, .inr rfl⟩,
        fun h => ?_⟩
      all_goals cases hstatus : v.relaxation.status <;>
        simp_all [Termination.status, Visit.EndedUnbounded]

/-- What a search reports is backed by its log. -/
theorem State.Traced.backed {s : State α} (hs : s.Traced target) {expired : Nat → Bool}
    {limit : Nat} {stopped : Option SearchStatus} (h : Ended expired limit s stopped) :
    Backed s.log (verdict stopped s).status := by
  by_cases hoptimal : (verdict stopped s).status = .optimal
  · rw [hoptimal]
    exact ⟨nofun, nofun, nofun, nofun⟩
  by_cases hlimit : (verdict stopped s).status = .userLimit
  · rw [hlimit]
    exact ⟨nofun, nofun, nofun, nofun⟩
  exact (hs.rests h hoptimal hlimit).backed

/-- Only an undecided relaxation counts as failed. -/
theorem State.Traced.failed {s : State α} (hs : s.Traced target) {expired : Nat → Bool}
    {limit : Nat} {stopped : Option SearchStatus} (h : Ended expired limit s stopped)
    {t : Termination} (hverdict : verdict stopped s = .relaxationFailed t) : t.Undecided := by
  cases h with
  | exhausted _ _ =>
      have hunresolved : s.unresolved = some t := by
        unfold verdict at hverdict
        split at hverdict <;> simp_all
      obtain ⟨v, hfirst, rfl, -⟩ := hs.first t hunresolved
      exact hfirst.undecided
  | outOfNodes => cases hverdict
  | outOfTime => cases hverdict
  | halted v log hlog hfate _ =>
      have hroot : rootVerdict v.relaxation.status = .relaxationFailed t := hverdict
      obtain ⟨incumbent, hsettles⟩ := hs.settled v (by simp [hlog])
      rw [hfate] at hsettles
      cases hsettles with
      | halted hundecided _ =>
          unfold rootVerdict at hroot
          split_ifs at hroot
          cases hroot
          exact hundecided

/-- So nothing counts as optimal but the verdict of that name. -/
theorem State.Traced.optimal {s : State α} (hs : s.Traced target) {expired : Nat → Bool}
    {limit : Nat} {stopped : Option SearchStatus} (h : Ended expired limit s stopped)
    (hstatus : (verdict stopped s).status.isOptimal = true) : verdict stopped s = .optimal := by
  rcases SearchStatus.cases_of_isOptimal hstatus with hoptimal | ⟨t, hfailed, hsolves⟩
  · exact hoptimal
  · exact absurd hsolves (hs.failed h hfailed).1

/-- If no relaxation below the root ended unbounded, the root did. -/
theorem State.Traced.rootUnbounded {s : State α} (hs : s.Traced target) {status : Status}
    (h : Backed s.log status) (hstatus : status.isUnbounded)
    (hbelow : ∀ v ∈ s.log, v.EndedUnbounded → v.node.depth = 0) : RootUnbounded s.log := by
  obtain hstatus | hstatus : status = .unbounded ∨ status = .unboundedInaccurate := by
    simpa [Status.isUnbounded] using hstatus
  · obtain ⟨v, hfirst, hunbounded, -⟩ := h.unbounded hstatus
    exact ⟨v, hs.getLast_of_depth hfirst.mem (hbelow v hfirst.mem hunbounded), hunbounded⟩
  · obtain ⟨v, hfirst, hunbounded, hdepth⟩ := h.unboundedInaccurate hstatus
    exact absurd (hbelow v hfirst.mem (.inr hunbounded)) hdepth

end Search

namespace Model

variable {α μ : Type} [Scalar α]

/-- The search of the model ends in the state `s`. -/
def Searches (m : Model α) (e : Engine α μ) (clock : Clock α) (stopped : Option SearchStatus)
    (s : State α) : Prop :=
  ∃ expired, clock.expiry m.controls.settings.timeLimit = .ok expired ∧
    explore m.searchTarget (m.nodeRelax e) expired m.controls.limits.maxNodes
      (.start m.effectiveBounds.1 m.effectiveBounds.2) = .ok (stopped, s)

theorem exists_searches {m : Model α} {e : Engine α μ} {clock : Clock α} {sol : ModelSolution α}
    (h : m.branchAndBound e clock = .ok sol) :
    ∃ stopped s, m.Searches e clock stopped s ∧ sol = searchSolution stopped s := by
  obtain ⟨expired, ⟨stopped, s⟩, hclock, hexplore, rfl⟩ := branchAndBound_eq_ok_iff.1 h
  exact ⟨stopped, s, ⟨expired, hclock, hexplore⟩, rfl⟩

/-- A search is determined by what it is given. -/
theorem Searches.unique {m : Model α} {e : Engine α μ} {clock : Clock α}
    {stopped stopped' : Option SearchStatus} {s s' : State α}
    (h : m.Searches e clock stopped s) (h' : m.Searches e clock stopped' s') :
    stopped = stopped' ∧ s = s' := by
  obtain ⟨expired, hclock, hexplore⟩ := h
  obtain ⟨expired', hclock', hexplore'⟩ := h'
  obtain rfl : expired = expired' := Except.ok.inj (hclock.symm.trans hclock')
  exact Prod.mk.inj (Except.ok.inj (hexplore.symm.trans hexplore'))

/-- Where no time limit is set, what is computed of the end of a search holds of the search. -/
theorem searches_of_explore {m : Model α} {e : Engine α μ} (clock : Clock α) {β : Type}
    {f : Option SearchStatus × State α → β} {b : β}
    (hlimit : m.controls.settings.timeLimit = none)
    (h : (explore m.searchTarget (m.nodeRelax e) (fun _ => false) m.controls.limits.maxNodes
      (.start m.effectiveBounds.1 m.effectiveBounds.2)).toOption.map f = some b) :
    ∃ stopped s, m.Searches e clock stopped s ∧
      m.branchAndBound e clock = .ok (searchSolution stopped s) ∧ f (stopped, s) = b := by
  have hclock : clock.expiry m.controls.settings.timeLimit = .ok fun _ => false := by
    rw [hlimit]
    rfl
  obtain ⟨⟨stopped, s⟩, hexplore, hf⟩ := Option.map_eq_some_iff.1 h
  have hrun := eq_ok_of_toOption hexplore
  exact ⟨stopped, s, ⟨_, hclock, hrun⟩,
    branchAndBound_eq_ok_iff.2 ⟨_, _, hclock, hrun, rfl⟩, hf⟩

theorem Searches.traced {m : Model α} {e : Engine α μ} {clock : Clock α}
    {stopped : Option SearchStatus} {s : State α} (h : m.Searches e clock stopped s) :
    s.Traced m.searchTarget ∧ Backed s.log (verdict stopped s).status := by
  obtain ⟨expired, -, hexplore⟩ := h
  have hexplores := explore_explores hexplore
  have htraced := hexplores.induction (P := State.Traced m.searchTarget)
    (fun hs hstack _ hf => hs.visit hstack hf) (traced_start _ _)
  exact ⟨htraced, htraced.backed (hexplores.ended (proceeds_start _ _))⟩

/-- **What a verdict rests on.**  Whatever the engine answers, a report that no integer point
exists, or that there is no best one, is backed by the log of the search.  It speaks for the whole
tree if the undecided relaxations ended alike, and for the root if none below it ended unbounded. -/
theorem branchAndBound_backed {m : Model α} {e : Engine α μ} {clock : Clock α}
    {sol : ModelSolution α} (h : m.branchAndBound e clock = .ok sol) :
    ∃ stopped s, m.Searches e clock stopped s ∧ sol = searchSolution stopped s ∧
      Backed s.log sol.status.status ∧
      (sol.status.status.isInfeasible →
        (∀ v ∈ s.log, ∀ w ∈ s.log, v.Undecided → w.Undecided →
          v.relaxation.status = w.relaxation.status) → TreeInfeasible s.log) ∧
      (sol.status.status.isUnbounded →
        (∀ v ∈ s.log, v.EndedUnbounded → v.node.depth = 0) → RootUnbounded s.log) := by
  obtain ⟨stopped, s, hsearches, rfl⟩ := exists_searches h
  obtain ⟨htraced, hbacked⟩ := hsearches.traced
  exact ⟨stopped, s, hsearches, rfl, hbacked, hbacked.treeInfeasible,
    htraced.rootUnbounded hbacked⟩

/-! ### Searches whose verdict speaks for less -/

section Turns

/-- Minimize `x` subject to `0 ≤ x ≤ 1`, where `x` is whole. -/
def unitModel : Model ℚ := ⟨[⟨1, 0, 1, .integer⟩], [], none, .default, engineInfinity⟩

/-- An engine that finds a half, and ends as the list says, one run after the other. -/
def turnEngine (ends : List Termination) : Engine ℚ Unit where
  prepare _ _ := .ok ()
  refresh _ _ := .ok none
  run turn _ := .ok (⟨ends.getD turn .unsolved, [1 / 2], [], 0⟩, ())

def noClock : Clock ℚ := ⟨fun _ => .ok fun _ => false, 0⟩

/-- What is seen of a log. -/
def outline (log : List (Visit ℚ)) : List (Termination × Nat) :=
  log.map fun v => (v.relaxation.status, v.node.depth)

/-- What holds of all that is seen of a log holds of its visits. -/
theorem forall_of_outline {log : List (Visit ℚ)} {seen : List (Termination × Nat)}
    (h : outline log = seen) {P : Termination × Nat → Prop} (hseen : ∀ o ∈ seen, P o) :
    ∀ v ∈ log, P (v.relaxation.status, v.node.depth) := by
  intro v hv
  exact hseen _ (h ▸ List.mem_map_of_mem hv)

theorem exists_of_outline {log : List (Visit ℚ)} {seen : List (Termination × Nat)}
    (h : outline log = seen) (t : Termination) (depth : Nat) (hseen : (t, depth) ∈ seen) :
    ∃ v ∈ log, v.relaxation.status = t ∧ v.node.depth = depth := by
  obtain ⟨v, hv, heq⟩ := List.mem_map.1 (show (t, depth) ∈ outline log from h ▸ hseen)
  exact ⟨v, hv, Prod.mk.inj heq⟩

/-- The status that a search without a time limit reports, with the outline of its log. -/
def searchReport (m : Model ℚ) (e : Engine ℚ μ) : Option (Status × List (Termination × Nat)) :=
  (explore m.searchTarget (m.nodeRelax e) (fun _ => false) m.controls.limits.maxNodes
    (.start m.effectiveBounds.1 m.effectiveBounds.2)).toOption.map
      fun stop => ((verdict stop.1 stop.2).status, outline stop.2.log)

theorem searches_of_report {m : Model ℚ} {e : Engine ℚ μ} {status : Status}
    {seen : List (Termination × Nat)} (hlimit : m.controls.settings.timeLimit = none)
    (h : searchReport m e = some (status, seen)) :
    ∃ stopped s, m.Searches e noClock stopped s ∧
      m.branchAndBound e noClock = .ok (searchSolution stopped s) ∧
      (searchSolution stopped s).status.status = status ∧ outline s.log = seen := by
  obtain ⟨stopped, s, hsearches, hrun, hseen⟩ := searches_of_explore noClock hlimit h
  obtain ⟨hstatus, hlog⟩ := Prod.mk.inj hseen
  exact ⟨stopped, s, hsearches, hrun, hstatus, hlog⟩

/-- Both halves are shown infeasible, the lower one inaccurately. -/
theorem branchAndBound_backed_unit :
    ∃ sol, unitModel.branchAndBound
        (turnEngine [.solved, .almostPrimalInfeasible, .primalInfeasible]) noClock = .ok sol ∧
      sol.status.status = .infeasibleInaccurate ∧
      ∃ stopped s, unitModel.Searches
          (turnEngine [.solved, .almostPrimalInfeasible, .primalInfeasible]) noClock stopped s ∧
        sol = searchSolution stopped s ∧ TreeInfeasible s.log := by
  have hreport : searchReport unitModel
      (turnEngine [.solved, .almostPrimalInfeasible, .primalInfeasible]) =
      some (.infeasibleInaccurate,
        [(.primalInfeasible, 1), (.almostPrimalInfeasible, 1), (.solved, 0)]) := by
    decide +kernel
  obtain ⟨stopped, s, hsearches, hsol, hstatus, hlog⟩ := searches_of_report rfl hreport
  refine ⟨_, hsol, hstatus, ?_⟩
  obtain ⟨stopped', s', hsearches', heq, -, htree, -⟩ := branchAndBound_backed hsol
  obtain ⟨rfl, rfl⟩ := hsearches.unique hsearches'
  refine ⟨stopped, s, hsearches, heq, htree (by rw [hstatus]; rfl) fun v hv w hw hv' hw' => ?_⟩
  -- only one relaxation is undecided
  have hseen : ∀ u ∈ s.log, u.Undecided → u.relaxation.status = .almostPrimalInfeasible :=
    forall_of_outline hlog (P := fun o => o.1.Undecided → o.1 = .almostPrimalInfeasible)
      (by simp [Termination.Undecided, Termination.Solves])
  rw [hseen v hv hv', hseen w hw hw']

/-- A half that was not finished is forgotten after one that ended almost infeasible, and a half
that ended unbounded makes the report an unbounded problem although the root was solved. -/
theorem branchAndBound_unsupported :
    (∃ stopped s, unitModel.Searches
        (turnEngine [.solved, .almostPrimalInfeasible, .maxIterations]) noClock stopped s ∧
      (searchSolution stopped s).status.status = .infeasibleInaccurate ∧ ¬ TreeInfeasible s.log) ∧
    ∃ stopped s, unitModel.Searches
        (turnEngine [.solved, .dualInfeasible, .primalInfeasible]) noClock stopped s ∧
      (searchSolution stopped s).status.status = .unbounded ∧ ¬ RootUnbounded s.log := by
  constructor
  · have hreport : searchReport unitModel
        (turnEngine [.solved, .almostPrimalInfeasible, .maxIterations]) =
        some (.infeasibleInaccurate,
          [(.maxIterations, 1), (.almostPrimalInfeasible, 1), (.solved, 0)]) := by
      decide +kernel
    obtain ⟨stopped, s, hsearches, -, hstatus, hlog⟩ := searches_of_report rfl hreport
    refine ⟨stopped, s, hsearches, hstatus, fun htree => ?_⟩
    obtain ⟨v, hv, hend, -⟩ := exists_of_outline hlog .maxIterations 1 (by simp)
    have hundecided : v.Undecided := by
      simp [Visit.Undecided, Termination.Undecided, Termination.Solves, hend]
    rcases htree v hv with h | h
    · exact hsearches.traced.1.not_branched hv hundecided h
    · simp [Visit.EndedInfeasible, hend] at h
  · have hreport : searchReport unitModel
        (turnEngine [.solved, .dualInfeasible, .primalInfeasible]) =
        some (.unbounded, [(.primalInfeasible, 1), (.dualInfeasible, 1), (.solved, 0)]) := by
      decide +kernel
    obtain ⟨stopped, s, hsearches, -, hstatus, hlog⟩ := searches_of_report rfl hreport
    refine ⟨stopped, s, hsearches, hstatus, ?_⟩
    rintro ⟨root, hroot, hunbounded⟩
    have hlast : (outline s.log).getLast? = some (root.relaxation.status, root.node.depth) := by
      simp [outline, hroot]
    rw [hlog] at hlast
    have hend : root.relaxation.status = .solved := (Prod.mk.inj (Option.some.inj hlast)).1.symm
    simp [Visit.EndedUnbounded, hend] at hunbounded

end Turns

end Model

end QuadProg
