import QuadProg.Proofs.Search.Box
import QuadProg.Proofs.Search.Explore
import QuadProg.Proofs.Search.Rounding

/-!
# What a search proves

The engine is trusted as far as one relaxation goes (`RelaxesSoundly`): what it calls solved is a
best point of the box, and what it calls infeasible is.  From this follows what the search claims.

Every integer feasible point is *covered* at any time: it lies in the box of an open node, or the
best point so far is no worse than it, up to the gap.  A visit takes the top node from the stack, so
the points in its box need another cover:

* `infeasible`: there are none;
* `pruned`: the bound of the node, and with it the points, is no better than the best point;
* `branched`: the points are whole at the split variable, so the two halves have them;
* `accepted`: the new best point is the best of the whole box;
* `unresolved`, `halted`: nothing is known, and the search will not claim a proof.

When no node is open any more, the best point covers all.
-/

namespace QuadProg

open Search

variable {K μ : Type} [Field K] [LinearOrder K] [FloorRing K]

/-! ### What is trusted -/

/-- The verdicts of the engine on the relaxations of the model are right. -/
structure Model.RelaxesSoundly (m : Model K) (e : Engine K μ) : Prop where
  /-- What is called solved is feasible in its box. -/
  feasible : ∀ {turn lower upper r}, lower.length = m.nVar → upper.length = m.nVar →
    m.relax e turn lower upper = .ok r → r.status.Solves → m.Feasible lower upper r.x
  /-- What is called solved is best in its box. -/
  best : ∀ {turn lower upper r y v w}, lower.length = m.nVar → upper.length = m.nVar →
    m.relax e turn lower upper = .ok r → r.status.Solves → m.Feasible lower upper y →
    m.objective r.x = .ok v → m.objective y = .ok w → v ≤ w
  /-- What is called infeasible has no feasible point. -/
  infeasible : ∀ {turn lower upper r y}, lower.length = m.nVar → upper.length = m.nVar →
    m.relax e turn lower upper = .ok r → r.status = .primalInfeasible →
    ¬ m.Feasible lower upper y

/-- A relaxation that is whole up to the tolerance is whole. -/
def Model.AcceptsWhole (m : Model K) (e : Engine K μ) : Prop :=
  ∀ turn lower upper r, lower.length = m.nVar → upper.length = m.nVar →
    m.relax e turn lower upper = .ok r → r.status.Solves →
    mostFractional r.x m.integerIndices m.controls.limits.intTol = none →
    ∀ j ∈ m.integerIndices, IsWhole (r.x.getD j 0)

/-- The engine has an answer for every box. -/
def Model.Answers (m : Model K) (e : Engine K μ) : Prop :=
  ∀ turn lower upper, lower.length = m.nVar → upper.length = m.nVar →
    ∃ r, m.relax e turn lower upper = .ok r

/-! ### Relaxations -/

theorem Model.relax_eq_ok {α : Type} [Scalar α] {m : Model α} {e : Engine α μ} {turn : Nat}
    {lower upper : List α} {r : Relaxation α} (h : m.relax e turn lower upper = .ok r) :
    ∃ l a, e.load m.controls.settings (m.assemble lower upper) = .ok l ∧ e.run turn l = .ok a ∧
      r.status = a.1.status ∧ r.x = a.1.x ∧ m.objective r.x = .ok r.objective := by
  simp only [relax, relaxationOf, bind_eq_ok, pure_eq_ok] at h
  obtain ⟨l, hload, a, hrun, v, hobj, rfl⟩ := h
  exact ⟨l, a, hload, hrun, rfl, rfl, hobj⟩

theorem Model.objective_relax {α : Type} [Scalar α] {m : Model α} {e : Engine α μ} {turn : Nat}
    {lower upper : List α} {r : Relaxation α} (h : m.relax e turn lower upper = .ok r) :
    m.objective r.x = .ok r.objective := by
  obtain ⟨_, _, _, _, _, _, hobj⟩ := relax_eq_ok h
  exact hobj

/-- Every visit so far settled its box for good. -/
def Search.State.Conclusive (s : State K) : Prop :=
  ∀ v ∈ s.log, v.fate ≠ .unresolved ∧ ∀ st, v.fate ≠ .halted st

namespace Model

variable {m : Model K} {e : Engine K μ}

/-! ### The invariant -/

/-- The point lies in the box of an open node, or the best point is no worse up to the gap. -/
def Covered (m : Model K) (s : State K) (y : List K) : Prop :=
  (∃ node ∈ s.stack, Within m.infinity node.lower node.upper y) ∨
    ∃ p w, s.incumbent = some p ∧ m.objective y = .ok w ∧
      p.objective ≤ w + m.controls.limits.gapAbs

/-- What holds between the visits of a search. -/
structure Invariant (m : Model K) (s : State K) : Prop where
  length_eq : ∀ node ∈ s.stack, node.lower.length = m.nVar ∧ node.upper.length = m.nVar
  /-- The open boxes are parts of the first one. -/
  within_root : ∀ node ∈ s.stack, ∀ y, Within m.infinity node.lower node.upper y →
    Within m.infinity m.effectiveBounds.1 m.effectiveBounds.2 y
  incumbent : ∀ p, s.incumbent = some p → m.IntegerFeasible p.x ∧ m.objective p.x = .ok p.objective
  covered : s.Conclusive → ∀ y, m.IntegerFeasible y → m.Covered s y

theorem invariant_start (m : Model K) :
    m.Invariant (.start m.effectiveBounds.1 m.effectiveBounds.2) where
  length_eq := sized_start m.length_effectiveBounds
  within_root node hnode y hy := by
    obtain rfl := List.mem_singleton.1 hnode
    exact hy
  incumbent p hp := by cases hp
  covered _ y hy := .inl ⟨_, List.mem_singleton.2 rfl, hy.feasible.within⟩

section Visit

variable {s : State K} {node : Node K} {rest : List (Node K)} {r : Relaxation K} {f : Fate K}

theorem conclusive_of_visit (h : (s.visit rest ⟨node, r, f⟩).Conclusive) :
    s.Conclusive ∧ f ≠ .unresolved ∧ ∀ st, f ≠ .halted st :=
  ⟨fun v hv => h v (List.mem_cons_of_mem _ hv), h _ List.mem_cons_self⟩

variable [IsStrictOrderedRing K]

/-- What is accepted is the point of the relaxation itself. -/
theorem AcceptsWhole.point_eq (h : m.AcceptsWhole e) {turn : Nat}
    (hlower : node.lower.length = m.nVar) (hupper : node.upper.length = m.nVar)
    (hrelax : m.relax e turn node.lower node.upper = .ok r) {p : Point K}
    (hf : Settles m.searchTarget s.incumbent node r (.accepted p)) :
    p = ⟨r.x, r.objective⟩ ∧ ∀ j ∈ m.integerIndices, IsWhole (r.x.getD j 0) := by
  cases hf with
  | accepted obj hsolves _ hmost hobj =>
      have hwhole := h turn _ _ r hlower hupper hrelax hsolves hmost
      have hround : roundAt m.integerIndices r.x = r.x := roundAt_eq_self hwhole
      simp only [searchTarget, hround] at hobj ⊢
      have heq : obj = r.objective :=
        Except.ok.inj (hobj.symm.trans (objective_relax hrelax))
      exact ⟨by rw [heq], hwhole⟩

/-- A point that the best point dominates stays dominated: the best point is only replaced by a
better one. -/
theorem dominated_visit (hgap : 0 ≤ m.controls.limits.gapAbs)
    (hpoint : ∀ q, f = .accepted q → q.objective = r.objective)
    (hf : Settles m.searchTarget s.incumbent node r f) {p : Point K} {w : K}
    (hp : s.incumbent = some p) (hw : p.objective ≤ w + m.controls.limits.gapAbs) :
    ∃ q, (s.visit rest ⟨node, r, f⟩).incumbent = some q ∧
      q.objective ≤ w + m.controls.limits.gapAbs := by
  cases hf with
  | accepted obj _ himproves _ _ =>
      have hlt : obj < w :=
        calc obj = r.objective := hpoint _ rfl
          _ < p.objective - m.controls.limits.gapAbs := not_le.1 (himproves p hp)
          _ ≤ w := sub_le_iff_le_add.2 hw
      exact ⟨_, rfl, hlt.le.trans (le_add_of_nonneg_right hgap)⟩
  | _ => exact ⟨p, hp, hw⟩

/-- The points in the box of the visited node find another cover, unless nothing was settled. -/
theorem covered_of_top (hm : m.Sound) (hsound : m.RelaxesSoundly e) (hwhole : m.AcceptsWhole e)
    (hgap : 0 ≤ m.controls.limits.gapAbs) {turn : Nat}
    (hlower : node.lower.length = m.nVar) (hupper : node.upper.length = m.nVar)
    (hrelax : m.relax e turn node.lower node.upper = .ok r)
    (hf : Settles m.searchTarget s.incumbent node r f)
    (hunresolved : f ≠ .unresolved) (hhalted : ∀ st, f ≠ .halted st) {y : List K}
    (hy : m.IntegerFeasible y) (hbox : Within m.infinity node.lower node.upper y) :
    m.Covered (s.visit rest ⟨node, r, f⟩) y := by
  have hyfeas : m.Feasible node.lower node.upper y :=
    ⟨hy.feasible.length_eq, hy.feasible.holds, hbox⟩
  obtain ⟨w, hw⟩ := hm.objective_ok hy.feasible.length_eq
  -- the relaxation has fewer restrictions, so its point is at least as good
  have hbest (hsolves : r.status.Solves) : r.objective ≤ w :=
    hsound.best hlower hupper hrelax hsolves hyfeas (objective_relax hrelax) hw
  cases hcase : f with
  | infeasible =>
      subst hcase
      cases hf with
      | infeasible hstatus => exact absurd hyfeas (hsound.infeasible hlower hupper hrelax hstatus)
  | unresolved => exact absurd hcase hunresolved
  | halted st => exact absurd hcase (hhalted st)
  | pruned =>
      subst hcase
      cases hf with
      | pruned best hsolves hinc hle =>
          have hdom : best.objective - m.controls.limits.gapAbs ≤ w :=
            calc best.objective - m.controls.limits.gapAbs
                ≤ r.objective := hle
              _ ≤ w := hbest hsolves
          exact .inr ⟨best, w, hinc, hw, sub_le_iff_le_add.1 hdom⟩
  | branched j =>
      subst hcase
      cases hf with
      | branched _ hsolves himproves hmost =>
          have hj : j ∈ m.integerIndices := mem_of_mostFractional hmost
          obtain ⟨child, hchild, hin⟩ := hbox.exists_split (hy.whole j hj) (coordinate r.x j)
          exact .inl ⟨child, List.mem_append_left _ hchild, hin⟩
  | accepted p =>
      subst hcase
      obtain ⟨hpoint, -⟩ := hwhole.point_eq hlower hupper hrelax hf
      cases hf with
      | accepted obj hsolves _ _ _ =>
          have hdom : obj ≤ w + m.controls.limits.gapAbs :=
            calc obj = r.objective := congrArg Point.objective hpoint
              _ ≤ w := hbest hsolves
              _ ≤ w + m.controls.limits.gapAbs := le_add_of_nonneg_right hgap
          exact .inr ⟨_, w, rfl, hw, hdom⟩

/-- **Every visit preserves the invariant.** -/
theorem Invariant.visit [EngineDefaults K] (h : m.Invariant s) (hm : m.Reachable)
    (hsound : m.RelaxesSoundly e) (hwhole : m.AcceptsWhole e) (hstack : s.stack = node :: rest)
    {turn : Nat} (hrelax : m.relax e turn node.lower node.upper = .ok r)
    (hf : Settles m.searchTarget s.incumbent node r f) :
    m.Invariant (s.visit rest ⟨node, r, f⟩) := by
  have hnode : node ∈ s.stack := hstack ▸ List.mem_cons_self
  obtain ⟨hlower, hupper⟩ := h.length_eq node hnode
  have hgap : 0 ≤ m.controls.limits.gapAbs := hm.limitsInRange.2
  refine ⟨fun child hchild => ?_, fun child hchild y hy => ?_, fun p hp => ?_,
    fun hconclusive y hy => ?_⟩
  · exact State.Sized.visit h.length_eq hstack child hchild
  -- the box is split at a value inside it, since the point of the relaxation lies in the box
  · refine within_visit h.within_root hstack (fun j hj => ?_) child hchild y hy
    subst hj
    cases hf with
    | branched _ hsolves _ _ => exact (hsound.feasible hlower hupper hrelax hsolves).within
  -- a new best point is feasible in its box, which is part of the first one
  · cases f with
    | accepted q =>
        obtain rfl : q = p := Option.some.inj hp
        obtain ⟨hpoint, hints⟩ := hwhole.point_eq hlower hupper hrelax hf
        cases hf with
        | accepted obj hsolves _ _ _ =>
            have hfeas := hsound.feasible hlower hupper hrelax hsolves
            have hroot := h.within_root node hnode r.x hfeas.within
            rw [hpoint]
            exact ⟨⟨⟨hfeas.length_eq, hfeas.holds, hroot⟩, hints⟩, objective_relax hrelax⟩
    | _ => exact h.incumbent p hp
  -- a point loses its cover only if the top node was that cover
  · obtain ⟨hbefore, hunresolved, hhalted⟩ := conclusive_of_visit hconclusive
    rcases h.covered hbefore y hy with ⟨open_, hopen, hin⟩ | ⟨p, w, hp, hw, hle⟩
    · rcases List.mem_cons.1 (hstack ▸ hopen) with rfl | hopen
      · exact covered_of_top hm.sound hsound hwhole hgap hlower hupper hrelax hf hunresolved
          hhalted hy hin
      · exact .inl ⟨open_, rest_subset_stack_visit hopen, hin⟩
    · have hpoint : ∀ q, f = .accepted q → q.objective = r.objective := by
        rintro q rfl
        rw [(hwhole.point_eq hlower hupper hrelax hf).1]
      obtain ⟨q, hq, hle⟩ := dominated_visit hgap hpoint hf hp hle
      exact .inr ⟨q, w, hq, hw, hle⟩

end Visit

/-! ### The end of a search -/

variable [IsStrictOrderedRing K]

theorem Invariant.of_explores [EngineDefaults K] (hm : m.Reachable) (hsound : m.RelaxesSoundly e)
    (hwhole : m.AcceptsWhole e) {expired : Nat → Bool} {n : Nat} {s : State K}
    {stopped : Option SearchStatus}
    (h : Explores m.searchTarget (m.nodeRelax e) expired n
      (.start m.effectiveBounds.1 m.effectiveBounds.2) stopped s) : m.Invariant s :=
  h.induction (P := m.Invariant)
    (fun hs hstack hrelax hf => hs.visit hm hsound hwhole hstack hrelax hf) m.invariant_start

omit [IsStrictOrderedRing K] in
/-- Nothing is forgotten on the way: a search that has nothing left undecided was conclusive. -/
theorem conclusive_of_explores {expired : Nat → Bool} {n : Nat} {s : State K}
    {stopped : Option SearchStatus}
    (h : Explores m.searchTarget (m.nodeRelax e) expired n
      (.start m.effectiveBounds.1 m.effectiveBounds.2) stopped s)
    (hproceeds : s.Proceeds) (hnone : s.unresolved = none) : s.Conclusive := by
  have hremembers : s.Remembers :=
    h.induction (P := State.Remembers) (fun hs _ _ _ => hs.visit _ _)
      (remembers_start _ _)
  exact fun v hv => ⟨hremembers hnone v hv, hproceeds v hv⟩

/-- When a search claims a proof, its best point covers every point that counts. -/
theorem dominates_of_verdict [EngineDefaults K] (hm : m.Reachable) (hsound : m.RelaxesSoundly e)
    (hwhole : m.AcceptsWhole e) {expired : Nat → Bool} {n : Nat} {s : State K}
    {stopped : Option SearchStatus}
    (h : Explores m.searchTarget (m.nodeRelax e) expired n
      (.start m.effectiveBounds.1 m.effectiveBounds.2) stopped s)
    (hv : verdict stopped s = .optimal ∨ verdict stopped s = .infeasible) {y : List K}
    (hy : m.IntegerFeasible y) :
    ∃ p w, s.incumbent = some p ∧ m.objective y = .ok w ∧
      p.objective ≤ w + m.controls.limits.gapAbs := by
  obtain ⟨hstack, hproceeds, hnone, -⟩ := (h.ended (proceeds_start _ _)).of_verdict hv
  have hconclusive := conclusive_of_explores h hproceeds hnone
  rcases (Invariant.of_explores hm hsound hwhole h).covered hconclusive y hy with hopen | hdom
  · simp [hstack] at hopen
  · exact hdom

/-! ### What is claimed -/

/-- What a search reports of the model is true. -/
structure Truthful (m : Model K) (sol : ModelSolution K) : Prop where
  /-- The point of an optimal solution is feasible and, up to the gap, as good as any other. -/
  optimal : sol.status = .mixed .optimal → ∃ p, sol.point = some p ∧ m.IntegerFeasible p.x ∧
    ∀ y, m.IntegerFeasible y → ∃ v w, m.objective p.x = .ok v ∧ m.objective y = .ok w ∧
      v ≤ w + m.controls.limits.gapAbs
  infeasible : sol.status = .mixed .infeasible → ∀ y, ¬ m.IntegerFeasible y
  /-- Whatever the status, a point that is returned is feasible and has the objective it says. -/
  point : ∀ p, sol.point = some p → m.IntegerFeasible p.x ∧ m.objective p.x = .ok p.objective

omit [IsStrictOrderedRing K] in
theorem fate_ok (hm : m.Sound) (incumbent : Option (Point K)) (node : Node K)
    {r : Relaxation K} (hx : r.status.Solves → r.x.length = m.nVar) :
    ∃ f, fate m.searchTarget incumbent node r = .ok f := by
  by_cases hsolves : r.status.Solves
  · rw [fate_of_solves hsolves]
    have hround : (roundAt m.integerIndices r.x).length = m.nVar := by
      rw [length_roundAt, hx hsolves]
    obtain ⟨v, hv⟩ := hm.objective_ok hround
    split_ifs
    · exact ⟨_, rfl⟩
    · cases mostFractional r.x m.searchTarget.integers m.searchTarget.limits.intTol with
      | some j => exact ⟨_, rfl⟩
      | none => exact ⟨_, by simp only [searchTarget, hv]; rfl⟩
  by_cases hinfeasible : r.status = .primalInfeasible
  · exact ⟨_, fate_of_infeasible hinfeasible⟩
  · rw [fate_of_undecided ⟨hsolves, hinfeasible⟩]
    split_ifs
    · exact ⟨_, rfl⟩
    · exact ⟨_, rfl⟩

theorem truthful_of_branchAndBound [EngineDefaults K] (hm : m.Reachable)
    (hsound : m.RelaxesSoundly e) (hwhole : m.AcceptsWhole e) {clock : Clock K}
    {sol : ModelSolution K} (h : m.branchAndBound e clock = .ok sol) : m.Truthful sol := by
  obtain ⟨expired, ⟨stopped, s⟩, -, hexplore, rfl⟩ := branchAndBound_eq_ok_iff.1 h
  have hexplores := explore_explores hexplore
  have hinv := Invariant.of_explores hm hsound hwhole hexplores
  have hended := hexplores.ended (proceeds_start _ _)
  refine ⟨fun hopt => ?_, fun hinf y hy => ?_, fun p hp => ?_⟩
  · have hv : verdict stopped s = .optimal := ModelStatus.mixed.inj hopt
    obtain ⟨p, hp⟩ := Option.isSome_iff_exists.1 ((hended.of_verdict (.inl hv)).2.2.2.1 hv)
    obtain ⟨hfeas, hobj⟩ := hinv.incumbent p hp
    refine ⟨p, by simp only [searchSolution, hv, keepsIncumbent, if_true, hp], hfeas,
      fun y hy => ?_⟩
    obtain ⟨q, w, hq, hw, hle⟩ := dominates_of_verdict hm hsound hwhole hexplores (.inl hv) hy
    obtain rfl : p = q := Option.some.inj (hp.symm.trans hq)
    exact ⟨p.objective, w, hobj, hw, hle⟩
  · have hv : verdict stopped s = .infeasible := ModelStatus.mixed.inj hinf
    -- a best point would have made the verdict an optimal one
    obtain ⟨p, w, hp, -, -⟩ := dominates_of_verdict hm hsound hwhole hexplores (.inr hv) hy
    have hopt := (hended.of_verdict (.inr hv)).2.2.2.2 (by simp [hp])
    rw [hv] at hopt
    cases hopt
  · exact hinv.incumbent p (incumbent_of_point hp)

omit [IsStrictOrderedRing K] in
/-- Where the engine has an answer for every box, the search has one. -/
theorem branchAndBound_ok (hm : m.Sound) (hanswers : m.Answers e)
    (hlength : ∀ turn lower upper r, lower.length = m.nVar → upper.length = m.nVar →
      m.relax e turn lower upper = .ok r → r.status.Solves → r.x.length = m.nVar)
    {clock : Clock K} {expired : Nat → Bool}
    (hclock : clock.expiry m.controls.settings.timeLimit = .ok expired) :
    ∃ sol, m.branchAndBound e clock = .ok sol := by
  have hvisits : ∀ {s : State K} {node : Node K} {rest : List (Node K)},
      s.Sized m.nVar → s.stack = node :: rest → ∃ r f, m.nodeRelax e s.log.length node = .ok r ∧
        fate m.searchTarget s.incumbent node r = .ok f := by
    intro s node rest hs hstack
    obtain ⟨hlower, hupper⟩ := hs node (by simp [hstack])
    obtain ⟨r, hr⟩ := hanswers s.log.length node.lower node.upper hlower hupper
    -- the objective is asked for only at points of relaxations, which are long enough
    obtain ⟨f, hf⟩ := fate_ok hm s.incumbent node (hlength _ _ _ r hlower hupper hr)
    exact ⟨r, f, hr, hf⟩
  obtain ⟨stop, hexplore⟩ := explore_ok expired (P := State.Sized m.nVar)
    (fun hs hstack _ _ => hs.visit hstack) hvisits m.controls.limits.maxNodes
    (sized_start m.length_effectiveBounds)
  exact ⟨_, branchAndBound_eq_ok_iff.2 ⟨expired, stop, hclock, hexplore, rfl⟩⟩

/-- **A search is as right as its relaxations.**  If the engine's verdicts are right, what the
search returns is true of the model, whenever the time or the nodes run out; and where the engine
has an answer for every box, the search has one. -/
theorem branchAndBound_correct [EngineDefaults K] {m : Model K} (hm : m.Reachable)
    {e : Engine K μ} (hsound : m.RelaxesSoundly e) (hwhole : m.AcceptsWhole e)
    (clock : Clock K) :
    (∀ sol, m.branchAndBound e clock = .ok sol → m.Truthful sol) ∧
      (m.Answers e → (∃ expired, clock.expiry m.controls.settings.timeLimit = .ok expired) →
        ∃ sol, m.branchAndBound e clock = .ok sol) :=
  ⟨fun _ h => truthful_of_branchAndBound hm hsound hwhole h,
    fun hanswers ⟨_, hclock⟩ => branchAndBound_ok hm.sound hanswers
      (fun _ _ _ _ hlower hupper hr hsolves => (hsound.feasible hlower hupper hr hsolves).length_eq)
      hclock⟩

/-! ### A small search -/

section Half

/-- Minimize `x` subject to `-2 x ≤ -1` and `0 ≤ x ≤ 10`, where `x` is whole. -/
def halfModel : Model ℚ :=
  (Call.addRows [([0], [-2])] .lessEqual [-1]).after
    ((Call.setKind 0 .integer).after
      ((Call.addVariables [1] [0] [10]).after (empty engineInfinity)))

/-- The answers to the relaxations that the search in `halfModel` meets: the root, the upper half
and the lower half. -/
def halfAnswer (b : List ℚ) : Answer ℚ :=
  if b = [-1, 10, 0] then ⟨.solved, [1 / 2], [1 / 2, 0, 0], 1⟩
  else if b = [-1, 10, -1] then ⟨.solved, [1], [0, 0, 1], 1⟩
  else if b = [-1, 0, 0] then ⟨.primalInfeasible, [0], [1, 2, 0], 1⟩
  else ⟨.maxIterations, [0], [0, 0, 0], 1⟩

def halfEngine : Engine ℚ Unit where
  prepare _ _ := .ok ()
  refresh _ _ := .ok none
  run _ l := .ok (halfAnswer l.b, ())

theorem halfModel_eq : halfModel =
    ⟨[⟨1, 0, 10, .integer⟩], [⟨[0], [-2], .lessEqual, -1⟩], none, .default, engineInfinity⟩ := rfl

theorem halfModel_reachable : halfModel.Reachable :=
  .call (.addRows [([0], [-2])] .lessEqual [-1])
    (.call (.setKind 0 .integer) (.call (.addVariables [1] [0] [10]) (.empty engineInfinity)))

/-- Three right-hand sides are those of the row, the upper and the lower bound. -/
theorem halfModel_bounds {l u v w : ℚ} (h : (halfModel.assemble [l] [u]).b = [-1, v, w]) :
    u = v ∧ l = -w := by
  have hb : (halfModel.assemble [l] [u]).b =
      -1 :: ((if u < engineInfinity then [u] else []) ++
        if -engineInfinity < l then [-l] else []) := by
    split_ifs with hu hl hl <;>
      simp [halfModel_eq, assemble, rowsOf, boundRows, Row.toConic, hu, hl]
  rw [hb] at h
  split_ifs at h with hu hl hl <;> simp at h
  obtain ⟨rfl, rfl⟩ := h
  exact ⟨rfl, by ring⟩

theorem halfModel_objective (x : ℚ) : halfModel.objective [x] = .ok x := by
  simp [halfModel_eq, objective, costs, pure, Except.pure, bind, Except.bind]

theorem halfModel_objective_mono {x t v w : ℚ} (hv : halfModel.objective [x] = .ok v)
    (hw : halfModel.objective [t] = .ok w) (h : x ≤ t) : v ≤ w := by
  rw [halfModel_objective] at hv hw
  cases hv
  cases hw
  exact h

/-- The relaxations are the three that the engine knows, or without a verdict. -/
theorem halfModel_relax {turn : Nat} {lower upper : List ℚ} {r : Relaxation ℚ}
    (hlower : lower.length = halfModel.nVar) (hupper : upper.length = halfModel.nVar)
    (h : halfModel.relax halfEngine turn lower upper = .ok r) :
    (lower = [0] ∧ upper = [10] ∧ r.status = .solved ∧ r.x = [1 / 2]) ∨
      (lower = [1] ∧ upper = [10] ∧ r.status = .solved ∧ r.x = [1]) ∨
      (lower = [0] ∧ upper = [0] ∧ r.status = .primalInfeasible) ∨ r.status.Undecided := by
  obtain ⟨l, rfl⟩ := List.length_eq_one_iff.1 hlower
  obtain ⟨u, rfl⟩ := List.length_eq_one_iff.1 hupper
  obtain ⟨loaded, a, hload, hrun, hstatus, hx, -⟩ := relax_eq_ok h
  cases hload
  cases hrun
  simp only [halfAnswer] at hstatus hx
  split_ifs at hstatus hx with h1 h2 h3
  · obtain ⟨rfl, rfl⟩ := halfModel_bounds h1
    exact .inl ⟨by norm_num, rfl, hstatus, hx⟩
  · obtain ⟨rfl, rfl⟩ := halfModel_bounds h2
    exact .inr (.inl ⟨by norm_num, rfl, hstatus, hx⟩)
  · obtain ⟨rfl, rfl⟩ := halfModel_bounds h3
    exact .inr (.inr (.inl ⟨by norm_num, rfl, hstatus⟩))
  · exact .inr (.inr (.inr (by simp [hstatus, Termination.Undecided, Termination.Solves])))

theorem halfModel_feasible {l u : ℚ} {y : List ℚ} :
    halfModel.Feasible [l] [u] y ↔ ∃ t, y = [t] ∧ -2 * t ≤ -1 ∧
      (u < engineInfinity → t ≤ u) ∧ (-engineInfinity < l → l ≤ t) := by
  constructor
  · rintro ⟨hlen, hrows, hle, hge⟩
    obtain ⟨t, rfl⟩ := List.length_eq_one_iff.1 hlen
    have hrow := hrows ⟨[0], [-2], .lessEqual, -1⟩ (by simp [halfModel_eq])
    have hrow' : -2 * t ≤ -1 := by simpa [Row.Holds, RowSense.Relates, Row.value] using hrow
    exact ⟨t, rfl, hrow', hle 0 u rfl, hge 0 l rfl⟩
  · rintro ⟨t, rfl, hrow, hle, hge⟩
    refine ⟨rfl, fun r hr => ?_, within_cons.2 ⟨hle, hge, within_nil⟩⟩
    obtain rfl : r = ⟨[0], [-2], .lessEqual, -1⟩ := by simpa [halfModel_eq] using hr
    simpa [Row.Holds, RowSense.Relates, Row.value] using hrow

theorem halfModel_relaxesSoundly : halfModel.RelaxesSoundly halfEngine where
  feasible := by
    intro turn lower upper r hlower hupper hr hsolves
    rcases halfModel_relax hlower hupper hr with
      ⟨rfl, rfl, -, hx⟩ | ⟨rfl, rfl, -, hx⟩ | ⟨-, -, h⟩ | h
    · rw [hx]
      exact halfModel_feasible.2 ⟨1 / 2, rfl, by norm_num⟩
    · rw [hx]
      exact halfModel_feasible.2 ⟨1, rfl, by norm_num⟩
    · simp [Termination.Solves, h] at hsolves
    · exact absurd hsolves h.1
  best := by
    intro turn lower upper r y v w hlower hupper hr hsolves hy hv hw
    have hinf : -(engineInfinity : ℚ) < 1 := by norm_num [engineInfinity_eq]
    rcases halfModel_relax hlower hupper hr with
      ⟨rfl, rfl, -, hx⟩ | ⟨rfl, rfl, -, hx⟩ | ⟨-, -, h⟩ | h
    · obtain ⟨t, rfl, hrow, -, -⟩ := halfModel_feasible.1 hy
      exact halfModel_objective_mono (hx ▸ hv) hw (by linarith)
    · obtain ⟨t, rfl, -, -, hge⟩ := halfModel_feasible.1 hy
      exact halfModel_objective_mono (hx ▸ hv) hw (hge hinf)
    · simp [Termination.Solves, h] at hsolves
    · exact absurd hsolves h.1
  infeasible := by
    intro turn lower upper r y hlower hupper hr hstatus hy
    have hinf : (0 : ℚ) < engineInfinity := by norm_num [engineInfinity_eq]
    rcases halfModel_relax hlower hupper hr with
      ⟨-, -, h, -⟩ | ⟨-, -, h, -⟩ | ⟨rfl, rfl, -⟩ | h
    · simp [h] at hstatus
    · simp [h] at hstatus
    · obtain ⟨t, rfl, hrow, hle, -⟩ := halfModel_feasible.1 hy
      have := hle hinf
      linarith
    · exact h.2 hstatus

theorem halfModel_acceptsWhole : halfModel.AcceptsWhole halfEngine := by
  intro turn lower upper r hlower hupper hr hsolves hmost j hj
  have hints : halfModel.integerIndices = [0] := rfl
  have hfar : mostFractional [1 / 2] halfModel.integerIndices halfModel.controls.limits.intTol ≠
      none := by
    decide +kernel
  rcases halfModel_relax hlower hupper hr with ⟨-, -, -, hx⟩ | ⟨-, -, -, hx⟩ | ⟨-, -, h⟩ | h
  · exact absurd (hx ▸ hmost) hfar
  · obtain rfl : j = 0 := by simpa [hints] using hj
    exact ⟨1, by simp [hx]⟩
  · simp [Termination.Solves, h] at hsolves
  · exact absurd hsolves h.1

/-- The search in `halfModel` visits the root and both halves, and is right. -/
theorem branchAndBound_correct_half : ∃ sol,
    halfModel.branchAndBound halfEngine ⟨fun _ => .ok fun _ => false, 0⟩ = .ok sol ∧
      sol.status = .mixed .optimal ∧ sol.nodes = some 3 ∧ halfModel.Truthful sol := by
  have hrun : (halfModel.branchAndBound halfEngine ⟨fun _ => .ok fun _ => false, 0⟩).toOption.map
      (fun sol => (sol.status, sol.nodes)) = some (.mixed .optimal, some 3) := by
    decide +kernel
  have hcorrect := (branchAndBound_correct halfModel_reachable halfModel_relaxesSoundly
    halfModel_acceptsWhole ⟨fun _ => .ok fun _ => false, 0⟩).1
  cases h : halfModel.branchAndBound halfEngine ⟨fun _ => .ok fun _ => false, 0⟩ with
  | error b => simp [h, Except.toOption] at hrun
  | ok sol =>
      rw [h] at hrun
      simp only [Except.toOption, Option.map_some, Option.some.injEq, Prod.mk.injEq] at hrun
      exact ⟨sol, rfl, hrun.1, hrun.2, hcorrect sol h⟩

end Half

end Model

end QuadProg
