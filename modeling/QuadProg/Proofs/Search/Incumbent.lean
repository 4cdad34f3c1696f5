import QuadProg.Proofs.Conic.Assembly
import QuadProg.Proofs.Search.Optimality
import QuadProg.Proofs.Search.Unfinished

/-!
# One best point after another

The best point so far is replaced when a relaxation promises a better one.  What is tested and what
is kept are not the same:

```text
tested   the objective of the relaxation      below that of the best point, by more than the gap
kept     the objective of the rounded point   above that of the relaxation, by the rounding
```

So a replacement lowers the objective by more than the gap, less what rounding adds
(`Undercuts.drifts`).  Where rounding adds no more than the gap, every replacement improves on the
point before, and the point that is returned is the best of all that were accepted.  There are two
reasons why rounding may add so little:

* the relaxations were whole already, and rounding did not move their points;
* the cost is linear, and the integral variables are cheap (`Model.roundingCost`).

Without such a reason the best point may get worse, and the search still ends with a proof of
optimality: see `branchAndBound_worsens`.
-/

namespace QuadProg

open Search

namespace Search

section Acceptances

variable {α : Type}

/-- The visits in which a point was accepted, each with its point, the last one first. -/
def acceptances (log : List (Visit α)) : List (Visit α × Point α) :=
  log.filterMap fun v => match v.fate with
    | .accepted p => some (v, p)
    | _ => none

theorem mem_acceptances {log : List (Visit α)} {v : Visit α} {p : Point α} :
    (v, p) ∈ acceptances log ↔ v ∈ log ∧ v.fate = .accepted p := by
  simp only [acceptances, List.mem_filterMap]
  constructor
  · rintro ⟨w, hw, h⟩
    cases hfate : w.fate <;> simp only [hfate, reduceCtorEq, Option.some.injEq, Prod.mk.injEq] at h
    obtain ⟨rfl, rfl⟩ := h
    exact ⟨hw, hfate⟩
  · rintro ⟨hv, hfate⟩
    exact ⟨v, hv, by rw [hfate]⟩

theorem map_acceptances (log : List (Visit α)) :
    (acceptances log).map (·.2) = acceptedPoints log := by
  rw [acceptances, acceptedPoints, List.map_filterMap]
  refine List.filterMap_congr fun v _ => ?_
  cases v.fate <;> rfl

theorem acceptances_cons_of_accepted {v : Visit α} {p : Point α} (h : v.fate = .accepted p)
    (log : List (Visit α)) : acceptances (v :: log) = (v, p) :: acceptances log := by
  rw [acceptances, List.filterMap_cons_some]
  · rfl
  · rw [h]

theorem acceptances_cons_of_ne {v : Visit α} (h : ∀ p, v.fate ≠ .accepted p)
    (log : List (Visit α)) : acceptances (v :: log) = acceptances log := by
  rw [acceptances, List.filterMap_cons_none]
  · rfl
  · cases hfate : v.fate with
    | accepted p => exact absurd hfate (h p)
    | _ => rfl

/-- The best point so far is the one of the last acceptance. -/
theorem State.Latest.eq_head {s : State α} (h : s.Latest) :
    s.incumbent = (acceptances s.log).head?.map (·.2) := by
  rw [h, ← map_acceptances, List.head?_map]

end Acceptances

variable {K : Type} [Field K] [LinearOrder K]

/-- Every relaxation that gave a point was better than the point before, by more than the gap. -/
def Undercuts (gap : K) (log : List (Visit K)) : Prop :=
  (acceptances log).IsChain fun a b => a.1.relaxation.objective < b.2.objective - gap

/-- To the objective of an accepted relaxation rounding adds no more than `δ`. -/
def RoundsWithin (δ : K) (log : List (Visit K)) : Prop :=
  ∀ v ∈ log, ∀ p, v.fate = .accepted p → p.objective ≤ v.relaxation.objective + δ

/-- At each replacement the objective rises by less than `δ`; the last point comes first. -/
def Drifts (δ : K) (points : List (Point K)) : Prop :=
  points.IsChain fun p q => p.objective < q.objective + δ

/-- Every accepted point is better than all before it, and none is better than the one returned. -/
structure EndsBest (log : List (Visit K)) (returned : Option (Point K)) : Prop where
  improves : (acceptedPoints log).Pairwise fun p q => p.objective < q.objective
  best : ∀ p, returned = some p → ∀ q ∈ acceptedPoints log, p.objective ≤ q.objective

section Chains

variable {gap δ : K} {log : List (Visit K)}

variable [IsStrictOrderedRing K]

theorem Undercuts.drifts (h : Undercuts gap log) (hround : RoundsWithin δ log) :
    Drifts (δ - gap) (acceptedPoints log) := by
  rw [Drifts, ← map_acceptances, List.isChain_map]
  refine List.IsChain.imp_of_mem_imp (fun a b ha _ hab => ?_) h
  obtain ⟨hv, hfate⟩ := mem_acceptances.1 ha
  calc a.2.objective
      ≤ a.1.relaxation.objective + δ := hround a.1 hv a.2 hfate
    _ < b.2.objective - gap + δ := add_lt_add_left hab δ
    _ = b.2.objective + (δ - gap) := by ring

/-- After `i` replacements the objective has risen by no more than `i` times the drift. -/
theorem Drifts.le_of_getElem? {points : List (Point K)} {p : Point K}
    (h : Drifts δ (p :: points)) {i : Nat} {q : Point K} (hq : (p :: points)[i]? = some q) :
    p.objective ≤ q.objective + i * δ := by
  induction i generalizing p points with
  | zero =>
      obtain rfl : p = q := by simpa using hq
      simp
  | succ i ih =>
      rw [List.getElem?_cons_succ] at hq
      cases points with
      | nil => simp at hq
      | cons r points =>
          obtain ⟨hpr, hrest⟩ := List.isChain_cons_cons.1 h
          calc p.objective
              ≤ r.objective + δ := hpr.le
            _ ≤ q.objective + i * δ + δ := add_le_add_left (ih hrest hq) δ
            _ = q.objective + (i + 1 : ℕ) * δ := by push_cast; ring

omit [IsStrictOrderedRing K] in
/-- Without a drift every point is better than all before it. -/
theorem Drifts.improves {points : List (Point K)} (h : Drifts 0 points) :
    points.Pairwise fun p q => p.objective < q.objective := by
  have hchain : (points.map (·.objective)).IsChain (· < ·) := by
    rw [List.isChain_map]
    exact h.imp fun p q hpq => by rwa [add_zero] at hpq
  exact List.pairwise_map.1 hchain.pairwise

end Chains

section Visit

variable [FloorRing K] {target : Target K} {s : State K} {node : Node K} {r : Relaxation K}
  {f : Fate K}

/-- **A visit keeps this**, since the best point that it is tested against is the last one
accepted. -/
theorem Undercuts.visit (h : Undercuts target.limits.gapAbs s.log) (hlatest : s.Latest)
    (rest : List (Node K)) (hf : Settles target s.incumbent node r f) :
    Undercuts target.limits.gapAbs (s.visit rest ⟨node, r, f⟩).log := by
  have hlog : (s.visit rest ⟨node, r, f⟩).log = ⟨node, r, f⟩ :: s.log := rfl
  rw [hlog, Undercuts]
  cases hf with
  | accepted objective _ himproves _ _ =>
      rw [acceptances_cons_of_accepted rfl]
      refine List.IsChain.cons h fun b hb => ?_
      have hbest : s.incumbent = some b.2 := by
        rw [hlatest.eq_head, Option.mem_def.1 hb]
        rfl
      exact not_le.1 (himproves b.2 hbest)
  | _ =>
      rw [acceptances_cons_of_ne (by simp)]
      exact h

/-- What rounding adds has to be known only of points that are whole up to the tolerance. -/
theorem RoundsWithin.of_settled {δ : K}
    (hsettled : ∀ v ∈ s.log, ∃ incumbent, Settles target incumbent v.node v.relaxation v.fate)
    (hround : ∀ v ∈ s.log, ∀ w,
      v.fate = .accepted ⟨roundAt target.integers v.relaxation.x, w⟩ →
      mostFractional v.relaxation.x target.integers target.limits.intTol = none →
      target.objective (roundAt target.integers v.relaxation.x) = .ok w →
      w ≤ v.relaxation.objective + δ) : RoundsWithin δ s.log := by
  intro v hv p hfate
  obtain ⟨incumbent, hsettles⟩ := hsettled v hv
  rw [hfate] at hsettles
  cases hsettles with
  | accepted w _ _ hnear hw => exact hround v hv w hfate hnear hw

end Visit

end Search

/-! ### What rounding adds -/

namespace Model

section Rounding

variable {K : Type} [Field K] [LinearOrder K] [FloorRing K]

/-- What rounding may add to a linear objective: up to the tolerance, for every unit of the costs of
the integral variables. -/
def roundingCost (m : Model K) : K :=
  m.controls.limits.intTol * (m.integerIndices.map fun j => |m.costs.getD j 0|).sum

theorem foldl_zipWith_mul (cs x : List K) :
    (cs.zipWith (· * ·) x).foldl (· + ·) 0 =
      ∑ j ∈ Finset.range cs.length, cs.getD j 0 * x.getD j 0 := by
  rw [← List.sum_eq_foldl]
  induction cs generalizing x with
  | nil => simp
  | cons c cs ih =>
      cases x with
      | nil => simp
      | cons v x =>
          rw [List.zipWith_cons_cons, List.sum_cons, ih, List.length_cons, Finset.sum_range_succ',
            add_comm]
          rfl

theorem linear_objective {m : Model K} (hlinear : m.quadratic = none) (x : List K) :
    m.objective x = .ok (∑ j ∈ Finset.range m.nVar, m.costs.getD j 0 * x.getD j 0) := by
  have hlength : m.costs.length = m.nVar := by simp [costs, nVar]
  rw [objective, foldl_zipWith_mul, hlength, hlinear]
  simp [pure, Except.pure, bind, Except.bind]

variable [IsStrictOrderedRing K]

/-- A point that is whole up to the tolerance is rounded at a bounded cost. -/
theorem objective_roundAt_le {m : Model K} (hlinear : m.quadratic = none) {x : List K} {v w : K}
    (hnear : mostFractional x m.integerIndices m.controls.limits.intTol = none)
    (hv : m.objective x = .ok v) (hw : m.objective (roundAt m.integerIndices x) = .ok w) :
    w ≤ v + m.roundingCost := by
  rw [linear_objective hlinear, Except.ok.injEq] at hv hw
  have hnodup : m.integerIndices.Nodup := m.integerIndices_sorted.imp fun h => h.ne
  have hsubset : m.integerIndices.toFinset ⊆ Finset.range m.nVar := by
    intro j hj
    exact Finset.mem_range.2 (lt_nVar_of_mem_integerIndices (List.mem_toFinset.1 hj))
  -- only the integral variables move
  have hmoved : w - v = ∑ j ∈ m.integerIndices.toFinset,
      m.costs.getD j 0 * (Scalar.round (x.getD j 0) - x.getD j 0) := by
    rw [← hv, ← hw, ← Finset.sum_sub_distrib, ← Finset.sum_subset hsubset]
    · refine Finset.sum_congr rfl fun j hj => ?_
      rw [coordinate_roundAt_of_mem (List.mem_toFinset.1 hj), mul_sub]
    · intro j _ hj
      rw [coordinate_roundAt_of_notMem (fun h => hj (List.mem_toFinset.2 h)), sub_self]
  have hbound : w - v ≤ m.roundingCost := by
    rw [hmoved, roundingCost, ← List.sum_toFinset _ hnodup, Finset.mul_sum]
    refine Finset.sum_le_sum fun j hj => ?_
    calc m.costs.getD j 0 * (Scalar.round (x.getD j 0) - x.getD j 0)
        ≤ |m.costs.getD j 0 * (Scalar.round (x.getD j 0) - x.getD j 0)| := le_abs_self _
      _ = |Scalar.round (x.getD j 0) - x.getD j 0| * |m.costs.getD j 0| := by
          rw [abs_mul, mul_comm]
      _ ≤ m.controls.limits.intTol * |m.costs.getD j 0| := by
          gcongr
          exact near_of_mostFractional hnear (List.mem_toFinset.1 hj)
  exact sub_le_iff_le_add'.1 hbound

end Rounding

/-! ### What is returned -/

section Returned

variable {K μ : Type} [Field K] [LinearOrder K] [FloorRing K] {m : Model K} {e : Engine K μ}

/-- Every relaxation that gave a point was whole at the integral variables. -/
def AcceptedWhole (m : Model K) (log : List (Visit K)) : Prop :=
  ∀ v ∈ log, ∀ p, v.fate = .accepted p → ∀ j ∈ m.integerIndices, IsWhole (v.relaxation.x.getD j 0)

theorem Searches.undercuts {clock : Clock K} {stopped : Option SearchStatus} {s : State K}
    (h : m.Searches e clock stopped s) : Undercuts m.controls.limits.gapAbs s.log := by
  obtain ⟨expired, -, hexplore⟩ := h
  have hboth := (explore_explores hexplore).induction
    (P := fun s => s.Latest ∧ Undercuts m.controls.limits.gapAbs s.log)
    (fun hs _ _ hf => ⟨hs.1.visit _ _, hs.2.visit hs.1 _ hf⟩) ⟨latest_start _ _, .nil⟩
  exact hboth.2

/-- The objective of a relaxation is the one of its point. -/
theorem Searches.objective_eq {clock : Clock K} {stopped : Option SearchStatus} {s : State K}
    (h : m.Searches e clock stopped s) :
    ∀ v ∈ s.log, m.objective v.relaxation.x = .ok v.relaxation.objective := by
  obtain ⟨expired, -, hexplore⟩ := h
  refine (explore_explores hexplore).induction
    (P := fun s => ∀ v ∈ s.log, m.objective v.relaxation.x = .ok v.relaxation.objective)
    (fun hs _ hrelax _ v hv => ?_) (fun v hv => by cases hv)
  rcases List.mem_cons.1 hv with rfl | hv
  · exact objective_relax hrelax
  · exact hs v hv

/-- A point that is returned is the last one accepted. -/
theorem Searches.head_of_point {clock : Clock K} {stopped : Option SearchStatus} {s : State K}
    (h : m.Searches e clock stopped s) {p : Point K}
    (hp : (searchSolution stopped s).point = some p) :
    (acceptedPoints s.log).head? = some p := by
  rw [← h.latest, incumbent_of_point hp]

variable [IsStrictOrderedRing K]

theorem Searches.roundsWithin_of_whole {clock : Clock K} {stopped : Option SearchStatus}
    {s : State K} (h : m.Searches e clock stopped s) (hwhole : m.AcceptedWhole s.log) :
    RoundsWithin 0 s.log := by
  refine .of_settled h.traced.1.settled fun v hv w hfate _ hw => ?_
  have hself : roundAt m.integerIndices v.relaxation.x = v.relaxation.x :=
    roundAt_eq_self (hwhole v hv _ hfate)
  have hw' : m.objective v.relaxation.x = .ok w := by
    rw [← hself]
    exact hw
  have heq : w = v.relaxation.objective := Except.ok.inj (hw'.symm.trans (h.objective_eq v hv))
  rw [heq, add_zero]

theorem Searches.roundsWithin_of_linear {clock : Clock K} {stopped : Option SearchStatus}
    {s : State K} (h : m.Searches e clock stopped s) (hlinear : m.quadratic = none) :
    RoundsWithin m.roundingCost s.log :=
  .of_settled h.traced.1.settled fun v hv _ _ hnear hw =>
    objective_roundAt_le hlinear hnear (h.objective_eq v hv) hw

theorem Searches.endsBest {clock : Clock K} {stopped : Option SearchStatus} {s : State K}
    (h : m.Searches e clock stopped s) {δ : K} (hround : RoundsWithin δ s.log)
    (hδ : δ ≤ m.controls.limits.gapAbs) : EndsBest s.log (searchSolution stopped s).point := by
  have hgap : RoundsWithin m.controls.limits.gapAbs s.log := by
    intro v hv p hfate
    exact (hround v hv p hfate).trans (add_le_add_right hδ _)
  have hdrifts := h.undercuts.drifts hgap
  rw [sub_self] at hdrifts
  refine ⟨hdrifts.improves, fun p hp q hq => ?_⟩
  obtain ⟨earlier, hcons⟩ := List.head?_eq_some_iff.1 (h.head_of_point hp)
  have hpairwise := hdrifts.improves
  rw [hcons] at hpairwise hq
  rcases List.mem_cons.1 hq with rfl | hq
  · exact le_rfl
  · exact (List.rel_of_pairwise_cons hpairwise hq).le

/-- **The best point of a search gets worse by rounding alone.**  Whatever the engine answers, a
relaxation that replaces the best point was better than it by more than the gap.  So where rounding
adds up to `δ` to the objectives, the point returned is behind an earlier one by no more than
`δ - gap` for every replacement since; and where `δ` is at most the gap, every replacement is an
improvement and the point returned is the best of all.  That is so if all points that were accepted
had been whole before they were rounded, and for all linear models whose integral variables are
cheap. -/
theorem branchAndBound_improves [EngineDefaults K] (hm : m.Reachable) {clock : Clock K}
    {sol : ModelSolution K} (h : m.branchAndBound e clock = .ok sol) :
    ∃ stopped s, m.Searches e clock stopped s ∧ sol = searchSolution stopped s ∧
      Undercuts m.controls.limits.gapAbs s.log ∧
      (∀ δ, RoundsWithin δ s.log → ∀ p, sol.point = some p → ∀ (i : Nat) (q : Point K),
        (acceptedPoints s.log)[i]? = some q →
        p.objective ≤ q.objective + i * (δ - m.controls.limits.gapAbs)) ∧
      (RoundsWithin m.controls.limits.gapAbs s.log → EndsBest s.log sol.point) ∧
      (m.AcceptedWhole s.log → EndsBest s.log sol.point) ∧
      (m.quadratic = none → m.roundingCost ≤ m.controls.limits.gapAbs →
        EndsBest s.log sol.point) := by
  obtain ⟨stopped, s, hsearches, rfl⟩ := exists_searches h
  refine ⟨stopped, s, hsearches, rfl, hsearches.undercuts, ?drift, ?within, ?whole, ?linear⟩
  case drift =>
    intro δ hround p hp i q hq
    obtain ⟨earlier, hcons⟩ := List.head?_eq_some_iff.1 (hsearches.head_of_point hp)
    have hdrifts := hsearches.undercuts.drifts hround
    rw [hcons] at hdrifts hq
    exact hdrifts.le_of_getElem? hq
  case within => exact fun hround => hsearches.endsBest hround le_rfl
  case whole =>
    exact fun hwhole => hsearches.endsBest (hsearches.roundsWithin_of_whole hwhole)
      hm.limitsInRange.2
  case linear =>
    exact fun hlinear hcheap => hsearches.endsBest (hsearches.roundsWithin_of_linear hlinear) hcheap

end Returned

/-! ### Engines that know the answers -/

section Book

/-- A box and a best point in it. -/
structure Page where
  lower : List ℚ
  upper : List ℚ
  x : List ℚ

/-- The page is right about the model. -/
structure Page.Sound (page : Page) (m : Model ℚ) : Prop where
  length_lower : page.lower.length = m.nVar
  length_upper : page.upper.length = m.nVar
  feasible : m.Feasible page.lower page.upper page.x
  best : ∀ {y v w}, m.Feasible page.lower page.upper y → m.objective page.x = .ok v →
    m.objective y = .ok w → v ≤ w

/-- The problem on a page is the one that was loaded. -/
def Page.Matches (page : Page) (m : Model ℚ) (l : Loaded ℚ Unit) : Prop :=
  l.cones = (m.assemble page.lower page.upper).cones ∧
    l.a = (m.assemble page.lower page.upper).a ∧ l.b = (m.assemble page.lower page.upper).b

instance (page : Page) (m : Model ℚ) (l : Loaded ℚ Unit) : Decidable (page.Matches m l) :=
  inferInstanceAs (Decidable (_ ∧ _ ∧ _))

/-- An engine that looks the problem up, and gives up where it is not found. -/
def bookEngine (m : Model ℚ) (pages : List Page) : Engine ℚ Unit where
  prepare _ _ := .ok ()
  refresh _ _ := .ok none
  run _ l := .ok (match pages.find? (·.Matches m l) with
    | some page => ⟨.solved, page.x, [], 0⟩
    | none => ⟨.unsolved, [], [], 0⟩, ())

/-- The feasible points of a box can be told from the problem that is loaded for it. -/
theorem feasible_congr {m : Model ℚ} (hm : m.Sound) {lower upper lower' upper' : List ℚ}
    (hlower : lower.length = m.nVar) (hupper : upper.length = m.nVar)
    (hlower' : lower'.length = m.nVar) (hupper' : upper'.length = m.nVar)
    (hcones : (m.assemble lower upper).cones = (m.assemble lower' upper').cones)
    (ha : (m.assemble lower upper).a = (m.assemble lower' upper').a)
    (hb : (m.assemble lower upper).b = (m.assemble lower' upper').b) {y : List ℚ} :
    m.Feasible lower upper y ↔ m.Feasible lower' upper' y := by
  have hslack : ∀ s, (m.assemble lower upper).Slack y s ↔ (m.assemble lower' upper').Slack y s := by
    intro s
    constructor
    · rintro ⟨hlength, hsum⟩
      exact ⟨hb ▸ hlength, ha ▸ hb ▸ hsum⟩
    · rintro ⟨hlength, hsum⟩
      exact ⟨hb ▸ hlength, ha ▸ hb ▸ hsum⟩
  have hexists (hy : y.length = m.nVar) :
      m.Feasible lower upper y ↔ m.Feasible lower' upper' y := by
    rw [← exists_slack_iff hm hlower hupper hy, ← exists_slack_iff hm hlower' hupper' hy, hcones]
    exact exists_congr fun s => and_congr_right fun _ => hslack s
  exact ⟨fun h => (hexists h.length_eq).1 h, fun h => (hexists h.length_eq).2 h⟩

theorem relax_bookEngine {m : Model ℚ} (hm : m.Sound) {pages : List Page}
    (hpages : ∀ page ∈ pages, page.Sound m) {turn : Nat} {lower upper : List ℚ}
    {r : Relaxation ℚ} (hlower : lower.length = m.nVar) (hupper : upper.length = m.nVar)
    (h : m.relax (bookEngine m pages) turn lower upper = .ok r) :
    r.status = .unsolved ∨ r.status = .solved ∧ ∃ page : Page, page.Sound m ∧ r.x = page.x ∧
      ∀ y, m.Feasible lower upper y ↔ m.Feasible page.lower page.upper y := by
  obtain ⟨loaded, a, hload, hrun, hstatus, hx, -⟩ := relax_eq_ok h
  cases hload
  cases hrun
  dsimp only at hstatus hx
  split at hstatus
  · next page hfind =>
      have hpage := hpages page (List.mem_of_find?_eq_some hfind)
      have hmatches := List.find?_some hfind
      simp only [decide_eq_true_eq] at hmatches
      obtain ⟨hcones, ha, hb⟩ := hmatches
      rw [hfind] at hx
      exact .inr ⟨hstatus, page, hpage, hx, fun y => feasible_congr hm hlower hupper
        hpage.length_lower hpage.length_upper hcones ha hb⟩
  · exact .inl hstatus

theorem relaxesSoundly_bookEngine {m : Model ℚ} (hm : m.Sound) {pages : List Page}
    (hpages : ∀ page ∈ pages, page.Sound m) : m.RelaxesSoundly (bookEngine m pages) where
  feasible := by
    intro turn lower upper r hlower hupper hr hsolves
    rcases relax_bookEngine hm hpages hlower hupper hr with h | ⟨-, page, hpage, hx, hiff⟩
    · simp [Termination.Solves, h] at hsolves
    · rw [hx]
      exact (hiff _).2 hpage.feasible
  best := by
    intro turn lower upper r y v w hlower hupper hr hsolves hy hv hw
    rcases relax_bookEngine hm hpages hlower hupper hr with h | ⟨-, page, hpage, hx, hiff⟩
    · simp [Termination.Solves, h] at hsolves
    · rw [hx] at hv
      exact hpage.best ((hiff y).1 hy) hv hw
  infeasible := by
    intro turn lower upper r y hlower hupper hr hstatus
    rcases relax_bookEngine hm hpages hlower hupper hr with h | ⟨h, -⟩
    · rw [h] at hstatus
      cases hstatus
    · rw [h] at hstatus
      cases hstatus

/-! ### Rounding a steep cost -/

/-- Minimize `c x - 10⁶ y` subject to `10⁶ y ≤ 2 x` and `14 x + 10⁷ y ≤ 17`, where `x` is whole and
`y` is of the given kind.  Without wholeness the optimum is at `x = 1/2`. -/
def steepModel (c : ℚ) (kind : VarKind) : Model ℚ :=
  (Call.setKind 1 kind).after
    ((Call.setKind 0 .integer).after
      ((Call.addRows [([0, 1], [-2, 10 ^ 6]), ([0, 1], [14, 10 ^ 7])] .lessEqual [0, 17]).after
        ((Call.addVariables [c, -10 ^ 6] [-engineInfinity, -engineInfinity]
          [engineInfinity, engineInfinity]).after (empty engineInfinity))))

/-- The first box and its halves. -/
def steepPages : List Page :=
  [⟨[-engineInfinity, -engineInfinity], [engineInfinity, engineInfinity], [1 / 2, 1 / 10 ^ 6]⟩,
    ⟨[-engineInfinity, -engineInfinity], [0, engineInfinity], [0, 0]⟩,
    ⟨[1, -engineInfinity], [engineInfinity, engineInfinity], [1, 3 / 10 ^ 7]⟩]

def steepEngine (c : ℚ) (kind : VarKind) : Engine ℚ Unit :=
  bookEngine (steepModel c kind) steepPages

theorem steepModel_eq (c : ℚ) (kind : VarKind) : steepModel c kind =
    ⟨[⟨c, -engineInfinity, engineInfinity, .integer⟩,
        ⟨-10 ^ 6, -engineInfinity, engineInfinity, kind⟩],
      [⟨[0, 1], [-2, 10 ^ 6], .lessEqual, 0⟩, ⟨[0, 1], [14, 10 ^ 7], .lessEqual, 17⟩],
      none, .default, engineInfinity⟩ := rfl

theorem steepModel_reachable (c : ℚ) (kind : VarKind) : (steepModel c kind).Reachable :=
  .call (.setKind 1 kind) (.call (.setKind 0 .integer)
    (.call (.addRows [([0, 1], [-2, 10 ^ 6]), ([0, 1], [14, 10 ^ 7])] .lessEqual [0, 17])
      (.call (.addVariables [c, -10 ^ 6] [-engineInfinity, -engineInfinity]
        [engineInfinity, engineInfinity]) (.empty engineInfinity))))

theorem steepModel_objective (c : ℚ) (kind : VarKind) (x y : ℚ) :
    (steepModel c kind).objective [x, y] = .ok (c * x - 10 ^ 6 * y) := by
  rw [linear_objective rfl]
  simp [steepModel_eq, nVar, costs, Finset.sum_range_succ, sub_eq_add_neg]

theorem steepModel_feasible {c : ℚ} {kind : VarKind} {l u : ℚ} {p : List ℚ} :
    (steepModel c kind).Feasible [l, -engineInfinity] [u, engineInfinity] p ↔
      ∃ x y, p = [x, y] ∧ 10 ^ 6 * y ≤ 2 * x ∧ 14 * x + 10 ^ 7 * y ≤ 17 ∧
        (u < engineInfinity → x ≤ u) ∧ (-engineInfinity < l → l ≤ x) := by
  have hrows : ∀ x y : ℚ, (∀ r ∈ (steepModel c kind).rows, r.Holds [x, y]) ↔
      10 ^ 6 * y ≤ 2 * x ∧ 14 * x + 10 ^ 7 * y ≤ 17 := by
    intro x y
    simp [steepModel_eq, Row.Holds, RowSense.Relates, Row.value]
  constructor
  · rintro ⟨hlength, hholds, hle, hge⟩
    obtain ⟨x, y, rfl⟩ := List.length_eq_two.1 hlength
    obtain ⟨hup, hdown⟩ := (hrows x y).1 hholds
    exact ⟨x, y, rfl, hup, hdown, hle 0 u rfl, hge 0 l rfl⟩
  · rintro ⟨x, y, rfl, hup, hdown, hle, hge⟩
    refine ⟨rfl, (hrows x y).2 ⟨hup, hdown⟩, within_cons.2 ⟨hle, hge, ?_⟩⟩
    exact within_cons_unbounded.2 within_nil

theorem steepPage_sound {c : ℚ} {kind : VarKind} {l u x y : ℚ}
    (hfeasible : (steepModel c kind).Feasible [l, -engineInfinity] [u, engineInfinity] [x, y])
    (hbest : ∀ x' y', 10 ^ 6 * y' ≤ 2 * x' → 14 * x' + 10 ^ 7 * y' ≤ 17 →
      (u < engineInfinity → x' ≤ u) → (-engineInfinity < l → l ≤ x') →
      c * x - 10 ^ 6 * y ≤ c * x' - 10 ^ 6 * y') :
    Page.Sound ⟨[l, -engineInfinity], [u, engineInfinity], [x, y]⟩ (steepModel c kind) where
  length_lower := rfl
  length_upper := rfl
  feasible := hfeasible
  best := by
    intro p v w hp hv hw
    obtain ⟨x', y', rfl, hup, hdown, hle, hge⟩ := steepModel_feasible.1 hp
    rw [steepModel_objective] at hv hw
    cases hv
    cases hw
    exact hbest x' y' hup hdown hle hge

theorem steepEngine_sound {c : ℚ} (h0 : 0 ≤ c) (h2 : c ≤ 2) (kind : VarKind) :
    (steepModel c kind).RelaxesSoundly (steepEngine c kind) := by
  have hinf : (engineInfinity : ℚ) = 10 ^ 20 := engineInfinity_eq
  have hreachable := steepModel_reachable c kind
  refine relaxesSoundly_bookEngine hreachable.sound fun page hpage => ?_
  obtain rfl | rfl | rfl : page = _ ∨ page = _ ∨ page = _ := by simpa [steepPages] using hpage
  -- where both rows are tight
  · refine steepPage_sound (steepModel_feasible.2 ⟨_, _, rfl, by norm_num⟩) ?_
    intro x y hup hdown _ _
    have hfirst : 0 ≤ (14 + 10 * c) * (2 * x - 10 ^ 6 * y) :=
      mul_nonneg (by linarith) (sub_nonneg.2 hup)
    have hsecond : 0 ≤ (2 - c) * (17 - (14 * x + 10 ^ 7 * y)) :=
      mul_nonneg (sub_nonneg.2 h2) (sub_nonneg.2 hdown)
    linarith
  -- where the first row meets the new upper bound
  · refine steepPage_sound (steepModel_feasible.2 ⟨_, _, rfl, by norm_num⟩) ?_
    intro x y hup _ hle _
    have hx : x ≤ 0 := hle (by rw [hinf]; norm_num)
    have hbound : 0 ≤ (2 - c) * (0 - x) := mul_nonneg (sub_nonneg.2 h2) (sub_nonneg.2 hx)
    linarith
  -- where the second row meets the new lower bound
  · refine steepPage_sound (steepModel_feasible.2 ⟨_, _, rfl, by norm_num⟩) ?_
    intro x y _ hdown _ hge
    have hx : 1 ≤ x := hge (by rw [hinf]; norm_num)
    have hbound : 0 ≤ c * (x - 1) := mul_nonneg h0 (sub_nonneg.2 hx)
    linarith

/-- The verdict on the steep model, with the points accepted on the way. -/
def steepReport (c : ℚ) (kind : VarKind) : Option (SearchStatus × List (List ℚ × ℚ)) :=
  (explore (steepModel c kind).searchTarget ((steepModel c kind).nodeRelax (steepEngine c kind))
    (fun _ => false) (steepModel c kind).controls.limits.maxNodes
    (.start (steepModel c kind).effectiveBounds.1
      (steepModel c kind).effectiveBounds.2)).toOption.map fun stop =>
        (verdict stop.1 stop.2, (acceptedPoints stop.2.log).map fun p => (p.x, p.objective))

theorem searches_of_steepReport {c : ℚ} {kind : VarKind} {v : SearchStatus}
    {seen : List (List ℚ × ℚ)} (h : steepReport c kind = some (v, seen)) :
    ∃ stopped s, (steepModel c kind).Searches (steepEngine c kind) noClock stopped s ∧
      (steepModel c kind).branchAndBound (steepEngine c kind) noClock =
        .ok (searchSolution stopped s) ∧
      verdict stopped s = v ∧ acceptedPoints s.log = seen.map fun a => ⟨a.1, a.2⟩ := by
  obtain ⟨stopped, s, hsearches, hrun, hseen⟩ := searches_of_explore noClock rfl h
  obtain ⟨hv, hpoints⟩ := Prod.mk.inj hseen
  refine ⟨stopped, s, hsearches, hrun, hv, ?_⟩
  rw [← hpoints, List.map_map]
  exact (List.map_id _).symm

/-- Where the costs are on the other variable, two points are accepted, the better one last. -/
theorem branchAndBound_improves_steep :
    ∃ sol stopped s, (steepModel 0 .continuous).branchAndBound (steepEngine 0 .continuous)
        noClock = .ok sol ∧
      (steepModel 0 .continuous).Searches (steepEngine 0 .continuous) noClock stopped s ∧
      acceptedPoints s.log = [⟨[1, 3 / 10 ^ 7], -3 / 10⟩, ⟨[0, 0], 0⟩] ∧
      EndsBest s.log sol.point := by
  have hreport : steepReport 0 .continuous =
      some (.optimal, [([1, 3 / 10 ^ 7], -3 / 10), ([0, 0], 0)]) := by
    decide +kernel
  obtain ⟨stopped, s, hsearches, hok, -, hpoints⟩ := searches_of_steepReport hreport
  obtain ⟨stopped', s', hsearches', -, -, -, -, -, hlinear⟩ :=
    branchAndBound_improves (steepModel_reachable 0 .continuous) hok
  obtain ⟨rfl, rfl⟩ := hsearches.unique hsearches'
  have hcheap : (steepModel 0 .continuous).roundingCost ≤
      (steepModel 0 .continuous).controls.limits.gapAbs := by
    decide +kernel
  exact ⟨_, stopped, s, hok, hsearches, hpoints, hlinear rfl hcheap⟩

/-- Although every relaxation is solved exactly, the search gives up a point for a worse one and
claims that this is the best.  The relaxation at `(1, 3 · 10⁻⁷)` has the objective `-1/5`, but its
second coordinate is whole up to the tolerance, and rounded to zero it costs `3/10` more. -/
theorem branchAndBound_worsens :
    (steepModel (1 / 10) .integer).Reachable ∧
    (steepModel (1 / 10) .integer).RelaxesSoundly (steepEngine (1 / 10) .integer) ∧
    (steepModel (1 / 10) .integer).IntegerFeasible [0, 0] ∧
    ∃ sol stopped s, (steepModel (1 / 10) .integer).branchAndBound
        (steepEngine (1 / 10) .integer) noClock = .ok sol ∧
      (steepModel (1 / 10) .integer).Searches (steepEngine (1 / 10) .integer) noClock stopped s ∧
      sol.status = .mixed .optimal ∧ sol.point = some ⟨[1, 0], 1 / 10⟩ ∧
      acceptedPoints s.log = [⟨[1, 0], 1 / 10⟩, ⟨[0, 0], 0⟩] ∧ ¬ EndsBest s.log sol.point := by
  have hreport : steepReport (1 / 10) .integer =
      some (.optimal, [([1, 0], 1 / 10), ([0, 0], 0)]) := by
    decide +kernel
  obtain ⟨stopped, s, hsearches, hok, hverdict, hpoints⟩ := searches_of_steepReport hreport
  have hpoint : (searchSolution stopped s).point = some ⟨[1, 0], 1 / 10⟩ := by
    simp only [searchSolution, hverdict, keepsIncumbent, if_true]
    rw [hsearches.latest, hpoints]
    rfl
  have hfeasible : (steepModel (1 / 10) .integer).IntegerFeasible [0, 0] := by
    have hzero : ∀ j, ([0, 0] : List ℚ).getD j 0 = 0 := by
      intro j
      rcases j with _ | _ | j <;> rfl
    refine ⟨steepModel_feasible.2 ⟨0, 0, rfl, by norm_num, by norm_num, fun h => ?_, fun h => ?_⟩,
      fun j _ => ⟨0, by rw [hzero, Int.cast_zero]⟩⟩
    -- neither variable has a finite bound
    · exact absurd h (lt_irrefl engineInfinity)
    · exact absurd h (lt_irrefl (-engineInfinity))
  refine ⟨steepModel_reachable _ _, steepEngine_sound (by norm_num) (by norm_num) _, hfeasible,
    _, stopped, s, hok, hsearches, by simp [searchSolution, hverdict], hpoint, hpoints, ?_⟩
  intro hends
  have hle := hends.best _ hpoint ⟨[0, 0], 0⟩ (by rw [hpoints]; simp)
  norm_num at hle

end Book

end Model

end QuadProg
