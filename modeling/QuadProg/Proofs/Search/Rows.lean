import QuadProg.Proofs.Search.Incumbent

/-!
# Rows at rounded points

The engine is trusted to find points that satisfy rows and bounds.  What a search returns is such a
point after rounding, and nobody looks at the rows again.  Rounding moves an integral variable by
the *snap* at most, the smaller one of the tolerance and a half, and every other variable not at
all.  So a row moves by no more than the snap times its *leverage*, the sum of the magnitudes of its
coefficients at integral variables:

```text
leverage 0                          the row holds
whole row, moved by less than one   the row holds, for whole numbers compare up to less than one
any other row                       the row holds up to the snap times its leverage
a bound of a variable not rounded   holds
a whole bound                       holds, because rounding passes no whole number
any other bound                     holds up to the snap
```

A model all of whose rows and bounds are of the first kinds *rounds safely*: what is returned is
feasible.  There is no such reason where a large coefficient couples an integral variable with a
continuous one, and then even a model without any feasible point may be reported as solved: see
`branchAndBound_breaksRow`.
-/

namespace QuadProg

open Search

variable {K μ : Type} [Field K] [LinearOrder K]

/-! ### Rows up to a distance -/

/-- The two sides of a row compare as its sense demands, up to `δ`. -/
def RowSense.RelatesUpTo (sense : RowSense) (δ left right : K) : Prop :=
  match sense with
  | .equal => |left - right| ≤ δ
  | .lessEqual => left ≤ right + δ

def Row.HoldsUpTo (r : Row K) (δ : K) (x : List K) : Prop :=
  r.sense.RelatesUpTo δ (r.value x) r.rhs

/-- How far the left-hand side moves at most when every integral variable moves by one. -/
def Row.leverage (integers : List Nat) (r : Row K) : K :=
  ((r.cols.zip r.vals).map fun e => if e.1 ∈ integers then |e.2| else 0).sum

/-- Both sides are whole wherever the integral variables are. -/
structure Row.Whole (integers : List Nat) (r : Row K) : Prop where
  coefficient : ∀ e ∈ r.cols.zip r.vals, e.2 = 0 ∨ e.1 ∈ integers ∧ IsWhole e.2
  rhs : IsWhole r.rhs

/-- Moving the integral variables by up to `δ`, to whole numbers, cannot break the row. -/
def Row.Rigid (integers : List Nat) (δ : K) (r : Row K) : Prop :=
  r.leverage integers = 0 ∨ r.Whole integers ∧ δ * r.leverage integers < 1

namespace RowSense

variable [IsStrictOrderedRing K] {sense : RowSense} {δ left right : K}

theorem RelatesUpTo.of_zero (h : sense.RelatesUpTo 0 left right) : sense.Relates left right := by
  cases sense with
  | equal =>
      have hzero : |left - right| ≤ 0 := h
      exact sub_eq_zero.1 (abs_nonpos_iff.1 hzero)
  | lessEqual =>
      have hle : left ≤ right + 0 := h
      rwa [add_zero] at hle

theorem Relates.of_moved (h : sense.Relates left right) {moved : K} (hmoved : |moved - left| ≤ δ) :
    sense.RelatesUpTo δ moved right := by
  cases sense with
  | equal =>
      obtain rfl : left = right := h
      exact hmoved
  | lessEqual =>
      have hle : left ≤ right := h
      show moved ≤ right + δ
      calc moved
          ≤ left + δ := sub_le_iff_le_add'.1 (abs_le.1 hmoved).2
        _ ≤ right + δ := add_le_add_left hle δ

/-- Whole numbers that differ by less than one are equal, and they compare likewise. -/
theorem RelatesUpTo.of_whole (h : sense.RelatesUpTo δ left right) (hδ : δ < 1)
    (hleft : IsWhole left) (hright : IsWhole right) : sense.Relates left right := by
  obtain ⟨a, rfl⟩ := hleft
  obtain ⟨b, rfl⟩ := hright
  cases sense with
  | equal =>
      have hlt : |(a : K) - b| < 1 := lt_of_le_of_lt h hδ
      have habs : |a - b| < 1 := by exact_mod_cast hlt
      show (a : K) = b
      rw [sub_eq_zero.1 (Int.abs_lt_one_iff.1 habs)]
  | lessEqual =>
      have hlt : (a : K) < b + 1 := lt_of_le_of_lt h (add_lt_add_right hδ _)
      have hint : a < b + 1 := by exact_mod_cast hlt
      show (a : K) ≤ b
      exact_mod_cast Int.lt_add_one_iff.1 hint

end RowSense

omit [LinearOrder K] in
/-- The whole numbers are closed under sums and products. -/
theorem isWhole_iff_mem {x : K} : IsWhole x ↔ x ∈ (Int.castRingHom K).range := by
  simp [IsWhole, eq_comm]

omit [LinearOrder K] in
theorem Row.Whole.value {integers : List Nat} {r : Row K} (h : r.Whole integers) {x : List K}
    (hx : ∀ j ∈ integers, IsWhole (x.getD j 0)) : IsWhole (r.value x) := by
  rw [isWhole_iff_mem, Row.value]
  refine list_sum_mem fun term hterm => ?_
  obtain ⟨e, he, rfl⟩ := List.mem_map.1 hterm
  rcases h.coefficient e he with hzero | ⟨hj, hcoefficient⟩
  · rw [hzero, zero_mul]
    exact zero_mem _
  · exact mul_mem (isWhole_iff_mem.1 hcoefficient) (isWhole_iff_mem.1 (hx e.1 hj))

/-! ### What rounding does to a row -/

section Rounding

variable [FloorRing K] [IsStrictOrderedRing K]

/-- Sums move by no more than their terms do. -/
theorem abs_sum_sub_le {integers : List Nat} {δ : K} {x y : List K}
    (hmoved : ∀ j ∈ integers, |y.getD j 0 - x.getD j 0| ≤ δ)
    (hkept : ∀ j ∉ integers, y.getD j 0 = x.getD j 0) (es : List (Nat × K)) :
    |(es.map fun e => e.2 * y.getD e.1 0).sum - (es.map fun e => e.2 * x.getD e.1 0).sum| ≤
      δ * (es.map fun e => if e.1 ∈ integers then |e.2| else 0).sum := by
  induction es with
  | nil => simp
  | cons e es ih =>
      have hterm : |e.2 * y.getD e.1 0 - e.2 * x.getD e.1 0| ≤
          δ * if e.1 ∈ integers then |e.2| else 0 := by
        rw [← mul_sub, abs_mul]
        split_ifs with hj
        · rw [mul_comm]
          exact mul_le_mul_of_nonneg_right (hmoved e.1 hj) (abs_nonneg _)
        · rw [hkept e.1 hj, sub_self, abs_zero, mul_zero, mul_zero]
      simp only [List.map_cons, List.sum_cons]
      rw [add_sub_add_comm, mul_add]
      exact (abs_add_le _ _).trans (add_le_add hterm ih)

/-- A row that holds at a point holds at the rounded point, up to what rounding moves. -/
theorem Row.Holds.roundAt {r : Row K} {x : List K} (h : r.Holds x) {integers : List Nat} {δ : K}
    (hnear : ∀ j ∈ integers, |Scalar.round (x.getD j 0) - x.getD j 0| ≤ δ) :
    r.HoldsUpTo (δ * r.leverage integers) (roundAt integers x) := by
  have hmoved : |r.value (Search.roundAt integers x) - r.value x| ≤ δ * r.leverage integers := by
    refine abs_sum_sub_le (fun j hj => ?_) (fun j hj => ?_) (r.cols.zip r.vals)
    · rw [coordinate_roundAt_of_mem hj]
      exact hnear j hj
    · exact coordinate_roundAt_of_notMem hj x
  exact RowSense.Relates.of_moved h hmoved

theorem isWhole_coordinate_roundAt {integers : List Nat} {j : Nat} (hj : j ∈ integers)
    (x : List K) : IsWhole ((roundAt integers x).getD j 0) := by
  rw [coordinate_roundAt_of_mem hj]
  exact isWhole_round _

theorem Row.Rigid.holds_roundAt {integers : List Nat} {δ : K} {r : Row K}
    (hr : r.Rigid integers δ) {x : List K} (h : r.Holds x)
    (hnear : ∀ j ∈ integers, |Scalar.round (x.getD j 0) - x.getD j 0| ≤ δ) :
    r.Holds (roundAt integers x) := by
  have hupTo := h.roundAt hnear
  rcases hr with hfree | ⟨hwhole, hsmall⟩
  · rw [hfree, mul_zero] at hupTo
    exact RowSense.RelatesUpTo.of_zero hupTo
  · have hvalue := hwhole.value fun j hj => isWhole_coordinate_roundAt hj x
    exact RowSense.RelatesUpTo.of_whole hupTo hsmall hvalue hwhole.rhs

end Rounding

/-! ### What is returned -/

namespace Model

section Returned

variable [FloorRing K] {m : Model K} {e : Engine K μ}

/-- What the engine calls solved is feasible in its box. -/
def RelaxesFeasibly (m : Model K) (e : Engine K μ) : Prop :=
  ∀ turn lower upper r, lower.length = m.nVar → upper.length = m.nVar →
    m.relax e turn lower upper = .ok r → r.status.Solves → m.Feasible lower upper r.x

theorem RelaxesSoundly.relaxesFeasibly (h : m.RelaxesSoundly e) : m.RelaxesFeasibly e :=
  fun _ _ _ _ hlower hupper hrelax hsolves => h.feasible hlower hupper hrelax hsolves

/-- How far rounding moves an integral variable at most. -/
def snap (m : Model K) : K := min m.controls.limits.intTol 0.5

/-- Every row and every finite bound stays satisfied when points are rounded. -/
structure RoundsSafely (m : Model K) : Prop where
  rigid : ∀ r ∈ m.rows, r.Rigid m.integerIndices m.snap
  upper : ∀ j ∈ m.integerIndices, ∀ u, m.effectiveBounds.2[j]? = some u → u < m.infinity →
    IsWhole u
  lower : ∀ j ∈ m.integerIndices, ∀ l, m.effectiveBounds.1[j]? = some l → -m.infinity < l →
    IsWhole l

/-- The point is whole where it has to be, and satisfies rows and bounds up to the snap. -/
structure FeasibleUpToSnap (m : Model K) (x : List K) : Prop where
  length_eq : x.length = m.nVar
  whole : ∀ j ∈ m.integerIndices, IsWhole (x.getD j 0)
  holdsUpTo : ∀ r ∈ m.rows, r.HoldsUpTo (m.snap * r.leverage m.integerIndices) x
  holds : ∀ r ∈ m.rows, r.Rigid m.integerIndices m.snap → r.Holds x
  le_upper : ∀ j u, m.effectiveBounds.2[j]? = some u → u < m.infinity →
    (j ∈ m.integerIndices → x.getD j 0 ≤ u + m.snap) ∧
      (j ∉ m.integerIndices ∨ IsWhole u → x.getD j 0 ≤ u)
  lower_le : ∀ j l, m.effectiveBounds.1[j]? = some l → -m.infinity < l →
    (j ∈ m.integerIndices → l - m.snap ≤ x.getD j 0) ∧
      (j ∉ m.integerIndices ∨ IsWhole l → l ≤ x.getD j 0)

theorem FeasibleUpToSnap.integerFeasible {x : List K} (h : m.FeasibleUpToSnap x)
    (hsafe : m.RoundsSafely) : m.IntegerFeasible x where
  feasible := by
    refine ⟨h.length_eq, fun r hr => h.holds r hr (hsafe.rigid r hr), ?_, ?_⟩
    · intro j u hu hfinite
      refine (h.le_upper j u hu hfinite).2 ?_
      by_cases hj : j ∈ m.integerIndices
      · exact .inr (hsafe.upper j hj u hu hfinite)
      · exact .inl hj
    · intro j l hl hfinite
      refine (h.lower_le j l hl hfinite).2 ?_
      by_cases hj : j ∈ m.integerIndices
      · exact .inr (hsafe.lower j hj l hl hfinite)
      · exact .inl hj
  whole := h.whole

/-- What holds between the visits: the open boxes are parts of the first one, and what was solved so
far is feasible there. -/
structure Inside (m : Model K) (s : State K) : Prop where
  sized : s.Sized m.nVar
  within_root : ∀ node ∈ s.stack, ∀ y, Within m.infinity node.lower node.upper y →
    Within m.infinity m.effectiveBounds.1 m.effectiveBounds.2 y
  feasible : ∀ v ∈ s.log, v.relaxation.status.Solves →
    m.Feasible m.effectiveBounds.1 m.effectiveBounds.2 v.relaxation.x

theorem inside_start (m : Model K) :
    m.Inside (.start m.effectiveBounds.1 m.effectiveBounds.2) where
  sized := sized_start m.length_effectiveBounds
  within_root node hnode y hy := by
    obtain rfl := List.mem_singleton.1 hnode
    exact hy
  feasible v hv := by cases hv

variable [IsStrictOrderedRing K]

theorem Inside.visit {s : State K} {node : Node K} {rest : List (Node K)} {r : Relaxation K}
    {f : Fate K} (h : m.Inside s) (hfeasible : m.RelaxesFeasibly e)
    (hstack : s.stack = node :: rest) {turn : Nat}
    (hrelax : m.relax e turn node.lower node.upper = .ok r)
    (hf : Settles m.searchTarget s.incumbent node r f) :
    m.Inside (s.visit rest ⟨node, r, f⟩) := by
  have hnode : node ∈ s.stack := by simp [hstack]
  obtain ⟨hlower, hupper⟩ := h.sized node hnode
  refine ⟨h.sized.visit hstack, ?_, ?_⟩
  · refine within_visit h.within_root hstack fun j hj => ?_
    subst hj
    cases hf with
    | branched _ hsolves _ _ => exact (hfeasible turn _ _ r hlower hupper hrelax hsolves).within
  · intro v hv hsolves
    rcases List.mem_cons.1 hv with rfl | hv
    · have hbox := hfeasible turn _ _ r hlower hupper hrelax hsolves
      exact ⟨hbox.length_eq, hbox.holds, h.within_root node hnode r.x hbox.within⟩
    · exact h.feasible v hv hsolves

theorem Searches.inside (hfeasible : m.RelaxesFeasibly e) {clock : Clock K}
    {stopped : Option SearchStatus} {s : State K} (h : m.Searches e clock stopped s) :
    m.Inside s := by
  obtain ⟨expired, -, hexplore⟩ := h
  exact (explore_explores hexplore).induction (P := m.Inside)
    (fun hs hstack hrelax hf => hs.visit hfeasible hstack hrelax hf) m.inside_start

/-- A feasible point that is whole up to the tolerance is rounded to one that is feasible up to the
snap. -/
theorem feasibleUpToSnap_roundAt {x : List K}
    (hx : m.Feasible m.effectiveBounds.1 m.effectiveBounds.2 x)
    (hmost : mostFractional x m.integerIndices m.controls.limits.intTol = none) :
    m.FeasibleUpToSnap (roundAt m.integerIndices x) := by
  have hnear : ∀ j ∈ m.integerIndices, |Scalar.round (x.getD j 0) - x.getD j 0| ≤ m.snap :=
    fun j hj => le_min (near_of_mostFractional hmost hj)
      ((abs_round_sub_le _).trans_eq (by norm_num))
  refine ⟨by rw [length_roundAt, hx.length_eq], fun j hj => isWhole_coordinate_roundAt hj x,
    fun r hr => (hx.holds r hr).roundAt hnear, fun r hr hrigid => ?_, ?upper, ?lower⟩
  · exact hrigid.holds_roundAt (hx.holds r hr) hnear
  case upper =>
    intro j u hu hfinite
    have hle : x.getD j 0 ≤ u := hx.within.le_upper j u hu hfinite
    by_cases hj : j ∈ m.integerIndices
    · rw [coordinate_roundAt_of_mem hj]
      refine ⟨fun _ => ?_, fun hbound => ?_⟩
      · calc Scalar.round (x.getD j 0)
            ≤ x.getD j 0 + m.snap := sub_le_iff_le_add'.1 (abs_le.1 (hnear j hj)).2
          _ ≤ u + m.snap := add_le_add_left hle _
      · obtain ⟨z, rfl⟩ := hbound.resolve_left (not_not.2 hj)
        exact round_le_of_le hle
    · rw [coordinate_roundAt_of_notMem hj]
      exact ⟨fun h => absurd h hj, fun _ => hle⟩
  case lower =>
    intro j l hl hfinite
    have hle : l ≤ x.getD j 0 := hx.within.lower_le j l hl hfinite
    by_cases hj : j ∈ m.integerIndices
    · rw [coordinate_roundAt_of_mem hj]
      refine ⟨fun _ => ?_, fun hbound => ?_⟩
      · calc l - m.snap
            ≤ x.getD j 0 - m.snap := sub_le_sub_right hle _
          _ ≤ Scalar.round (x.getD j 0) := by linarith [(abs_le.1 (hnear j hj)).1]
      · obtain ⟨z, rfl⟩ := hbound.resolve_left (not_not.2 hj)
        exact le_round_of_le hle
    · rw [coordinate_roundAt_of_notMem hj]
      exact ⟨fun h => absurd h hj, fun _ => hle⟩

/-- **What is returned is feasible up to the snap.**  Let the engine find points that satisfy rows
and bounds.  A point that a search returns, under any status, is whole at the integral variables,
and satisfies every row and every bound up to what rounding moves.  It satisfies them exactly if the
model rounds safely, and also if all points that were accepted had been whole before they were
rounded. -/
theorem branchAndBound_feasibleUpToSnap (hfeasible : m.RelaxesFeasibly e) {clock : Clock K}
    {sol : ModelSolution K} (h : m.branchAndBound e clock = .ok sol) :
    ∃ stopped s, m.Searches e clock stopped s ∧ sol = searchSolution stopped s ∧
      ∀ p, sol.point = some p → m.FeasibleUpToSnap p.x ∧
        (m.RoundsSafely → m.IntegerFeasible p.x) ∧
        (m.AcceptedWhole s.log → m.IntegerFeasible p.x) := by
  obtain ⟨stopped, s, hsearches, rfl⟩ := exists_searches h
  refine ⟨stopped, s, hsearches, rfl, fun p hp => ?_⟩
  obtain ⟨htraced, -⟩ := hsearches.traced
  obtain ⟨v, hv, hfate, -, -⟩ := htraced.accepted hsearches.latest (incumbent_of_point hp)
  obtain ⟨hsolves, hmost, hx, -⟩ := htraced.of_accepted hv hfate
  have hroot := (hsearches.inside hfeasible).feasible v hv hsolves
  have hsnap : m.FeasibleUpToSnap p.x := by
    rw [hx]
    exact feasibleUpToSnap_roundAt hroot hmost
  refine ⟨hsnap, hsnap.integerFeasible, fun hwhole => ⟨?_, hsnap.whole⟩⟩
  -- what was whole before was not moved
  have hself : p.x = v.relaxation.x := hx.trans (roundAt_eq_self (hwhole v hv p hfate))
  rw [hself]
  exact hroot

end Returned

/-! ### A lever -/

section Lever

/-- Minimize `-y` subject to `y ≤ 10⁶ x`, `10⁶ x ≤ 5` and `1 ≤ y`, where `x` is whole. -/
def leverModel : Model ℚ :=
  (Call.setKind 0 .integer).after
    ((Call.addRows [([0, 1], [-10 ^ 6, 1]), ([0], [10 ^ 6]), ([1], [-1])] .lessEqual
      [0, 5, -1]).after
      ((Call.addVariables [0, -1] [-engineInfinity, -engineInfinity]
        [engineInfinity, engineInfinity]).after (empty engineInfinity)))

/-- The first box, the only one to be visited. -/
def leverPage : Page :=
  ⟨[-engineInfinity, -engineInfinity], [engineInfinity, engineInfinity], [5 / 10 ^ 6, 5]⟩

def leverEngine : Engine ℚ Unit := bookEngine leverModel [leverPage]

theorem leverModel_eq : leverModel =
    ⟨[⟨0, -engineInfinity, engineInfinity, .integer⟩,
        ⟨-1, -engineInfinity, engineInfinity, .continuous⟩],
      [⟨[0, 1], [-10 ^ 6, 1], .lessEqual, 0⟩, ⟨[0], [10 ^ 6], .lessEqual, 5⟩,
        ⟨[1], [-1], .lessEqual, -1⟩],
      none, .default, engineInfinity⟩ := rfl

theorem leverModel_reachable : leverModel.Reachable :=
  .call (.setKind 0 .integer)
    (.call (.addRows [([0, 1], [-10 ^ 6, 1]), ([0], [10 ^ 6]), ([1], [-1])] .lessEqual [0, 5, -1])
      (.call (.addVariables [0, -1] [-engineInfinity, -engineInfinity]
        [engineInfinity, engineInfinity]) (.empty engineInfinity)))

theorem leverModel_objective (x y : ℚ) : leverModel.objective [x, y] = .ok (-y) := by
  rw [linear_objective rfl]
  simp [leverModel_eq, nVar, costs, Finset.sum_range_succ]

theorem leverModel_holds {x y : ℚ} : (∀ r ∈ leverModel.rows, r.Holds [x, y]) ↔
    y ≤ 10 ^ 6 * x ∧ 10 ^ 6 * x ≤ 5 ∧ 1 ≤ y := by
  simp [leverModel_eq, Row.Holds, RowSense.Relates, Row.value]

theorem leverPage_sound : leverPage.Sound leverModel where
  length_lower := rfl
  length_upper := rfl
  feasible := by
    exact ⟨rfl, leverModel_holds.2 (by norm_num),
      within_cons_unbounded.2 (within_cons_unbounded.2 within_nil)⟩
  best := by
    intro p v w hp hv hw
    obtain ⟨x, y, rfl⟩ := List.length_eq_two.1 hp.length_eq
    obtain ⟨hcoupled, hx, -⟩ := leverModel_holds.1 hp.holds
    have hv' : leverModel.objective [5 / 10 ^ 6, 5] = .ok v := hv
    rw [leverModel_objective] at hv' hw
    cases hv'
    cases hw
    exact neg_le_neg (hcoupled.trans hx)

theorem leverEngine_sound : leverModel.RelaxesSoundly leverEngine := by
  refine relaxesSoundly_bookEngine leverModel_reachable.sound fun page hpage => ?_
  obtain rfl := List.mem_singleton.1 hpage
  exact leverPage_sound

/-- No whole number is positive and at most five millionths. -/
theorem leverModel_infeasible (p : List ℚ) : ¬ leverModel.IntegerFeasible p := by
  intro hp
  obtain ⟨x, y, rfl⟩ := List.length_eq_two.1 hp.feasible.length_eq
  obtain ⟨hcoupled, hx, hy⟩ := leverModel_holds.1 hp.feasible.holds
  obtain ⟨z, hz⟩ : IsWhole x := hp.whole 0 (by decide +kernel)
  rw [hz] at hcoupled hx
  have hpos : (0 : ℚ) < z := by linarith
  have hlt : (z : ℚ) < 1 := by linarith
  have hpos' : 0 < z := by exact_mod_cast hpos
  have hlt' : z < 1 := by exact_mod_cast hlt
  omega

/-- The search accepts the point of the first relaxation. -/
theorem leverModel_search : ∃ sol, leverModel.branchAndBound leverEngine noClock = .ok sol ∧
    sol.status = .mixed .optimal ∧ sol.point = some ⟨[0, 5], -5⟩ := by
  have hreport : (leverModel.branchAndBound leverEngine noClock).toOption.map
      (fun sol => (sol.status, sol.point.map fun p => (p.x, p.objective))) =
      some (.mixed .optimal, some ([0, 5], -5)) := by
    decide +kernel
  obtain ⟨sol, hok, hseen⟩ := Option.map_eq_some_iff.1 hreport
  obtain ⟨hstatus, hpoint⟩ := Prod.mk.inj hseen
  refine ⟨sol, eq_ok_of_toOption hok, hstatus, ?_⟩
  obtain ⟨⟨x, objective⟩, hp, hparts⟩ := Option.map_eq_some_iff.1 hpoint
  obtain ⟨hx, hobjective⟩ := Prod.mk.inj hparts
  rw [hp, show x = [0, 5] from hx, show objective = -5 from hobjective]

/-- The first row is off by five, which is half of what the snap allows. -/
theorem branchAndBound_feasibleUpToSnap_lever :
    leverModel.RelaxesFeasibly leverEngine ∧
    ∃ sol, leverModel.branchAndBound leverEngine noClock = .ok sol ∧
      sol.point = some ⟨[0, 5], -5⟩ ∧ leverModel.FeasibleUpToSnap [0, 5] ∧
      ∀ r ∈ leverModel.rows, leverModel.snap * r.leverage leverModel.integerIndices ≤ 10 := by
  obtain ⟨sol, hok, -, hpoint⟩ := leverModel_search
  have hfeasible := leverEngine_sound.relaxesFeasibly
  obtain ⟨_, _, -, -, hreturned⟩ := branchAndBound_feasibleUpToSnap hfeasible hok
  refine ⟨hfeasible, sol, hok, hpoint, (hreturned _ hpoint).1, ?_⟩
  decide +kernel

/-- Although every relaxation is solved exactly, the search claims that a point is optimal that
violates a row by five, and no point is feasible at all.  The relaxation at `(5 · 10⁻⁶, 5)` is whole
up to the tolerance, but rounding its first coordinate takes the bound of the second one away. -/
theorem branchAndBound_breaksRow :
    leverModel.Reachable ∧ leverModel.RelaxesSoundly leverEngine ∧
    (∀ p, ¬ leverModel.IntegerFeasible p) ∧
    ∃ sol, leverModel.branchAndBound leverEngine noClock = .ok sol ∧
      sol.status = .mixed .optimal ∧ sol.point = some ⟨[0, 5], -5⟩ ∧
      ¬ ∀ r ∈ leverModel.rows, r.Holds [0, 5] := by
  obtain ⟨sol, hok, hstatus, hpoint⟩ := leverModel_search
  refine ⟨leverModel_reachable, leverEngine_sound, leverModel_infeasible, sol, hok, hstatus, hpoint,
    fun hholds => ?_⟩
  obtain ⟨hcoupled, -, -⟩ := leverModel_holds.1 hholds
  norm_num at hcoupled

end Lever

end Model

end QuadProg
