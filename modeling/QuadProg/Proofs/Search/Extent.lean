import QuadProg.Proofs.Search.Optimality
import QuadProg.Proofs.Search.Unfinished

/-!
# How large a search can get

Let every integral variable have finite bounds.  The *extent* of a box is the number of whole steps
between these bounds, rounded outwards, summed over the integral variables.  A box is split at a
variable whose value `v` lies between its bounds and is not whole, and either half loses a step:

```text
lower half   ⌊l⌋ ≤ ⌊v⌋ < v ≤ u ≤ ⌈u⌉     the upper bound falls below ⌈u⌉
upper half   ⌊l⌋ ≤ l ≤ v < ⌈v⌉ ≤ ⌈u⌉     the lower bound rises above ⌊l⌋
```

Without rounding outwards there would be no step to lose: between `0.2` and `0.8` there is none, and
yet the box may be split there.

So the depth of a node and the extent of its box add up to no more than the extent of the first box
(`Shrinking.depth_add_extent_le`).  Below a box of extent `n` there are no more nodes than in a full
binary tree of that depth, `fullTree n`.  What was visited and what the open boxes may still hold
adds up to no more than that for the first box (`Shrinking.total_le`): a split exchanges one full
tree for two smaller ones and the visit.
-/

namespace QuadProg

open Search

variable {K μ : Type} [Field K] [LinearOrder K] [FloorRing K]

/-! ### Steps between bounds -/

/-- The number of whole steps between two bounds that are rounded outwards. -/
def steps (l u : K) : Nat := (⌈u⌉ - ⌊l⌋).toNat

section Steps

variable [IsStrictOrderedRing K] {l u v : K}

/-- Bounds that are not crossed stay so when they are rounded outwards. -/
theorem steps_cast (h : l ≤ u) : (steps l u : ℤ) = ⌈u⌉ - ⌊l⌋ := by
  have hle : ⌊l⌋ ≤ ⌈u⌉ := (Int.floor_mono h).trans (Int.floor_le_ceil u)
  rw [steps, Int.toNat_of_nonneg (sub_nonneg.2 hle)]

theorem steps_floor_lt (hl : l ≤ v) (hu : v ≤ u) (hv : ¬ IsWhole v) :
    steps l (Scalar.floor v) < steps l u := by
  have hbelow : (⌊v⌋ : K) < v := lt_of_le_of_ne (Int.floor_le v) fun h => hv ⟨⌊v⌋, h.symm⟩
  have hfloor : ⌊l⌋ ≤ ⌊v⌋ := Int.floor_mono hl
  have hceil : ⌊v⌋ < ⌈u⌉ := by
    have hlt : (⌊v⌋ : K) < ⌈u⌉ := hbelow.trans_le (hu.trans (Int.le_ceil u))
    exact_mod_cast hlt
  rw [steps, steps, floor_eq, Int.ceil_intCast]
  omega

theorem steps_ceil_lt (hl : l ≤ v) (hu : v ≤ u) (hv : ¬ IsWhole v) :
    steps (Scalar.ceil v) u < steps l u := by
  have habove : v < (⌈v⌉ : K) := lt_of_le_of_ne (Int.le_ceil v) fun h => hv ⟨⌈v⌉, h⟩
  have hceil : ⌈v⌉ ≤ ⌈u⌉ := Int.ceil_mono hu
  have hfloor : ⌊l⌋ < ⌈v⌉ := by
    have hlt : (⌊l⌋ : K) < ⌈v⌉ := ((Int.floor_le l).trans hl).trans_lt habove
    exact_mod_cast hlt
  rw [steps, steps, ceil_eq, Int.floor_intCast]
  omega

/-- What is further from a whole number than the tolerance is not whole. -/
theorem not_isWhole_of_far {tolerance : K} (htolerance : 0 ≤ tolerance)
    (h : tolerance < fractionality v) : ¬ IsWhole v := by
  intro hwhole
  have hzero : fractionality v = 0 := by
    rw [fractionality, round_eq_self_iff.2 hwhole, sub_self, magnitude_eq_abs, abs_zero]
  rw [hzero] at h
  exact absurd h (not_lt.2 htolerance)

end Steps

/-! ### Trees -/

/-- The number of nodes of a full binary tree of the given depth. -/
def fullTree (depth : Nat) : Nat := 2 ^ (depth + 1) - 1

theorem fullTree_succ (n : Nat) : fullTree (n + 1) = 2 * fullTree n + 1 := by
  have hpos : 0 < 2 ^ (n + 1) := Nat.two_pow_pos _
  have hpow : 2 ^ (n + 1 + 1) = 2 * 2 ^ (n + 1) := by rw [pow_succ, mul_comm]
  unfold fullTree
  omega

theorem fullTree_mono {m n : Nat} (h : m ≤ n) : fullTree m ≤ fullTree n :=
  Nat.sub_le_sub_right (Nat.pow_le_pow_right (by omega) (by omega)) 1

theorem one_le_fullTree (n : Nat) : 1 ≤ fullTree n := fullTree_mono (Nat.zero_le n)

/-- Two trees of smaller depths and a node fit into a full tree. -/
theorem fullTree_add_fullTree_lt {a b n : Nat} (ha : a < n) (hb : b < n) :
    fullTree a + fullTree b < fullTree n := by
  obtain ⟨k, rfl⟩ := Nat.exists_eq_succ_of_ne_zero (Nat.ne_zero_of_lt ha)
  have hak := fullTree_mono (Nat.lt_succ_iff.1 ha)
  have hbk := fullTree_mono (Nat.lt_succ_iff.1 hb)
  rw [Nat.succ_eq_add_one, fullTree_succ]
  omega

/-! ### Boxes -/

namespace Search

/-- The whole steps inside a box, over the given variables. -/
def Node.extent (integers : List Nat) (node : Node K) : Nat :=
  (integers.map fun j => steps (node.lower.getD j 0) (node.upper.getD j 0)).sum

omit [FloorRing K] in
/-- The bounds of the given variables are finite. -/
def Node.FiniteAt (infinity : K) (integers : List Nat) (node : Node K) : Prop :=
  ∀ j ∈ integers, -infinity < node.lower.getD j 0 ∧ node.upper.getD j 0 < infinity

/-- The box has bounds for the variable `j`, and the value `v` lies between them. -/
structure Node.Has (node : Node K) (j : Nat) (v : K) : Prop where
  lt_lower : j < node.lower.length
  lt_upper : j < node.upper.length
  lower_le : node.lower.getD j 0 ≤ v
  le_upper : v ≤ node.upper.getD j 0

variable {infinity : K} {integers : List Nat} {node child : Node K} {j : Nat} {v : K}

/-- A point of the box lies between the bounds that are finite. -/
theorem Node.FiniteAt.has (h : node.FiniteAt infinity integers) {n : Nat}
    (hlength : node.lower.length = n ∧ node.upper.length = n) (hj : j ∈ integers) (hlt : j < n)
    {x : List K} (hx : Within infinity node.lower node.upper x) :
    node.Has j (coordinate x j) := by
  obtain ⟨hfiniteLower, hfiniteUpper⟩ := h j hj
  have hlower : j < node.lower.length := by rwa [hlength.1]
  have hupper : j < node.upper.length := by rwa [hlength.2]
  rw [List.getD_eq_getElem _ _ hlower] at hfiniteLower
  rw [List.getD_eq_getElem _ _ hupper] at hfiniteUpper
  refine ⟨hlower, hupper, ?_, ?_⟩
  · rw [List.getD_eq_getElem _ _ hlower]
    exact hx.lower_le j _ (List.getElem?_eq_getElem hlower) hfiniteLower
  · rw [List.getD_eq_getElem _ _ hupper]
    exact hx.le_upper j _ (List.getElem?_eq_getElem hupper) hfiniteUpper

omit [Field K] [LinearOrder K] [FloorRing K] in
theorem getD_set_self [Zero K] {bounds : List K} (h : j < bounds.length) (v : K) :
    (bounds.set j v).getD j 0 = v := by
  rw [List.getD_eq_getElem?_getD, List.getElem?_set_self h, Option.getD_some]

omit [Field K] [LinearOrder K] [FloorRing K] in
theorem getD_set_of_ne [Zero K] {bounds : List K} {k : Nat} (h : k ≠ j) (v : K) :
    (bounds.set j v).getD k 0 = bounds.getD k 0 := by
  rw [List.getD_eq_getElem?_getD, List.getElem?_set_ne (Ne.symm h),
    List.getD_eq_getElem?_getD]

/-- A half has the bounds of the box at all other variables. -/
theorem getD_of_mem_split (hchild : child ∈ split node j v) {k : Nat} (hk : k ≠ j) :
    child.lower.getD k 0 = node.lower.getD k 0 ∧ child.upper.getD k 0 = node.upper.getD k 0 := by
  rcases mem_split.1 hchild with rfl | rfl
  · exact ⟨rfl, getD_set_of_ne hk _⟩
  · exact ⟨getD_set_of_ne hk _, rfl⟩

variable [IsStrictOrderedRing K]

theorem steps_lt_of_mem_split (hchild : child ∈ split node j v) (h : node.Has j v)
    (hv : ¬ IsWhole v) : steps (child.lower.getD j 0) (child.upper.getD j 0) <
      steps (node.lower.getD j 0) (node.upper.getD j 0) := by
  rcases mem_split.1 hchild with rfl | rfl
  · simp only [getD_set_self h.lt_upper]
    exact steps_floor_lt h.lower_le h.le_upper hv
  · simp only [getD_set_self h.lt_lower]
    exact steps_ceil_lt h.lower_le h.le_upper hv

/-- Either half of a box has fewer whole steps inside. -/
theorem extent_lt_of_mem_split (hchild : child ∈ split node j v) (hj : j ∈ integers)
    (h : node.Has j v) (hv : ¬ IsWhole v) : child.extent integers < node.extent integers := by
  have hat := steps_lt_of_mem_split hchild h hv
  refine List.sum_lt_sum _ _ (fun k _ => ?_) ⟨j, hj, hat⟩
  by_cases hk : k = j
  · subst hk
    exact hat.le
  · obtain ⟨hlower, hupper⟩ := getD_of_mem_split hchild hk
    exact le_of_eq (by rw [hlower, hupper])

omit [IsStrictOrderedRing K] in
theorem Node.FiniteAt.of_mem_split (h : node.FiniteAt infinity integers)
    (hchild : child ∈ split node j v) (hhas : node.Has j v) :
    child.FiniteAt infinity integers := by
  intro k hk
  obtain ⟨hlower, hupper⟩ := h k hk
  by_cases hkj : k = j
  · subst hkj
    rcases mem_split.1 hchild with rfl | rfl
    · refine ⟨hlower, ?_⟩
      rw [getD_set_self hhas.lt_upper]
      calc (Scalar.floor v : K)
          ≤ v := Int.floor_le v
        _ ≤ node.upper.getD k 0 := hhas.le_upper
        _ < infinity := hupper
    · refine ⟨?_, hupper⟩
      rw [getD_set_self hhas.lt_lower]
      calc -infinity
          < node.lower.getD k 0 := hlower
        _ ≤ v := hhas.lower_le
        _ ≤ (Scalar.ceil v : K) := Int.le_ceil v
  · obtain ⟨hlower', hupper'⟩ := getD_of_mem_split hchild hkj
    rw [hlower', hupper']
    exact ⟨hlower, hupper⟩

end Search

/-! ### The invariant -/

namespace Model

variable {m : Model K} {e : Engine K μ}

/-- What the engine calls solved is a point of its box. -/
def RelaxesWithin (m : Model K) (e : Engine K μ) : Prop :=
  ∀ turn lower upper r, lower.length = m.nVar → upper.length = m.nVar →
    m.relax e turn lower upper = .ok r → r.status.Solves →
      r.x.length = m.nVar ∧ Within m.infinity lower upper r.x

theorem RelaxesSoundly.relaxesWithin (h : m.RelaxesSoundly e) : m.RelaxesWithin e := by
  intro turn lower upper r hlower hupper hrelax hsolves
  have hfeasible := h.feasible hlower hupper hrelax hsolves
  exact ⟨hfeasible.length_eq, hfeasible.within⟩

/-- The first box of a search. -/
def root (m : Model K) : Node K := ⟨m.effectiveBounds.1, m.effectiveBounds.2, 0⟩

/-- Every integral variable has finite bounds. -/
def BoundsIntegers (m : Model K) : Prop := m.root.FiniteAt m.infinity m.integerIndices

/-- The whole steps inside the first box, over the integral variables. -/
def extent (m : Model K) : Nat := m.root.extent m.integerIndices

/-- What holds between the visits: the open boxes are finite and deeper nodes have smaller ones. -/
structure Shrinking (m : Model K) (s : State K) : Prop where
  sized : s.Sized m.nVar
  finite : ∀ node ∈ s.stack, node.FiniteAt m.infinity m.integerIndices
  depth_add_extent_le : ∀ node ∈ s.stack,
    node.depth + node.extent m.integerIndices ≤ m.extent
  depth_le : ∀ v ∈ s.log, v.node.depth ≤ m.extent
  /-- The visited nodes, and those that there may be below the open ones. -/
  total_le : s.log.length +
    (s.stack.map fun node => fullTree (node.extent m.integerIndices)).sum ≤ fullTree m.extent

theorem shrinking_start (h : m.BoundsIntegers) :
    m.Shrinking (.start m.effectiveBounds.1 m.effectiveBounds.2) where
  sized := sized_start m.length_effectiveBounds
  finite node hnode := by
    obtain rfl := List.mem_singleton.1 hnode
    exact h
  depth_add_extent_le node hnode := by
    obtain rfl := List.mem_singleton.1 hnode
    exact (Nat.zero_add _).le
  depth_le v hv := by cases hv
  total_le := by
    show 0 + (fullTree m.extent + 0) ≤ fullTree m.extent
    omega

variable [IsStrictOrderedRing K]

/-- Where no bounds are crossed, the extent is the sum of the differences. -/
theorem extent_eq_sum
    (h : ∀ j ∈ m.integerIndices, m.effectiveBounds.1.getD j 0 ≤ m.effectiveBounds.2.getD j 0) :
    (m.extent : ℤ) = (m.integerIndices.map fun j =>
      ⌈m.effectiveBounds.2.getD j 0⌉ - ⌊m.effectiveBounds.1.getD j 0⌋).sum := by
  rw [extent, Node.extent, Nat.cast_list_sum, List.map_map]
  exact congrArg List.sum (List.map_congr_left fun j hj => steps_cast (h j hj))

section Visit

variable {s : State K} {node : Node K} {rest : List (Node K)} {r : Relaxation K} {f : Fate K}

/-- The halves of a visited node are finite and smaller, since it is split inside its box. -/
theorem Shrinking.halves (h : m.Shrinking s) (htolerance : 0 ≤ m.controls.limits.intTol)
    (hwithin : m.RelaxesWithin e) (hnode : node ∈ s.stack) {turn : Nat}
    (hrelax : m.relax e turn node.lower node.upper = .ok r) {j : Nat}
    (hf : Settles m.searchTarget s.incumbent node r (.branched j)) {child : Node K}
    (hchild : child ∈ split node j (coordinate r.x j)) :
    child.FiniteAt m.infinity m.integerIndices ∧
      child.extent m.integerIndices < node.extent m.integerIndices := by
  cases hf with
  | branched _ hsolves _ hmost =>
      obtain ⟨hj, hfar⟩ := mem_far_of_mostFractional hmost
      have hlength := h.sized node hnode
      obtain ⟨-, hx⟩ := hwithin turn _ _ r hlength.1 hlength.2 hrelax hsolves
      have hhas : node.Has j (coordinate r.x j) :=
        (h.finite node hnode).has hlength hj (lt_nVar_of_mem_integerIndices hj) hx
      exact ⟨(h.finite node hnode).of_mem_split hchild hhas,
        extent_lt_of_mem_split hchild hj hhas (not_isWhole_of_far htolerance hfar)⟩

/-- **Every visit preserves the invariant.** -/
theorem Shrinking.visit (h : m.Shrinking s) (htolerance : 0 ≤ m.controls.limits.intTol)
    (hwithin : m.RelaxesWithin e) (hstack : s.stack = node :: rest) {turn : Nat}
    (hrelax : m.relax e turn node.lower node.upper = .ok r)
    (hf : Settles m.searchTarget s.incumbent node r f) :
    m.Shrinking (s.visit rest ⟨node, r, f⟩) := by
  have hnode : node ∈ s.stack := by simp [hstack]
  have hdepth := h.depth_add_extent_le node hnode
  have hhalves : ∀ j, f = .branched j → ∀ child ∈ split node j (coordinate r.x j),
      child.FiniteAt m.infinity m.integerIndices ∧
        child.extent m.integerIndices < node.extent m.integerIndices := by
    rintro j rfl child hchild
    exact h.halves htolerance hwithin hnode hrelax hf hchild
  refine ⟨h.sized.visit hstack, fun child hchild => ?_, fun child hchild => ?_, fun v hv => ?_, ?_⟩
  · rcases mem_stack_visit hchild with ⟨j, hj, hsplit⟩ | hrest
    · exact (hhalves j hj child hsplit).1
    · exact h.finite child (by simp [hstack, hrest])
  · rcases mem_stack_visit hchild with ⟨j, hj, hsplit⟩ | hrest
    -- one more split, and at least one step less
    · have hlt := (hhalves j hj child hsplit).2
      have hdeeper : child.depth = node.depth + 1 := by
        rcases mem_split.1 hsplit with rfl | rfl <;> rfl
      omega
    · exact h.depth_add_extent_le child (by simp [hstack, hrest])
  · rcases List.mem_cons.1 hv with rfl | hv
    · show node.depth ≤ m.extent
      omega
    · exact h.depth_le v hv
  · have htotal := h.total_le
    rw [hstack, List.map_cons, List.sum_cons] at htotal
    have hroom := one_le_fullTree (node.extent m.integerIndices)
    cases f with
    | branched j =>
        have hlower := (hhalves j rfl _ (mem_split.2 (.inl rfl))).2
        have hupper := (hhalves j rfl _ (mem_split.2 (.inr rfl))).2
        have hsum := fullTree_add_fullTree_lt hlower hupper
        simp only [State.visit, split, List.cons_append, List.nil_append, List.map_cons,
          List.sum_cons, List.length_cons]
        omega
    | _ =>
        simp only [State.visit, List.length_cons]
        omega

end Visit

theorem Searches.shrinking [EngineDefaults K] (hm : m.Reachable) (hwithin : m.RelaxesWithin e)
    (hbounds : m.BoundsIntegers) {clock : Clock K} {stopped : Option SearchStatus} {s : State K}
    (h : m.Searches e clock stopped s) : m.Shrinking s := by
  obtain ⟨expired, -, hexplore⟩ := h
  exact (explore_explores hexplore).induction (P := m.Shrinking)
    (fun hs hstack hrelax hf => hs.visit hm.limitsInRange.1.le hwithin hstack hrelax hf)
    (shrinking_start hbounds)

omit [IsStrictOrderedRing K] in
/-- As long as a box is open there is room for one more visit. -/
theorem Shrinking.length_lt {s : State K} (h : m.Shrinking s) (hopen : s.stack ≠ []) :
    s.log.length < fullTree m.extent := by
  obtain ⟨node, rest, hcons⟩ := List.exists_cons_of_ne_nil hopen
  have htotal := h.total_le
  rw [hcons, List.map_cons, List.sum_cons] at htotal
  have hroom := one_le_fullTree (node.extent m.integerIndices)
  omega

omit [IsStrictOrderedRing K] in
/-- So a search that may visit a full tree does not run out of nodes. -/
theorem Shrinking.ne_nodeLimit {s : State K} (h : m.Shrinking s) {expired : Nat → Bool}
    {limit : Nat} {stopped : Option SearchStatus} (hended : Ended expired limit s stopped)
    (hlimit : fullTree m.extent ≤ limit) : verdict stopped s ≠ .nodeLimit := by
  intro hverdict
  cases hended with
  | exhausted _ _ =>
      unfold verdict at hverdict
      split at hverdict <;> simp_all
  | outOfNodes hopen hlength _ =>
      have hlt := h.length_lt hopen
      omega
  | outOfTime => cases hverdict
  | halted v _ _ _ _ =>
      have hroot : rootVerdict v.relaxation.status = .nodeLimit := hverdict
      unfold rootVerdict at hroot
      split_ifs at hroot

omit [IsStrictOrderedRing K] in
/-- If it has time enough as well, no box is left open. -/
theorem Shrinking.stack_eq_nil {s : State K} (h : m.Shrinking s) (hs : s.Traced m.searchTarget)
    {limit : Nat} {stopped : Option SearchStatus}
    (hended : Ended (fun _ => false) limit s stopped) (hlimit : fullTree m.extent ≤ limit) :
    s.stack = [] := by
  cases hended with
  | exhausted hstack _ => exact hstack
  | outOfNodes hopen hlength _ =>
      have hlt := h.length_lt hopen
      omega
  | outOfTime _ hexpired _ => cases hexpired
  | halted v log hlog hfate _ => exact hs.halted v (by simp [hlog]) _ hfate

/-- **A search over bounded integral variables is finite and complete.**  Let all integral variables
have finite bounds, and let the engine find points of the boxes it is given, wherever it finds any.
Then no visited node is deeper than the first box has whole steps inside, and no more nodes are
visited than a full binary tree of that depth has.  If so many may be visited, the search does not
end for their number; if moreover time is not limited, it ends with no box left open, and with a
proof of optimality or infeasibility unless some relaxation was undecided.  And where the engine has
an answer for every box, the search has one. -/
theorem branchAndBound_completes [EngineDefaults K] (hm : m.Reachable)
    (hwithin : m.RelaxesWithin e) (hbounds : m.BoundsIntegers) (clock : Clock K) :
    (∀ sol, m.branchAndBound e clock = .ok sol →
      ∃ stopped s, m.Searches e clock stopped s ∧ sol = searchSolution stopped s ∧
        (∀ v ∈ s.log, v.node.depth ≤ m.extent) ∧ s.log.length ≤ 2 ^ (m.extent + 1) - 1 ∧
        (2 ^ (m.extent + 1) - 1 ≤ m.controls.limits.maxNodes →
          sol.status ≠ .mixed .nodeLimit ∧
          (m.controls.settings.timeLimit = none → s.stack = [] ∧
            ((∀ v ∈ s.log, ¬ v.Undecided) →
              sol.status = .mixed .optimal ∨ sol.status = .mixed .infeasible)))) ∧
      (m.Answers e → (∃ expired, clock.expiry m.controls.settings.timeLimit = .ok expired) →
        ∃ sol, m.branchAndBound e clock = .ok sol) := by
  refine ⟨fun sol h => ?_, fun hanswers ⟨_, hclock⟩ => ?_⟩
  · obtain ⟨stopped, s, hsearches, rfl⟩ := exists_searches h
    have hshrinking := hsearches.shrinking hm hwithin hbounds
    obtain ⟨htraced, -⟩ := hsearches.traced
    obtain ⟨expired, hclock, hended⟩ := hsearches.ended
    have htotal := hshrinking.total_le
    refine ⟨stopped, s, hsearches, rfl, hshrinking.depth_le, (Nat.le_add_right _ _).trans htotal,
      fun hlimit => ⟨fun hstatus => ?_, fun htime => ?_⟩⟩
    · exact hshrinking.ne_nodeLimit hended hlimit (ModelStatus.mixed.inj hstatus)
    · rw [htime] at hclock
      obtain rfl : (fun _ => false) = expired := Except.ok.inj hclock
      have hstack := hshrinking.stack_eq_nil htraced hended hlimit
      refine ⟨hstack, fun hdecided => ?_⟩
      have hfinished : ¬ s.Unfinished := by
        rintro (hopen | ⟨v, hv, hundecided⟩)
        · exact hopen hstack
        · exact hdecided v hv hundecided
      rcases htraced.of_finished hended hfinished with hoptimal | hinfeasible
      · exact .inl (congrArg ModelStatus.mixed hoptimal)
      · exact .inr (congrArg ModelStatus.mixed hinfeasible)
  · exact branchAndBound_ok hm.sound hanswers (fun _ _ _ _ hlower hupper hr hsolves =>
      (hwithin _ _ _ _ hlower hupper hr hsolves).1) hclock

theorem halfModel_boundsIntegers : halfModel.BoundsIntegers := by
  intro j hj
  obtain rfl : j = 0 := by simpa [show halfModel.integerIndices = [0] from rfl] using hj
  show -engineInfinity < (0 : ℚ) ∧ (10 : ℚ) < engineInfinity
  norm_num [engineInfinity_eq]

/-- There are ten steps from zero to ten, and the root and its halves are visited. -/
theorem branchAndBound_completes_half :
    halfModel.RelaxesWithin halfEngine ∧ halfModel.extent = 10 ∧
    ∃ sol, halfModel.branchAndBound halfEngine noClock = .ok sol ∧ sol.nodes = some 3 ∧
      (sol.status = .mixed .optimal ∨ sol.status = .mixed .infeasible) := by
  have hwithin := halfModel_relaxesSoundly.relaxesWithin
  have hextent : halfModel.extent = 10 := by decide +kernel
  have hreport : searchReport halfModel halfEngine =
      some (.optimal, [(.solved, 1), (.primalInfeasible, 1), (.solved, 0)]) := by
    decide +kernel
  obtain ⟨stopped, s, hsearches, hok, -, hlog⟩ := searches_of_report rfl hreport
  obtain ⟨stopped', s', hsearches', -, -, -, hends⟩ :=
    (branchAndBound_completes halfModel_reachable hwithin halfModel_boundsIntegers noClock).1 _ hok
  obtain ⟨rfl, rfl⟩ := hsearches.unique hsearches'
  have hlimit : 2 ^ (halfModel.extent + 1) - 1 ≤ halfModel.controls.limits.maxNodes := by
    rw [hextent]
    decide
  refine ⟨hwithin, hextent, _, hok, ?_, ((hends hlimit).2 rfl).2 fun v hv => ?_⟩
  · have hlength := congrArg List.length hlog
    rw [outline, List.length_map] at hlength
    exact congrArg some hlength
  · refine forall_of_outline hlog (P := fun o => ¬ o.1.Undecided) ?_ v hv
    simp [Termination.Undecided, Termination.Solves]

end Model

end QuadProg
