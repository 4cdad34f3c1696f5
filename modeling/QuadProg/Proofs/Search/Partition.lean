import QuadProg.Proofs.Search.Extent
import QuadProg.Proofs.Search.Loop

/-!
# Branching neither loses nor duplicates points

A search starts with one box and splits boxes.  Some boxes are open, some were split, and the others
are closed: nothing was in them, or nothing better, or the best point, or there was no verdict.  The
open and the closed boxes make up the first one, without overlap as far as points count that are
whole at the integral variables: every such point is in exactly one of them at any time
(`Partitioned.once`), and no box goes beyond the first one (`Partitioned.inside`).

For a split at the value `v` of variable `j` this comes from three facts:

* `v` lies in the box, so either half adds one restriction to it and drops none:
  `y j ≤ ⌊v⌋` or `⌈v⌉ ≤ y j` (`Node.Holds.lower_half_iff`, `Node.Holds.upper_half_iff`);
* a whole number is not strictly between `⌊v⌋` and `⌈v⌉`, so one of the halves has the point;
* `v` is not whole, so `⌊v⌋ < ⌈v⌉`, and only one of the halves has it.

From some size on a bound may count as none.  This size is a parameter, the `cap`.  With the cap `⊤`
every bound is a bound; with infinity for it, the boxes are those of the engine
(`Node.holds_coe_iff`).  Bounds that count as none are no obstacle as long as boxes are split at
values of smaller size, for these are bounds that count.
-/

namespace QuadProg

open Search Relation

variable {K : Type} [Field K] [LinearOrder K] [FloorRing K]

namespace Search

/-! ### Boxes and their halves -/

/-- The point lies between the bounds of the box, as far as these are below the cap. -/
structure Node.Holds (cap : WithTop K) (node : Node K) (y : List K) : Prop where
  le_upper : ∀ k (u : K), node.upper[k]? = some u → (u : WithTop K) < cap → y.getD k 0 ≤ u
  lower_le : ∀ k (l : K), node.lower[k]? = some l → ((-l : K) : WithTop K) < cap → l ≤ y.getD k 0

theorem Node.holds_coe_iff [IsStrictOrderedRing K] {infinity : K} {node : Node K} {y : List K} :
    node.Holds infinity y ↔ Within infinity node.lower node.upper y := by
  constructor
  · intro h
    refine ⟨fun k u hu hlt => h.le_upper k u hu (by exact_mod_cast hlt),
      fun k l hl hlt => h.lower_le k l hl ?_⟩
    exact_mod_cast neg_lt.1 hlt
  · intro h
    refine ⟨fun k u hu hlt => h.le_upper k u hu (by exact_mod_cast hlt),
      fun k l hl hlt => h.lower_le k l hl (neg_lt.1 ?_)⟩
    exact_mod_cast hlt

theorem holds_interval {l u : K} {depth : Nat} {y : List K} :
    Node.Holds ⊤ ⟨[l], [u], depth⟩ y ↔ l ≤ y.getD 0 0 ∧ y.getD 0 0 ≤ u := by
  constructor
  · intro h
    exact ⟨h.lower_le 0 l rfl (WithTop.coe_lt_top _), h.le_upper 0 u rfl (WithTop.coe_lt_top _)⟩
  · intro h
    obtain ⟨hl, hu⟩ := h
    have hfirst : ∀ {b c : K} {k : Nat}, [b][k]? = some c → k = 0 ∧ b = c := by
      intro b c k hb
      cases k with
      | zero => exact ⟨rfl, Option.some.inj hb⟩
      | succ k => cases hb
    refine ⟨fun k b hb _ => ?_, fun k b hb _ => ?_⟩
    · obtain ⟨rfl, rfl⟩ := hfirst hb
      exact hu
    · obtain ⟨rfl, rfl⟩ := hfirst hb
      exact hl

open Classical in
/-- The number of the boxes that the point is in. -/
noncomputable def occurrences (cap : WithTop K) (nodes : List (Node K)) (y : List K) : Nat :=
  nodes.countP fun node => node.Holds cap y

section Halves

variable {cap : WithTop K} {node : Node K} {j : Nat} {x y : List K}

theorem occurrences_append (nodes nodes' : List (Node K)) :
    occurrences cap (nodes ++ nodes') y = occurrences cap nodes y + occurrences cap nodes' y :=
  List.countP_append

theorem occurrences_cons (node : Node K) (nodes : List (Node K)) :
    occurrences cap (node :: nodes) y = occurrences cap [node] y + occurrences cap nodes y :=
  occurrences_append [node] nodes

theorem occurrences_of_holds (h : node.Holds cap y) : occurrences cap [node] y = 1 := by
  simp [occurrences, h]

theorem occurrences_of_not_holds (h : ¬ node.Holds cap y) : occurrences cap [node] y = 0 := by
  simp [occurrences, h]

theorem Node.Holds.lower_half_iff (hx : node.Holds cap x)
    (hcap : ((|coordinate x j| : K) : WithTop K) < cap) (hj : j < node.upper.length) :
    Node.Holds cap
        { node with
          upper := node.upper.set j (Scalar.floor (coordinate x j))
          depth := node.depth + 1 } y ↔
      node.Holds cap y ∧ y.getD j 0 ≤ Scalar.floor (coordinate x j) := by
  have hfloor : (Scalar.floor (coordinate x j) : K) ≤ coordinate x j := Int.floor_le _
  constructor
  · intro h
    have hat : y.getD j 0 ≤ Scalar.floor (coordinate x j) := by
      refine h.le_upper j _ (List.getElem?_set_self hj) (lt_of_le_of_lt ?_ hcap)
      exact_mod_cast hfloor.trans (le_abs_self _)
    refine ⟨⟨fun k u hu hlt => ?_, h.lower_le⟩, hat⟩
    rcases getElem?_set_of hu j (Scalar.floor (coordinate x j)) with ⟨rfl, -⟩ | hset
    -- the new bound lies below the old one, because the value does
    · calc y.getD k 0
          ≤ Scalar.floor (coordinate x k) := hat
        _ ≤ coordinate x k := hfloor
        _ ≤ u := hx.le_upper k u hu hlt
    · exact h.le_upper k u hset hlt
  · intro h
    obtain ⟨h, hat⟩ := h
    refine ⟨fun k u hu hlt => ?_, h.lower_le⟩
    rcases getElem?_set_cases hu with ⟨rfl, rfl⟩ | hu
    · exact hat
    · exact h.le_upper k u hu hlt

variable [IsStrictOrderedRing K]

theorem Node.Holds.upper_half_iff (hx : node.Holds cap x)
    (hcap : ((|coordinate x j| : K) : WithTop K) < cap) (hj : j < node.lower.length) :
    Node.Holds cap
        { node with
          lower := node.lower.set j (Scalar.ceil (coordinate x j))
          depth := node.depth + 1 } y ↔
      node.Holds cap y ∧ Scalar.ceil (coordinate x j) ≤ y.getD j 0 := by
  have hceil : coordinate x j ≤ (Scalar.ceil (coordinate x j) : K) := Int.le_ceil _
  constructor
  · intro h
    have hat : Scalar.ceil (coordinate x j) ≤ y.getD j 0 := by
      refine h.lower_le j _ (List.getElem?_set_self hj) (lt_of_le_of_lt ?_ hcap)
      exact_mod_cast (neg_le_neg hceil).trans (neg_le_abs _)
    refine ⟨⟨h.le_upper, fun k l hl hlt => ?_⟩, hat⟩
    rcases getElem?_set_of hl j (Scalar.ceil (coordinate x j)) with ⟨rfl, -⟩ | hset
    · calc l ≤ coordinate x k := hx.lower_le k l hl hlt
        _ ≤ Scalar.ceil (coordinate x k) := hceil
        _ ≤ y.getD k 0 := hat
    · exact h.lower_le k l hset hlt
  · intro h
    obtain ⟨h, hat⟩ := h
    refine ⟨h.le_upper, fun k l hl hlt => ?_⟩
    rcases getElem?_set_cases hl with ⟨rfl, rfl⟩ | hl
    · exact hat
    · exact h.lower_le k l hl hlt

omit [IsStrictOrderedRing K] in
theorem floor_lt_ceil {v : K} (hv : ¬ IsWhole v) : (Scalar.floor v : K) < Scalar.ceil v := by
  have hbelow : (Scalar.floor v : K) < v :=
    lt_of_le_of_ne (Int.floor_le v) fun h => hv ⟨⌊v⌋, h.symm⟩
  exact hbelow.trans_le (Int.le_ceil v)

/-- A point that is whole at the split variable lies in one half if it lies in the box, and in none
otherwise. -/
theorem Node.Holds.occurrences_split (hx : node.Holds cap x)
    (hcap : ((|coordinate x j| : K) : WithTop K) < cap) (hupper : j < node.upper.length)
    (hlower : j < node.lower.length) (hv : ¬ IsWhole (coordinate x j))
    (hwhole : IsWhole (y.getD j 0)) :
    occurrences cap (split node j (coordinate x j)) y = occurrences cap [node] y := by
  have hbelow := hx.lower_half_iff (y := y) hcap hupper
  have habove := hx.upper_half_iff (y := y) hcap hlower
  have hgap := floor_lt_ceil hv
  rw [split, occurrences_cons]
  by_cases hy : node.Holds cap y
  · rw [occurrences_of_holds hy]
    rcases hwhole.le_floor_or_ceil_le (coordinate x j) with hle | hle
    · rw [occurrences_of_holds (hbelow.2 ⟨hy, hle⟩),
        occurrences_of_not_holds fun h => (hle.trans_lt hgap).not_ge (habove.1 h).2]
    · rw [occurrences_of_holds (habove.2 ⟨hy, hle⟩),
        occurrences_of_not_holds fun h => (hgap.trans_le hle).not_ge (hbelow.1 h).2]
  · rw [occurrences_of_not_holds hy, occurrences_of_not_holds fun h => hy (hbelow.1 h).1,
      occurrences_of_not_holds fun h => hy (habove.1 h).1]

theorem Node.Holds.of_mem_split {child : Node K} (hx : node.Holds cap x)
    (hcap : ((|coordinate x j| : K) : WithTop K) < cap) (hupper : j < node.upper.length)
    (hlower : j < node.lower.length) (hchild : child ∈ split node j (coordinate x j))
    (hy : child.Holds cap y) : node.Holds cap y := by
  rcases mem_split.1 hchild with rfl | rfl
  · exact ((hx.lower_half_iff hcap hupper).1 hy).1
  · exact ((hx.upper_half_iff hcap hlower).1 hy).1

end Halves

/-! ### Open and closed boxes -/

/-- With this fate a box is neither split nor the end of the search. -/
def Fate.closes {α : Type} : Fate α → Bool
  | .infeasible | .unresolved | .pruned | .accepted _ => true
  | .branched _ | .halted _ => false

/-- The boxes that were visited and not split. -/
def State.closed {α : Type} (s : State α) : List (Node α) :=
  (s.log.filter (·.fate.closes)).map (·.node)

/-- All boxes that were ever open. -/
def State.pushed {α : Type} (s : State α) : List (Node α) := s.stack ++ s.log.map (·.node)

end Search

namespace Model

variable {m : Model K} {cap : WithTop K}

/-- The points that solve relaxations lie in their boxes, and at the integral variables they are
smaller than the bounds that count as none. -/
def SolvesInside (m : Model K) (cap : WithTop K) (relax : Relax K) : Prop :=
  ∀ turn node r, node.lower.length = m.nVar → node.upper.length = m.nVar →
    relax turn node = .ok r → r.status.Solves →
      node.Holds cap r.x ∧ ∀ j ∈ m.integerIndices, ((|coordinate r.x j| : K) : WithTop K) < cap

/-- What holds between the visits. -/
structure Partitioned (m : Model K) (cap : WithTop K) (s : State K) : Prop where
  sized : s.Sized m.nVar
  /-- No box goes beyond the first one. -/
  inside : ∀ node ∈ s.pushed, ∀ y, node.Holds cap y → m.root.Holds cap y
  /-- A point of the first box that is whole is in one open or closed box. -/
  once : ∀ y, m.root.Holds cap y → (∀ j ∈ m.integerIndices, IsWhole (y.getD j 0)) →
    occurrences cap (s.stack ++ s.closed) y = 1

theorem partitioned_start : m.Partitioned cap (.start m.effectiveBounds.1 m.effectiveBounds.2) where
  sized := sized_start m.length_effectiveBounds
  inside node hnode y hy := by
    obtain rfl : node = m.root := List.mem_singleton.1 hnode
    exact hy
  once y hy _ := occurrences_of_holds hy

variable [IsStrictOrderedRing K] {s : State K} {node : Node K} {rest : List (Node K)}
  {r : Relaxation K} {f : Fate K}

/-- **Every visit that does not end the search preserves the invariant.** -/
theorem Partitioned.visit (h : m.Partitioned cap s) (htolerance : 0 ≤ m.controls.limits.intTol)
    {relax : Relax K} (hinside : m.SolvesInside cap relax) (hstack : s.stack = node :: rest)
    {turn : Nat} (hrelax : relax turn node = .ok r)
    (hf : Settles m.searchTarget s.incumbent node r f) (hgo : ∀ st, f ≠ .halted st) :
    m.Partitioned cap (s.visit rest ⟨node, r, f⟩) := by
  obtain ⟨hlower, hupper⟩ := h.sized node (by simp [hstack])
  -- a box is split at a value inside it that is not whole
  have hsplit : ∀ j, f = .branched j → node.Holds cap r.x ∧
      ((|coordinate r.x j| : K) : WithTop K) < cap ∧ j ∈ m.integerIndices ∧
      ¬ IsWhole (coordinate r.x j) := by
    rintro j rfl
    cases hf with
    | branched _ hsolves _ hmost =>
        obtain ⟨hj, hfar⟩ := mem_far_of_mostFractional hmost
        obtain ⟨hx, hcap⟩ := hinside turn node r hlower hupper hrelax hsolves
        exact ⟨hx, hcap j hj, hj, not_isWhole_of_far htolerance hfar⟩
  refine ⟨h.sized.visit hstack, fun child hchild y hy => ?_, fun y hy hwhole => ?_⟩
  · have hnode : node ∈ s.pushed := List.mem_append_left _ (by simp [hstack])
    rcases List.mem_append.1 hchild with hopen | hvisited
    · rcases mem_stack_visit hopen with ⟨j, hj, hchild⟩ | hrest
      · obtain ⟨hx, hcap, hint, -⟩ := hsplit j hj
        have hlt := lt_nVar_of_mem_integerIndices hint
        exact h.inside node hnode y
          (hx.of_mem_split hcap (by rwa [hupper]) (by rwa [hlower]) hchild hy)
      · exact h.inside child (List.mem_append_left _ (by simp [hstack, hrest])) y hy
    · rcases List.mem_cons.1 hvisited with rfl | hvisited
      · exact h.inside _ hnode y hy
      · exact h.inside child (List.mem_append_right _ hvisited) y hy
  · have honce := h.once y hy hwhole
    rw [hstack, List.cons_append, occurrences_cons, occurrences_append] at honce
    cases f with
    | branched j =>
        obtain ⟨hx, hcap, hint, hv⟩ := hsplit j rfl
        have hlt := lt_nVar_of_mem_integerIndices hint
        have hhalves := hx.occurrences_split hcap (by rwa [hupper]) (by rwa [hlower]) hv
          (hwhole j hint)
        show occurrences cap ((split node j (coordinate r.x j) ++ rest) ++ s.closed) y = 1
        rw [occurrences_append, occurrences_append]
        omega
    | halted st => exact absurd rfl (hgo st)
    -- the node goes from the open boxes to the closed ones
    | _ =>
        show occurrences cap (rest ++ node :: s.closed) y = 1
        rw [occurrences_append, occurrences_cons]
        omega

/-- **The open and the closed boxes make up the first one.**  Let the points that solve relaxations
lie in the boxes, and let some rounds of the loop lead from the first box to a state, with whatever
limits and answers otherwise.  Then every point of the first box that is whole at the integral
variables lies in exactly one of the boxes that are open or were closed without a split, and no box
that was ever open has a point outside of the first one. -/
theorem leads_partitions [EngineDefaults K] (hm : m.Reachable) {relax : Relax K}
    (hinside : m.SolvesInside cap relax) {expired : Nat → Bool} {limit : Nat}
    (h : ReflTransGen (Leads m.searchTarget relax expired limit)
      (.start m.effectiveBounds.1 m.effectiveBounds.2) s) :
    (∀ y, m.root.Holds cap y → (∀ j ∈ m.integerIndices, IsWhole (y.getD j 0)) →
      occurrences cap (s.stack ++ s.closed) y = 1) ∧
    ∀ node ∈ s.pushed, ∀ y, node.Holds cap y → m.root.Holds cap y := by
  have hpartitioned : m.Partitioned cap s := by
    induction h with
    | refl => exact partitioned_start
    | tail _ hstep ih =>
        obtain ⟨node, rest, v, hstack, -, -, hvisit, hgo, rfl⟩ := hstep.cases
        obtain ⟨r, f, hrelax, hf, rfl⟩ := examine_eq_ok_iff.1 hvisit
        exact ih.visit hm.limitsInRange.1.le hinside hstack hrelax (fate_settles hf) hgo
  exact ⟨hpartitioned.once, hpartitioned.inside⟩

theorem halfModel_solvesInside : halfModel.SolvesInside ⊤ (halfModel.nodeRelax halfEngine) := by
  intro turn node r hlower hupper hrelax hsolves
  obtain ⟨lower, upper, depth⟩ := node
  refine ⟨?_, fun j _ => WithTop.coe_lt_top _⟩
  rcases halfModel_relax hlower hupper hrelax with
    ⟨rfl, rfl, -, hx⟩ | ⟨rfl, rfl, -, hx⟩ | ⟨-, -, h⟩ | h
  · rw [hx, holds_interval]
    norm_num
  · rw [hx, holds_interval]
    norm_num
  · simp [Termination.Solves, h] at hsolves
  · exact absurd hsolves h.1

/-- After the split at a half, three is in one of the two boxes. -/
theorem leads_partitions_half :
    halfModel.SolvesInside ⊤ (halfModel.nodeRelax halfEngine) ∧
    ∃ s, ReflTransGen (Leads halfModel.searchTarget (halfModel.nodeRelax halfEngine)
        (fun _ => false) 10) (.start halfModel.effectiveBounds.1 halfModel.effectiveBounds.2) s ∧
      s.stack.length = 2 ∧ occurrences ⊤ (s.stack ++ s.closed) [3] = 1 := by
  have hsplit : (match advance halfModel.searchTarget (halfModel.nodeRelax halfEngine)
      (fun _ => false) 10 (.start halfModel.effectiveBounds.1 halfModel.effectiveBounds.2) with
    | .on s => s.stack.length
    | .over _ => 0) = 2 := by
    decide +kernel
  refine ⟨halfModel_solvesInside, ?_⟩
  rcases hadvance : advance halfModel.searchTarget (halfModel.nodeRelax halfEngine)
      (fun _ => false) 10 (.start halfModel.effectiveBounds.1 halfModel.effectiveBounds.2)
    with result | s
  · simp [hadvance] at hsplit
  · rw [hadvance] at hsplit
    have hroot : halfModel.root.Holds ⊤ [3] := by
      show Node.Holds ⊤ ⟨[0], [10], 0⟩ [3]
      rw [holds_interval]
      norm_num
    refine ⟨s, .single hadvance, hsplit,
      (leads_partitions halfModel_reachable halfModel_solvesInside (.single hadvance)).1 [3] hroot
        fun j hj => ?_⟩
    obtain rfl : j = 0 := by simpa [show halfModel.integerIndices = [0] from rfl] using hj
    exact ⟨3, by simp⟩

end Model

end QuadProg
