import QuadProg.Proofs.Model.Feasible

/-!
# Splitting boxes

A box is split at a value of one variable.  No whole number lies strictly between the largest whole
number below the value and the smallest above it, so the halves miss no point that is whole there
(`Within.exists_split`).  If the value lies in the box, the halves are parts of it
(`Within.of_split`).  Both hold whatever bounds count as infinite.

So the open boxes of a search have as many bounds as the first one (`State.Sized`), and they are
parts of it as long as boxes are split at points inside them (`within_visit`).
-/

namespace QuadProg

open Search

variable {K : Type} [Field K] [LinearOrder K] [FloorRing K]

theorem mem_split {node child : Node K} {j : Nat} {v : K} :
    child ∈ split node j v ↔
      child = ⟨node.lower, node.upper.set j (Scalar.floor v), node.depth + 1⟩ ∨
        child = ⟨node.lower.set j (Scalar.ceil v), node.upper, node.depth + 1⟩ := by
  simp [split]

theorem length_of_mem_split {node child : Node K} {j : Nat} {v : K} (h : child ∈ split node j v) :
    child.lower.length = node.lower.length ∧ child.upper.length = node.upper.length := by
  rcases mem_split.1 h with rfl | rfl <;> simp

omit [Field K] [LinearOrder K] [FloorRing K] in
theorem getElem?_set_cases {bounds : List K} {j k : Nat} {v b : K}
    (h : (bounds.set j v)[k]? = some b) : (k = j ∧ b = v) ∨ bounds[k]? = some b := by
  rw [List.getElem?_set] at h
  split_ifs at h with hk hlt
  · exact .inl ⟨hk.symm, (Option.some.inj h).symm⟩
  · exact .inr h

omit [Field K] [LinearOrder K] [FloorRing K] in
theorem getElem?_set_of {bounds : List K} {k : Nat} {b : K} (h : bounds[k]? = some b) (j : Nat)
    (v : K) : (k = j ∧ (bounds.set j v)[k]? = some v) ∨ (bounds.set j v)[k]? = some b := by
  have hlt := (List.getElem?_eq_some_iff.1 h).1
  by_cases hk : k = j
  · subst hk
    exact .inl ⟨rfl, List.getElem?_set_self hlt⟩
  · exact .inr (by rw [List.getElem?_set_ne (Ne.symm hk), h])

variable {infinity : K} {node : Node K} {j : Nat} {v : K} {y : List K}

theorem Within.lower_half (h : Within infinity node.lower node.upper y)
    (hle : y.getD j 0 ≤ Scalar.floor v) :
    Within infinity node.lower (node.upper.set j (Scalar.floor v)) y where
  le_upper k u hu hfinite := by
    rcases getElem?_set_cases hu with ⟨rfl, rfl⟩ | hu
    · exact hle
    · exact h.le_upper k u hu hfinite
  lower_le := h.lower_le

theorem Within.upper_half (h : Within infinity node.lower node.upper y)
    (hle : Scalar.ceil v ≤ y.getD j 0) :
    Within infinity (node.lower.set j (Scalar.ceil v)) node.upper y where
  le_upper := h.le_upper
  lower_le k l hl hfinite := by
    rcases getElem?_set_cases hl with ⟨rfl, rfl⟩ | hl
    · exact hle
    · exact h.lower_le k l hl hfinite

/-- A point of the box that is whole at the split variable lies in one of the halves. -/
theorem Within.exists_split [IsStrictOrderedRing K] (h : Within infinity node.lower node.upper y)
    (hwhole : IsWhole (y.getD j 0)) (v : K) :
    ∃ child ∈ split node j v, Within infinity child.lower child.upper y := by
  rcases hwhole.le_floor_or_ceil_le v with hle | hle
  · exact ⟨_, mem_split.2 (.inl rfl), h.lower_half hle⟩
  · exact ⟨_, mem_split.2 (.inr rfl), h.upper_half hle⟩

/-- A box that is split at a value inside it contains both halves. -/
theorem Within.of_split [IsStrictOrderedRing K] {child : Node K} {x : List K}
    (hx : Within infinity node.lower node.upper x)
    (hchild : child ∈ split node j (x.getD j 0))
    (h : Within infinity child.lower child.upper y) :
    Within infinity node.lower node.upper y := by
  rcases mem_split.1 hchild with rfl | rfl
  · refine ⟨fun k u hu hfinite => ?_, h.lower_le⟩
    rcases getElem?_set_of hu j (Scalar.floor (x.getD j 0)) with ⟨rfl, hset⟩ | hset
    · -- the new bound lies below the old one, because the value does
      have hbelow : (Scalar.floor (x.getD k 0) : K) ≤ u :=
        calc (Scalar.floor (x.getD k 0) : K)
            ≤ x.getD k 0 := Int.floor_le _
          _ ≤ u := hx.le_upper k u hu hfinite
      exact (h.le_upper k _ hset (hbelow.trans_lt hfinite)).trans hbelow
    · exact h.le_upper k u hset hfinite
  · refine ⟨h.le_upper, fun k l hl hfinite => ?_⟩
    rcases getElem?_set_of hl j (Scalar.ceil (x.getD j 0)) with ⟨rfl, hset⟩ | hset
    · have habove : l ≤ (Scalar.ceil (x.getD k 0) : K) :=
        calc l ≤ x.getD k 0 := hx.lower_le k l hl hfinite
          _ ≤ Scalar.ceil (x.getD k 0) := Int.le_ceil _
      exact habove.trans (h.lower_le k _ hset (hfinite.trans_le habove))
    · exact h.lower_le k l hset hfinite

/-! ### The boxes of a search -/

namespace Search

variable {s : State K} {rest : List (Node K)} {r : Relaxation K} {f : Fate K}

/-- The open nodes after a visit are halves of the visited one or were open before. -/
theorem mem_stack_visit {child : Node K} (h : child ∈ (s.visit rest ⟨node, r, f⟩).stack) :
    (∃ j, f = .branched j ∧ child ∈ split node j (coordinate r.x j)) ∨ child ∈ rest := by
  cases f with
  | branched j =>
      rcases List.mem_append.1 h with hsplit | hrest
      · exact .inl ⟨j, rfl, hsplit⟩
      · exact .inr hrest
  | _ => exact .inr h

theorem rest_subset_stack_visit : rest ⊆ (s.visit rest ⟨node, r, f⟩).stack := by
  cases f with
  | branched j => exact List.subset_append_right _ _
  | _ => exact List.Subset.refl _

/-- Every open box has `n` lower and `n` upper bounds. -/
def State.Sized (n : Nat) (s : State K) : Prop :=
  ∀ node ∈ s.stack, node.lower.length = n ∧ node.upper.length = n

omit [Field K] [LinearOrder K] [FloorRing K] in
theorem sized_start {n : Nat} {lower upper : List K}
    (h : lower.length = n ∧ upper.length = n) : (State.start lower upper).Sized n := by
  intro node hnode
  obtain rfl := List.mem_singleton.1 hnode
  exact h

theorem State.Sized.visit {n : Nat} (h : s.Sized n) (hstack : s.stack = node :: rest) :
    (s.visit rest ⟨node, r, f⟩).Sized n := by
  intro child hchild
  rcases mem_stack_visit hchild with ⟨j, -, hsplit⟩ | hrest
  · obtain ⟨hlower, hupper⟩ := length_of_mem_split hsplit
    rw [hlower, hupper]
    exact h node (by simp [hstack])
  · exact h child (by simp [hstack, hrest])

theorem within_visit [IsStrictOrderedRing K] {lower upper : List K}
    (h : ∀ node ∈ s.stack, ∀ y, Within infinity node.lower node.upper y →
      Within infinity lower upper y)
    (hstack : s.stack = node :: rest)
    (hx : ∀ j, f = .branched j → Within infinity node.lower node.upper r.x) :
    ∀ child ∈ (s.visit rest ⟨node, r, f⟩).stack, ∀ y,
      Within infinity child.lower child.upper y → Within infinity lower upper y := by
  intro child hchild y hy
  rcases mem_stack_visit hchild with ⟨j, hj, hsplit⟩ | hrest
  · exact h node (by simp [hstack]) y ((hx j hj).of_split hsplit hy)
  · exact h child (by simp [hstack, hrest]) y hy

end Search

end QuadProg
