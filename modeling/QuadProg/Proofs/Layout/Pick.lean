import QuadProg.Proofs.Layout.Cover

/-!
# Values come from the last block that ends within

`Layout.check` does not see to it that the blocks of a layout cover a problem (`Layout.Covers`), so
lists may be cut along any blocks.  What an identity gets then is settled by its own blocks, in
their order:

```text
the blocks of the identity         its value
none of them ends within           none
some end within                    the numbers in the last of these
```

Blocks that do not end within the list are skipped.  Equations come before inequalities, so that an
identity in both has the numbers of its inequality (`pick?`).
-/

namespace QuadProg

/-! ### The last block of an identity -/

/-- The last of the blocks with this identity that end within the first `n` rows. -/
def lastWithin (bs : List RowBlock) (n : Nat) (i : Ident) : Option RowBlock :=
  (bs.filter fun b => b.ident = i ∧ b.offset + b.size ≤ n).getLast?

/-- The numbers in the last block of an identity that ends within the list. -/
def pick? {α : Type} (bs : List RowBlock) (xs : List α) (i : Ident) : Option (List α) :=
  (lastWithin bs xs.length i).map (piece xs)

section Pick

variable {α : Type} {bs : List RowBlock} {xs : List α} {i : Ident}

theorem pick?_cons (b : RowBlock) (bs : List RowBlock) (xs : List α) (i : Ident) :
    pick? (b :: bs) xs i = (pick? bs xs i).or
      (if b.ident = i ∧ b.offset + b.size ≤ xs.length then some (piece xs b) else none) := by
  unfold pick? lastWithin
  rw [List.filter_cons]
  split_ifs with h h' h'
  · rw [List.getLast?_cons]
    cases (bs.filter fun c => c.ident = i ∧ c.offset + c.size ≤ xs.length).getLast? <;> rfl
  · exact absurd (of_decide_eq_true h) h'
  · exact absurd (decide_eq_true h') h
  · rw [Option.or_none]

theorem isSome_pick?_iff : (pick? bs xs i).isSome = true ↔
    ∃ b ∈ bs, b.ident = i ∧ b.offset + b.size ≤ xs.length := by
  induction bs with
  | nil => simp [pick?, lastWithin]
  | cons b bs ih =>
      rw [pick?_cons, Option.isSome_or, Bool.or_eq_true, ih, List.exists_mem_cons_iff, or_comm]
      split_ifs with h <;> simp [h]

theorem pick?_eq_none (h : i ∉ bs.map (·.ident)) : pick? bs xs i = none := by
  rw [← Option.not_isSome_iff_eq_none, isSome_pick?_iff]
  rintro ⟨b, hb, hident, -⟩
  exact h (hident ▸ List.mem_map_of_mem hb)

/-- Where identities are distinct, each has the numbers of its block. -/
theorem pick?_of_nodup (hids : (bs.map (·.ident)).Nodup) (hend : EndWithin bs xs.length)
    {b : RowBlock} (hb : b ∈ bs) : pick? bs xs b.ident = some (piece xs b) := by
  induction bs with
  | nil => cases hb
  | cons c bs ih =>
      obtain ⟨hnot, hrest⟩ := List.nodup_cons.1 hids
      obtain ⟨hc, hends⟩ := List.forall_mem_cons.1 hend
      rw [pick?_cons]
      rcases List.mem_cons.1 hb with rfl | hb
      · rw [pick?_eq_none hnot, Option.none_or, if_pos ⟨rfl, hc⟩]
      · rw [ih hrest hends hb, Option.some_or]

end Pick

namespace Assignment

variable {α β : Type}

theorem lookup_filter_ne (es : List (Ident × Value α)) (i j : Ident) :
    (es.filter (·.1 ≠ i)).lookup j = if j = i then none else es.lookup j := by
  induction es with
  | nil => simp
  | cons e es ih =>
      rw [List.filter_cons]
      by_cases he : e.1 = i
      · rw [if_neg (by simpa using he), ih]
        split_ifs with hj
        · rfl
        · rw [List.lookup_cons, beq_false_of_ne fun heq => hj (heq.trans he)]
      · rw [if_pos (by simpa using he), List.lookup_cons, List.lookup_cons, ih]
        split_ifs with hj
        · rw [beq_false_of_ne fun heq => he (heq.symm.trans hj)]
        · rfl

theorem get?_put (a : Assignment α) (i j : Ident) (v : Value α) :
    (a.put i v).get? j = if j = i then some v else a.get? j := by
  rw [get?, put, List.lookup_append, lookup_filter_ne]
  split_ifs with h
  · rw [h, List.lookup_cons_self, Option.none_or]
  · rw [List.lookup_cons, beq_false_of_ne h, List.lookup_nil, Option.or_none, get?]

/-- Blocks are put one after the other, so the last one with a value counts. -/
theorem entries_get?_putAll {block : β → RowBlock} {value : β → Option (Value α)} {xs : List α}
    {bs : List β}
    (h : ∀ b ∈ bs, (value b).map Value.entries =
      if (block b).offset + (block b).size ≤ xs.length then some (piece xs (block b)) else none)
    (a : Assignment α) (i : Ident) :
    ((putAll (fun b => (block b).ident) value bs a).get? i).map Value.entries =
      (pick? (bs.map block) xs i).or ((a.get? i).map Value.entries) := by
  induction bs generalizing a with
  | nil => rfl
  | cons b bs ih =>
      obtain ⟨hb, hbs⟩ := List.forall_mem_cons.1 h
      rw [putAll_cons, ih hbs, List.map_cons, pick?_cons, Option.or_assoc]
      congr 1
      cases hv : value b with
      | none =>
          have hbeyond : ¬ (block b).offset + (block b).size ≤ xs.length := fun hle => by
            simp [hv, hle] at hb
          rw [if_neg fun hown => hbeyond hown.2, Option.none_or]
      | some v =>
          have hwithin : (block b).offset + (block b).size ≤ xs.length := by
            by_contra hbeyond
            simp [hv, hbeyond] at hb
          rw [hv, if_pos hwithin] at hb
          rw [get?_put]
          by_cases hi : i = (block b).ident
          · rw [if_pos hi, hb, if_pos ⟨hi.symm, hwithin⟩, Option.some_or]
          · rw [if_neg hi, if_neg fun hown => hi hown.1.symm, Option.none_or]

end Assignment

/-! ### What is cut -/

namespace Layout

variable {α : Type}

theorem entries_cutVars (l : Layout) (x : List α) (i : Ident) :
    ((l.cutVars x).get? i).map Value.entries = pick? l.columns x i := by
  have hvalue : ∀ b ∈ l.vars,
      ((slice? x b.offset b.shape.size).bind (Value.ofShape? b.shape)).map Value.entries =
        if b.columns.offset + b.columns.size ≤ x.length then some (piece x b.columns)
        else none := by
    intro b _
    by_cases hend : b.offset + b.shape.size ≤ x.length
    · obtain ⟨v, hv, -, hentries⟩ :=
        Value.ofShape?_eq_some (s := b.shape) (length_piece (b := b.columns) hend)
      have hslice : slice? x b.offset b.shape.size = some (piece x b.columns) :=
        slice?_eq_piece (b := b.columns) hend
      rw [hslice, Option.bind_some, hv, Option.map_some, hentries]
      exact (if_pos hend).symm
    · rw [slice?, if_neg hend]
      exact (if_neg hend).symm
  exact (Assignment.entries_get?_putAll hvalue {} i).trans (Option.or_none ..)

variable [One α] [Mul α]

theorem entries_cutRows (bs : List RowBlock) (z : List α) (a : Assignment α) (i : Ident) :
    ((cutRows bs z a).get? i).map Value.entries =
      (pick? bs (z.map (· * dualSign)) i).or ((a.get? i).map Value.entries) := by
  have hvalue : ∀ b ∈ bs, ((slice? z b.offset b.size).map fun vs =>
      dualValue (vs.map (· * dualSign))).map Value.entries =
        if (id b).offset + (id b).size ≤ (z.map (· * dualSign)).length
        then some (piece (z.map (· * dualSign)) (id b)) else none := by
    intro b _
    rw [List.length_map]
    by_cases hend : b.offset + b.size ≤ z.length
    · rw [slice?_eq_piece hend, Option.map_some, Option.map_some, entries_dualValue, piece, piece,
        List.map_take, List.map_drop]
      exact (if_pos hend).symm
    · rw [slice?, if_neg hend]
      exact (if_neg hend).symm
  rw [cutRows_eq_putAll]
  exact (Assignment.entries_get?_putAll hvalue a i).trans (by rw [List.map_id])

end Layout

/-! ### What a solution reads -/

section Reads

variable {α : Type}

/-- Every identity has the numbers of the point in the last of its blocks that ends within, and no
value without such a block.  If all blocks end within and no identity has two, then each has the
numbers in its own block. -/
structure Solution.ReadsColumns (sol : Solution α) (l : Layout) (x : List α) : Prop where
  value : ∀ i, (sol.value? i).map Value.entries = pick? l.columns x i
  present : ∀ i, (sol.value? i).isSome = true ↔
    ∃ b ∈ l.columns, b.ident = i ∧ b.offset + b.size ≤ x.length
  own : EndWithin l.columns x.length → (l.columns.map (·.ident)).Nodup →
    ∀ b ∈ l.columns, (sol.value? b.ident).map Value.entries = some (piece x b)

/-- The same for dual values, with the equations before the inequalities. -/
structure Solution.ReadsRows (sol : Solution α) (l : Layout) (y w : List α) : Prop where
  dual : ∀ i, (sol.dual? i).map Value.entries = (pick? l.ineqs w i).or (pick? l.eqs y i)
  present : ∀ i, (sol.dual? i).isSome = true ↔
    (∃ b ∈ l.ineqs, b.ident = i ∧ b.offset + b.size ≤ w.length) ∨
      ∃ b ∈ l.eqs, b.ident = i ∧ b.offset + b.size ≤ y.length
  own : EndWithin l.eqs y.length → EndWithin l.ineqs w.length →
    (l.eqs.map (·.ident) ++ l.ineqs.map (·.ident)).Nodup →
    (∀ b ∈ l.eqs, (sol.dual? b.ident).map Value.entries = some (piece y b)) ∧
      ∀ b ∈ l.ineqs, (sol.dual? b.ident).map Value.entries = some (piece w b)

theorem Solution.readsColumns_of_value {sol : Solution α} {l : Layout} {x : List α}
    (h : ∀ i, (sol.value? i).map Value.entries = pick? l.columns x i) : sol.ReadsColumns l x := by
  refine ⟨h, fun i => ?_, fun hend hids b hb => (h b.ident).trans (pick?_of_nodup hids hend hb)⟩
  rw [← isSome_pick?_iff, ← h, Option.isSome_map]

theorem Solution.readsRows_of_dual {sol : Solution α} {l : Layout} {y w : List α}
    (h : ∀ i, (sol.dual? i).map Value.entries = (pick? l.ineqs w i).or (pick? l.eqs y i)) :
    sol.ReadsRows l y w := by
  refine ⟨h, fun i => ?_, fun heqs hineqs hids => ?_⟩
  · rw [← isSome_pick?_iff, ← isSome_pick?_iff, ← Bool.or_eq_true, ← Option.isSome_or, ← h,
      Option.isSome_map]
  · obtain ⟨hidsEq, hidsIneq, hapart⟩ := List.nodup_append.1 hids
    refine ⟨fun b hb => ?_, fun b hb => ?_⟩
    · have hnot : b.ident ∉ l.ineqs.map (·.ident) := fun hmem =>
        hapart _ (List.mem_map_of_mem hb) _ hmem rfl
      rw [h, pick?_eq_none hnot, Option.none_or, pick?_of_nodup hidsEq heqs hb]
    · rw [h, pick?_of_nodup hidsIneq hineqs hb, Option.some_or]

end Reads

end QuadProg
