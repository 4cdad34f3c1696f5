import QuadProg.Proofs.Layout.Partition

/-!
# Layouts that cover a problem

`Layout.check` compares three numbers with the dimensions of a problem, and each of them says less
than that every column and every row belongs to exactly one block:

```text
variables        the sizes of all blocks together, as a machine word
equations        the row after the last block
inequalities     the row after the last block
```

What is missing can be said exactly, for blocks that end within the problem (`cover_iff`).  Each of
the first `n` rows belongs to exactly one block if and only if no row belongs to two and the sizes
add up to `n`.  The counting behind this is that of all pairs of a block and a row of it, once by
rows and once by blocks (`sum_holders`).  So the variables of a layout that was checked cover the
columns as soon as they do not overlap, and constraints cover the rows if their sizes add up, too.
That the sizes of the variables are added up in a word makes no difference here, since blocks that
are apart have no more columns than the problem (`Apart.rowTotal_le`).

Blocks that follow each other without gaps have all of this (`Tiles.cover`), and layouts that were
built within a word have such blocks only.
-/

namespace QuadProg

/-! ### Rows of blocks -/

/-- The row is one of the block. -/
def RowBlock.Has (b : RowBlock) (r : Nat) : Prop := b.offset ≤ r ∧ r < b.offset + b.size

instance (b : RowBlock) (r : Nat) : Decidable (b.Has r) := instDecidableAnd

/-- The number of blocks that a row belongs to. -/
def holders (bs : List RowBlock) (r : Nat) : Nat := bs.countP (·.Has r)

/-- Each of the first `n` rows belongs to exactly one block. -/
def Cover (bs : List RowBlock) (n : Nat) : Prop := ∀ r < n, holders bs r = 1

/-- No row belongs to two blocks. -/
def Apart (bs : List RowBlock) : Prop := bs.Pairwise fun b c => ∀ r, ¬ (b.Has r ∧ c.Has r)

/-- All blocks, also those without rows, end within the first `n` rows. -/
def EndWithin (bs : List RowBlock) (n : Nat) : Prop := ∀ b ∈ bs, b.offset + b.size ≤ n

instance (bs : List RowBlock) (n : Nat) : Decidable (Cover bs n) :=
  inferInstanceAs (Decidable (∀ r < n, holders bs r = 1))

instance (bs : List RowBlock) (n : Nat) : Decidable (EndWithin bs n) :=
  inferInstanceAs (Decidable (∀ b ∈ bs, b.offset + b.size ≤ n))

theorem holders_cons (b : RowBlock) (bs : List RowBlock) (r : Nat) :
    holders (b :: bs) r = holders bs r + if b.Has r then 1 else 0 := by
  simp [holders, List.countP_cons]

theorem holders_eq_zero_iff {bs : List RowBlock} {r : Nat} :
    holders bs r = 0 ↔ ∀ b ∈ bs, ¬ b.Has r := by
  simp [holders, List.countP_eq_zero]

/-- No row belongs to two blocks if and only if every row belongs to at most one. -/
theorem apart_iff {bs : List RowBlock} : Apart bs ↔ ∀ r, holders bs r ≤ 1 := by
  induction bs with
  | nil => simp [Apart, holders]
  | cons b bs ih =>
      rw [Apart, List.pairwise_cons]
      change _ ∧ Apart bs ↔ _
      rw [ih]
      simp only [holders_cons]
      constructor
      · rintro ⟨hb, hbs⟩ r
        by_cases hr : b.Has r
        · have hzero : holders bs r = 0 :=
            holders_eq_zero_iff.2 fun c hc hcr => hb c hc r ⟨hr, hcr⟩
          rw [hzero, if_pos hr]
        · rw [if_neg hr]
          exact hbs r
      · intro h
        refine ⟨fun c hc r hr => ?_, fun r => (Nat.le_add_right _ _).trans (h r)⟩
        have hone := h r
        rw [if_pos hr.1] at hone
        exact holders_eq_zero_iff.1 (by omega) c hc hr.2

theorem card_has {b : RowBlock} {n : Nat} (h : b.offset + b.size ≤ n) :
    ∑ r ∈ Finset.range n, (if b.Has r then 1 else 0) = b.size := by
  have hrows : (Finset.range n).filter b.Has = Finset.Ico b.offset (b.offset + b.size) := by
    ext r
    simp only [Finset.mem_filter, Finset.mem_range, Finset.mem_Ico, RowBlock.Has]
    omega
  rw [← Finset.sum_filter, hrows]
  simp

/-- Counted row by row, the blocks have as many rows as counted block by block. -/
theorem sum_holders {bs : List RowBlock} {n : Nat} (h : EndWithin bs n) :
    ∑ r ∈ Finset.range n, holders bs r = rowTotal bs := by
  induction bs with
  | nil => simp [holders, rowTotal]
  | cons b bs ih =>
      obtain ⟨hb, hbs⟩ := List.forall_mem_cons.1 h
      simp only [holders_cons]
      rw [Finset.sum_add_distrib, ih hbs, card_has hb, rowTotal, rowTotal, List.map_cons,
        List.sum_cons, Nat.add_comm]

theorem Apart.rowTotal_le {bs : List RowBlock} {n : Nat} (hapart : Apart bs)
    (h : EndWithin bs n) : rowTotal bs ≤ n := by
  rw [← sum_holders h]
  calc ∑ r ∈ Finset.range n, holders bs r
      ≤ ∑ _r ∈ Finset.range n, 1 := Finset.sum_le_sum fun r _ => apart_iff.1 hapart r
    _ = n := by simp

/-- **Blocks cover the rows if they are apart and add up.** -/
theorem cover_iff {bs : List RowBlock} {n : Nat} (h : EndWithin bs n) :
    Cover bs n ↔ Apart bs ∧ rowTotal bs = n := by
  have hones : ∑ _r ∈ Finset.range n, 1 = n := by simp
  rw [apart_iff]
  constructor
  · intro hcover
    have hsum : ∑ r ∈ Finset.range n, holders bs r = ∑ _r ∈ Finset.range n, 1 :=
      Finset.sum_congr rfl fun r hr => hcover r (Finset.mem_range.1 hr)
    refine ⟨fun r => ?_, by rw [← sum_holders h, hsum, hones]⟩
    rcases Nat.lt_or_ge r n with hr | hr
    · exact (hcover r hr).le
    · -- no block goes on so far
      have hzero : holders bs r = 0 := holders_eq_zero_iff.2 fun b hb hbr => by
        have hend := h b hb
        have hlt := hbr.2
        omega
      omega
  · rintro ⟨hle, htotal⟩ r hr
    have hsum : ∑ r ∈ Finset.range n, holders bs r = ∑ _r ∈ Finset.range n, 1 := by
      rw [sum_holders h, htotal, hones]
    exact (Finset.sum_eq_sum_iff_of_le fun r _ => hle r).1 hsum r (Finset.mem_range.2 hr)

/-! ### Blocks that follow each other -/

theorem Tiles.endWithin {start stop : Nat} {bs : List RowBlock} (h : Tiles start bs stop) :
    EndWithin bs stop := fun _ hb => h.end_le hb

theorem Tiles.le_offset {start stop : Nat} {bs : List RowBlock} (h : Tiles start bs stop)
    {b : RowBlock} (hb : b ∈ bs) : start ≤ b.offset := by
  induction bs generalizing start with
  | nil => cases hb
  | cons c bs ih =>
      rcases List.mem_cons.1 hb with rfl | hb
      · exact h.1.ge
      · exact (Nat.le_add_right _ _).trans (ih h.2 hb)

theorem Tiles.apart {start stop : Nat} {bs : List RowBlock} (h : Tiles start bs stop) :
    Apart bs := by
  induction bs generalizing start with
  | nil => exact .nil
  | cons b bs ih =>
      refine List.pairwise_cons.2 ⟨fun c hc r hr => ?_, ih h.2⟩
      have hc := h.2.le_offset hc
      have hoffset := h.1
      have hlt := hr.1.2
      have hge := hr.2.1
      omega

theorem Tiles.cover {n : Nat} {bs : List RowBlock} (h : Tiles 0 bs n) : Cover bs n :=
  (cover_iff h.endWithin).2 ⟨h.apart, by simpa using h.rowTotal_eq⟩

/-! ### Layouts that were checked -/

namespace Layout

variable {α : Type} {l : Layout} {d : Problem α}

/-- Every column and every row of the problem belongs to exactly one block. -/
structure Covers (l : Layout) (d : Problem α) : Prop where
  columns : Cover l.columns d.nVar
  equations : Cover l.eqs d.nEq
  inequalities : Cover l.ineqs d.nIneq

/-- All blocks end with the problem or before. -/
structure EndsWithin (l : Layout) (d : Problem α) : Prop where
  columns : EndWithin l.columns d.nVar
  equations : EndWithin l.eqs d.nEq
  inequalities : EndWithin l.ineqs d.nIneq

/-- Added up word by word, numbers are what they are together, as a word. -/
theorem foldl_wordSum (ns : List Nat) (start : Nat) :
    ns.foldl wordSum (start % wordSize) = (start + ns.sum) % wordSize := by
  induction ns generalizing start with
  | nil => rfl
  | cons n ns ih =>
      rw [List.foldl_cons, wordSum, Nat.mod_add_mod, ih, List.sum_cons, Nat.add_assoc]

theorem nVar_eq_mod (l : Layout) : l.nVar = rowTotal l.columns % wordSize := by
  have hsum := foldl_wordSum (l.vars.map (·.shape.size)) 0
  rw [Nat.zero_mod, Nat.zero_add] at hsum
  rw [nVar, hsum, rowTotal, columns, List.map_map]
  rfl

/-- The check sees to the sizes of the variables and to nothing else that covering takes. -/
theorem covers_iff_of_check (hcheck : l.check d = .ok ()) (h : l.EndsWithin d) :
    l.Covers d ↔ Apart l.columns ∧ (Apart l.eqs ∧ rowTotal l.eqs = d.nEq) ∧
      Apart l.ineqs ∧ rowTotal l.ineqs = d.nIneq := by
  rw [← cover_iff h.equations, ← cover_iff h.inequalities]
  constructor
  · intro hcovers
    exact ⟨((cover_iff h.columns).1 hcovers.columns).1, hcovers.equations, hcovers.inequalities⟩
  · intro ⟨hapart, heqs, hineqs⟩
    have hnVar : rowTotal l.columns % wordSize = d.nVar :=
      l.nVar_eq_mod.symm.trans (counts_of_check hcheck).1
    have hle : d.nVar ≤ rowTotal l.columns := hnVar ▸ Nat.mod_le _ _
    have htotal := (hapart.rowTotal_le h.columns).antisymm hle
    exact ⟨(cover_iff h.columns).2 ⟨hapart, htotal⟩, heqs, hineqs⟩

theorem Built.covers (h : l.Built) (hword : l.InWord) (hcheck : l.check d = .ok ()) :
    l.EndsWithin d ∧ l.Covers d := by
  obtain ⟨hvars, heqs, hineqs⟩ := h.partitions hword hcheck
  exact ⟨⟨hvars.endWithin, heqs.endWithin, hineqs.endWithin⟩,
    ⟨hvars.cover, heqs.cover, hineqs.cover⟩⟩

end Layout

end QuadProg
