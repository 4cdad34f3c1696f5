import QuadProg.Proofs.Exact
import QuadProg.Adapter

/-!
# Cutting a point along a layout

The blocks of a layout that was built by appending follow each other without gaps (`Tiles`):

```text
0        offset          offset + size                 stop
|  ...   |     block     |       ...                   |
```

They do as long as the sizes add up to a machine word (`Layout.InWord`), since an offset beyond a
word would start from zero again.

So the pieces that a list of the right length is cut into make up the list again.  Each piece is
stored under the identity of its block, and no later block overrides it where the identities are
distinct; reading the blocks in order then gives the list back (`Assignment.Gathers`).
-/

namespace QuadProg

/-! ### Layouts that were built -/

/-- Layouts that were built by appending blocks, in any order. -/
inductive Layout.Built : Layout → Prop
  | empty : Built {}
  | addVar {l : Layout} (ident : Ident) (shape : Shape) : Built l → Built (l.addVar ident shape)
  | addEq {l : Layout} (ident : Ident) (size : Nat) : Built l → Built (l.addEq ident size)
  | addIneq {l : Layout} (ident : Ident) (size : Nat) : Built l → Built (l.addIneq ident size)
  | setMixed {l : Layout} (isMixed : Bool) : Built l → Built { l with isMixed }

/-- The blocks follow each other without gaps from `start` to `stop`. -/
def Tiles : Nat → List RowBlock → Nat → Prop
  | start, [], stop => start = stop
  | start, b :: bs, stop => b.offset = start ∧ Tiles (start + b.size) bs stop

/-- The columns of a variable as a block. -/
def VarBlock.columns (b : VarBlock) : RowBlock := ⟨b.ident, b.offset, b.shape.size⟩

/-- The columns of all variables, as blocks. -/
def Layout.columns (l : Layout) : List RowBlock := l.vars.map VarBlock.columns

/-- The sizes of all blocks together. -/
def rowTotal (bs : List RowBlock) : Nat := (bs.map (·.size)).sum

/-- The blocks of every kind add up to a machine word, so that nothing is lost of where they end. -/
structure Layout.InWord (l : Layout) : Prop where
  columns : rowTotal l.columns < wordSize
  equations : rowTotal l.eqs < wordSize
  inequalities : rowTotal l.ineqs < wordSize

theorem rowTotal_append (bs : List RowBlock) (ident : Ident) (offset size : Nat) :
    rowTotal (bs ++ [⟨ident, offset, size⟩]) = rowTotal bs + size := by
  simp [rowTotal]

theorem Tiles.rowTotal_eq {start stop : Nat} {bs : List RowBlock} (h : Tiles start bs stop) :
    start + rowTotal bs = stop := by
  induction bs generalizing start with
  | nil => exact h
  | cons b bs ih =>
      rw [← ih h.2, rowTotal, rowTotal, List.map_cons, List.sum_cons, Nat.add_assoc]

theorem Tiles.append {start stop : Nat} {bs : List RowBlock} (h : Tiles start bs stop)
    (ident : Ident) (size : Nat) : Tiles start (bs ++ [⟨ident, stop, size⟩]) (stop + size) := by
  induction bs generalizing start with
  | nil =>
      obtain rfl : start = stop := h
      exact ⟨rfl, rfl⟩
  | cons b bs ih => exact ⟨h.1, ih h.2⟩

/-- A block that is appended ends where it is said to, if all sizes add up to a word. -/
theorem Tiles.append_word {stop : Nat} {bs : List RowBlock} {ident : Ident} {size : Nat}
    (hword : rowTotal (bs ++ [⟨ident, stop, size⟩]) < wordSize)
    (h : rowTotal bs < wordSize → Tiles 0 bs stop) :
    Tiles 0 (bs ++ [⟨ident, stop, size⟩]) (wordSum stop size) := by
  rw [rowTotal_append] at hword
  have htiles := h (by omega)
  have htotal := htiles.rowTotal_eq
  have hsum : wordSum stop size = stop + size := Nat.mod_eq_of_lt (by omega)
  rw [hsum]
  exact htiles.append ident size

theorem Tiles.le {start stop : Nat} {bs : List RowBlock} (h : Tiles start bs stop) :
    start ≤ stop := by
  rw [← h.rowTotal_eq]
  exact Nat.le_add_right start (rowTotal bs)

theorem Tiles.end_le {start stop : Nat} {bs : List RowBlock} (h : Tiles start bs stop)
    {b : RowBlock} (hb : b ∈ bs) : b.offset + b.size ≤ stop := by
  induction bs generalizing start with
  | nil => cases hb
  | cons c bs ih =>
      rcases List.mem_cons.1 hb with rfl | hb
      · rw [h.1]
        exact h.2.le
      · exact ih h.2 hb

namespace Layout

theorem columns_addVar (l : Layout) (ident : Ident) (shape : Shape) :
    (l.addVar ident shape).columns = l.columns ++ [⟨ident, l.nVar, shape.size⟩] := by
  simp [addVar, columns, VarBlock.columns]

theorem nVar_addVar (l : Layout) (ident : Ident) (shape : Shape) :
    (l.addVar ident shape).nVar = wordSum l.nVar shape.size := by
  simp [addVar, nVar, List.foldl_append]

theorem nEq_addEq (l : Layout) (ident : Ident) (size : Nat) :
    (l.addEq ident size).nEq = wordSum l.nEq size := by
  simp [addEq, nEq, rowsEnd]

theorem nIneq_addIneq (l : Layout) (ident : Ident) (size : Nat) :
    (l.addIneq ident size).nIneq = wordSum l.nIneq size := by
  simp [addIneq, nIneq, rowsEnd]

/-- Every kind of block goes from zero to the number of columns or rows, if its sizes add up to a
word. -/
theorem Built.tiles_of_lt {l : Layout} (h : l.Built) :
    (rowTotal l.columns < wordSize → Tiles 0 l.columns l.nVar) ∧
      (rowTotal l.eqs < wordSize → Tiles 0 l.eqs l.nEq) ∧
      (rowTotal l.ineqs < wordSize → Tiles 0 l.ineqs l.nIneq) := by
  induction h with
  | empty => exact ⟨fun _ => rfl, fun _ => rfl, fun _ => rfl⟩
  | @addVar l ident shape _ ih =>
      refine ⟨fun hword => ?_, ih.2⟩
      rw [columns_addVar] at hword ⊢
      rw [nVar_addVar]
      exact Tiles.append_word hword ih.1
  | @addEq l ident size _ ih =>
      refine ⟨ih.1, fun hword => ?_, ih.2.2⟩
      rw [nEq_addEq]
      exact Tiles.append_word hword ih.2.1
  | @addIneq l ident size _ ih =>
      refine ⟨ih.1, ih.2.1, fun hword => ?_⟩
      rw [nIneq_addIneq]
      exact Tiles.append_word hword ih.2.2
  | setMixed _ _ ih => exact ih

theorem Built.tiles {l : Layout} (h : l.Built) (hword : l.InWord) :
    Tiles 0 l.columns l.nVar ∧ Tiles 0 l.eqs l.nEq ∧ Tiles 0 l.ineqs l.nIneq := by
  obtain ⟨hvars, heqs, hineqs⟩ := h.tiles_of_lt
  exact ⟨hvars hword.columns, heqs hword.equations, hineqs hword.inequalities⟩

theorem counts_of_check {α : Type} {l : Layout} {d : Problem α} (h : l.check d = .ok ()) :
    l.nVar = d.nVar ∧ l.nEq = d.nEq ∧ l.nIneq = d.nIneq := by
  unfold check at h
  split_ifs at h with hcounts
  exact hcounts

/-- The layout of the variables among some expressions was built, too. -/
theorem built_ofVars {α : Type} (es : List (Expr α)) : (ofVars es).Built := by
  unfold ofVars
  have hl : Layout.Built {} := .empty
  generalize ({} : Layout) = l at hl ⊢
  induction es generalizing l with
  | nil => exact hl
  | cons e es ih =>
      cases e with
      | var v => exact ih _ (hl.addVar v.ident v.shape)
      | _ => exact ih l hl

theorem Built.addEquations {α : Type} {l : Layout} (h : l.Built) (cs : List (Equation α)) :
    (l.addEquations cs).Built := by
  unfold Layout.addEquations
  induction cs generalizing l with
  | nil => exact h
  | cons c cs ih => exact ih (h.addEq c.ident c.size)

end Layout

/-! ### Pieces of a list -/

section Pieces

variable {α : Type}

/-- The part of a list that belongs to a block. -/
def piece (xs : List α) (b : RowBlock) : List α := (xs.drop b.offset).take b.size

theorem slice?_eq_piece {xs : List α} {b : RowBlock} (h : b.offset + b.size ≤ xs.length) :
    slice? xs b.offset b.size = some (piece xs b) := if_pos h

theorem length_piece {xs : List α} {b : RowBlock} (h : b.offset + b.size ≤ xs.length) :
    (piece xs b).length = b.size := by
  rw [piece, List.length_take, List.length_drop]
  omega

/-- The pieces make up the list. -/
theorem Tiles.flatMap_piece {start stop : Nat} {bs : List RowBlock} (h : Tiles start bs stop)
    (xs : List α) : bs.flatMap (piece xs) = (xs.drop start).take (stop - start) := by
  induction bs generalizing start with
  | nil =>
      obtain rfl : start = stop := h
      simp
  | cons b bs ih =>
      obtain ⟨rfl, hrest⟩ := h
      have hle := hrest.le
      have hsplit : stop - b.offset = b.size + (stop - (b.offset + b.size)) := by omega
      rw [List.flatMap_cons, ih hrest, piece, hsplit, List.take_add, List.drop_drop]

end Pieces

/-! ### Values under identities -/

namespace Assignment

variable {α β : Type}

theorem entries_put {a : Assignment α} {ident : Ident} (h : ident ∉ a.entries.map Prod.fst)
    (v : Value α) : (a.put ident v).entries = a.entries ++ [(ident, v)] := by
  have hkeep : a.entries.filter (·.1 ≠ ident) = a.entries := by
    refine List.filter_eq_self.2 fun e he => ?_
    simpa using fun heq : e.1 = ident => h (heq ▸ List.mem_map_of_mem he)
  rw [put, hkeep]

/-- Puts the values of blocks under their identities, one after the other, where there are any. -/
def putAll (ident : β → Ident) (value : β → Option (Value α)) (bs : List β) (a : Assignment α) :
    Assignment α :=
  bs.foldl (fun a b => match value b with
    | some v => a.put (ident b) v
    | none => a) a

theorem putAll_cons (ident : β → Ident) (value : β → Option (Value α)) (b : β) (bs : List β)
    (a : Assignment α) : putAll ident value (b :: bs) a =
      putAll ident value bs (match value b with
        | some v => a.put (ident b) v
        | none => a) := rfl

/-- Where the identities are distinct, no value is overridden. -/
theorem entries_putAll {ident : β → Ident} {value : β → Option (Value α)} {bs : List β}
    {a : Assignment α} (h : (a.entries.map Prod.fst ++ bs.map ident).Nodup) :
    (putAll ident value bs a).entries =
      a.entries ++ bs.filterMap fun b => (value b).map (ident b, ·) := by
  induction bs generalizing a with
  | nil => exact (List.append_nil _).symm
  | cons b bs ih =>
      rw [List.map_cons] at h
      cases hv : value b with
      | none =>
          have hrest : (a.entries.map Prod.fst ++ bs.map ident).Nodup :=
            h.sublist ((List.Sublist.refl _).append (List.sublist_cons_self ..))
          rw [putAll_cons, hv, ih hrest, List.filterMap_cons, hv]
          rfl
      | some v =>
          have hnot : ident b ∉ a.entries.map Prod.fst := fun hmem =>
            (List.nodup_append.1 h).2.2 _ hmem _ List.mem_cons_self rfl
          have hput := entries_put hnot v
          have hrest : ((a.put (ident b) v).entries.map Prod.fst ++ bs.map ident).Nodup := by
            rwa [hput, List.map_append, List.append_assoc]
          rw [putAll_cons, hv, ih hrest, hput, List.append_assoc, List.filterMap_cons, hv]
          rfl

theorem get?_of_mem {a : Assignment α} (h : (a.entries.map Prod.fst).Nodup)
    {e : Ident × Value α} (he : e ∈ a.entries) : a.get? e.1 = some e.2 := by
  obtain ⟨es⟩ := a
  induction es with
  | nil => cases he
  | cons c es ih =>
      obtain ⟨hnot, hes⟩ := List.nodup_cons.1 h
      rcases List.mem_cons.1 he with rfl | he
      · exact List.lookup_cons_self
      · have hne : (e.1 == c.1) = false :=
          beq_eq_false_iff_ne.2 fun heq => hnot (heq ▸ List.mem_map_of_mem he)
        rw [get?, List.lookup_cons, hne]
        exact ih hes he

/-- Every identity has a value, and their entries make up the list, one after the other. -/
def Gathers (a : Assignment α) (ids : List Ident) (xs : List α) : Prop :=
  ∃ vs, List.Forall₂ (fun i v => a.get? i = some v) ids vs ∧ vs.flatMap Value.entries = xs

theorem gathers_of_entries {a : Assignment α} {es : List (Ident × Value α)}
    (h : ∀ e ∈ es, a.get? e.1 = some e.2) :
    a.Gathers (es.map Prod.fst) (es.flatMap (·.2.entries)) := by
  refine ⟨es.map Prod.snd, ?_, List.flatMap_map ..⟩
  rw [List.forall₂_map_left_iff, List.forall₂_map_right_iff]
  exact List.forall₂_same.2 h

end Assignment

/-! ### Cutting -/

/-- What is stored of a list: values under the given identities and of the given shapes, in order,
whose entries make up the list. -/
structure Cuts {α : Type} (arrays : List (Ident × Shape)) (xs : List α)
    (es : List (Ident × Value α)) : Prop where
  arrays : es.map (fun e => (e.1, e.2.shape)) = arrays
  entries : es.flatMap (·.2.entries) = xs

theorem Cuts.idents {α : Type} {arrays : List (Ident × Shape)} {xs : List α}
    {es : List (Ident × Value α)} (h : Cuts arrays xs es) :
    es.map Prod.fst = arrays.map Prod.fst := by
  rw [← h.arrays, List.map_map]
  rfl

theorem Cuts.gathers {α : Type} {arrays : List (Ident × Shape)} {xs : List α}
    {es : List (Ident × Value α)} (h : Cuts arrays xs es) {a : Assignment α}
    (hget : ∀ e ∈ es, a.get? e.1 = some e.2) : a.Gathers (arrays.map Prod.fst) xs := by
  rw [← h.idents, ← h.entries]
  exact Assignment.gathers_of_entries hget

/-- Blocks that tile a list cut it, where each has its piece as its value. -/
theorem Tiles.cuts {α β : Type} (block : β → RowBlock) {shape : β → Shape}
    {value : β → Option (Value α)} {bs : List β} {xs : List α}
    (htiles : Tiles 0 (bs.map block) xs.length)
    (h : ∀ b ∈ bs, ∃ v, value b = some v ∧ v.shape = shape b ∧ v.entries = piece xs (block b)) :
    Cuts (bs.map fun b => ((block b).ident, shape b)) xs
      (bs.filterMap fun b => (value b).map ((block b).ident, ·)) := by
  have hpieces : Cuts (bs.map fun b => ((block b).ident, shape b))
      ((bs.map block).flatMap (piece xs))
      (bs.filterMap fun b => (value b).map ((block b).ident, ·)) := by
    clear htiles
    induction bs with
    | nil => exact ⟨rfl, rfl⟩
    | cons b bs ih =>
        obtain ⟨v, hv, hshape, hentries⟩ := h b List.mem_cons_self
        obtain ⟨harrays, hrest⟩ := ih fun c hc => h c (List.mem_cons_of_mem _ hc)
        rw [List.filterMap_cons, hv]
        constructor
        · rw [Option.map_some, List.map_cons, List.map_cons, harrays, hshape]
        · rw [Option.map_some, List.flatMap_cons, List.map_cons, List.flatMap_cons, hrest,
            hentries]
  rwa [htiles.flatMap_piece, List.drop_zero, Nat.sub_zero, List.take_length] at hpieces

/-- The array of a variable: a number for a scalar, otherwise an array with two dimensions. -/
def VarBlock.array (b : VarBlock) : Ident × Shape :=
  (b.ident, if b.shape.isScalar then .scalar else .matrix b.shape.rows b.shape.cols)

/-- The array of a constraint: a number for a single row, otherwise a column. -/
def RowBlock.array (b : RowBlock) : Ident × Shape :=
  (b.ident, if b.size = 1 then .scalar else .matrix b.size 1)

theorem Value.ofShape?_eq_some {α : Type} {s : Shape} {xs : List α} (h : xs.length = s.size) :
    ∃ v, ofShape? s xs = some v ∧
      v.shape = (if s.isScalar then .scalar else .matrix s.rows s.cols) ∧ v.entries = xs := by
  obtain ⟨dims⟩ := s
  cases dims with
  | nil =>
      obtain ⟨v, rfl⟩ := List.length_eq_one_iff.1 h
      exact ⟨_, rfl, rfl, rfl⟩
  | cons n ns =>
      have hlength := h.trans (Shape.rows_mul_cols _).symm
      refine ⟨_, dif_pos hlength, rfl, rfl⟩

namespace Layout

theorem entries_dualValue {α : Type} (vs : List α) : (dualValue vs).entries = vs := by
  unfold dualValue
  split <;> rfl

theorem shape_dualValue {α : Type} (vs : List α) :
    (dualValue vs).shape = if vs.length = 1 then .scalar else .matrix vs.length 1 := by
  unfold dualValue
  split
  · rfl
  · next hne =>
      rw [if_neg fun hone => ?_]
      · rfl
      · obtain ⟨v, rfl⟩ := List.length_eq_one_iff.1 hone
        exact hne v rfl

section Cut

variable {α : Type}

/-- A point with a number for every column is cut into the arrays of the variables. -/
theorem Built.cuts_cutVars {l : Layout} (hl : l.Built) (hword : l.InWord)
    (hids : (l.vars.map (·.ident)).Nodup)
    {x : List α} (hx : x.length = l.nVar) :
    Cuts (l.vars.map VarBlock.array) x (l.cutVars x).entries := by
  have htiles := (hl.tiles hword).1
  rw [← hx] at htiles
  let value (block : VarBlock) : Option (Value α) :=
    (slice? x block.offset block.shape.size).bind (Value.ofShape? block.shape)
  have hentries : (l.cutVars x).entries =
      l.vars.filterMap fun block => (value block).map (block.ident, ·) :=
    Assignment.entries_putAll (a := {}) hids
  rw [hentries]
  refine Tiles.cuts VarBlock.columns htiles fun block hblock => ?_
  have hend := htiles.end_le (List.mem_map_of_mem hblock)
  obtain ⟨v, hv, hshape, hpiece⟩ :=
    Value.ofShape?_eq_some (s := block.shape) (length_piece hend)
  refine ⟨v, ?_, hshape, hpiece⟩
  have hslice : slice? x block.offset block.shape.size = some (piece x block.columns) :=
    slice?_eq_piece hend
  show (slice? x block.offset block.shape.size).bind (Value.ofShape? block.shape) = some v
  rw [hslice]
  exact hv

variable [One α] [Mul α]

theorem cutRows_eq_putAll (blocks : List RowBlock) (z : List α) (a : Assignment α) :
    cutRows blocks z a = Assignment.putAll RowBlock.ident (fun b =>
      (slice? z b.offset b.size).map fun vs => dualValue (vs.map (· * dualSign))) blocks a := by
  unfold cutRows Assignment.putAll
  congr 1
  funext a b
  dsimp only
  cases slice? z b.offset b.size <;> rfl

/-- Multipliers with a number for every row are cut into the arrays of the constraints. -/
theorem cuts_cutRows {bs : List RowBlock} {a : Assignment α}
    (hids : (a.entries.map Prod.fst ++ bs.map (·.ident)).Nodup) {z : List α}
    (htiles : Tiles 0 bs z.length) :
    ∃ es, (cutRows bs z a).entries = a.entries ++ es ∧
      Cuts (bs.map RowBlock.array) (z.map (· * dualSign)) es := by
  refine ⟨_, by rw [cutRows_eq_putAll, Assignment.entries_putAll hids], ?_⟩
  refine Tiles.cuts id (by simpa using htiles) fun b hb => ?_
  have hend := htiles.end_le hb
  have hlength : ((piece z b).map (· * dualSign)).length = b.size := by
    rw [List.length_map, length_piece hend]
  refine ⟨dualValue ((piece z b).map (· * dualSign)), ?_, ?_, ?_⟩
  · rw [slice?_eq_piece hend, Option.map_some]
  · rw [shape_dualValue, hlength]
  · rw [entries_dualValue, piece, piece, id, List.map_take, List.map_drop]

/-- **Both kinds of multipliers together.**  The arrays of the equations come first. -/
theorem Built.cuts_cutRows {l : Layout} (hl : l.Built) (hword : l.InWord)
    (hids : (l.eqs.map (·.ident) ++ l.ineqs.map (·.ident)).Nodup) {y w : List α}
    (hy : y.length = l.nEq) (hw : w.length = l.nIneq) :
    ∃ ys ws, (cutRows l.ineqs w (cutRows l.eqs y {})).entries = ys ++ ws ∧
      Cuts (l.eqs.map RowBlock.array) (y.map (· * dualSign)) ys ∧
      Cuts (l.ineqs.map RowBlock.array) (w.map (· * dualSign)) ws := by
  obtain ⟨-, heqs, hineqs⟩ := hl.tiles hword
  rw [← hy] at heqs
  rw [← hw] at hineqs
  obtain ⟨ys, hys, hcutsEq⟩ := Layout.cuts_cutRows (a := {}) (List.nodup_append.1 hids).1 heqs
  have hkeys : (cutRows l.eqs y {}).entries.map Prod.fst = l.eqs.map (·.ident) := by
    rw [hys, List.nil_append, hcutsEq.idents, List.map_map]
    rfl
  obtain ⟨ws, hws, hcutsIneq⟩ := Layout.cuts_cutRows (hkeys ▸ hids) hineqs
  exact ⟨ys, ws, by rw [hws, hys, List.nil_append], hcutsEq, hcutsIneq⟩

end Cut

/-- A point with a number for every column comes back from its variables. -/
theorem Built.gathers_cutVars {α : Type} {l : Layout} (hl : l.Built) (hword : l.InWord)
    (hids : (l.vars.map (·.ident)).Nodup) {x : List α} (hx : x.length = l.nVar) :
    (l.cutVars x).Gathers (l.vars.map (·.ident)) x := by
  have hcuts := hl.cuts_cutVars hword hids hx
  have hidents : (l.vars.map VarBlock.array).map Prod.fst = l.vars.map (·.ident) :=
    List.map_map ..
  have hkeys : ((l.cutVars x).entries.map Prod.fst).Nodup := by
    rwa [hcuts.idents, hidents]
  rw [← hidents]
  exact hcuts.gathers fun e he => Assignment.get?_of_mem hkeys he

/-- Multipliers with a number for every row come back from their constraints. -/
theorem Built.gathers_cutRows {K : Type} [Field K] {l : Layout} (hl : l.Built)
    (hword : l.InWord)
    (hids : (l.eqs.map (·.ident) ++ l.ineqs.map (·.ident)).Nodup) {y w : List K}
    (hy : y.length = l.nEq) (hw : w.length = l.nIneq) :
    (cutRows l.ineqs w (cutRows l.eqs y {})).Gathers (l.eqs.map (·.ident)) y ∧
      (cutRows l.ineqs w (cutRows l.eqs y {})).Gathers (l.ineqs.map (·.ident)) w := by
  obtain ⟨ys, ws, hentries, hcutsEq, hcutsIneq⟩ := hl.cuts_cutRows hword hids hy hw
  have hsign (zs : List K) : zs.map (· * dualSign) = zs := by simp [dualSign]
  have hidents (bs : List RowBlock) : (bs.map RowBlock.array).map Prod.fst = bs.map (·.ident) :=
    List.map_map ..
  have hkeys : ((cutRows l.ineqs w (cutRows l.eqs y {})).entries.map Prod.fst).Nodup := by
    rwa [hentries, List.map_append, hcutsEq.idents, hcutsIneq.idents, hidents, hidents]
  rw [hsign] at hcutsEq hcutsIneq
  rw [← hidents, ← hidents]
  constructor
  · exact hcutsEq.gathers fun e he =>
      Assignment.get?_of_mem hkeys (hentries ▸ List.mem_append_left _ he)
  · exact hcutsIneq.gathers fun e he =>
      Assignment.get?_of_mem hkeys (hentries ▸ List.mem_append_right _ he)

end Layout

/-! ### Reports -/

namespace Results

variable {α : Type} [Scalar α] {r : Results α} {s : ModelSolution α}

theorem statistics_toSolution (h : r.outcome = .ok s) (l : Layout) :
    (r.toSolution l).statistics.nodes = s.nodes ∧
      (r.toSolution l).statistics.warmStarted = s.warmStarted := by
  simp only [toSolution, h]
  split
  · split_ifs <;> exact ⟨rfl, rfl⟩
  · exact ⟨rfl, rfl⟩

omit [Scalar α] in
/-- There is a point to report, or there is none or the status has no solution. -/
theorem reports_or_pointless (s : ModelSolution α) :
    (∃ p, s.point = some p ∧ s.status.status.hasSolution = true) ∨
      s.point = none ∨ s.status.status.hasSolution = false := by
  cases hpoint : s.point with
  | none => exact .inr (.inl rfl)
  | some p =>
      cases s.status.status.hasSolution with
      | false => exact .inr (.inr rfl)
      | true => exact .inl ⟨p, rfl, rfl⟩

/-- A point is reported under a status that has a solution. -/
theorem toSolution_of_point (h : r.outcome = .ok s) {p : Point α} (hpoint : s.point = some p)
    (hstatus : s.status.status.hasSolution = true) (l : Layout) :
    r.toSolution l = {
      status := s.status.status
      objective := .value p.objective
      primal := some (l.cutVars p.x)
      dual := duals (l.isMixed || s.nodes.isSome) s l
      statistics := (r.toSolution l).statistics } := by
  simp only [toSolution, h, hpoint, if_pos hstatus]

theorem toSolution_of_pointless (h : r.outcome = .ok s)
    (hpoint : s.point = none ∨ s.status.status.hasSolution = false) (l : Layout) :
    r.toSolution l = .failure s.status.status (r.toSolution l).statistics := by
  simp only [toSolution, h]
  split
  · next p hp =>
      have hstatus : s.status.status.hasSolution = false := hpoint.resolve_left (by simp [hp])
      rw [if_neg (by simp [hstatus])]
      rfl
  · rfl

end Results

end QuadProg
