import QuadProg.Proofs.Exact
import QuadProg.Proofs.Expr.Rewriting

/-!
# New variables stay apart

A program makes variables, constants, expressions and equations, and canonicalizes atoms, in any
order and of anything that it made before.  Every identity comes from one supply, which starts with
none handed out.  So the state of a program is the supply together with what was made
(`Workspace`), and the calls of the canonicalizer are kept on record (`AtomCall`).

```text
supply   0 ────────── before ── t ── equation ── after ──────────── next
made       occur here │                         │ later calls find their supplies here
```

* Everything that was made mentions identities below the supply only (`Workspace.Sound`).  This is
  preserved by every instruction.
* A call takes the place of an operand with the first identity that is left, so nothing made before
  it mentions the new variable, and the next call starts above it.
* What a call returns mentions what its arguments mention and, if it put in a variable, that one
  (`AtomCall.Lawful.occurs`).  So another call returns the variable only if it was given to it.
-/

namespace QuadProg

/-! ### Ascending lists -/

namespace Ident

theorem lt_iff (a b : Ident) : a < b ↔ a.index < b.index := Iff.rfl

theorem mem_insert {a b : Ident} {bs : List Ident} : b ∈ insert a bs ↔ b = a ∨ b ∈ bs := by
  induction bs with
  | nil => simp [insert]
  | cons c cs ih =>
      unfold insert
      split_ifs with hlt heq
      · rw [List.mem_cons]
      · rw [heq, List.mem_cons, or_self_left]
      · rw [List.mem_cons, ih, List.mem_cons, or_left_comm]

theorem pairwise_insert (a : Ident) {bs : List Ident} (h : bs.Pairwise (· < ·)) :
    (insert a bs).Pairwise (· < ·) := by
  induction bs with
  | nil => simp [insert]
  | cons c cs ih =>
      obtain ⟨hc, hcs⟩ := List.pairwise_cons.1 h
      unfold insert
      split_ifs with hlt heq
      · refine List.pairwise_cons.2 ⟨fun b hb => ?_, h⟩
        rcases List.mem_cons.1 hb with rfl | hb
        · exact hlt
        · exact Nat.lt_trans hlt (hc b hb)
      · exact h
      · refine List.pairwise_cons.2 ⟨fun b hb => ?_, ih hcs⟩
        rcases mem_insert.1 hb with rfl | hb
        -- neither smaller nor equal
        · have hne : ¬ b.index = c.index := fun h => heq (by cases b; cases c; exact congrArg _ h)
          have hge : ¬ b.index < c.index := hlt
          show c.index < b.index
          omega
        · exact hc b hb

theorem mem_ascending {a : Ident} {ids : List Ident} : a ∈ ascending ids ↔ a ∈ ids := by
  induction ids with
  | nil => rfl
  | cons b bs ih =>
      show a ∈ insert b (ascending bs) ↔ a ∈ b :: bs
      rw [mem_insert, ih, List.mem_cons]

theorem pairwise_ascending (ids : List Ident) : (ascending ids).Pairwise (· < ·) := by
  induction ids with
  | nil => exact List.Pairwise.nil
  | cons b bs ih => exact pairwise_insert b ih

end Ident

variable {α : Type}

/-- The identities of an equation are those that occur on its sides. -/
theorem Equation.mem_idents {c : Equation α} {i : Ident} :
    i ∈ c.idents ↔ i ∈ c.lhs.occurrences ∨ i ∈ c.rhs.occurrences := by
  rw [idents, Ident.mem_ascending, List.mem_append, Expr.idents, Expr.idents, Ident.mem_ascending,
    Ident.mem_ascending]

/-! ### Programs -/

/-- The identity was handed out before. -/
def Supply.Issued (s : Supply) (i : Ident) : Prop := i.index < s.next

/-- What a program does next.  Expressions that it made before are given by their places. -/
inductive Instruction (α : Type) where
  /-- Asks for an identity that no variable or equation gets. -/
  | identity
  /-- A new variable. -/
  | fresh (shape : Shape) (name : Option String)
  /-- A variable under an identity that was handed out before. -/
  | reuse (index : Nat) (shape : Shape) (name : Option String)
  /-- A constant has an identity of its own, which no expression shows. -/
  | constant (value : Value α)
  | neg (a : Nat)
  | add (a b : Nat)
  | mul (a b : Nat)
  | quadOverLin (a b : Nat)
  | equate (a b : Nat)
  | canonicalize (atom : Nat) (args : List Nat)

/-- A call of the canonicalizer, with the supply before and after it and all expressions that had
been made. -/
structure AtomCall (α : Type) where
  made : List (Expr α)
  before : Supply
  atom : Expr α
  args : List (Expr α)
  result : Except (Error α) (Canonical α)
  after : Supply

/-- The state of a program. -/
structure Workspace (α : Type) where
  supply : Supply := {}
  made : List (Expr α) := []
  calls : List (AtomCall α) := []

namespace Workspace

/-- The expressions of some places, unless one of the places is empty. -/
def find? (w : Workspace α) (places : List Nat) : Option (List (Expr α)) :=
  places.mapM fun i => w.made[i]?

/-- Adds the expression that an operation makes of two places. -/
def combine (w : Workspace α) (op : Expr α → Expr α → Expr α) (a b : Nat) : Workspace α :=
  match w.made[a]?, w.made[b]? with
  | some a, some b => { w with made := w.made ++ [op a b] }
  | _, _ => w

variable [Scalar α]

/-- Canonicalizes an atom, and makes the operand of the form. -/
def canonicalize (w : Workspace α) (atom : Expr α) (args : List (Expr α)) : Workspace α :=
  let (result, after) := ExceptT.run (Expr.toQuadForm atom args) w.supply
  { supply := after
    made := w.made ++ (result.toOption.map fun c => c.form.operand).toList
    calls := w.calls ++ [⟨w.made, w.supply, atom, args, result, after⟩] }

def step (w : Workspace α) : Instruction α → Workspace α
  | .identity => { w with supply := (Fresh.ident.run w.supply).2 }
  | .fresh shape name =>
    let (e, supply) := (Expr.freshVar shape name).run w.supply
    { w with supply, made := w.made ++ [e] }
  | .reuse index shape name =>
    if index < w.supply.next then { w with made := w.made ++ [.var ⟨⟨index⟩, shape, name⟩] } else w
  | .constant value =>
    { w with supply := (Fresh.ident.run w.supply).2, made := w.made ++ [.const value] }
  | .neg a =>
    match w.made[a]? with
    | some a => { w with made := w.made ++ [.neg a] }
    | none => w
  | .add a b => w.combine .add a b
  | .mul a b => w.combine .mul a b
  | .quadOverLin a b => w.combine .quadOverLin a b
  | .equate a b =>
    match w.made[a]?, w.made[b]? with
    | some a, some b => { w with supply := (ExceptT.run (Equation.create a b) w.supply).2 }
    | _, _ => w
  | .canonicalize atom args =>
    match w.made[atom]?, w.find? args with
    | some atom, some args => w.canonicalize atom args
    | _, _ => w

/-- The state after a list of instructions. -/
def run (w : Workspace α) (program : List (Instruction α)) : Workspace α := program.foldl step w

end Workspace

/-! ### One call -/

namespace AtomCall

/-- The call put a variable in for an operand. -/
def Introduces (c : AtomCall α) (t : Variable) (e : Expr α) : Prop :=
  ∃ (form : Canonical α) (i : Ident) (y : Expr α), c.result = .ok form ∧ c.args = [e, y] ∧
    form.form.operand = .var t ∧ form.equations = [⟨i, .var t, e⟩]

/-- The equations that a call returned. -/
def equations (c : AtomCall α) : List (Equation α) :=
  match c.result with
  | .ok form => form.equations
  | .error _ => []

/-- The identity occurs in the form or in an equation that a call returned. -/
def Returns (c : AtomCall α) (i : Ident) : Prop :=
  ∃ form, c.result = .ok form ∧ (i ∈ form.form.operand.occurrences ∨
    ∃ q ∈ form.equations, i ∈ q.lhs.occurrences ∨ i ∈ q.rhs.occurrences)

/-- The identity occurs in the atom that a form remembers. -/
def Remembers (c : AtomCall α) (i : Ident) : Prop :=
  ∃ form, c.result = .ok form ∧ i ∈ form.form.atom.occurrences

/-- The identity occurs in an operand. -/
def Mentions (c : AtomCall α) (i : Ident) : Prop := ∃ a ∈ c.args, i ∈ a.occurrences

variable [Scalar α]

/-- What holds of a call of the canonicalizer: it is one, and everything made before it, its
arguments among it, mentions identities handed out before. -/
structure Lawful (c : AtomCall α) : Prop where
  runs : ExceptT.run (Expr.toQuadForm c.atom c.args) c.before = (c.result, c.after)
  issued : ∀ e ∈ c.made, ∀ i ∈ e.occurrences, c.before.Issued i
  atom_mem : c.atom ∈ c.made
  args_mem : ∀ e ∈ c.args, e ∈ c.made

variable {c : AtomCall α}

/-- The three outcomes of a call. -/
theorem Lawful.outcome (h : c.Lawful) :
    (∃ error, c.result = .error error ∧ c.after = c.before) ∨
      (∃ e y matrix, c.args = [e, y] ∧ (e.isVar = true ∨ e.size = 0) ∧
        c.result = .ok ⟨⟨e, matrix, c.atom⟩, []⟩ ∧ c.after = c.before) ∨
      ∃ e y matrix, c.args = [e, y] ∧ ¬ (e.isVar = true ∨ e.size = 0) ∧
        c.result = .ok ⟨⟨.var (Expr.auxiliary c.before e), matrix, c.atom⟩,
          [⟨⟨c.before.next + 1⟩, .var (Expr.auxiliary c.before e), e⟩]⟩ ∧
        c.after = ⟨c.before.next + 2⟩ := by
  have hrewrites := Expr.rewrites_toQuadForm c.atom c.args c.before
  rw [h.runs] at hrewrites
  cases c with
  | mk made before atom args result after =>
      dsimp only at hrewrites ⊢
      cases hrewrites with
      | refused error => exact .inl ⟨error, rfl, rfl⟩
      | direct hargs hd hshape hdirect => exact .inr (.inl ⟨_, _, _, hargs, hdirect, rfl, rfl⟩)
      | substituted hargs hd hshape hvar hsize =>
          exact .inr (.inr ⟨_, _, _, hargs, not_or.2 ⟨hvar, hsize⟩, rfl, rfl⟩)

theorem Lawful.le (h : c.Lawful) : c.before.next ≤ c.after.next := by
  rcases h.outcome with ⟨_, -, hafter⟩ | ⟨_, _, _, -, -, -, hafter⟩ | ⟨_, _, _, -, -, -, hafter⟩ <;>
    rw [hafter]
  simp

/-- The new variable takes the first identity, and the supply goes past it. -/
theorem Lawful.introduces (h : c.Lawful) {t : Variable} {e : Expr α} (ht : c.Introduces t e) :
    t.ident = ⟨c.before.next⟩ ∧ t.shape = e.shape ∧ c.before.next < c.after.next := by
  obtain ⟨form, i, y, hform, hargs, hoperand, hequations⟩ := ht
  rcases h.outcome with ⟨_, hresult, -⟩ | ⟨_, _, _, -, -, hresult, -⟩ |
    ⟨e', y', matrix, hargs', -, hresult, hafter⟩
  · cases hform.symm.trans hresult
  · cases hform.symm.trans hresult
    cases hequations
  · cases hform.symm.trans hresult
    cases hargs.symm.trans hargs'
    cases hoperand
    rw [hafter]
    exact ⟨rfl, rfl, by simp⟩

/-- What a call returns mentions what its operands mention, and a variable that it put in. -/
theorem Lawful.occurs (h : c.Lawful) {i : Ident} (hi : c.Returns i) :
    c.Mentions i ∨ ∃ t e, c.Introduces t e ∧ t.ident = i := by
  obtain ⟨form, hform, hi⟩ := hi
  rcases h.outcome with ⟨_, hresult, -⟩ | ⟨e, y, matrix, hargs, -, hresult, -⟩ |
    ⟨e, y, matrix, hargs, -, hresult, -⟩
  · cases hform.symm.trans hresult
  · cases hform.symm.trans hresult
    rcases hi with hi | ⟨q, hq, -⟩
    · exact .inl ⟨e, hargs ▸ List.mem_cons_self, hi⟩
    · exact absurd hq List.not_mem_nil
  · cases hform.symm.trans hresult
    -- the variable in the form is the one on the left of the equation
    have hnew : i ∈ (Expr.var (Expr.auxiliary c.before e) : Expr α).occurrences →
        c.Mentions i ∨ ∃ t e, c.Introduces t e ∧ t.ident = i := fun hmem =>
      .inr ⟨_, e, ⟨_, _, y, hresult, hargs, rfl, rfl⟩, (List.mem_singleton.1 hmem).symm⟩
    rcases hi with hi | ⟨q, hq, hi⟩
    · exact hnew hi
    · obtain rfl := List.mem_singleton.1 hq
      rcases hi with hi | hi
      · exact hnew hi
      · exact .inl ⟨e, hargs ▸ List.mem_cons_self, hi⟩

/-- A form remembers the atom that the call was made for. -/
theorem Lawful.remembers (h : c.Lawful) {i : Ident} (hi : c.Remembers i) :
    i ∈ c.atom.occurrences := by
  obtain ⟨form, hform, hi⟩ := hi
  rcases h.outcome with ⟨_, hresult, -⟩ | ⟨_, _, _, -, -, hresult, -⟩ | ⟨_, _, _, -, -, hresult, -⟩
  · cases hform.symm.trans hresult
  · cases hform.symm.trans hresult
    exact hi
  · cases hform.symm.trans hresult
    exact hi

/-- A variable or an operand without entries needs no new identity and no equation. -/
theorem Lawful.direct (h : c.Lawful) {e y : Expr α} (hargs : c.args = [e, y])
    (hdirect : e.isVar = true ∨ e.size = 0) : c.after = c.before ∧ c.equations = [] := by
  unfold equations
  rcases h.outcome with ⟨_, hresult, hafter⟩ | ⟨_, _, _, -, -, hresult, hafter⟩ |
    ⟨_, _, _, hargs', hother, -, -⟩
  · exact ⟨hafter, by rw [hresult]⟩
  · exact ⟨hafter, by rw [hresult]⟩
  · cases hargs.symm.trans hargs'
    exact absurd hdirect hother

/-- Any other operand is replaced, if the call succeeds. -/
theorem Lawful.substituted (h : c.Lawful) {form : Canonical α} (hform : c.result = .ok form)
    {e y : Expr α} (hargs : c.args = [e, y]) (hother : ¬ (e.isVar = true ∨ e.size = 0)) :
    ∃ t, c.Introduces t e := by
  rcases h.outcome with ⟨_, hresult, -⟩ | ⟨_, _, _, hargs', hdirect, -, -⟩ |
    ⟨_, _, _, hargs', -, hresult, -⟩
  · cases hform.symm.trans hresult
  · cases hargs.symm.trans hargs'
    exact absurd hdirect hother
  · cases hargs.symm.trans hargs'
    exact ⟨_, _, _, _, hresult, hargs, rfl, rfl⟩

/-- On the left of an equation that a call returned is the variable that it put in. -/
theorem Lawful.introduces_of_equation (h : c.Lawful) {q : Equation α} (hq : q ∈ c.equations) :
    ∃ t e, c.Introduces t e ∧ q.lhs = .var t ∧ q.rhs = e ∧ c.equations = [q] := by
  unfold equations at hq ⊢
  rcases h.outcome with ⟨_, hresult, -⟩ | ⟨_, _, _, -, -, hresult, -⟩ |
    ⟨e, y, matrix, hargs, -, hresult, -⟩
  · simp [hresult] at hq
  · simp [hresult] at hq
  · rw [hresult] at hq ⊢
    obtain rfl := List.mem_singleton.1 hq
    exact ⟨_, e, ⟨_, _, y, hresult, hargs, rfl, rfl⟩, rfl, rfl, rfl⟩

end AtomCall

/-! ### Runs -/

namespace Workspace

variable [Scalar α] {w : Workspace α}

/-- What holds of every state: everything made mentions identities that were handed out, and the
calls come one after the other. -/
structure Sound (w : Workspace α) : Prop where
  issued : ∀ e ∈ w.made, ∀ i ∈ e.occurrences, w.supply.Issued i
  lawful : ∀ c ∈ w.calls, c.Lawful ∧ c.after.next ≤ w.supply.next
  ordered : w.calls.Pairwise fun c d => c.after.next ≤ d.before.next

theorem Sound.withSupply (h : w.Sound) {supply : Supply} (hle : w.supply.next ≤ supply.next) :
    ({ w with supply } : Workspace α).Sound where
  issued e he i hi := (h.issued e he i hi).trans_le hle
  lawful c hc := ⟨(h.lawful c hc).1, (h.lawful c hc).2.trans hle⟩
  ordered := h.ordered

theorem Sound.withMade (h : w.Sound) {es : List (Expr α)}
    (hes : ∀ e ∈ es, ∀ i ∈ e.occurrences, w.supply.Issued i) :
    ({ w with made := w.made ++ es } : Workspace α).Sound where
  issued e he := (List.mem_append.1 he).elim (h.issued e) (hes e)
  lawful := h.lawful
  ordered := h.ordered

omit [Scalar α] in
theorem mem_of_find? {places : List Nat} {es : List (Expr α)} (h : w.find? places = some es) :
    ∀ e ∈ es, e ∈ w.made := by
  unfold find? at h
  induction places generalizing es with
  | nil =>
      obtain rfl : [] = es := by simpa using h
      exact fun e he => absurd he List.not_mem_nil
  | cons i is ih =>
      obtain ⟨a, ha, as, has, rfl⟩ : ∃ a, w.made[i]? = some a ∧ ∃ as,
          is.mapM (fun i => w.made[i]?) = some as ∧ a :: as = es := by
        simpa [List.mapM_cons, Option.bind_eq_some_iff] using h
      exact List.forall_mem_cons.2 ⟨List.mem_of_getElem? ha, ih has⟩

/-- An expression made of two that were made before mentions nothing else. -/
theorem Sound.combine (h : w.Sound) {op : Expr α → Expr α → Expr α}
    (hop : ∀ a b, (op a b).occurrences = a.occurrences ++ b.occurrences) (i j : Nat) :
    (w.combine op i j).Sound := by
  unfold Workspace.combine
  split
  · next a b ha hb =>
      refine h.withMade fun e he k hk => ?_
      obtain rfl := List.mem_singleton.1 he
      rw [hop, List.mem_append] at hk
      rcases hk with hk | hk
      · exact h.issued a (List.mem_of_getElem? ha) k hk
      · exact h.issued b (List.mem_of_getElem? hb) k hk
  · exact h

theorem Sound.canonicalize (h : w.Sound) {atom : Expr α} {args : List (Expr α)}
    (hatom : atom ∈ w.made) (hargs : ∀ e ∈ args, e ∈ w.made) :
    (w.canonicalize atom args).Sound := by
  let c : AtomCall α := ⟨w.made, w.supply, atom, args, (ExceptT.run (Expr.toQuadForm atom args)
    w.supply).1, (ExceptT.run (Expr.toQuadForm atom args) w.supply).2⟩
  have hlawful : c.Lawful := ⟨rfl, h.issued, hatom, hargs⟩
  -- the operand of the form mentions what was made before, or the new variable
  have hoperand : ∀ e ∈ (c.result.toOption.map fun form => form.form.operand).toList,
      ∀ i ∈ e.occurrences, c.after.Issued i := by
    intro e he i hi
    obtain ⟨form, hform, rfl⟩ : ∃ form, c.result.toOption = some form ∧ form.form.operand = e := by
      simpa using he
    rcases hlawful.occurs ⟨form, eq_ok_of_toOption hform, .inl hi⟩ with
      ⟨a, ha, hi⟩ | ⟨t, e', ht, rfl⟩
    · exact (h.issued a (hargs a ha) i hi).trans_le hlawful.le
    · obtain ⟨hident, -, hlt⟩ := hlawful.introduces ht
      rw [hident]
      exact hlt
  have hmade := (h.withSupply hlawful.le).withMade hoperand
  refine ⟨hmade.issued, fun d hd => ?_, List.pairwise_append.2 ⟨h.ordered, ?_, ?_⟩⟩
  · rcases List.mem_append.1 hd with hd | hd
    · exact hmade.lawful d hd
    · obtain rfl := List.mem_singleton.1 hd
      exact ⟨hlawful, le_rfl⟩
  · exact List.pairwise_singleton _ _
  · intro d hd d' hd'
    obtain rfl := List.mem_singleton.1 hd'
    exact (h.lawful d hd).2

theorem Sound.step (h : w.Sound) (instruction : Instruction α) : (w.step instruction).Sound := by
  have hsucc : w.supply.next ≤ w.supply.next + 1 := Nat.le_succ _
  cases instruction with
  | identity => exact h.withSupply hsucc
  | fresh shape name =>
      refine (h.withSupply hsucc).withMade fun e he i hi => ?_
      obtain rfl := List.mem_singleton.1 he
      obtain rfl := List.mem_singleton.1 hi
      exact Nat.lt_succ_self _
  | reuse index shape name =>
      unfold Workspace.step
      dsimp only
      split_ifs with hlt
      · refine h.withMade fun e he i hi => ?_
        obtain rfl := List.mem_singleton.1 he
        obtain rfl := List.mem_singleton.1 hi
        exact hlt
      · exact h
  | constant value =>
      refine (h.withSupply hsucc).withMade fun e he i hi => ?_
      obtain rfl := List.mem_singleton.1 he
      exact absurd hi List.not_mem_nil
  | neg a =>
      unfold Workspace.step
      dsimp only
      split
      · next e he =>
          refine h.withMade fun e' he' i hi => ?_
          obtain rfl := List.mem_singleton.1 he'
          exact h.issued e (List.mem_of_getElem? he) i hi
      · exact h
  | add a b => exact h.combine (fun _ _ => rfl) a b
  | mul a b => exact h.combine (fun _ _ => rfl) a b
  | quadOverLin a b => exact h.combine (fun _ _ => rfl) a b
  | equate a b =>
      unfold Workspace.step
      dsimp only
      split
      · refine h.withSupply ?_
        unfold Equation.create
        split_ifs
        · exact hsucc
        · exact le_rfl
      · exact h
  | canonicalize atom args =>
      unfold Workspace.step
      dsimp only
      split
      · next hatom hargs =>
          exact h.canonicalize (List.mem_of_getElem? hatom) (mem_of_find? hargs)
      · exact h

theorem sound_start : ({} : Workspace α).Sound :=
  ⟨fun _ he => absurd he List.not_mem_nil, fun _ hc => absurd hc List.not_mem_nil,
    List.Pairwise.nil⟩

theorem Sound.run (h : w.Sound) (program : List (Instruction α)) : (w.run program).Sound := by
  induction program generalizing w with
  | nil => exact h
  | cons instruction rest ih => exact ih (h.step instruction)

theorem Sound.next_le (h : w.Sound) {j k : Nat} {c d : AtomCall α} (hlt : j < k)
    (hc : w.calls[j]? = some c) (hd : w.calls[k]? = some d) : c.after.next ≤ d.before.next := by
  obtain ⟨hj, rfl⟩ := List.getElem?_eq_some_iff.1 hc
  obtain ⟨hk, rfl⟩ := List.getElem?_eq_some_iff.1 hd
  exact List.pairwise_iff_getElem.1 h.ordered j k hj hk hlt

/-- Different calls put in different variables. -/
theorem Sound.ident_ne (h : w.Sound) {j k : Nat} {c d : AtomCall α} (hne : j ≠ k)
    (hc : w.calls[j]? = some c) (hd : w.calls[k]? = some d) {t u : Variable} {e f : Expr α}
    (ht : c.Introduces t e) (hu : d.Introduces u f) : t.ident ≠ u.ident := by
  obtain ⟨hident, -, hpast⟩ := (h.lawful c (List.mem_of_getElem? hc)).1.introduces ht
  obtain ⟨hident', -, hpast'⟩ := (h.lawful d (List.mem_of_getElem? hd)).1.introduces hu
  rw [hident, hident', ne_eq, Ident.mk.injEq]
  rcases Nat.lt_or_gt_of_ne hne with hlt | hgt
  · have hle := h.next_le hlt hc hd
    omega
  · have hle := h.next_le hgt hd hc
    omega

/-- What is said of the variable `t` that the `k`-th call put in for the operand `e`. -/
structure StaysApart (w : Workspace α) (k : Nat) (c : AtomCall α) (t : Variable) (e : Expr α) :
    Prop where
  /-- Its identity was not handed out before. -/
  fresh : ¬ c.before.Issued t.ident
  /-- Nothing that was made before mentions it. -/
  made : ∀ a ∈ c.made, t.ident ∉ a.occurrences
  atom : t.ident ∉ c.atom.occurrences
  operands : ¬ c.Mentions t.ident
  /-- Nothing that an earlier call returned mentions it. -/
  earlier : ∀ j d, j < k → w.calls[j]? = some d → ¬ d.Returns t.ident ∧ ¬ d.Remembers t.ident
  shape_eq : t.shape = e.shape
  /-- Of all equations that calls returned one has it on the left. -/
  unique : ∃ q,
    (w.calls.flatMap AtomCall.equations).filter (fun q => q.lhs.ident? = some t.ident) = [q] ∧
    c.equations = [q] ∧ q.lhs = .var t ∧ q.rhs = e ∧ q.idents.Pairwise (· < ·) ∧
      ∀ i, i ∈ q.idents ↔ i = t.ident ∨ i ∈ e.occurrences
  /-- Another call returns it only after it was given to it. -/
  others : ∀ j d, j ≠ k → w.calls[j]? = some d →
    (d.Returns t.ident → k < j ∧ d.Mentions t.ident) ∧
      (d.Remembers t.ident → k < j ∧ t.ident ∈ d.atom.occurrences)

/-- What an earlier call returned or remembers was handed out before. -/
theorem Sound.issued_of_earlier {d : AtomCall α} (h : d.Lawful) {s : Supply}
    (hle : d.after.next ≤ s.next) {i : Ident} (hi : d.Returns i ∨ d.Remembers i) : s.Issued i := by
  have hmade : ∀ a ∈ d.made, i ∈ a.occurrences → s.Issued i := fun a ha hi =>
    (h.issued a ha i hi).trans_le (h.le.trans hle)
  rcases hi with hi | hi
  · rcases h.occurs hi with ⟨a, ha, hi⟩ | ⟨t, e, ht, rfl⟩
    · exact hmade a (h.args_mem a ha) hi
    · obtain ⟨hident, -, hlt⟩ := h.introduces ht
      rw [hident]
      exact hlt.trans_le hle
  · exact hmade d.atom h.atom_mem (h.remembers hi)

/-- No other call returns an equation with the new variable on the left. -/
theorem Sound.filter_equations (h : w.Sound) {k : Nat} {c : AtomCall α}
    (hc : w.calls[k]? = some c) {t : Variable} {e : Expr α} (ht : c.Introduces t e)
    {q : Equation α} (hq : c.equations = [q]) (hlhs : q.lhs = .var t) :
    (w.calls.flatMap AtomCall.equations).filter (fun q => q.lhs.ident? = some t.ident) = [q] := by
  have hothers : ∀ calls : List (AtomCall α), (∀ d ∈ calls, ∃ j, j ≠ k ∧ w.calls[j]? = some d) →
      (calls.flatMap AtomCall.equations).filter (fun q => q.lhs.ident? = some t.ident) = [] := by
    intro calls hcalls
    refine List.filter_eq_nil_iff.2 fun q hq hident => ?_
    obtain ⟨d, hmem, hq⟩ := List.mem_flatMap.1 hq
    obtain ⟨j, hne, hd⟩ := hcalls d hmem
    have hlaw := (h.lawful d (List.mem_of_getElem? hd)).1
    obtain ⟨u, f, hu, hvar, -, -⟩ := hlaw.introduces_of_equation hq
    exact h.ident_ne hne hd hc hu ht (by simpa [hvar, Expr.ident?] using hident)
  have hbefore := hothers (w.calls.take k) fun d hmem => by
    obtain ⟨j, hd⟩ := List.mem_iff_getElem?.1 hmem
    rw [List.getElem?_take] at hd
    split_ifs at hd with hlt
    exact ⟨j, hlt.ne, hd⟩
  have hafter := hothers (w.calls.drop (k + 1)) fun d hmem => by
    obtain ⟨j, hd⟩ := List.mem_iff_getElem?.1 hmem
    rw [List.getElem?_drop] at hd
    exact ⟨k + 1 + j, by omega, hd⟩
  obtain ⟨hk, rfl⟩ := List.getElem?_eq_some_iff.1 hc
  have hsplit : w.calls = w.calls.take k ++ w.calls[k] :: w.calls.drop (k + 1) := by
    rw [← List.drop_eq_getElem_cons hk, List.take_append_drop]
  rw [hsplit, List.flatMap_append, List.flatMap_cons, List.filter_append, List.filter_append,
    hbefore, hafter, hq]
  simp [hlhs, Expr.ident?]

theorem Sound.staysApart (h : w.Sound) {k : Nat} {c : AtomCall α} (hc : w.calls[k]? = some c)
    {t : Variable} {e : Expr α} (ht : c.Introduces t e) : w.StaysApart k c t e := by
  have hlawful : c.Lawful := (h.lawful c (List.mem_of_getElem? hc)).1
  obtain ⟨hident, hshape, -⟩ := hlawful.introduces ht
  have hfresh : ¬ c.before.Issued t.ident := by
    rw [hident]
    exact lt_irrefl _
  have hmade : ∀ a ∈ c.made, t.ident ∉ a.occurrences := fun a ha hi =>
    hfresh (hlawful.issued a ha _ hi)
  have hearlier : ∀ j d, j < k → w.calls[j]? = some d →
      ¬ d.Returns t.ident ∧ ¬ d.Remembers t.ident := by
    intro j d hj hd
    have hlaw := (h.lawful d (List.mem_of_getElem? hd)).1
    have hle := h.next_le hj hd hc
    exact ⟨fun hi => hfresh (Sound.issued_of_earlier hlaw hle (.inl hi)),
      fun hi => hfresh (Sound.issued_of_earlier hlaw hle (.inr hi))⟩
  refine ⟨hfresh, hmade, hmade _ hlawful.atom_mem,
    fun ⟨a, ha, hi⟩ => hmade a (hlawful.args_mem a ha) hi, hearlier, hshape, ?unique, ?others⟩
  case unique =>
    obtain ⟨form, i, y, hresult, -, -, hequations⟩ := id ht
    have hc' : c.equations = [⟨i, .var t, e⟩] := by
      unfold AtomCall.equations
      rw [hresult]
      exact hequations
    refine ⟨⟨i, .var t, e⟩, h.filter_equations hc ht hc' rfl, hc', rfl, rfl,
      Ident.pairwise_ascending _, fun i => ?_⟩
    rw [Equation.mem_idents]
    exact or_congr_left List.mem_singleton
  case others =>
    intro j d hne hd
    have hlaw := (h.lawful d (List.mem_of_getElem? hd)).1
    rcases Nat.lt_or_gt_of_ne hne with hj | hj
    · exact ⟨fun hi => absurd hi (hearlier j d hj hd).1, fun hi => absurd hi (hearlier j d hj hd).2⟩
    · refine ⟨fun hi => ⟨hj, ?_⟩, fun hi => ⟨hj, hlaw.remembers hi⟩⟩
      rcases hlaw.occurs hi with hi | ⟨u, f, hu, heq⟩
      · exact hi
      -- what a later call puts in is not the variable of this one
      · exact absurd heq (h.ident_ne hne hd hc hu ht)

/-- **New variables stay apart.**  Whatever a program makes and canonicalizes, each call of the
canonicalizer with two operands either asks for no identity and returns no equation, which it does
for a variable and for an operand without entries; or it fails; or it puts in one variable, which
stays apart from everything else. -/
theorem run_staysApart (program : List (Instruction α)) {w : Workspace α}
    (hw : w = ({} : Workspace α).run program) {k : Nat} {c : AtomCall α}
    (hc : w.calls[k]? = some c) :
    ExceptT.run (Expr.toQuadForm c.atom c.args) c.before = (c.result, c.after) ∧
    (∀ e y, c.args = [e, y] → e.isVar = true ∨ e.size = 0 →
      c.after = c.before ∧ c.equations = []) ∧
    (∀ e y form, c.args = [e, y] → ¬ (e.isVar = true ∨ e.size = 0) → c.result = .ok form →
      ∃ t, c.Introduces t e) ∧
    (∀ q ∈ c.equations, ∃ t e, c.Introduces t e ∧ q.lhs = .var t) ∧
    ∀ t e, c.Introduces t e → w.StaysApart k c t e := by
  subst hw
  have hsound := Sound.run sound_start program
  have hlaw := (hsound.lawful c (List.mem_of_getElem? hc)).1
  refine ⟨hlaw.runs, fun e y hargs hdirect => hlaw.direct hargs hdirect,
    fun e y form hargs hother hresult => hlaw.substituted hresult hargs hother, fun q hq => ?_,
    fun t e ht => hsound.staysApart hc ht⟩
  obtain ⟨t, e, ht, hlhs, -, -⟩ := hlaw.introduces_of_equation hq
  exact ⟨t, e, ht, hlhs⟩

/-- A variable is negated and its squares are taken; then the same is done with the variable that
took the place of the negative. -/
def chained : List (Instruction ℚ) :=
  [.fresh (.vector 2) none, .constant (.scalar 4), .neg 0, .quadOverLin 2 1, .canonicalize 3 [2, 1],
    .neg 4, .quadOverLin 5 1, .canonicalize 6 [5, 1]]

/-- The second call is given the variable that the first put in, so it may return it. -/
theorem run_staysApart_chained : ∃ c d t e, (({} : Workspace ℚ).run chained).calls[0]? = some c ∧
    (({} : Workspace ℚ).run chained).calls[1]? = some d ∧ c.Introduces t e ∧ d.Returns t.ident ∧
    t.ident = ⟨2⟩ ∧ (({} : Workspace ℚ).run chained).StaysApart 0 c t e := by
  obtain ⟨c, hc⟩ : ∃ c, (({} : Workspace ℚ).run chained).calls[0]? = some c := ⟨_, rfl⟩
  obtain ⟨d, hd⟩ : ∃ d, (({} : Workspace ℚ).run chained).calls[1]? = some d := ⟨_, rfl⟩
  have happly := run_staysApart chained rfl hc
  have hintroduces : ∃ t e, c.Introduces t e ∧ t.ident = ⟨2⟩ := by
    cases hc
    exact ⟨_, _, ⟨_, _, _, rfl, rfl, rfl, rfl⟩, rfl⟩
  have hreturns : d.Returns ⟨2⟩ := by
    cases hd
    exact ⟨_, rfl, .inr ⟨_, List.mem_singleton.2 rfl, .inr (by decide)⟩⟩
  obtain ⟨t, e, ht, hident⟩ := hintroduces
  exact ⟨c, d, t, e, hc, hd, ht, hident ▸ hreturns, hident, happly.2.2.2.2 t e ht⟩

end Workspace

end QuadProg
