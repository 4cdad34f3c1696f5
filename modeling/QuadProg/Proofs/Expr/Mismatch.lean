import QuadProg.Proofs.Expr.Evaluation

/-!
# The first mismatch

Both shapes of an expression are computed from its operands, but they go on differently where
operands do not fit: `Expr.shape` takes a scalar and `Expr.checkedShape` stops.  So a scalar at the
top may hide a mismatch below, and only the second shape tells.

What it looks at are the sums and products of the expression outside its atoms, in this order:

```text
        5: +
       /    \
    2: *     4: +          operands before their node, left before right;
   /   \    /    \         what stands under | |² / is not looked at
 1: +   z  3: *   |u + v|² / w
```

It succeeds if and only if the operands of each of them fit.  Otherwise it reports the operands of
the first one that do not; below that one, everything fits.
-/

namespace QuadProg.Expr

variable {α : Type}

/-! ### Sums and products -/

/-- The expression is the sum or the product of two operands. -/
inductive Combines : Expr α → Expr α → Expr α → Prop
  | add (a b : Expr α) : Combines (.add a b) a b
  | mul (a b : Expr α) : Combines (.mul a b) a b

/-- A part of an expression that is no part of an operand of an atom. -/
inductive Reaches : Expr α → Expr α → Prop
  | self (e : Expr α) : Reaches e e
  | neg {a n : Expr α} : Reaches a n → Reaches (.neg a) n
  | left {e a b n : Expr α} : Combines e a b → Reaches a n → Reaches e n
  | right {e a b n : Expr α} : Combines e a b → Reaches b n → Reaches e n

/-- The sums and products that are reached, operands before their node and left before right. -/
def combinations : Expr α → List (Expr α)
  | var _ | const _ | quadOverLin _ _ => []
  | neg a => a.combinations
  | add a b => a.combinations ++ b.combinations ++ [add a b]
  | mul a b => a.combinations ++ b.combinations ++ [mul a b]

/-- If the expression is a sum or a product, then its operands fit and it has their common shape. -/
def Fits (n : Expr α) : Prop := ∀ a b, Combines n a b → a.shape.broadcast b.shape = some n.shape

/-- The operands `a` and `b` of the sum or product `n` do not fit, and `n` is the first with such
operands.  All that is reached from the operands themselves fits. -/
structure FirstMismatch (e n a b : Expr α) : Prop where
  combines : Combines n a b
  misfit : a.shape.broadcast b.shape = none
  first : ∃ before after, e.combinations = before ++ n :: after ∧ ∀ m ∈ before, m.Fits
  below : ∀ m, a.Reaches m ∨ b.Reaches m → m.Fits

section Combines

variable {n a b : Expr α} (h : Combines n a b)

include h

theorem Combines.shape_eq : n.shape = (a.shape.broadcast b.shape).getD .scalar := by
  cases h <;> rfl

theorem Combines.combinations_eq : n.combinations = a.combinations ++ b.combinations ++ [n] := by
  cases h <;> rfl

theorem Combines.checkedShape_eq : n.checkedShape = (do
    let s ← a.checkedShape
    let t ← b.checkedShape
    match s.broadcast t with
    | some u => return u
    | none => throw (.shapeMismatch s t)) := by
  cases h <;> rfl

theorem Combines.checkedShape_of_ok {s t : Shape} (ha : a.checkedShape = .ok s)
    (hb : b.checkedShape = .ok t) :
    n.checkedShape = match s.broadcast t with
      | some u => .ok u
      | none => .error (.shapeMismatch s t) := by
  rw [h.checkedShape_eq, ha, hb]
  rfl

theorem Combines.checkedShape_of_error_left {error : Error α}
    (ha : a.checkedShape = .error error) : n.checkedShape = .error error := by
  rw [h.checkedShape_eq, ha]
  rfl

theorem Combines.checkedShape_of_error_right {s : Shape} {error : Error α}
    (ha : a.checkedShape = .ok s) (hb : b.checkedShape = .error error) :
    n.checkedShape = .error error := by
  rw [h.checkedShape_eq, ha, hb]
  rfl

end Combines

theorem Combines.mem_combinations_iff {n a b m : Expr α} (h : Combines n a b) :
    m ∈ n.combinations ↔ m ∈ a.combinations ∨ m ∈ b.combinations ∨ m = n := by
  rw [h.combinations_eq, List.mem_append, List.mem_append, List.mem_singleton, or_assoc]

theorem mem_combinations_of_reaches {e n a b : Expr α} (hr : e.Reaches n) (hn : Combines n a b) :
    n ∈ e.combinations := by
  induction hr with
  | self => exact hn.mem_combinations_iff.2 (.inr (.inr rfl))
  | neg _ ih => exact ih hn
  | left h _ ih => exact h.mem_combinations_iff.2 (.inl (ih hn))
  | right h _ ih => exact h.mem_combinations_iff.2 (.inr (.inl (ih hn)))

theorem reaches_of_mem_combinations {e n : Expr α} (h : n ∈ e.combinations) :
    e.Reaches n ∧ ∃ a b, Combines n a b := by
  have hnode : ∀ e a b : Expr α, Combines e a b → n ∈ e.combinations →
      (n ∈ a.combinations → a.Reaches n ∧ ∃ a b, Combines n a b) →
      (n ∈ b.combinations → b.Reaches n ∧ ∃ a b, Combines n a b) →
      e.Reaches n ∧ ∃ a b, Combines n a b := by
    intro e a b hcombines h ha hb
    rcases hcombines.mem_combinations_iff.1 h with h | h | rfl
    · exact ⟨.left hcombines (ha h).1, (ha h).2⟩
    · exact ⟨.right hcombines (hb h).1, (hb h).2⟩
    · exact ⟨.self n, a, b, hcombines⟩
  induction e with
  | var v => cases h
  | const v => cases h
  | quadOverLin a b _ _ => cases h
  | neg a ih => exact ⟨.neg (ih h).1, (ih h).2⟩
  | add a b iha ihb => exact hnode _ a b (.add a b) h iha ihb
  | mul a b iha ihb => exact hnode _ a b (.mul a b) h iha ihb

/-- The list has every sum and every product that is reached, and nothing else. -/
theorem mem_combinations {e n : Expr α} :
    n ∈ e.combinations ↔ e.Reaches n ∧ ∃ a b, Combines n a b :=
  ⟨reaches_of_mem_combinations, fun ⟨hr, _, _, hn⟩ => mem_combinations_of_reaches hr hn⟩

/-- Nothing has to be said of what is neither a sum nor a product. -/
theorem forall_reaches_fits_iff {e : Expr α} :
    (∀ n, e.Reaches n → n.Fits) ↔ ∀ n ∈ e.combinations, n.Fits :=
  ⟨fun h n hn => h n (mem_combinations.1 hn).1,
    fun h n hr a b hn => h n (mem_combinations_of_reaches hr hn) a b hn⟩

/-! ### What is reported -/

/-- What checking an expression may report. -/
inductive Checks (e : Expr α) : Except (Error α) Shape → Prop
  | fits (h : ∀ n ∈ e.combinations, n.Fits) : Checks e (.ok e.shape)
  | mismatch {n a b : Expr α} (h : e.FirstMismatch n a b) :
      Checks e (.error (.shapeMismatch a.shape b.shape))

/-- The first mismatch of a part is that of the whole if everything before the part fits. -/
theorem FirstMismatch.of_part {e part n a b : Expr α} (h : part.FirstMismatch n a b)
    {before after : List (Expr α)} (heq : e.combinations = before ++ part.combinations ++ after)
    (hbefore : ∀ m ∈ before, m.Fits) : e.FirstMismatch n a b := by
  obtain ⟨earlier, later, hpart, hearlier⟩ := h.first
  refine ⟨h.combines, h.misfit, ⟨before ++ earlier, later ++ after, ?_, ?_⟩, h.below⟩
  · rw [heq, hpart]
    simp
  · intro m hm
    exact (List.mem_append.1 hm).elim (hbefore m) (hearlier m)

/-- Operands that fit give a node that fits. -/
theorem Combines.fits {n a b : Expr α} {s : Shape} (h : Combines n a b)
    (hfit : a.shape.broadcast b.shape = some s) : n.Fits := by
  have hshape : n.shape = s := by rw [h.shape_eq, hfit, Option.getD_some]
  intro a' b' h'
  cases h <;> cases h' <;> rw [hshape, hfit]

theorem Combines.checks {n a b : Expr α} (h : Combines n a b) (ha : a.Checks a.checkedShape)
    (hb : b.Checks b.checkedShape) : n.Checks n.checkedShape := by
  have hlist := h.combinations_eq
  generalize hra : a.checkedShape = ra at ha
  generalize hrb : b.checkedShape = rb at hb
  cases ha with
  | mismatch hm =>
      have hfirst : n.combinations = [] ++ a.combinations ++ (b.combinations ++ [n]) := by
        rw [hlist, List.nil_append, List.append_assoc]
      rw [h.checkedShape_of_error_left hra]
      exact .mismatch (hm.of_part hfirst nofun)
  | fits hfitsA =>
      cases hb with
      | mismatch hm =>
          rw [h.checkedShape_of_error_right hra hrb]
          exact .mismatch (hm.of_part hlist hfitsA)
      | fits hfitsB =>
          have hfits : ∀ m ∈ a.combinations ++ b.combinations, m.Fits := fun m hm =>
            (List.mem_append.1 hm).elim (hfitsA m) (hfitsB m)
          rw [h.checkedShape_of_ok hra hrb]
          cases hfit : a.shape.broadcast b.shape with
          | none =>
              exact .mismatch ⟨h, hfit, ⟨_, [], hlist, hfits⟩, fun m hm =>
                hm.elim (forall_reaches_fits_iff.2 hfitsA m) (forall_reaches_fits_iff.2 hfitsB m)⟩
          | some s =>
              have hshape : n.shape = s := by rw [h.shape_eq, hfit, Option.getD_some]
              rw [← hshape]
              refine .fits fun m hm => ?_
              rw [hlist, List.mem_append, List.mem_singleton] at hm
              rcases hm with hm | rfl
              · exact hfits m hm
              · exact h.fits hfit

theorem checks_checkedShape (e : Expr α) : e.Checks e.checkedShape := by
  induction e with
  | var v => exact .fits nofun
  | const v => exact .fits nofun
  | quadOverLin a b _ _ => exact .fits nofun
  | add a b iha ihb => exact Combines.checks (.add a b) iha ihb
  | mul a b iha ihb => exact Combines.checks (.mul a b) iha ihb
  | neg a ih =>
      have hpart : (neg a).combinations = [] ++ a.combinations ++ [] := by simp [combinations]
      change (neg a).Checks a.checkedShape
      generalize a.checkedShape = r at ih ⊢
      cases ih with
      | fits h => exact .fits h
      | mismatch h => exact .mismatch (h.of_part hpart nofun)

theorem FirstMismatch.mem {e n a b : Expr α} (h : e.FirstMismatch n a b) :
    n ∈ e.combinations := by
  obtain ⟨before, after, heq, -⟩ := h.first
  rw [heq]
  exact List.mem_append_right _ List.mem_cons_self

theorem FirstMismatch.not_fits {e n a b : Expr α} (h : e.FirstMismatch n a b) : ¬ n.Fits := by
  intro hn
  have hfit := hn a b h.combines
  rw [h.misfit] at hfit
  cases hfit

/-- Either everything that is reached fits, and there is a checked shape, or there is a first
mismatch, and it is reported. -/
theorem checkedShape_cases (e : Expr α) :
    (e.checkedShape = .ok e.shape ∧ ∀ n ∈ e.combinations, n.Fits) ∨
      ∃ n a b, e.checkedShape = .error (.shapeMismatch a.shape b.shape) ∧
        e.FirstMismatch n a b := by
  have h := checks_checkedShape e
  generalize e.checkedShape = r at h ⊢
  cases h with
  | fits h => exact .inl ⟨rfl, h⟩
  | mismatch h => exact .inr ⟨_, _, _, rfl, h⟩

theorem checkedShape_eq_ok_iff {e : Expr α} :
    e.checkedShape = .ok e.shape ↔ ∀ n, e.Reaches n → n.Fits := by
  rw [forall_reaches_fits_iff]
  rcases checkedShape_cases e with ⟨hok, hfits⟩ | ⟨n, a, b, herror, hm⟩
  · exact iff_of_true hok hfits
  · exact iff_of_false (by simp [herror]) fun h => hm.not_fits (h n hm.mem)

/-- **The checked shape finds the first mismatch.**  Where it succeeds, it is the shape, and no
scalar took the place of a common shape anywhere on the way.  Where it fails, it reports the shapes
of the first operands that do not fit. -/
theorem checkedShape_reports (e : Expr α) :
    (∀ n, n ∈ e.combinations ↔ e.Reaches n ∧ ∃ a b, Combines n a b) ∧
    (∀ s, e.checkedShape = .ok s → e.shape = s ∧ ∀ n, e.Reaches n → n.Fits) ∧
    ∀ error, e.checkedShape = .error error →
      ∃ n a b, e.FirstMismatch n a b ∧ error = .shapeMismatch a.shape b.shape := by
  refine ⟨fun n => mem_combinations, fun s hs => ?_, fun error herror => ?_⟩
  · have hshape := shape_of_checkedShape hs
    subst hshape
    exact ⟨rfl, checkedShape_eq_ok_iff.1 hs⟩
  · rcases checkedShape_cases e with ⟨hok, -⟩ | ⟨n, a, b, hreported, hm⟩
    · rw [hok] at herror
      cases herror
    · rw [hreported] at herror
      exact ⟨n, a, b, hm, (Except.error.inj herror).symm⟩

/-- Three and four do not fit.  Neither do two and five, but that is found later, and at the top two
scalars seem to be added. -/
example : let vector (i n : Nat) : Expr ℚ := var ⟨⟨i⟩, .vector n, none⟩
    let e := neg (add (mul (vector 0 3) (vector 1 4)) (add (vector 2 2) (vector 3 5)))
    e.shape = .scalar ∧ e.checkedShape = .error (.shapeMismatch (.vector 3) (.vector 4)) :=
  ⟨rfl, rfl⟩

end QuadProg.Expr
