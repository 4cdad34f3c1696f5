import QuadProg.Proofs.Expr.Evaluation
import QuadProg.Proofs.Outcome
import QuadProg.QuadForm

/-!
# What is put in for an atom

`Expr.toQuadForm` has three outcomes (`Rewrites`).

```text
refused        an error                          the supply is as before
direct         the form acts on the operand      the supply is as before
substituted    the form acts on a new variable   two identities were handed out
```

In the last case the variable takes the first identity and its equation the second, and nothing
fails any more: the variable is given the shape that was checked, which is that of the operand.
-/

namespace QuadProg.Expr

variable {α : Type} [Scalar α]

omit [Scalar α] in
/-- The variable that takes the place of an operand. -/
def auxiliary (s : Supply) (e : Expr α) : Variable := ⟨⟨s.next⟩, e.shape, some auxiliaryName⟩

/-- The result of canonicalizing an atom, and the supply after it. -/
inductive Rewrites (atom : Expr α) (args : List (Expr α)) (s : Supply) :
    Except (Error α) (Canonical α) → Supply → Prop
  | refused (error : Error α) : Rewrites atom args s (.error error) s
  | direct {e y : Expr α} {d : α} (hargs : args = [e, y]) (hd : y.denominator = .ok d)
      (hshape : e.checkedShape = .ok e.shape) (h : e.isVar = true ∨ e.size = 0) :
      Rewrites atom args s (.ok ⟨⟨e, .scaledIdentity e.size (1 / d), atom⟩, []⟩) s
  | substituted {e y : Expr α} {d : α} (hargs : args = [e, y]) (hd : y.denominator = .ok d)
      (hshape : e.checkedShape = .ok e.shape) (hvar : ¬ e.isVar = true) (hsize : e.size ≠ 0) :
      Rewrites atom args s
        (.ok ⟨⟨.var (auxiliary s e), .scaledIdentity e.size (1 / d), atom⟩,
          [⟨⟨s.next + 1⟩, .var (auxiliary s e), e⟩]⟩) ⟨s.next + 2⟩

omit [Scalar α] in
theorem operandShape_cases (e : Expr α) :
    e.checkedShape = .ok e.shape ∧ e.operandShape = .ok e.shape ∨
      ∃ error, e.operandShape = .error error := by
  unfold operandShape
  cases h : e.checkedShape with
  | ok s =>
      obtain rfl := shape_of_checkedShape h
      exact .inl ⟨rfl, rfl⟩
  | error error => cases error <;> exact .inr ⟨_, rfl⟩

omit [Scalar α] in
/-- The equation of an operand and the variable in its place is always made. -/
theorem run_create (s : Supply) (e : Expr α) :
    ExceptT.run (Equation.create (.var (auxiliary s e)) e) ⟨s.next + 1⟩ =
      (.ok ⟨⟨s.next + 1⟩, .var (auxiliary s e), e⟩, ⟨s.next + 2⟩) := by
  have hshape : (var (auxiliary s e) : Expr α).shape = e.shape := rfl
  unfold Equation.create
  rw [if_pos hshape]
  rfl

omit [Scalar α] in
theorem run_liftExcept {β : Type} (r : Except (Error α) β) (s : Supply) :
    ExceptT.run (toQuadForm.liftExcept r) s = (r, s) := rfl

/-! ### The steps of a rewriting -/

section Steps

variable {atom : Expr α} {args : List (Expr α)} {e y : Expr α} {d : α}

theorem run_of_differentAtom (h : ¬ atom.isQuadOverLin = true) (s : Supply) :
    ExceptT.run (toQuadForm atom args) s = (.error (.precondition .differentAtom), s) := by
  have hthrow : ExceptT.run (throw (.precondition .differentAtom) :
      ExceptT (Error α) Fresh PUnit) s = (.error (.precondition .differentAtom), s) := rfl
  unfold toQuadForm
  rw [if_neg h, run_bind_of_error hthrow]

variable (hatom : atom.isQuadOverLin = true)

include hatom

theorem run_of_argumentCount (h : args.length ≠ 2) (s : Supply) :
    ExceptT.run (toQuadForm atom args) s =
      (.error (.precondition (.argumentCount args.length)), s) := by
  unfold toQuadForm
  rw [if_pos hatom]
  match args, h with
  | [], _ => rfl
  | [e], _ => rfl
  | e :: y :: z :: rest, _ => rfl

theorem run_of_denominator_error {fault : AtomFault α} (hd : y.denominator = .error fault)
    (s : Supply) :
    ExceptT.run (toQuadForm atom [e, y]) s = (.error (.precondition fault), s) := by
  unfold toQuadForm
  rw [if_pos hatom]
  dsimp only
  rw [hd]
  exact run_bind_of_error (run_liftExcept (.error (.precondition fault)) s)

theorem run_of_operandShape_error (hd : y.denominator = .ok d) {error : Error α}
    (hshape : e.operandShape = .error error) (s : Supply) :
    ExceptT.run (toQuadForm atom [e, y]) s = (.error error, s) := by
  unfold toQuadForm
  rw [if_pos hatom]
  dsimp only
  rw [hd, hshape]
  exact (run_bind_of_ok (run_liftExcept (.ok d) s)).trans
    (run_bind_of_error (run_liftExcept (.error error) s))

/-- What is done once both operands are accepted. -/
theorem run_of_operands_ok (hd : y.denominator = .ok d) (hshape : e.operandShape = .ok e.shape)
    (s : Supply) :
    ExceptT.run (toQuadForm atom [e, y]) s =
      if e.isVar = true ∨ e.size = 0 then
        (.ok ⟨⟨e, .scaledIdentity e.size (1 / d), atom⟩, []⟩, s)
      else
        (.ok ⟨⟨.var (auxiliary s e), .scaledIdentity e.size (1 / d), atom⟩,
          [⟨⟨s.next + 1⟩, .var (auxiliary s e), e⟩]⟩, ⟨s.next + 2⟩) := by
  have hfresh : ExceptT.run (liftM (freshVar e.shape (some auxiliaryName) :
      Fresh (Expr α)) : ExceptT (Error α) Fresh (Expr α)) s =
      (.ok (.var (auxiliary s e)), ⟨s.next + 1⟩) := rfl
  have hempty : (e.isVar || e.shape.size == 0) = true ↔ e.isVar = true ∨ e.size = 0 := by
    simp [size]
  unfold toQuadForm
  rw [if_pos hatom]
  dsimp only
  rw [hd, hshape]
  refine (run_bind_of_ok (run_liftExcept (.ok d) s)).trans
    ((run_bind_of_ok (run_liftExcept (.ok e.shape) s)).trans ?_)
  split_ifs with h hdirect hdirect
  · rfl
  · exact absurd (hempty.1 h) hdirect
  · exact absurd (hempty.2 hdirect) h
  · rw [run_bind_of_ok hfresh, run_bind_of_ok (run_create s e)]
    rfl

end Steps

theorem rewrites_toQuadForm (atom : Expr α) (args : List (Expr α)) (s : Supply) :
    Rewrites atom args s (ExceptT.run (toQuadForm atom args) s).1
      (ExceptT.run (toQuadForm atom args) s).2 := by
  by_cases hatom : atom.isQuadOverLin = true
  · by_cases hargs : args.length = 2
    · obtain ⟨e, y, rfl⟩ := List.length_eq_two.1 hargs
      cases hd : y.denominator with
      | error fault =>
          rw [run_of_denominator_error hatom hd]
          exact .refused _
      | ok d =>
          rcases operandShape_cases e with ⟨hchecked, hshape⟩ | ⟨error, hshape⟩
          · rw [run_of_operands_ok hatom hd hshape]
            split_ifs with h
            · exact .direct rfl hd hchecked h
            · exact .substituted rfl hd hchecked (not_or.1 h).1 (not_or.1 h).2
          · rw [run_of_operandShape_error hatom hd hshape]
            exact .refused _
    · rw [run_of_argumentCount hatom hargs]
      exact .refused _
  · rw [run_of_differentAtom hatom]
    exact .refused _

end QuadProg.Expr
