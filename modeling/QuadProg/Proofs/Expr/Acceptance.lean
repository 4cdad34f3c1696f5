import QuadProg.Proofs.Double
import QuadProg.Proofs.Expr.Mismatch
import QuadProg.Proofs.Expr.Rewriting

/-!
# What an atom is accepted for

`Expr.toQuadForm` checks its arguments one after the other and reports the first fault.

```text
asked                                          otherwise
is the atom a sum of squares over a number?    differentAtom
are there two arguments?                       argumentCount
is the second one a constant?                  denominatorNotConstant
is it a single number?                         denominatorNotScalar
is the number finite and positive?             denominatorNotPositive
does the first one have a checked shape?       operandMismatch
```

These are all faults there are.  The equation of the new variable is made by a check of its own, and
so is the form, which expects a variable or no entries and a square matrix of the size of its
operand.  Both look at the shape that always answers, while variable and matrix are sized by the
checked one.  They are never in doubt, because the two shapes are the same by then
(`shape_of_checkedShape`).

A denominator is compared with zero to find out whether it is *not* positive, after it was found to
be finite.  For doubles this is worth saying: one of them is neither positive nor not.
-/

namespace QuadProg

variable {α : Type}

/-- The value is a single number, as a scalar or in an array with one row and one column. -/
inductive Value.IsNumber : Value α → α → Prop
  | scalar (d : α) : IsNumber (.scalar d) d
  | dense (d : α) : IsNumber (.dense ⟨1, 1, [d], rfl⟩) d

theorem Value.toScalar?_eq_some_iff {v : Value α} {d : α} :
    v.toScalar? = some d ↔ v.IsNumber d := by
  constructor
  · intro h
    cases v with
    | scalar w =>
        cases h
        exact .scalar d
    | dense m =>
        obtain ⟨rows, cols, entries, hlength⟩ := m
        simp only [toScalar?] at h
        split_ifs at h with hone
        obtain ⟨rfl, rfl⟩ : rows = 1 ∧ cols = 1 := hone
        obtain ⟨w, rfl⟩ := List.length_eq_one_iff.1 hlength
        cases h
        exact .dense d
  · intro h
    cases h with
    | scalar => rfl
    | dense => rfl

/-- The form acts on a variable or on nothing, and its matrix has a row and a column for every
entry of its operand. -/
structure QuadForm.Sized (f : QuadForm α) : Prop where
  acts : f.operand.isVar = true ∨ f.matrix.nrows = 0
  nrows : f.matrix.nrows = f.operand.size
  ncols : f.matrix.ncols = f.operand.size

namespace Expr

variable [Scalar α]

/-- The arguments are an operand with a checked shape and a constant with a finite positive number
for its value, and the atom is what it should be.  Its own operands do not matter. -/
structure Accepted (atom : Expr α) (args : List (Expr α)) (e : Expr α) (d : α) : Prop where
  atom : ∃ a b, atom = .quadOverLin a b
  args : ∃ v, args = [e, .const v] ∧ v.IsNumber d
  finite : Scalar.isFinite d = true
  positive : 0 < d
  shape : ∃ s, e.checkedShape = .ok s

/-- The first thing that is wrong with an atom and its arguments. -/
inductive Refuses (atom : Expr α) (args : List (Expr α)) : AtomFault α → Prop
  | differentAtom (h : ¬ ∃ a b, atom = .quadOverLin a b) : Refuses atom args .differentAtom
  | argumentCount (hatom : ∃ a b, atom = .quadOverLin a b) (h : args.length ≠ 2) :
      Refuses atom args (.argumentCount args.length)
  | denominatorNotConstant {e y : Expr α} (hatom : ∃ a b, atom = .quadOverLin a b)
      (hargs : args = [e, y]) (h : ∀ v, y ≠ .const v) : Refuses atom args .denominatorNotConstant
  | denominatorNotScalar {e : Expr α} {v : Value α} (hatom : ∃ a b, atom = .quadOverLin a b)
      (hargs : args = [e, .const v]) (h : ∀ d, ¬ v.IsNumber d) :
      Refuses atom args (.denominatorNotScalar v.shape)
  | denominatorNotPositive {e : Expr α} {v : Value α} {d : α}
      (hatom : ∃ a b, atom = .quadOverLin a b) (hargs : args = [e, .const v]) (hv : v.IsNumber d)
      (h : ¬ (Scalar.isFinite d = true ∧ 0 < d)) : Refuses atom args (.denominatorNotPositive d)
  | operandMismatch {e n a b : Expr α} {v : Value α} {d : α}
      (hatom : ∃ a b, atom = .quadOverLin a b) (hargs : args = [e, .const v]) (hv : v.IsNumber d)
      (hd : Scalar.isFinite d = true ∧ 0 < d) (h : e.FirstMismatch n a b) :
      Refuses atom args (.operandMismatch a.shape b.shape)

omit [Scalar α] in
theorem isQuadOverLin_iff {atom : Expr α} :
    atom.isQuadOverLin = true ↔ ∃ a b, atom = .quadOverLin a b := by
  cases atom <;> simp [isQuadOverLin]

section Operands

omit [Scalar α] in
/-- The operand has its checked shape, or the first mismatch is the fault. -/
theorem operandShape_reports (e : Expr α) :
    (e.checkedShape = .ok e.shape ∧ e.operandShape = .ok e.shape) ∨
      ∃ n a b, e.operandShape = .error (.precondition (.operandMismatch a.shape b.shape)) ∧
        e.FirstMismatch n a b := by
  rcases checkedShape_cases e with ⟨hok, -⟩ | ⟨n, a, b, herror, hmismatch⟩
  · exact .inl ⟨hok, by rw [operandShape, hok]⟩
  · exact .inr ⟨n, a, b, by rw [operandShape, herror], hmismatch⟩

variable [Scalar.Ordered α] [Scalar.Comparable α]

/-- The denominator is a finite positive number, or one of three faults. -/
theorem denominator_cases {atom : Expr α} (hatom : ∃ a b, atom = .quadOverLin a b)
    (e y : Expr α) :
    (∃ v d, y = .const v ∧ v.IsNumber d ∧ (Scalar.isFinite d = true ∧ 0 < d) ∧
        y.denominator = .ok d) ∨
      ∃ fault, y.denominator = .error fault ∧ Refuses atom [e, y] fault := by
  cases y with
  | const v =>
      cases hv : v.toScalar? with
      | none =>
          refine .inr ⟨_, by simp only [denominator, constant?, hv],
            .denominatorNotScalar hatom rfl ?_⟩
          intro d hd
          rw [← Value.toScalar?_eq_some_iff, hv] at hd
          cases hd
      | some d =>
          have hd : v.IsNumber d := Value.toScalar?_eq_some_iff.1 hv
          by_cases h : Scalar.isFinite d = true ∧ 0 < d
          · refine .inl ⟨v, d, rfl, hd, h, ?_⟩
            have hpositive := (pos_iff_not_le_zero h.1).1 h.2
            simp only [denominator, constant?, hv, if_pos (And.intro h.1 hpositive)]
          · refine .inr ⟨_, ?_, .denominatorNotPositive hatom rfl hd h⟩
            have hnot : ¬ (Scalar.isFinite d = true ∧ ¬ d ≤ 0) := by
              intro h'
              exact h ⟨h'.1, (pos_iff_not_le_zero h'.1).2 h'.2⟩
            simp only [denominator, constant?, hv, if_neg hnot]
  | _ => exact .inr ⟨_, rfl, .denominatorNotConstant hatom rfl nofun⟩

/-- Arguments are accepted, and the run succeeds, or there is a fault, and the run reports it. -/
theorem accepted_or_refuses (atom : Expr α) (args : List (Expr α)) (s : Supply) :
    (∃ e d c s', Accepted atom args e d ∧
        ExceptT.run (toQuadForm atom args) s = (.ok c, s')) ∨
      ∃ fault, Refuses atom args fault ∧
        ExceptT.run (toQuadForm atom args) s = (.error (.precondition fault), s) := by
  by_cases hatom : atom.isQuadOverLin = true
  · by_cases hargs : args.length = 2
    · obtain ⟨e, y, rfl⟩ := List.length_eq_two.1 hargs
      have hnode := isQuadOverLin_iff.1 hatom
      rcases denominator_cases hnode e y with ⟨v, d, rfl, hv, hpositive, hd⟩ |
        ⟨fault, hd, hrefuses⟩
      · rcases operandShape_reports e with ⟨hchecked, hshape⟩ | ⟨n, a, b, hshape, hmismatch⟩
        · refine .inl ⟨e, d, ?_⟩
          have haccepted : Accepted atom [e, .const v] e d :=
            ⟨hnode, ⟨v, rfl, hv⟩, hpositive.1, hpositive.2, _, hchecked⟩
          rw [run_of_operands_ok hatom hd hshape]
          split_ifs
          · exact ⟨_, _, haccepted, rfl⟩
          · exact ⟨_, _, haccepted, rfl⟩
        · exact .inr ⟨_, .operandMismatch hnode rfl hv hpositive hmismatch,
            run_of_operandShape_error hatom hd hshape s⟩
      · exact .inr ⟨fault, hrefuses, run_of_denominator_error hatom hd s⟩
    · exact .inr ⟨_, .argumentCount (isQuadOverLin_iff.1 hatom) hargs,
        run_of_argumentCount hatom hargs s⟩
  · exact .inr ⟨_, .differentAtom (mt isQuadOverLin_iff.2 hatom), run_of_differentAtom hatom s⟩

end Operands

/-- What is accepted has no fault. -/
theorem Accepted.not_refuses {atom e : Expr α} {args : List (Expr α)} {d : α}
    (h : Accepted atom args e d) (fault : AtomFault α) : ¬ Refuses atom args fault := by
  obtain ⟨⟨a, b, rfl⟩, ⟨v, rfl, hv⟩, hfinite, hpositive, s, hchecked⟩ := h
  intro hrefuses
  cases hrefuses with
  | differentAtom hother => exact hother ⟨a, b, rfl⟩
  | argumentCount _ hcount => exact hcount rfl
  | denominatorNotConstant _ hargs hconst =>
      cases hargs
      exact hconst v rfl
  | denominatorNotScalar _ hargs hscalar =>
      cases hargs
      exact hscalar d hv
  | denominatorNotPositive _ hargs hv' hnot =>
      cases hargs
      rw [← Value.toScalar?_eq_some_iff] at hv hv'
      obtain rfl := Option.some.inj (hv.symm.trans hv')
      exact hnot ⟨hfinite, hpositive⟩
  | operandMismatch _ hargs _ _ hmismatch =>
      cases hargs
      obtain rfl := shape_of_checkedShape hchecked
      exact hmismatch.not_fits
        (checkedShape_eq_ok_iff.1 hchecked _ (mem_combinations.1 hmismatch.mem).1)

/-- Whatever form is made is sized by the shape of its operand, which was checked. -/
theorem Rewrites.sized {atom : Expr α} {args : List (Expr α)} {s s' : Supply} {c : Canonical α}
    (h : Rewrites atom args s (.ok c) s') : c.form.Sized := by
  cases h with
  | direct _ _ _ hdirect => exact ⟨hdirect, rfl, rfl⟩
  | substituted _ _ _ _ _ => exact ⟨.inl rfl, rfl, rfl⟩

/-- **An atom is accepted for exactly its precondition.**  There is a form if and only if the
arguments are accepted; otherwise the first thing that is wrong is reported, and no identity is
used up.  What comes after the checks cannot fail: an operand with a checked shape always has an
equation with a variable of that shape, and the form is sized by its operand. -/
theorem toQuadForm_accepts [Scalar.Ordered α] [Scalar.Comparable α] (atom : Expr α)
    (args : List (Expr α)) (s : Supply) :
    ((∃ c s', ExceptT.run (toQuadForm atom args) s = (.ok c, s')) ↔
      ∃ e d, Accepted atom args e d) ∧
    (∀ error s', ExceptT.run (toQuadForm atom args) s = (.error error, s') →
      s' = s ∧ ∃ fault, error = .precondition fault ∧ Refuses atom args fault) ∧
    (∀ c s', ExceptT.run (toQuadForm atom args) s = (.ok c, s') → c.form.Sized) ∧
    ∀ (e : Expr α) (shape : Shape), e.checkedShape = .ok shape →
      ∀ (t : Variable) (s : Supply), t.shape = shape →
        ∃ c s', ExceptT.run (Equation.create (.var t) e) s = (.ok c, s') := by
  have houtcome := accepted_or_refuses atom args s
  refine ⟨⟨?_, ?_⟩, ?_, ?_, ?_⟩
  · intro hok
    obtain ⟨c, s', hrun⟩ := hok
    rcases houtcome with ⟨e, d, _, _, haccepted, -⟩ | ⟨fault, -, herror⟩
    · exact ⟨e, d, haccepted⟩
    · rw [hrun] at herror
      cases herror
  · intro haccepted
    obtain ⟨e, d, haccepted⟩ := haccepted
    rcases houtcome with ⟨_, _, c, s', -, hrun⟩ | ⟨fault, hrefuses, -⟩
    · exact ⟨c, s', hrun⟩
    · exact absurd hrefuses (haccepted.not_refuses fault)
  · intro error s' herror
    rcases houtcome with ⟨_, _, _, _, -, hrun⟩ | ⟨fault, hrefuses, hrun⟩
    · rw [hrun] at herror
      cases herror
    · rw [hrun] at herror
      cases herror
      exact ⟨rfl, fault, rfl, hrefuses⟩
  · intro c s' hrun
    have hrewrites := rewrites_toQuadForm atom args s
    rw [hrun] at hrewrites
    exact hrewrites.sized
  · intro e shape hchecked t s ht
    have hsame : (Expr.var t : Expr α).shape = e.shape :=
      ht.trans (shape_of_checkedShape hchecked).symm
    unfold Equation.create
    rw [if_pos hsame]
    exact ⟨_, _, rfl⟩

/-- No entries, but not a variable. -/
def emptyOperand : Expr Float := .neg (.var ⟨⟨0⟩, .vector 0, none⟩)

/-- A half, in an array with one row and one column. -/
def halfArray : Expr Float := .const (.dense ⟨1, 1, [0.5], rfl⟩)

/-- An operand without entries keeps its place, in a form without entries. -/
theorem toQuadForm_accepts_empty :
    ∃ c s', ExceptT.run (toQuadForm (.quadOverLin emptyOperand halfArray)
      [emptyOperand, halfArray]) ⟨1⟩ = (.ok c, s') ∧ c.form.Sized ∧
      c.form.operand.isVar = false ∧ c.form.size = 0 ∧ c.equations.length = 0 := by
  obtain ⟨haccepts, -, hsized, -⟩ :=
    toQuadForm_accepts (.quadOverLin emptyOperand halfArray) [emptyOperand, halfArray] ⟨1⟩
  have haccepted : Accepted (.quadOverLin emptyOperand halfArray) [emptyOperand, halfArray]
      emptyOperand 0.5 :=
    ⟨⟨_, _, rfl⟩, ⟨_, rfl, .dense 0.5⟩, by decide +kernel, by decide +kernel, _, rfl⟩
  have hseen : (ExceptT.run (toQuadForm (.quadOverLin emptyOperand halfArray)
      [emptyOperand, halfArray]) ⟨1⟩).1.toOption.map (fun c =>
        (c.form.operand.isVar, c.form.size, c.equations.length)) = some (false, 0, 0) := by
    decide +kernel
  obtain ⟨c, s', hrun⟩ := haccepts.2 ⟨_, _, haccepted⟩
  rw [hrun] at hseen
  obtain ⟨hvar, hsize, hequations⟩ : c.form.operand.isVar = false ∧ c.form.size = 0 ∧
      c.equations.length = 0 := by
    simpa [Except.toOption] using hseen
  exact ⟨c, s', hrun, hsized c s' hrun, hvar, hsize, hequations⟩

end Expr

end QuadProg
