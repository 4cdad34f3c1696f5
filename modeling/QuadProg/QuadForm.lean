import QuadProg.Equation
import QuadProg.Scalar
import QuadProg.Sparse

/-!
# Quadratic forms

With a positive constant `y` the atom `|e|² / y` is the quadratic form `tᵀ (I / y) t` at `t = e`.
The form is only useful over a bare variable, whose entries are columns of a problem.  So where `e`
is not a variable, `Expr.toQuadForm` takes a new variable `t` of the same shape and adds the
equation `t = e`.  An operand without elements needs neither: its form has no entries.
-/

namespace QuadProg

/-- The quadratic form `xᵀ P x` in the entries `x` of an expression, usually a variable. -/
structure QuadForm (α : Type) where
  operand : Expr α
  matrix : Sparse α
  /-- The atom that the form stands for. -/
  atom : Expr α

namespace QuadForm

variable {α : Type}

/-- The number of entries that the form acts on. -/
def size (f : QuadForm α) : Nat := f.matrix.nrows

def isEmpty (f : QuadForm α) : Bool := f.size == 0

end QuadForm

/-- A quadratic form with the equations that define its new variables. -/
structure Canonical (α : Type) where
  form : QuadForm α
  equations : List (Equation α)

/-- The name of the variables that are put in for an operand. -/
def auxiliaryName : String := "quad_over_lin_aux"

namespace Expr

variable {α : Type}

def isQuadOverLin : Expr α → Bool
  | quadOverLin _ _ => true
  | _ => false

variable [Scalar α]

/-- The value of a denominator: a finite positive number, as a scalar or a one by one array. -/
def denominator (y : Expr α) : Except (AtomFault α) α :=
  match y.constant? with
  | none => .error .denominatorNotConstant
  | some value =>
    match value.toScalar? with
    | none => .error (.denominatorNotScalar value.shape)
    | some v =>
      if Scalar.isFinite v ∧ ¬ v ≤ 0 then .ok v else .error (.denominatorNotPositive v)

/-- The shape of an operand, with its failure as a fault of the atom. -/
def operandShape (e : Expr α) : Except (Error α) Shape :=
  match e.checkedShape with
  | .error (.shapeMismatch s t) => .error (.precondition (.operandMismatch s t))
  | result => result

/-- The quadratic form of `|e|² / y` for the operands `[e, y]`. -/
def toQuadForm (atom : Expr α) (args : List (Expr α)) :
    ExceptT (Error α) Fresh (Canonical α) := do
  unless atom.isQuadOverLin do throw (.precondition .differentAtom)
  match args with
  | [e, y] =>
    let d ← liftExcept (y.denominator.mapError .precondition)
    let shape ← liftExcept e.operandShape
    let matrix := Sparse.scaledIdentity shape.size (1 / d)
    if e.isVar || shape.size == 0 then
      return ⟨⟨e, matrix, atom⟩, []⟩
    else
      let t ← liftM (freshVar shape (some auxiliaryName) : Fresh (Expr α))
      let equation ← Equation.create t e
      return ⟨⟨t, matrix, atom⟩, [equation]⟩
  | _ => throw (.precondition (.argumentCount args.length))
where
  /-- A result that needs no identity. -/
  liftExcept {β : Type} (r : Except (Error α) β) : ExceptT (Error α) Fresh β :=
    ExceptT.mk (pure r)

end Expr

end QuadProg
