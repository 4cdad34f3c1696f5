import QuadProg.Error
import QuadProg.Ident
import QuadProg.Value

/-!
# Expressions

Expressions are built from variables and constants by elementwise addition, negation and
multiplication, and by one atom, `quadOverLin`, the sum of squares of an operand divided by
another.

An expression has two shapes.  `shape` always answers: where operands do not fit it takes a scalar.
`checkedShape` reports the first pair of operands that do not fit, in the order in which operands
are written.  Where the second succeeds, they agree.
-/

namespace QuadProg

structure Variable where
  ident : Ident
  shape : Shape
  name : Option String
deriving DecidableEq, Repr

/-- An expression over numbers of type `α`. -/
inductive Expr (α : Type) where
  | var (v : Variable)
  | const (value : Value α)
  | add (a b : Expr α)
  | neg (a : Expr α)
  | mul (a b : Expr α)
  | quadOverLin (a b : Expr α)

namespace Expr

variable {α : Type}

/-- A variable with an identity that nothing else has. -/
def freshVar (shape : Shape) (name : Option String) : Fresh (Expr α) := do
  return var ⟨← Fresh.ident, shape, name⟩

def scalar (v : α) : Expr α := const (.scalar v)

def sub (a b : Expr α) : Expr α := add a (neg b)

def scale (s : α) (a : Expr α) : Expr α := mul (scalar s) a

/-- The shape; operands that do not fit make a scalar. -/
def shape : Expr α → Shape
  | var v => v.shape
  | const v => v.shape
  | add a b | mul a b => (a.shape.broadcast b.shape).getD .scalar
  | neg a => a.shape
  | quadOverLin _ _ => .scalar

/-- The shape, or the two shapes of the first operands that do not fit.  The operands of
`quadOverLin` are not looked at. -/
def checkedShape : Expr α → Except (Error α) Shape
  | var v => .ok v.shape
  | const v => .ok v.shape
  | quadOverLin _ _ => .ok .scalar
  | neg a => a.checkedShape
  | add a b | mul a b => do
    let s ← a.checkedShape
    let t ← b.checkedShape
    match s.broadcast t with
    | some u => return u
    | none => throw (.shapeMismatch s t)

def size (e : Expr α) : Nat := e.shape.size

def ident? : Expr α → Option Ident
  | var v => some v.ident
  | _ => none

def constant? : Expr α → Option (Value α)
  | const v => some v
  | _ => none

def isVar (e : Expr α) : Bool := e.ident?.isSome

def operands : Expr α → List (Expr α)
  | var _ | const _ => []
  | neg a => [a]
  | add a b | mul a b | quadOverLin a b => [a, b]

/-- The identities of the variables, one for every time a variable is written. -/
def occurrences : Expr α → List Ident
  | var v => [v.ident]
  | const _ => []
  | neg a => a.occurrences
  | add a b | mul a b | quadOverLin a b => a.occurrences ++ b.occurrences

/-- The identities of the variables, in ascending order, each once. -/
def idents (e : Expr α) : List Ident := Ident.ascending e.occurrences

end Expr

end QuadProg
