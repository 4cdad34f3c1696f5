import QuadProg.Expr

/-!
# Equations

An equation of two expressions of one shape stands for as many scalar equations as the shape has
elements.
-/

namespace QuadProg

/-- `lhs = rhs`, elementwise, under an identity of its own. -/
structure Equation (α : Type) where
  ident : Ident
  lhs : Expr α
  rhs : Expr α

namespace Equation

variable {α : Type}

/-- The equation of two expressions, unless their shapes differ. -/
def create (lhs rhs : Expr α) : ExceptT (Error α) Fresh (Equation α) := do
  if lhs.shape = rhs.shape then
    return ⟨← liftM Fresh.ident, lhs, rhs⟩
  else
    throw (.shapeMismatch lhs.shape rhs.shape)

def shape (c : Equation α) : Shape := c.lhs.shape

def size (c : Equation α) : Nat := c.shape.size

/-- The identities of the variables on both sides, in ascending order, each once. -/
def idents (c : Equation α) : List Ident :=
  Ident.ascending (c.lhs.idents ++ c.rhs.idents)

end Equation

end QuadProg
