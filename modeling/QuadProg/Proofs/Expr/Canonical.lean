import QuadProg.Proofs.Expr.Rewriting
import QuadProg.Proofs.Sparse.Entry

/-!
# The value of a quadratic form

With a constant `d` for its denominator the atom `|e|² / d` has the value of the quadratic form
`tᵀ (I / d) t` at the entries of `e`.  There are three cases.

* `e` is a variable: the form acts on it.
* `e` has no entries: the form has none either, and both values are zero.
* Otherwise the form acts on a new variable `t` with the equation `t = e`.  The identity of `t` is
  not in use, so `e` means the same whatever array `t` is given.  This leaves one array that
  satisfies the equation, and at this array the form has the value of the atom.

The number of entries of the form is that of the shape that was checked; the arrays have the shape
that is not checked.  `Expr.shape_of_checkedShape` says that the two are the same here.
-/

namespace QuadProg

section Forms

variable {K : Type} [Field K]

/-- The value `xᵀ P x` of a form at the entries of its operand. -/
def QuadForm.value (f : QuadForm K) (x : List K) : K :=
  ∑ i ∈ Finset.range f.matrix.nrows, ∑ j ∈ Finset.range f.matrix.ncols,
    f.matrix.entry i j * x.getD i 0 * x.getD j 0

end Forms

variable {K : Type} [Field K] [LinearOrder K] [FloorRing K]

/-- Both sides of the equation are the same array. -/
def Equation.Holds (c : Equation K) (ρ : Valuation K) : Prop := c.lhs.eval ρ = c.rhs.eval ρ

namespace Expr

section Sum

end Sum

end Expr

end QuadProg
