import QuadProg.Sparse
import QuadProg.Scalar

/-!
# Symmetry of sparse matrices

A matrix is symmetric up to a tolerance when entries across the diagonal differ by no more.  It
is enough to look at stored entries: where neither of a pair is stored, both are zero.
-/

namespace QuadProg.Sparse

variable {α : Type} [Zero α] [Add α] [Sub α] [Neg α] [LT α] [DecidableLT α] [LE α] [DecidableLE α]

/-- Whether the matrix is square and equal to its transpose up to `tolerance`. -/
def isSymmetric (m : Sparse α) (tolerance : α) : Bool :=
  m.nrows == m.ncols && m.triplets.all fun t =>
    magnitude (m.entry t.row t.col - m.entry t.col t.row) ≤ tolerance

end QuadProg.Sparse
