import QuadProg.Adapter
import QuadProg.InteriorPoint.Engine
import QuadProg.Options.Json
import QuadProg.QuadForm
import QuadProg.Proofs.Build.Cost
import QuadProg.Proofs.Build.Translation
import QuadProg.Proofs.Conic.Assembly
import QuadProg.Proofs.Conic.Blocks
import QuadProg.Proofs.Conic.Certificate
import QuadProg.Proofs.Conic.Stacking
import QuadProg.Proofs.Double
import QuadProg.Proofs.Expr.Acceptance
import QuadProg.Proofs.Expr.Broadcast
import QuadProg.Proofs.Expr.Canonical
import QuadProg.Proofs.Expr.Equality
import QuadProg.Proofs.Expr.Freshness
import QuadProg.Proofs.Layout.Cover
import QuadProg.Proofs.Layout.Cut
import QuadProg.Proofs.Layout.Partition
import QuadProg.Proofs.Lists
import QuadProg.Proofs.Model.Failure
import QuadProg.Proofs.Model.Representation
import QuadProg.Proofs.Search.Accounting
import QuadProg.Proofs.Search.Accuracy
import QuadProg.Proofs.Search.Extent
import QuadProg.Proofs.Search.Found
import QuadProg.Proofs.Search.Incumbent
import QuadProg.Proofs.Search.Integrality
import QuadProg.Proofs.Search.Loop
import QuadProg.Proofs.Search.Optimality
import QuadProg.Proofs.Search.Rows
import QuadProg.Proofs.Search.Unfinished
import QuadProg.Proofs.Search.Verdict
import QuadProg.Proofs.Session.Coherence
import QuadProg.Proofs.Session.Extraction
import QuadProg.Proofs.Session.Neutral
import QuadProg.Proofs.Session.Pattern
import QuadProg.Proofs.Session.Refusal
import QuadProg.Proofs.Session.Reuse
import QuadProg.Proofs.Session.RoundTrip
import QuadProg.Proofs.Session.Transition
import QuadProg.Proofs.Sparse.Symmetry
import QuadProg.Proofs.Sparse.Rows
import QuadProg.Proofs.Sparse.Pattern
import QuadProg.Proofs.Options.ByName
import QuadProg.Proofs.Model.LastWrite
import QuadProg.Proofs.Sparse.Packed
import QuadProg.Proofs.Sparse.Construction
import QuadProg.Proofs.Search.Partition
import QuadProg.Proofs.Options.RoundTrip
