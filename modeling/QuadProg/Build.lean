import QuadProg.Model
import QuadProg.Problem

/-!
# From problems to models

A problem becomes a model with free variables.  Right-hand sides at or beyond the engine's infinity
are moved to it, the equations come before the inequalities, and a quadratic cost is set only where
some stored entry of `P` is not zero.
-/

namespace QuadProg

namespace Problem

variable {α : Type} [Scalar α] [EngineDefaults α]

/-- The edits that build the model of a problem, without its controls. -/
def build (d : Problem α) : Edit α Unit := do
  let infinity : α := engineInfinity
  let _ ← Model.addVariables d.q (List.replicate d.nVar (-infinity))
    (List.replicate d.nVar infinity)
  d.binary.forM (Model.setKind · .binary)
  d.integer.forM (Model.setKind · .integer)
  Model.addRows d.a.rowSlices .equal (d.b.map (clamp infinity))
  Model.addRows d.f.rowSlices .lessEqual (d.g.map (clamp infinity))
  if d.p.hasNonzero then Model.setQuadratic d.p

/-- The model of a problem under the given options. -/
def toModel (d : Problem α) (verbose : Bool) (options : Options α) :
    Except (Error α) (Model α) := do
  d.check
  let edit : Edit α Unit := do
    d.build
    modify (Model.setVerbose verbose)
    Model.setControls options
  match edit.run (.empty engineInfinity) with
  | (.error e, _) => throw e
  | (.ok (), m) => return m

end Problem

end QuadProg
