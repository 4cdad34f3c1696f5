import QuadProg.Backend
import QuadProg.Session
import QuadProg.Build

/-!
# The engine as a backend

`adapter` makes a backend of an engine and a clock.  A problem becomes a model, the
model is solved with breakdowns caught, and the numbers found are cut into the blocks of a layout.

A breakdown is not an error: it is recorded in the results and empties the session, since a loaded
problem may have been left half changed.
-/

namespace QuadProg

structure Results (α : Type) where
  phase : Phase
  /-- The solution of the model, or why there is none. -/
  outcome : Except String (ModelSolution α)
  /-- Seconds, if they were measured. -/
  solveTime : Option α

def Results.brokenDown {α : Type} (reason : String) (solveTime : Option α) : Results α :=
  ⟨.backendError, .error reason, solveTime⟩

/-- The part of a list that starts at `offset` and has `size` entries, if it has them.  A part whose
end is beyond a machine word is not there either, wherever its end would be counted. -/
def slice? {α : Type} (xs : List α) (offset size : Nat) : Option (List α) :=
  if offset + size ≤ xs.length then some ((xs.drop offset).take size) else none

namespace Layout

variable {α : Type}

/-- The values of the variables in a point.  Variables whose columns are not all there are left
out. -/
def cutVars (l : Layout) (x : List α) : Assignment α :=
  l.vars.foldl (fun a block =>
    match (slice? x block.offset block.shape.size).bind (Value.ofShape? block.shape) with
    | some v => a.put block.ident v
    | none => a) {}

/-- The factor from the engine's multipliers to dual values.  The engine's multipliers of
inequalities are not negative, and those of equations satisfy `P x + q + Aᵀ y = 0`. -/
def dualSign [One α] : α := 1

/-- The value of a block of multipliers: a number for a single row, otherwise a column. -/
def dualValue : List α → Value α
  | [v] => .scalar v
  | vs => .column vs

/-- Adds the dual values of blocks of rows.  Blocks whose rows are not all there are left out. -/
def cutRows [One α] [Mul α] (blocks : List RowBlock) (z : List α) (a : Assignment α) :
    Assignment α :=
  blocks.foldl (fun a block =>
    match slice? z block.offset block.size with
    | some vs => a.put block.ident (dualValue (vs.map (· * dualSign)))
    | none => a) a

end Layout

namespace Results

variable {α : Type} [Scalar α]

/-- The dual values of a result, if it has them; problems with integral variables have none. -/
def duals (mixed : Bool) (s : ModelSolution α) (l : Layout) : Option (Assignment α) :=
  match mixed, s.eqDuals, s.ineqDuals with
  | false, some eq, some ineq => some (Layout.cutRows l.ineqs ineq (Layout.cutRows l.eqs eq {}))
  | _, _, _ => none

def toSolution (r : Results α) (l : Layout) : Solution α :=
  match r.outcome with
  | .error _ => .failure .solverError { solveTime := r.solveTime }
  | .ok s =>
    let mixed := l.isMixed || s.nodes.isSome
    let statistics : Statistics α :=
      { solveTime := r.solveTime
        iterations := if mixed then 0 else s.iterations
        nodes := s.nodes
        warmStarted := s.warmStarted }
    let status := s.status.status
    match s.point with
    | some point =>
      if status.hasSolution then
        { status
          objective := .value point.objective
          primal := some (l.cutVars point.x)
          dual := duals mixed s l
          statistics }
      else .failure status statistics
    | none => .failure status statistics

end Results

section Adapter

variable {α μ : Type} [Scalar α]

/-- Solves a model with breakdowns caught. -/
def invoke (e : Engine α μ) (clock : Clock α) (m : Model α) (session : Option (Session α μ))
    (warm : Bool) : Results α × Option (Session α μ) :=
  let (result, after) := m.solve e clock session warm
  match Breakdown.guard result with
  | .ok s => (⟨.solved, .ok s, some clock.elapsed⟩, after)
  | .error reason => (.brokenDown reason (some clock.elapsed), after.map fun _ => {})

variable [EngineDefaults α]

/-- Makes a model of a problem and solves it. -/
def solveData (e : Engine α μ) (clock : Clock α) (d : Problem α) (request : Request α)
    (session : Option (Session α μ)) : Except (Error α) (Results α) × Option (Session α μ) :=
  match d.toModel request.verbose request.options with
  | .error error => (.error error, session)
  | .ok m =>
    let (results, session) := invoke e clock m session request.warm
    (.ok results, session)

/-- The model of `minimize x subject to x ≥ 1`. -/
def probeModel : Model α :=
  { columns := [⟨1, -engineInfinity, engineInfinity, .continuous⟩]
    rows := [⟨[0], [-1], .lessEqual, -1⟩]
    quadratic := none
    controls := { (.default : Controls α) with settings.verbose := false }
    infinity := engineInfinity }

def probe (e : Engine α μ) (clock : Clock α) : Except (Error α) Unit :=
  let unavailable (reason : String) : Except (Error α) Unit :=
    .error (.backendUnavailable engineName reason)
  match Breakdown.guard (probeModel.solve e clock none false).1 with
  | .error reason => unavailable reason
  | .ok s =>
    if s.status = .continuous .solved then .ok ()
    else unavailable s!"probe problem ended with {s.status.text}"

def adapter (e : Engine α μ) (clock : Clock α) : Backend α (Results α) (Session α μ) where
  name := engineName
  mixedCapable := true
  available := probe e clock
  solveData := solveData e clock
  invert := Results.toSolution

end Adapter

end QuadProg
