import QuadProg.Layout
import QuadProg.Solution

/-!
# Backends

A backend turns a problem into native results and native results into a solution.  What every
backend does around that is `Backend.solve`: it asks whether the backend can be used, compares the
layout with the problem, and refuses integral variables that the backend cannot handle, in this
order.
-/

namespace QuadProg

/-- How far a solve has come. -/
inductive Phase where
  | notStarted
  | building
  | invoked
  | solved
  | backendError
  | inverted
deriving DecidableEq, Repr

def Phase.text : Phase → String
  | notStarted => "not_started"
  | building => "translating"
  | invoked => "invoked"
  | solved => "solved"
  | backendError => "backend_error"
  | inverted => "inverted"

/-- How a solve is to be done. -/
structure Request (α : Type) where
  /-- Reuse the session's loaded problem where it fits. -/
  warm : Bool
  verbose : Bool
  options : Options α

/-- A way to solve problems, with native results of type `ρ` and sessions of type `κ`. -/
structure Backend (α ρ κ : Type) where
  name : String
  /-- Can handle integral variables. -/
  mixedCapable : Bool
  /-- Can be used at all. -/
  available : Except (Error α) Unit
  /-- Solves a problem.  Errors are for bad problems and options; what goes wrong later is part of
  the results. -/
  solveData : Problem α → Request α → Option κ → Except (Error α) ρ × Option κ
  invert : ρ → Layout → Solution α

namespace Backend

variable {α ρ κ : Type}

def isInstalled (b : Backend α ρ κ) : Bool := b.available.isOk

/-- What is checked before a problem is handed to the backend. -/
def precheck (b : Backend α ρ κ) (d : Problem α) (l : Layout) : Except (Error α) Unit := do
  b.available
  l.check d
  if d.isMixed && !b.mixedCapable then
    throw (.invalidProblem (.integralityUnsupported b.name))

/-- Solves a problem and maps the results back to its variables and constraints. -/
def solve (b : Backend α ρ κ) (d : Problem α) (l : Layout) (request : Request α)
    (session : Option κ) : Except (Error α) (Solution α) × Option κ :=
  match b.precheck d l with
  | .error e => (.error e, session)
  | .ok () =>
    let (results, session) := b.solveData d request session
    (results.map (b.invert · l), session)

end Backend

end QuadProg
