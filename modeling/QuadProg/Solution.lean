import QuadProg.Expr
import QuadProg.Status

/-!
# Solutions

A solution maps identities back to values: variables to their values and, for continuous problems,
constraints to their multipliers.  Without a point there is still an objective value, `-∞` for an
unbounded problem and `+∞` for any other.
-/

namespace QuadProg

/-- An objective value. -/
inductive Objective (α : Type) where
  | value (v : α)
  | posInfinity
  | negInfinity
deriving DecidableEq, Repr

/-- The objective value of a problem that has no point to show. -/
def Status.missingValue {α : Type} (s : Status) : Objective α :=
  if s.isUnbounded then .negInfinity else .posInfinity

/-- Values under identities, one for each. -/
structure Assignment (α : Type) where
  entries : List (Ident × Value α) := []

namespace Assignment

variable {α : Type}

/-- Gives an identity a value, in place of any earlier one. -/
def put (a : Assignment α) (ident : Ident) (value : Value α) : Assignment α :=
  ⟨a.entries.filter (·.1 ≠ ident) ++ [(ident, value)]⟩

def get? (a : Assignment α) (ident : Ident) : Option (Value α) := a.entries.lookup ident

end Assignment

structure Statistics (α : Type) where
  /-- Seconds, if they were measured. -/
  solveTime : Option α := none
  iterations : Nat := 0
  /-- The relaxations solved by a search. -/
  nodes : Option Nat := none
  /-- A loaded problem was reused. -/
  warmStarted : Bool := false

structure Solution (α : Type) where
  status : Status
  objective : Objective α
  primal : Option (Assignment α)
  dual : Option (Assignment α)
  statistics : Statistics α

namespace Solution

variable {α : Type}

def failure (status : Status) (statistics : Statistics α) : Solution α :=
  ⟨status, status.missingValue, none, none, statistics⟩

def value? (s : Solution α) (ident : Ident) : Option (Value α) := s.primal.bind (·.get? ident)

def dual? (s : Solution α) (ident : Ident) : Option (Value α) := s.dual.bind (·.get? ident)

def hasDual (s : Solution α) : Bool := s.dual.isSome

/-- The number that a variable has in the solution. -/
def scalarValue (s : Solution α) (e : Expr α) : Except (Error α) α :=
  match e.ident? with
  | none => .error (.invalidProblem .notVariable)
  | some ident =>
    match s.value? ident with
    | none => .error (.invalidProblem .noValue)
    | some v =>
      match v.toScalar? with
      | none => .error (.invalidProblem (.notScalar v.shape))
      | some x => .ok x

end Solution

end QuadProg
