import QuadProg.Error

/-!
# Settings and controls

An engine comes with settings of its own and with a number that stands for infinity.  Nothing is
assumed of their values but what `EngineDefaults` says.

A control is a setting that options can change, by name.  Each has a demand on its value.
`Controls` holds the values in force together with a record of every accepted change; a refused
change leaves all of it as it was.
-/

namespace QuadProg

/-- What an engine is told besides the problem. -/
structure Settings (α : Type) where
  maxIter : Nat
  /-- Seconds after which the solve ends; none where there is no limit. -/
  timeLimit : Option α
  tolGapAbs : α
  tolGapRel : α
  tolFeas : α
  tolInfeasAbs : α
  tolInfeasRel : α
  equilibrate : Bool
  presolve : Bool
  /-- Progress is printed. -/
  verbose : Bool
deriving BEq

/-- The limits of a search over integral variables. -/
structure SearchLimits (α : Type) where
  /-- Relaxations solved at most. -/
  maxNodes : Nat
  /-- A number this close to a whole number counts as one. -/
  intTol : α
  /-- A node that cannot improve on the best point by more than this is not searched. -/
  gapAbs : α
deriving BEq

/-- What an engine comes with. -/
class EngineDefaults (α : Type) [Scalar α] where
  /-- Bounds at or beyond this number are no bounds. -/
  infinity : α
  /-- The settings in force as long as no option changes them. -/
  settings : Settings α
  one_lt_infinity : 1 < infinity
  timeLimit_eq_none : settings.timeLimit = none

variable {α : Type}

/-- The engine's infinity: bounds at or beyond it are no bounds. -/
def engineInfinity [Scalar α] [EngineDefaults α] : α := EngineDefaults.infinity

/-- The settings of the engine that the program runs on. -/
def Settings.initial [OfScientific α] : Settings α where
  maxIter := 200
  timeLimit := none
  tolGapAbs := 1e-8
  tolGapRel := 1e-8
  tolFeas := 1e-8
  tolInfeasAbs := 1e-8
  tolInfeasRel := 1e-8
  equilibrate := true
  presolve := true
  verbose := true

instance : EngineDefaults Float where
  infinity := 1e20
  settings := .initial
  one_lt_infinity := by decide +kernel
  timeLimit_eq_none := rfl

def SearchLimits.default [OfScientific α] : SearchLimits α where
  maxNodes := 10000
  intTol := 1e-5
  gapAbs := 1e-6

/-- The settings that options can change. -/
inductive Control where
  | maxIter
  | timeLimit
  | tolGapAbs
  | tolGapRel
  | tolFeas
  | tolInfeasAbs
  | tolInfeasRel
  | equilibrate
  | presolve
  | maxNodes
  | intTol
  | gapAbs
deriving DecidableEq, Repr

namespace Control

def name : Control → String
  | maxIter => "max_iter"
  | timeLimit => "time_limit"
  | tolGapAbs => "tol_gap_abs"
  | tolGapRel => "tol_gap_rel"
  | tolFeas => "tol_feas"
  | tolInfeasAbs => "tol_infeas_abs"
  | tolInfeasRel => "tol_infeas_rel"
  | equilibrate => "equilibrate_enable"
  | presolve => "presolve_enable"
  | maxNodes => "mip_max_nodes"
  | intTol => "mip_int_tol"
  | gapAbs => "mip_gap_abs"

def all : List Control :=
  [maxIter, timeLimit, tolGapAbs, tolGapRel, tolFeas, tolInfeasAbs, tolInfeasRel, equilibrate,
    presolve, maxNodes, intTol, gapAbs]

def ofName? (s : String) : Option Control := all.find? (·.name == s)

end Control

namespace OptionValue

def demandBool (v : OptionValue α) : Except (OptionFault α) Bool :=
  match v.asBool? with
  | some b => .ok b
  | none => .error (.badValue .bool v)

/-- A whole number from zero up to what 32 bits hold. -/
def demandCount (v : OptionValue α) : Except (OptionFault α) Nat :=
  match v.asInt? with
  | some i =>
    if 0 ≤ i ∧ i < 4294967296 then .ok i.toNat else .error (.badValue .nonnegativeInt v)
  | none => .error (.badValue .nonnegativeInt v)

variable [Scalar α]

def demandNonnegative (v : OptionValue α) : Except (OptionFault α) α :=
  match v.asNumber? with
  | some x => if 0 ≤ x then .ok x else .error (.badValue .nonnegativeNumber v)
  | none => .error (.badValue .nonnegativeNumber v)

/-- A number above zero that is finite. -/
def demandPositive (v : OptionValue α) : Except (OptionFault α) α :=
  match v.asNumber? with
  | some x =>
    if 0 < x ∧ Scalar.isFinite x then .ok x else .error (.badValue .positiveNumber v)
  | none => .error (.badValue .positiveNumber v)

end OptionValue

def engineName : String := "CLARABEL"

structure Controls (α : Type) where
  settings : Settings α
  limits : SearchLimits α
  /-- Presolving was asked for or refused by name. -/
  presolveNamed : Bool
  /-- The accepted changes, in order. -/
  accepted : List (String × OptionValue α)

namespace Controls

variable [Scalar α]

def default [EngineDefaults α] : Controls α := ⟨EngineDefaults.settings, .default, false, []⟩

/-- The controls after one of them took a value. -/
def assign (c : Controls α) (control : Control) (v : OptionValue α) :
    Except (OptionFault α) (Controls α) := do
  match control with
  | .maxIter => return { c with settings.maxIter := ← v.demandCount }
  | .timeLimit => return { c with settings.timeLimit := some (← v.demandNonnegative) }
  | .tolGapAbs => return { c with settings.tolGapAbs := ← v.demandPositive }
  | .tolGapRel => return { c with settings.tolGapRel := ← v.demandPositive }
  | .tolFeas => return { c with settings.tolFeas := ← v.demandPositive }
  | .tolInfeasAbs => return { c with settings.tolInfeasAbs := ← v.demandPositive }
  | .tolInfeasRel => return { c with settings.tolInfeasRel := ← v.demandPositive }
  | .equilibrate => return { c with settings.equilibrate := ← v.demandBool }
  | .presolve =>
    return { c with settings.presolve := ← v.demandBool, presolveNamed := true }
  | .maxNodes => return { c with limits.maxNodes := ← v.demandCount }
  | .intTol => return { c with limits.intTol := ← v.demandPositive }
  | .gapAbs => return { c with limits.gapAbs := ← v.demandNonnegative }

/-- The controls after an option was set, with the change on record. -/
def set (c : Controls α) (name : String) (v : OptionValue α) :
    Except (Error α) (Controls α) :=
  match Control.ofName? name with
  | none => .error (.invalidOption name (.unknownName engineName))
  | some control =>
    match c.assign control v with
    | .error f => .error (.invalidOption name f)
    | .ok c => .ok { c with accepted := c.accepted ++ [(name, v)] }

end Controls

end QuadProg
