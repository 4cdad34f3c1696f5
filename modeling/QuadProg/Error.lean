import QuadProg.Options.Basic
import QuadProg.Shape

/-!
# Errors

An error is its cause.  The wording is in the `message` functions alone.

A *breakdown* is something else: a computation that ended abnormally, with or without a text.  It
comes from an engine, never from bad input that was checked.
-/

namespace QuadProg

/-- Why an atom has no quadratic form. -/
inductive AtomFault (α : Type) where
  | differentAtom
  | argumentCount (got : Nat)
  /-- The operand has elementwise parts of shapes that do not fit. -/
  | operandMismatch (expected got : Shape)
  | denominatorNotConstant
  | denominatorNotScalar (shape : Shape)
  | denominatorNotPositive (value : α)

/-- What is wrong with a problem, a layout, a model or a question about a solution. -/
inductive ProblemFault where
  | costLength (got expected : Nat)
  | quadraticSize (rows cols expected : Nat)
  | notSymmetric
  | blockSize (name : String) (rows cols rhs expectedRows expectedCols : Nat)
  | integralityRange (index count : Nat)
  /-- The layout and the problem differ in variables, equations or inequalities. -/
  | layoutSize (got expected : Nat × Nat × Nat)
  | integralityUnsupported (backend : String)
  | boundCount (costs lower upper : Nat)
  | variableRange (index count : Nat)
  | rhsCount (rows rhs : Nat)
  | columnRange (column count : Nat)
  | modelQuadraticSize (rows cols expected : Nat)
  | notVariable
  | noValue
  | notScalar (shape : Shape)
deriving DecidableEq

/-- What an option's value has to be. -/
inductive Demand where
  | bool
  | nonnegativeInt
  | nonnegativeNumber
  | positiveNumber
deriving DecidableEq, Repr

inductive OptionFault (α : Type) where
  | unknownName (backend : String)
  | badValue (demand : Demand) (value : OptionValue α)

/-- Everything that is reported to a caller as an error. -/
inductive Error (α : Type) where
  | precondition (fault : AtomFault α)
  | shapeMismatch (expected got : Shape)
  | backendUnavailable (backend reason : String)
  | invalidProblem (fault : ProblemFault)
  | invalidOption (name : String) (fault : OptionFault α)
  | solver (text : String)

variable {α : Type}

def mismatchMessage (expected got : Shape) : String :=
  s!"Shape mismatch: expected {expected}, got {got}"

def AtomFault.message [NumberText α] : AtomFault α → String
  | differentAtom => "quad_over_lin_canon applied to a different atom"
  | argumentCount n => s!"quad_over_lin takes 2 arguments, got {n}"
  | operandMismatch s t => s!"quad_over_lin operand: {mismatchMessage s t}"
  | denominatorNotConstant => "quad_over_lin denominator must be a constant"
  | denominatorNotScalar s => s!"quad_over_lin denominator must be scalar, got shape {s}"
  | denominatorNotPositive v =>
    s!"quad_over_lin denominator must be positive, got {NumberText.text v}"

def tripleText (t : Nat × Nat × Nat) : String := s!"({t.1}, {t.2.1}, {t.2.2})"

def ProblemFault.message : ProblemFault → String
  | costLength k n => s!"q has length {k}, expected {n}"
  | quadraticSize r c n => s!"P is {r}x{c}, expected {n}x{n}"
  | notSymmetric => "P is not symmetric"
  | blockSize name r c k er ec =>
    s!"{name} is {r}x{c} with rhs of length {k}, expected {er}x{ec} with rhs of length {er}"
  | integralityRange i n => s!"integrality index {i} out of range for {n} variables"
  | layoutSize s t =>
    s!"inverse data covers (n_var, n_eq, n_ineq) = {tripleText s}, problem has {tripleText t}"
  | integralityUnsupported name => s!"{name} does not support boolean or integer variables"
  | boundCount k l u => s!"{k} costs but {l} lower and {u} upper bounds"
  | variableRange i n => s!"variable {i} out of range for {n}"
  | rhsCount r k => s!"{r} rows but {k} right-hand sides"
  | columnRange c n => s!"row references column {c} of {n}"
  | modelQuadraticSize r c n => s!"quadratic cost is {r}x{c}, expected {n}x{n}"
  | notVariable => "Expression is not a variable"
  | noValue => "Variable not in solution"
  | notScalar s => s!"Variable has shape {s}, expected a scalar"

def Demand.text : Demand → String
  | bool => "a bool"
  | nonnegativeInt => "a non-negative int"
  | nonnegativeNumber => "a non-negative number"
  | positiveNumber => "a positive number"

def OptionFault.message [NumberText α] : OptionFault α → String
  | unknownName backend => s!"not recognized by {backend}"
  | badValue d v => s!"expected {d.text}, got {v.typeName} {v.display}"

def Error.message [NumberText α] : Error α → String
  | precondition f => s!"Precondition violated: {f.message}"
  | shapeMismatch s t => mismatchMessage s t
  | backendUnavailable backend reason => s!"Backend {backend} is unavailable: {reason}"
  | invalidProblem f => s!"Invalid problem: {f.message}"
  | invalidOption name f => s!"Invalid solver option '{name}': {f.message}"
  | solver text => s!"Solver error: {text}"

/-- An abnormal end of a computation. -/
inductive Breakdown where
  | message (text : String)
  /-- Nothing is known but that it ended. -/
  | unknown
deriving DecidableEq, Repr

def Breakdown.reason : Breakdown → String
  | message text => text
  | unknown => "unknown panic"

/-- The result of a computation that may break down, with the reason as plain text. -/
def Breakdown.guard {β : Type} (run : Except Breakdown β) : Except String β :=
  run.mapError Breakdown.reason

end QuadProg
