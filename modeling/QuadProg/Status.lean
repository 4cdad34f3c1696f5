/-!
# Outcomes

Three vocabularies for how a solve ended: that of an engine (`Termination`), that of a search over
integral variables (`SearchStatus`), and the one all results are reported in (`Status`).
-/

namespace QuadProg

/-- How an engine ended. -/
inductive Termination where
  | unsolved
  | solved
  | primalInfeasible
  | dualInfeasible
  | almostSolved
  | almostPrimalInfeasible
  | almostDualInfeasible
  | maxIterations
  | maxTime
  | numericalError
  | insufficientProgress
deriving DecidableEq, Repr

def Termination.all : List Termination :=
  [unsolved, solved, primalInfeasible, dualInfeasible, almostSolved, almostPrimalInfeasible,
    almostDualInfeasible, maxIterations, maxTime, numericalError, insufficientProgress]

def Termination.text : Termination → String
  | unsolved => "Unsolved"
  | solved => "Solved"
  | primalInfeasible => "PrimalInfeasible"
  | dualInfeasible => "DualInfeasible"
  | almostSolved => "AlmostSolved"
  | almostPrimalInfeasible => "AlmostPrimalInfeasible"
  | almostDualInfeasible => "AlmostDualInfeasible"
  | maxIterations => "MaxIterations"
  | maxTime => "MaxTime"
  | numericalError => "NumericalError"
  | insufficientProgress => "InsufficientProgress"

def Termination.ofText? (s : String) : Option Termination :=
  Termination.all.find? (·.text == s)

/-- How a search over integral variables ended. -/
inductive SearchStatus where
  /-- The best point found is proved optimal. -/
  | optimal
  /-- No integral point exists. -/
  | infeasible
  /-- The first relaxation is unbounded. -/
  | unbounded
  | nodeLimit
  | timeLimit
  /-- A point was found, but some relaxation ended without a verdict; the first such ending. -/
  | unresolved (t : Termination)
  /-- The first relaxation failed, or a later one did and no point was found. -/
  | relaxationFailed (t : Termination)
deriving DecidableEq, Repr

def SearchStatus.text : SearchStatus → String
  | optimal => "Optimal"
  | infeasible => "Infeasible"
  | unbounded => "Unbounded"
  | nodeLimit => "NodeLimit"
  | timeLimit => "TimeLimit"
  | unresolved t => s!"Unresolved({t.text})"
  | relaxationFailed t => s!"RelaxationFailed({t.text})"

/-- How the solve of a model ended. -/
inductive ModelStatus where
  | continuous (t : Termination)
  | mixed (s : SearchStatus)
deriving DecidableEq, Repr

def ModelStatus.text : ModelStatus → String
  | continuous t => s!"Continuous({t.text})"
  | mixed s => s!"Mip({s.text})"

/-- How a solve ended, whatever solved it. -/
inductive Status where
  | optimal
  /-- Optimal to reduced accuracy. -/
  | optimalInaccurate
  | infeasible
  | infeasibleInaccurate
  | unbounded
  | unboundedInaccurate
  /-- A limit on iterations, time or nodes ended the solve. -/
  | userLimit
  | solverError
deriving DecidableEq, Repr

namespace Status

def text : Status → String
  | optimal => "optimal"
  | optimalInaccurate => "optimal_inaccurate"
  | infeasible => "infeasible"
  | infeasibleInaccurate => "infeasible_inaccurate"
  | unbounded => "unbounded"
  | unboundedInaccurate => "unbounded_inaccurate"
  | userLimit => "user_limit"
  | solverError => "solver_error"

def name : Status → String
  | optimal => "Optimal"
  | optimalInaccurate => "OptimalInaccurate"
  | infeasible => "Infeasible"
  | infeasibleInaccurate => "InfeasibleInaccurate"
  | unbounded => "Unbounded"
  | unboundedInaccurate => "UnboundedInaccurate"
  | userLimit => "UserLimit"
  | solverError => "SolverError"

/-- The statuses under which the point of the engine is reported. -/
def withSolution : List Status := [optimal, optimalInaccurate, userLimit]

def hasSolution (s : Status) : Bool := s ∈ withSolution

def isOptimal (s : Status) : Bool := s = optimal ∨ s = optimalInaccurate

def isUnbounded (s : Status) : Bool := s = unbounded ∨ s = unboundedInaccurate

def isInfeasible (s : Status) : Bool := s = infeasible ∨ s = infeasibleInaccurate

end Status

def Termination.status : Termination → Status
  | solved => .optimal
  | almostSolved => .optimalInaccurate
  | primalInfeasible => .infeasible
  | almostPrimalInfeasible => .infeasibleInaccurate
  | dualInfeasible => .unbounded
  | almostDualInfeasible => .unboundedInaccurate
  | maxIterations | maxTime => .userLimit
  | unsolved | numericalError | insufficientProgress => .solverError

def SearchStatus.status : SearchStatus → Status
  | optimal => .optimal
  | infeasible => .infeasible
  | unbounded => .unbounded
  | nodeLimit | timeLimit | unresolved _ => .userLimit
  | relaxationFailed t => t.status

def ModelStatus.status : ModelStatus → Status
  | continuous t => t.status
  | mixed s => s.status

end QuadProg
