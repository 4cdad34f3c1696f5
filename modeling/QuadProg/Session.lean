import QuadProg.Engine
import QuadProg.Search

/-!
# Sessions

A session remembers the last continuous problem that was solved in it, loaded in the engine.  A
later problem of the same *pattern* can be put into the loaded one instead of being loaded anew.
The pattern is everything that new data cannot change: dimensions, positions of stored entries, and
the controls.

Only problems that need no presolving go through a session, because presolving removes rows.
-/

namespace QuadProg

/-- What problems must have in common to share a loaded problem. -/
structure Pattern (α : Type) where
  nVar : Nat
  pOffsets : List Nat
  pRows : List Nat
  aOffsets : List Nat
  aRows : List Nat
  nEq : Nat
  nNonneg : Nat
  controls : List (String × OptionValue α)
  verbose : Bool
deriving BEq

def Pattern.of {α : Type} (c : Conic α) (controls : List (String × OptionValue α))
    (verbose : Bool) : Pattern α where
  nVar := c.q.length
  pOffsets := c.p.offsets
  pRows := c.p.rowIndices
  aOffsets := c.a.offsets
  aRows := c.a.rowIndices
  nEq := c.nEq
  nNonneg := c.nIneq + c.nBound
  controls := controls
  verbose := verbose

/-- The problem that was loaded last, with its pattern. -/
structure Session (α μ : Type) where
  entry : Option (Pattern α × Loaded α μ) := none

namespace Session

variable {α μ : Type}

def isPopulated (s : Session α μ) : Bool := s.entry.isSome

def text (s : Session α μ) : String :=
  "SolverCache \x7b populated: " ++ toString s.isPopulated ++ " \x7d"

/-- The session after the loaded problem was solved.  The pattern it was stored under stays. -/
def remember (s : Session α μ) (memory : μ) : Session α μ :=
  ⟨s.entry.map fun (pattern, loaded) => (pattern, { loaded with memory })⟩

/-- Puts a problem into the loaded one, if the patterns agree and the engine takes it.  When the
engine refuses, the session is empty afterwards. -/
def reuse [BEq α] (e : Engine α μ) (s : Session α μ) (pattern : Pattern α) (c : Conic α) :
    Except Breakdown (Option (Loaded α μ)) × Session α μ :=
  match s.entry with
  | none => (.ok none, s)
  | some (cached, loaded) =>
    if cached == pattern then
      match e.reload loaded c with
      | .error b => (.error b, s)
      | .ok none => (.ok none, {})
      | .ok (some l) => (.ok (some l), ⟨some (cached, l)⟩)
    else (.ok none, s)

end Session

structure ModelSolution (α : Type) where
  status : ModelStatus
  /-- The point found with its objective, if there is one.  Where there is none, the program puts a
  value that is not a number in place of the objective, which no solution shows; it is left out. -/
  point : Option (Point α)
  /-- The multipliers of the equations, in the order in which they were added. -/
  eqDuals : Option (List α)
  /-- The multipliers of the inequalities, in the order in which they were added. -/
  ineqDuals : Option (List α)
  iterations : Nat
  /-- The relaxations solved by a search. -/
  nodes : Option Nat
  /-- A loaded problem was reused. -/
  warmStarted : Bool

namespace Model

variable {α μ : Type} [Scalar α]

/-- The solution of a continuous problem from the answer to its conic form. -/
def relaxationOf (m : Model α) (c : Conic α) (answer : Answer α) :
    Except Breakdown (Relaxation α) := do
  let objective ← m.objective answer.x
  let rows := c.nEq + c.nIneq
  return {
    status := answer.status
    x := answer.x
    eqDuals := if c.nEq ≤ answer.z.length then answer.z.take c.nEq else []
    ineqDuals := if rows ≤ answer.z.length then (answer.z.take rows).drop c.nEq else []
    objective
    iterations := answer.iterations }

def relax (m : Model α) (e : Engine α μ) (turn : Nat) (lower upper : List α) :
    Except Breakdown (Relaxation α) := do
  let c := m.assemble lower upper
  let loaded ← e.load m.controls.settings c
  let (answer, _) ← e.run turn loaded
  m.relaxationOf c answer

def continuousSolution (r : Relaxation α) (warmStarted : Bool) : ModelSolution α where
  status := .continuous r.status
  point := some ⟨r.x, r.objective⟩
  eqDuals := some r.eqDuals
  ineqDuals := some r.ineqDuals
  iterations := r.iterations
  nodes := none
  warmStarted := warmStarted

def searchTarget (m : Model α) : Search.Target α :=
  ⟨m.integerIndices, m.controls.limits, m.objective⟩

def branchAndBound (m : Model α) (e : Engine α μ) (clock : Clock α) :
    Except Breakdown (ModelSolution α) := do
  let expired ← clock.expiry m.controls.settings.timeLimit
  let (lower, upper) := m.effectiveBounds
  let outcome ← Search.run m.searchTarget (fun turn node => m.relax e turn node.lower node.upper)
    expired lower upper
  return {
    status := .mixed outcome.status
    point := outcome.point
    eqDuals := none
    ineqDuals := none
    iterations := 0
    nodes := some outcome.nodes
    warmStarted := false }

/-- Whether the model may go through a session: no row relies on presolving to drop it, and
presolving was not asked for. -/
def isCacheable (m : Model α) : Bool :=
  !m.hasInfiniteRhs && !(m.controls.presolveNamed && m.controls.settings.presolve)

/-- The settings for solving in a session, where nothing is presolved. -/
def sessionSettings (m : Model α) : Settings α := { m.controls.settings with presolve := false }

def conic (m : Model α) : Conic α := m.assemble m.effectiveBounds.1 m.effectiveBounds.2

def pattern (m : Model α) : Pattern α :=
  .of m.conic m.controls.accepted m.sessionSettings.verbose

/-- Loads and solves a model anew, and stores it in the session. -/
def solveAnew (m : Model α) (e : Engine α μ) (session : Session α μ) :
    Except Breakdown (ModelSolution α) × Session α μ :=
  match (do
    let loaded ← e.load m.sessionSettings m.conic
    let (answer, memory) ← e.run 0 loaded
    let r ← m.relaxationOf m.conic answer
    return (r, { loaded with memory })) with
  | .error b => (.error b, session)
  | .ok (r, loaded) => (.ok (continuousSolution r false), ⟨some (m.pattern, loaded)⟩)

/-- Solves a model with the loaded problem that was refreshed for it. -/
def solveAgain (m : Model α) (e : Engine α μ) (loaded : Loaded α μ) (session : Session α μ) :
    Except Breakdown (ModelSolution α) × Session α μ :=
  match e.run 0 loaded with
  | .error b => (.error b, session)
  | .ok (answer, memory) =>
    ((m.relaxationOf m.conic answer).map (continuousSolution · true), session.remember memory)

/-- Solves a continuous model in a session, without presolving. -/
def solveCached (m : Model α) (e : Engine α μ) (session : Session α μ) (warm : Bool) :
    Except Breakdown (ModelSolution α) × Session α μ :=
  if warm then
    match session.reuse e m.pattern m.conic with
    | (.error b, session) => (.error b, session)
    | (.ok (some loaded), session) => m.solveAgain e loaded session
    | (.ok none, session) => m.solveAnew e session
  else m.solveAnew e session

/-- Solves a continuous model by itself. -/
def solveAlone (m : Model α) (e : Engine α μ) : Except Breakdown (ModelSolution α) := do
  let (lower, upper) := m.effectiveBounds
  return continuousSolution (← m.relax e 0 lower upper) false

/-- Solves the model: by a search if it has integral variables, in the session if there is one and
the model may go through it, and by itself otherwise. -/
def solve (m : Model α) (e : Engine α μ) (clock : Clock α) (session : Option (Session α μ))
    (warm : Bool) : Except Breakdown (ModelSolution α) × Option (Session α μ) :=
  if m.isMixed then (m.branchAndBound e clock, session)
  else
    match session with
    | some s =>
      if m.isCacheable then
        let (result, s) := m.solveCached e s warm
        (result, some s)
      else (m.solveAlone e, session)
    | none => (m.solveAlone e, session)

end Model

end QuadProg
