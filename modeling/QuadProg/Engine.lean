import QuadProg.Conic
import QuadProg.Status

/-!
# Engines

An engine solves problems in conic form.  Everything built on engines is written for any engine, so
that what is proved of it holds whatever an engine answers, refuses or breaks down on.

A loaded problem carries the engine's own memory of it.  It can be refreshed with new data of the
same structure, which leaves its settings and cones as they were.
-/

namespace QuadProg

structure Answer (α : Type) where
  status : Termination
  x : List α
  /-- The multipliers of the rows. -/
  z : List α
  iterations : Nat

/-- A problem in conic form that an engine has taken in, with the engine's memory of it. -/
structure Loaded (α μ : Type) where
  settings : Settings α
  cones : List Cone
  p : Sparse α
  q : List α
  a : Sparse α
  b : List α
  memory : μ

/-- A solver of problems in conic form, with memories of type `μ`. -/
structure Engine (α μ : Type) where
  /-- Takes a problem in. -/
  prepare : Settings α → Conic α → Except Breakdown μ
  /-- Takes in new data for a loaded problem, or refuses to. -/
  refresh : Loaded α μ → Conic α → Except Breakdown (Option μ)
  /-- Solves.  The number counts the runs made before in the same solve.  An engine that looks at
  nothing but its input ignores it; one that looks at a clock may answer differently each time. -/
  run : Nat → Loaded α μ → Except Breakdown (Answer α × μ)

namespace Engine

variable {α μ : Type}

def load (e : Engine α μ) (settings : Settings α) (c : Conic α) :
    Except Breakdown (Loaded α μ) := do
  return ⟨settings, c.cones, c.p, c.q, c.a, c.b, ← e.prepare settings c⟩

def reload (e : Engine α μ) (l : Loaded α μ) (c : Conic α) :
    Except Breakdown (Option (Loaded α μ)) := do
  return (← e.refresh l c).map fun memory =>
    { l with p := c.p, q := c.q, a := c.a, b := c.b, memory }

end Engine

/-- What a solve learns about time. -/
structure Clock (α : Type) where
  /-- Sets a time limit, which may break down.  The result tells, before each node of a search,
  whether the time is over. -/
  deadline : α → Except Breakdown (Nat → Bool)
  /-- The seconds that a run took. -/
  elapsed : α

/-- When the time of an optional limit is over. -/
def Clock.expiry {α : Type} (clock : Clock α) : Option α → Except Breakdown (Nat → Bool)
  | none => .ok fun _ => false
  | some limit => clock.deadline limit

end QuadProg
