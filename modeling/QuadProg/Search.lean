import QuadProg.Model
import QuadProg.Status

/-!
# Search over integral variables

Branch and bound looks for the best point with whole numbers at given places.  A *node* is a box of
lower and upper bounds; solving the continuous problem over the box is its *relaxation*.  The open
nodes form a stack.  Each step takes the top node, solves its relaxation and settles its *fate*:

* nothing feasible is in the box, so it is closed;
* the relaxation ended without a verdict, so the box is dropped, and nothing is proved any more;
* the bound is no better than the best point so far, so it is closed;
* the point found is integral, so it becomes the best point;
* some number is not whole, so the box is split below and above it, and the lower half comes first;
* at the first node, a relaxation that is unbounded or failed ends the search.

The state keeps a log of all nodes visited with their relaxations and fates, the latest first.  The
number of nodes reported is its length.
-/

namespace QuadProg

structure Relaxation (α : Type) where
  status : Termination
  x : List α
  eqDuals : List α
  ineqDuals : List α
  objective : α
  iterations : Nat

structure Point (α : Type) where
  x : List α
  objective : α

namespace Search

/-- A box still to be searched. -/
structure Node (α : Type) where
  lower : List α
  upper : List α
  /-- The number of splits that led to it. -/
  depth : Nat

/-- What became of a visited node. -/
inductive Fate (α : Type) where
  | infeasible
  | unresolved
  | pruned
  | accepted (point : Point α)
  | branched (j : Nat)
  | halted (s : SearchStatus)

structure Visit (α : Type) where
  node : Node α
  relaxation : Relaxation α
  fate : Fate α

structure Target (α : Type) where
  /-- The variables that have to be whole numbers. -/
  integers : List Nat
  limits : SearchLimits α
  objective : List α → Except Breakdown α

structure State (α : Type) where
  /-- The open nodes, the next first. -/
  stack : List (Node α)
  /-- The best point so far. -/
  incumbent : Option (Point α)
  /-- How the first relaxation without a verdict ended. -/
  unresolved : Option Termination
  /-- The visited nodes, the latest first. -/
  log : List (Visit α)

variable {α : Type} [Scalar α]

/-- The distance from the nearest whole number. -/
def fractionality (x : α) : α := magnitude (x - Scalar.round x)

/-- The coordinate `j` of a point.  Where it is asked for, it is there: engines answer with a number
for every variable, and `j` is one of the variables. -/
def coordinate (x : List α) (j : Nat) : α := x.getD j 0

/-- Of the given variables the one whose value is furthest from a whole number, the last of equals;
none when all are within the tolerance. -/
def mostFractional (x : List α) (integers : List Nat) (tolerance : α) : Option Nat :=
  let far := integers.filter fun j => tolerance < fractionality (coordinate x j)
  far.foldl (fun best j => match best with
    | none => some j
    | some k =>
      if fractionality (coordinate x k) ≤ fractionality (coordinate x j) then some j
      else some k) none

def roundAt (integers : List Nat) (x : List α) : List α :=
  x.mapIdx fun j v => if j ∈ integers then Scalar.round v else v

/-- What becomes of a node with the given relaxation. -/
def fate (target : Target α) (incumbent : Option (Point α)) (node : Node α) (r : Relaxation α) :
    Except Breakdown (Fate α) :=
  match r.status with
  | .solved | .almostSolved =>
    if incumbent.any fun best => best.objective - target.limits.gapAbs ≤ r.objective then
      .ok .pruned
    else
      match mostFractional r.x target.integers target.limits.intTol with
      | some j => .ok (.branched j)
      | none => do
        let x := roundAt target.integers r.x
        return .accepted ⟨x, ← target.objective x⟩
  | .primalInfeasible => .ok .infeasible
  | status =>
    if node.depth = 0 then
      .ok (.halted (if status = .dualInfeasible ∨ status = .almostDualInfeasible then .unbounded
        else .relaxationFailed status))
    else .ok .unresolved

/-- The two halves of a box, split at the value `v` of variable `j`. -/
def split (node : Node α) (j : Nat) (v : α) : List (Node α) :=
  [{ node with upper := node.upper.set j (Scalar.floor v), depth := node.depth + 1 },
   { node with lower := node.lower.set j (Scalar.ceil v), depth := node.depth + 1 }]

/-- The state after a visit, where `rest` are the other open nodes. -/
def State.visit (s : State α) (rest : List (Node α)) (v : Visit α) : State α where
  stack := match v.fate with
    | .branched j => split v.node j (coordinate v.relaxation.x j) ++ rest
    | _ => rest
  incumbent := match v.fate with
    | .accepted p => some p
    | _ => s.incumbent
  unresolved := match v.fate, s.unresolved with
    | .unresolved, none => some v.relaxation.status
    | _, u => u
  log := v :: s.log

/-- A relaxation for every node.  The number counts the relaxations solved before. -/
abbrev Relax (α : Type) := Nat → Node α → Except Breakdown (Relaxation α)

/-- Visits open nodes until none is left, time or the number of visits runs out, or a visit ends
the search.  The first component is what stopped it, if it stopped before its end. -/
def explore (target : Target α) (relax : Relax α) (expired : Nat → Bool) :
    Nat → State α → Except Breakdown (Option SearchStatus × State α)
  | remaining, s =>
    match s.stack, remaining with
    | [], _ => .ok (none, s)
    | _ :: _, 0 => .ok (some .nodeLimit, s)
    | node :: rest, remaining + 1 =>
      if expired s.log.length then .ok (some .timeLimit, s)
      else do
        let r ← relax s.log.length node
        let f ← fate target s.incumbent node r
        let s := s.visit rest ⟨node, r, f⟩
        match f with
        | .halted status => return (some status, s)
        | _ => explore target relax expired remaining s

/-- The verdict of a search that was stopped or not. -/
def verdict (stopped : Option SearchStatus) (s : State α) : SearchStatus :=
  match stopped, s.unresolved, s.incumbent with
  | some status, _, _ => status
  | none, some .maxTime, some _ => .timeLimit
  | none, some t, some _ => .unresolved t
  | none, some t, none => .relaxationFailed t
  | none, none, some _ => .optimal
  | none, none, none => .infeasible

/-- Whether the best point is reported under a verdict. -/
def keepsIncumbent : SearchStatus → Bool
  | .optimal | .nodeLimit | .timeLimit | .unresolved _ => true
  | .infeasible | .unbounded | .relaxationFailed _ => false

structure Outcome (α : Type) where
  status : SearchStatus
  point : Option (Point α)
  nodes : Nat

def State.start (lower upper : List α) : State α := ⟨[⟨lower, upper, 0⟩], none, none, []⟩

def run (target : Target α) (relax : Relax α) (expired : Nat → Bool) (lower upper : List α) :
    Except Breakdown (Outcome α) := do
  let (stopped, s) ← explore target relax expired target.limits.maxNodes (.start lower upper)
  let status := verdict stopped s
  return ⟨status, if keepsIncumbent status then s.incumbent else none, s.log.length⟩

end Search

end QuadProg
