import QuadProg.Equation
import QuadProg.Problem

/-!
# Layouts

A layout says which columns of a problem belong to which variable, and which rows to which
constraint.  Blocks are appended one after the other, each starting where those before it end.

Where they end is counted in machine words: what goes beyond a word is lost.
-/

namespace QuadProg

structure VarBlock where
  ident : Ident
  offset : Nat
  shape : Shape
deriving DecidableEq, Repr

structure RowBlock where
  ident : Ident
  offset : Nat
  size : Nat
deriving DecidableEq, Repr

/-- Where the variables and constraints of a problem came from. -/
structure Layout where
  vars : List VarBlock := []
  eqs : List RowBlock := []
  ineqs : List RowBlock := []
  /-- The problem has integral variables, so that there are no dual values. -/
  isMixed : Bool := false
deriving DecidableEq, Repr, Inhabited

/-- The number of values that a machine word can take. -/
def wordSize : Nat := Nat.pow 2 64

/-- The sum of two numbers as a machine word. -/
def wordSum (m n : Nat) : Nat := (m + n) % wordSize

namespace Layout

/-- The row after the last block. -/
def rowsEnd (blocks : List RowBlock) : Nat :=
  match blocks.getLast? with
  | some b => wordSum b.offset b.size
  | none => 0

/-- The number of columns of all variables. -/
def nVar (l : Layout) : Nat := (l.vars.map (·.shape.size)).foldl wordSum 0

def nEq (l : Layout) : Nat := rowsEnd l.eqs

def nIneq (l : Layout) : Nat := rowsEnd l.ineqs

def addVar (l : Layout) (ident : Ident) (shape : Shape) : Layout :=
  { l with vars := l.vars ++ [⟨ident, l.nVar, shape⟩] }

def addEq (l : Layout) (ident : Ident) (size : Nat) : Layout :=
  { l with eqs := l.eqs ++ [⟨ident, l.nEq, size⟩] }

def addIneq (l : Layout) (ident : Ident) (size : Nat) : Layout :=
  { l with ineqs := l.ineqs ++ [⟨ident, l.nIneq, size⟩] }

variable {α : Type}

/-- The layout of the variables among some expressions. -/
def ofVars (es : List (Expr α)) : Layout :=
  es.foldl (fun l e => match e with
    | .var v => l.addVar v.ident v.shape
    | _ => l) {}

def addEquations (l : Layout) (cs : List (Equation α)) : Layout :=
  cs.foldl (fun l c => l.addEq c.ident c.size) l

/-- Whether the layout covers as many variables, equations and inequalities as the problem has. -/
def check (l : Layout) (d : Problem α) : Except (Error α) Unit :=
  if l.nVar = d.nVar ∧ l.nEq = d.nEq ∧ l.nIneq = d.nIneq then .ok ()
  else .error (.invalidProblem
    (.layoutSize (l.nVar, l.nEq, l.nIneq) (d.nVar, d.nEq, d.nIneq)))

end Layout

end QuadProg
