/-!
# Identities

Variables and constraints are told apart by identities, which are handed out in ascending order by
a supply and never twice.
-/

namespace QuadProg

/-- The identity of a variable or a constraint. -/
structure Ident where
  index : Nat
deriving DecidableEq, Repr, Inhabited

namespace Ident

instance : LT Ident := ⟨fun a b => a.index < b.index⟩

instance : DecidableLT Ident := fun a b => inferInstanceAs (Decidable (a.index < b.index))

/-- Puts an identity into its place in an ascending list, once. -/
def insert (a : Ident) : List Ident → List Ident
  | [] => [a]
  | b :: bs => if a < b then a :: b :: bs else if a = b then b :: bs else b :: insert a bs

/-- The identities of a list in ascending order, each once. -/
def ascending (ids : List Ident) : List Ident := ids.foldr insert []

end Ident

/-- The identities that have not been handed out: those from `next` on. -/
structure Supply where
  next : Nat := 0
deriving DecidableEq, Repr

/-- A computation that may ask for new identities. -/
abbrev Fresh := StateM Supply

def Fresh.ident : Fresh Ident := fun s => (⟨s.next⟩, ⟨s.next + 1⟩)

end QuadProg
