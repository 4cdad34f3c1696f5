import QuadProg.Scalar
import QuadProg.Text.Quoted

/-!
# Options

Options are named values for the engine, kept in the order of their names.  A later value for a
name replaces an earlier one.  What a name means, and which values it takes, is for the reader of
the options to say.
-/

namespace QuadProg

inductive OptionValue (α : Type) where
  | bool (value : Bool)
  /-- A whole number in the range of 64 bits with sign. -/
  | int (value : Int)
  | number (value : α)
  | text (value : String)
deriving BEq

namespace OptionValue

variable {α : Type}

def asBool? : OptionValue α → Option Bool
  | bool b => some b
  | _ => none

def asInt? : OptionValue α → Option Int
  | int i => some i
  | _ => none

/-- The value as a number; whole numbers are numbers too. -/
def asNumber? [Scalar α] : OptionValue α → Option α
  | number v => some v
  | int i => some (Scalar.ofInt i)
  | _ => none

def asText? : OptionValue α → Option String
  | text s => some s
  | _ => none

/-- The word for the kind of value. -/
def typeName : OptionValue α → String
  | bool _ => "bool"
  | int _ => "int"
  | number _ => "float"
  | text _ => "string"

/-- The value as it stands in messages; text is quoted. -/
def display [NumberText α] : OptionValue α → String
  | bool b => toString b
  | int i => toString i
  | number v => NumberText.text v
  | text s => Text.quoted s

end OptionValue

/-- Named values in ascending order of their names. -/
structure Options (α : Type) where
  entries : List (String × OptionValue α) := []
  sorted : entries.Pairwise (·.1 < ·.1) := by simp

namespace Options

variable {α : Type}

/-- Puts a named value in its place; an entry of the same name gives way. -/
def insertEntry (name : String) (value : OptionValue α) :
    List (String × OptionValue α) → List (String × OptionValue α)
  | [] => [(name, value)]
  | e :: es =>
    if name < e.1 then (name, value) :: e :: es
    else if e.1 < name then e :: insertEntry name value es
    else (name, value) :: es

theorem mem_insertEntry {name : String} {value : OptionValue α}
    {es : List (String × OptionValue α)} {e : String × OptionValue α}
    (h : e ∈ insertEntry name value es) : e = (name, value) ∨ e ∈ es := by
  induction es with
  | nil => simpa [insertEntry] using h
  | cons d ds ih =>
    unfold insertEntry at h
    split at h
    · simpa using h
    · split at h
      · rcases List.mem_cons.1 h with h | h
        · exact .inr (h ▸ List.mem_cons_self)
        · exact (ih h).imp_right (List.mem_cons_of_mem _)
      · exact (List.mem_cons.1 h).imp_right (List.mem_cons_of_mem _)

theorem sorted_insertEntry (name : String) (value : OptionValue α)
    {es : List (String × OptionValue α)} (h : es.Pairwise (·.1 < ·.1)) :
    (insertEntry name value es).Pairwise (·.1 < ·.1) := by
  induction es with
  | nil => simp [insertEntry]
  | cons d ds ih =>
    rw [List.pairwise_cons] at h
    unfold insertEntry
    split
    · next hlt =>
      refine List.pairwise_cons.2 ⟨fun e he => ?_, List.pairwise_cons.2 h⟩
      rcases List.mem_cons.1 he with rfl | he
      · exact hlt
      · exact String.lt_trans hlt (h.1 e he)
    · next hnlt =>
      split
      · next hgt =>
        refine List.pairwise_cons.2 ⟨fun e he => ?_, ih h.2⟩
        rcases mem_insertEntry he with rfl | he
        · exact hgt
        · exact h.1 e he
      · next hngt =>
        have heq : d.1 = name := String.le_antisymm hnlt hngt
        exact List.pairwise_cons.2 ⟨fun e he => heq ▸ h.1 e he, h.2⟩

def empty : Options α := {}

instance : Inhabited (Options α) := ⟨empty⟩

def insert (o : Options α) (name : String) (value : OptionValue α) : Options α :=
  ⟨insertEntry name value o.entries, sorted_insertEntry name value o.sorted⟩

def get? (o : Options α) (name : String) : Option (OptionValue α) := o.entries.lookup name

/-- Options from named values; of several for one name the last counts. -/
def ofList (es : List (String × OptionValue α)) : Options α :=
  es.foldl (fun o e => o.insert e.1 e.2) empty

def size (o : Options α) : Nat := o.entries.length

def isEmpty (o : Options α) : Bool := o.entries.isEmpty

instance [BEq α] : BEq (Options α) := ⟨fun o p => o.entries == p.entries⟩

end Options

end QuadProg
