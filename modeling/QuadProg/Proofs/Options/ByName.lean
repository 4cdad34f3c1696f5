import QuadProg.Options.Basic
import QuadProg.Proofs.Lists

/-!
# Options by name

Options are known by the values that they have under each name (`Options.ext_get?`).  Putting a
value in changes what they have under its name, and nothing else (`get?_insert`).  So options made
from a list have, under each name, the last value that the list has for it (`get?_ofList`): neither
the order of the names nor what was overwritten can be seen any more (`ofList_congr`), and the
entries of options make the same options again (`ofList_entries`).
-/

namespace QuadProg.Options

variable {α : Type}

/-- The last of several values for a name. -/
def lastValue (name : String) (es : List (String × OptionValue α)) : Option (OptionValue α) :=
  es.reverse.lookup name

theorem ext_get? {o p : Options α} (h : ∀ name, o.get? name = p.get? name) : o = p := by
  have hentries : o.entries = p.entries := eq_of_lookup_eq o.sorted p.sorted h
  obtain ⟨_, _⟩ := o
  obtain ⟨_, _⟩ := p
  cases hentries
  rfl

theorem lookup_insertEntry (name : String) (value : OptionValue α)
    {es : List (String × OptionValue α)} (h : es.Pairwise (·.1 < ·.1)) (other : String) :
    (insertEntry name value es).lookup other =
      if other = name then some value else es.lookup other := by
  induction es with
  | nil => rw [insertEntry, lookup_cons_eq]
  | cons d ds ih =>
      obtain ⟨-, hds⟩ := List.pairwise_cons.1 h
      rcases lt_trichotomy name d.1 with hlt | heq | hgt
      · rw [insertEntry, if_pos hlt, lookup_cons_eq]
      -- the name is there already, and its value gives way
      · rw [insertEntry, if_neg heq.not_lt, if_neg heq.not_gt, lookup_cons_eq, lookup_cons_eq, heq]
        split_ifs <;> rfl
      · rw [insertEntry, if_neg hgt.not_gt, if_pos hgt, lookup_cons_eq, ih hds, lookup_cons_eq]
        split_ifs with hother hname
        · exact absurd (hother.symm.trans hname) hgt.ne
        · rfl
        · rfl
        · rfl

theorem get?_insert (o : Options α) (name : String) (value : OptionValue α) (other : String) :
    (o.insert name value).get? other = if other = name then some value else o.get? other :=
  lookup_insertEntry name value o.sorted other

theorem lastValue_cons (name : String) (e : String × OptionValue α)
    (es : List (String × OptionValue α)) :
    lastValue name (e :: es) = (lastValue name es).or (if name = e.1 then some e.2 else none) := by
  rw [lastValue, List.reverse_cons, List.lookup_append, lookup_cons_eq, List.lookup_nil, lastValue]

theorem get?_foldl_insert (es : List (String × OptionValue α)) (o : Options α) (name : String) :
    (es.foldl (fun o e => o.insert e.1 e.2) o).get? name =
      (lastValue name es).or (o.get? name) := by
  induction es generalizing o with
  | nil => rfl
  | cons e es ih =>
      rw [List.foldl_cons, ih, get?_insert, lastValue_cons, Option.or_assoc]
      split_ifs <;> rfl

/-- Of several values for a name, options have the last. -/
theorem get?_ofList (es : List (String × OptionValue α)) (name : String) :
    (ofList es).get? name = lastValue name es := by
  rw [ofList, get?_foldl_insert]
  exact Option.or_none

/-- Only the last value for each name matters, and not the order of the names. -/
theorem ofList_congr {es fs : List (String × OptionValue α)}
    (h : ∀ name, lastValue name es = lastValue name fs) : ofList es = ofList fs :=
  ext_get? fun name => by rw [get?_ofList, get?_ofList, h]

/-- Where no name comes twice, the last value is the only one. -/
theorem lastValue_of_sorted {es : List (String × OptionValue α)} (h : es.Pairwise (·.1 < ·.1))
    (name : String) : lastValue name es = es.lookup name := by
  induction es with
  | nil => rfl
  | cons e es ih =>
      obtain ⟨he, hes⟩ := List.pairwise_cons.1 h
      rw [lastValue_cons, ih hes, lookup_cons_eq]
      split_ifs with hname
      · rw [lookup_eq_none_of_lt fun f hf => hname ▸ he f hf, Option.none_or]
      · exact Option.or_none

theorem ofList_entries (o : Options α) : ofList o.entries = o :=
  ext_get? fun name => by rw [get?_ofList, lastValue_of_sorted o.sorted, get?]

end QuadProg.Options
