import QuadProg.Proofs.Options.ByName
import QuadProg.Proofs.Options.Spelling

/-!
# Options survive their text

The text of options says what their values are made of, and reading it back has to find out their
kinds.  The kinds are tried in turn, so each content must be refused by all kinds before its own:

```text
                     truth value    integer      double     string
true, false              yes
-3                        -           yes
2.0                       -            -           yes
"3"                       -            -            -         yes
null                      -            -            -          -
```

An integer is also a double, so it keeps its kind only because integers are tried first; and a whole
double keeps its kind only because its text has a point or an exponent.  What is not finite is lost
as `null`, which no kind takes: then nothing is read, rather than options without this value
(`recovered?_eq_none`).

The text is read member by member.  A member ends where the next comma or the closing brace is, and
what comes after it does not matter (`readMembers?_writeMember`); so the whole text is read by
induction over the members (`readMembers?_writeMembers`).
-/

namespace QuadProg

open Json

/-! ### Kinds -/

namespace OptionValue

/-- A whole number is one of 64 bits with sign. -/
def FitsInt : OptionValue Float → Prop
  | int i => -2 ^ 63 ≤ i ∧ i < 2 ^ 63
  | _ => True

/-- A number is finite. -/
def Finite : OptionValue Float → Prop
  | number x => x.isFinite = true
  | _ => True

/-- No kind that is tried before takes the content of an option. -/
theorem ofContent?_content {v : OptionValue Float} (h : v.FitsInt) :
    ofContent? v.content = some v := by
  cases v with
  | bool b => rfl
  | int i =>
      have hint : intOf? (.whole i) = some (int i) := if_pos h
      simp [ofContent?, content, List.findSome?, boolOf?, hint]
  | number x => rfl
  | text s => rfl

theorem ofContent?_printed {v : OptionValue Float} (h : v.FitsInt) (hfinite : v.Finite) :
    ofContent? v.content.printed = some v := by
  have hprinted : v.content.printed = v.content := by
    cases v with
    | number x => exact if_pos hfinite
    | _ => rfl
  rw [hprinted, ofContent?_content h]

/-- No kind takes a number that was lost. -/
theorem ofContent?_printed_eq_none {v : OptionValue Float} (h : ¬ v.Finite) :
    ofContent? v.content.printed = none := by
  cases v with
  | number x =>
      have hprinted : (Content.number x).printed = .null := if_neg h
      rw [content, hprinted]
      rfl
  | _ => exact absurd trivial h

end OptionValue

namespace Json

/-! ### Members -/

section Members

variable {numbers : Numbers}

/-- What is left of the members of an object in a text, if all of them are options. -/
def recovered? :
    List (String × OptionValue Float) → Option (List (String × OptionValue Float))
  | [] => some []
  | e :: es => (OptionValue.ofContent? e.2.content.printed).bind fun value =>
      (recovered? es).map ((e.1, value) :: ·)

theorem recovered?_eq_some {es : List (String × OptionValue Float)}
    (h : ∀ e ∈ es, e.2.FitsInt ∧ e.2.Finite) : recovered? es = some es := by
  induction es with
  | nil => rfl
  | cons e es ih =>
      obtain ⟨⟨hint, hfinite⟩, hes⟩ := List.forall_mem_cons.1 h
      rw [recovered?, OptionValue.ofContent?_printed hint hfinite, ih hes]
      rfl

/-- One member that is lost takes all others with it. -/
theorem recovered?_eq_none {es : List (String × OptionValue Float)}
    (h : ∃ e ∈ es, ¬ e.2.Finite) : recovered? es = none := by
  induction es with
  | nil => simp at h
  | cons e es ih =>
      obtain ⟨d, hd, hlost⟩ := h
      rw [recovered?]
      rcases List.mem_cons.1 hd with rfl | hd
      · rw [OptionValue.ofContent?_printed_eq_none hlost, Option.bind_none]
      · rw [ih ⟨d, hd, hlost⟩]
        cases OptionValue.ofContent? e.2.content.printed <;> rfl

/-- A content begins with no blank. -/
theorem skipBlanks_of_readContent? {s : List Char} {out : Content × List Char}
    (h : readContent? numbers s = some out) : skipBlanks s = s := by
  cases s with
  | nil => rfl
  | cons c s =>
      refine List.dropWhile_cons_of_neg fun hblank => ?_
      simp only [Bool.or_eq_true, decide_eq_true_eq] at hblank
      rcases hblank with ((rfl | rfl) | rfl) | rfl <;> cases h

/-- A member is read up to the comma or the brace after it, and then the others are. -/
theorem readMembers?_writeMember {e : String × OptionValue Float}
    (he : e.2.content.Legible numbers) {r : List Char} (hr : Delimited r) (fuel : Nat) :
    readMembers? numbers (fuel + 1) (writeMember numbers e ++ r) = (do
      let value ← OptionValue.ofContent? e.2.content.printed
      match r with
      | ',' :: r =>
        let (ms, r) ← readMembers? numbers fuel (skipBlanks r)
        return ((e.1, value) :: ms, r)
      | '\x7d' :: r => return ([(e.1, value)], r)
      | _ => none) := by
  have htext : writeMember numbers e ++ r =
      writeString e.1 ++ ':' :: (writeContent numbers e.2.content ++ r) := by
    simp [writeMember]
  have hcontent := readContent?_writeContent he hr
  have hcolon : ∀ s, skipBlanks (':' :: s) = ':' :: s := fun _ => rfl
  have hend : skipBlanks r = r := by
    obtain ⟨c, rest, rfl, rfl | rfl⟩ := hr <;> rfl
  rw [htext, readMembers?]
  obtain ⟨c, rest, rfl, rfl | rfl⟩ := hr <;>
    simp only [readString?_writeString, bind, Option.bind_some, hcolon,
      skipBlanks_of_readContent? hcontent, hcontent, hend]

theorem writeMembers_cons_cons (e d : String × OptionValue Float)
    (es : List (String × OptionValue Float)) : writeMembers numbers (e :: d :: es) =
      writeMember numbers e ++ ',' :: writeMembers numbers (d :: es) := by
  simp [writeMembers, List.intercalate]

theorem writeMembers_eq_cons (numbers : Numbers) (e : String × OptionValue Float)
    (es : List (String × OptionValue Float)) : ∃ t, writeMembers numbers (e :: es) = '"' :: t := by
  cases es with
  | nil => simp [writeMembers, List.intercalate, writeMember, writeString]
  | cons d ds => simp [writeMembers_cons_cons, writeMember, writeString]

/-- Between braces, there is one step for each member. -/
theorem readMembers?_writeMembers {es : List (String × OptionValue Float)} (hne : es ≠ [])
    (hes : ∀ e ∈ es, e.2.content.Legible numbers) {fuel : Nat} (hfuel : es.length ≤ fuel)
    (r : List Char) : readMembers? numbers fuel (writeMembers numbers es ++ '\x7d' :: r) =
      (recovered? es).map (·, r) := by
  induction es generalizing fuel with
  | nil => exact absurd rfl hne
  | cons e es ih =>
      obtain ⟨he, hes⟩ := List.forall_mem_cons.1 hes
      obtain ⟨fuel, rfl⟩ := Nat.exists_eq_succ_of_ne_zero (Nat.ne_zero_of_lt hfuel)
      cases es with
      | nil =>
          have htext : writeMembers numbers [e] = writeMember numbers e := by
            simp [writeMembers, List.intercalate]
          rw [htext, Nat.succ_eq_add_one, readMembers?_writeMember he (.of_brace r),
            recovered?]
          cases OptionValue.ofContent? e.2.content.printed <;> rfl
      | cons d ds =>
          have hrest := ih (List.cons_ne_nil d ds) hes (Nat.le_of_succ_le_succ hfuel)
          rw [writeMembers_cons_cons, List.append_assoc, List.cons_append, Nat.succ_eq_add_one,
            readMembers?_writeMember he (.of_comma _), recovered?]
          have hblank : skipBlanks (writeMembers numbers (d :: ds) ++ '\x7d' :: r) =
              writeMembers numbers (d :: ds) ++ '\x7d' :: r := by
            obtain ⟨t, ht⟩ := writeMembers_eq_cons numbers d ds
            rw [ht]
            rfl
          simp only [hblank, hrest]
          cases OptionValue.ofContent? e.2.content.printed with
          | none => rfl
          | some value => cases recovered? (d :: ds) <;> rfl

theorem length_le_writeMembers (numbers : Numbers) (es : List (String × OptionValue Float)) :
    es.length ≤ (writeMembers numbers es).length := by
  induction es with
  | nil => exact Nat.zero_le _
  | cons e es ih =>
      cases es with
      | nil =>
          obtain ⟨t, ht⟩ := writeMembers_eq_cons numbers e []
          rw [ht]
          exact Nat.le_add_left 1 _
      | cons d ds =>
          rw [writeMembers_cons_cons]
          simp only [List.length_append, List.length_cons] at ih ⊢
          omega

/-- An object is read back as far as its members are. -/
theorem readObject?_writeObject {es : List (String × OptionValue Float)}
    (hes : ∀ e ∈ es, e.2.content.Legible numbers) :
    readObject? numbers (writeObject numbers es) = (recovered? es).map (·, []) := by
  cases es with
  | nil => rfl
  | cons e es =>
      obtain ⟨t, ht⟩ := writeMembers_eq_cons numbers e es
      have hfuel : (e :: es).length ≤ (writeMembers numbers (e :: es) ++ ['\x7d']).length := by
        rw [List.length_append]
        exact (length_le_writeMembers numbers (e :: es)).trans (Nat.le_add_right _ _)
      have hread := readMembers?_writeMembers (List.cons_ne_nil e es) hes hfuel []
      rw [ht] at hread
      rw [writeObject, ht]
      exact hread

end Members

end Json

/-! ### Options -/

namespace Options

variable {numbers : Numbers} {o : Options Float}

theorem read?_write (ho : ∀ e ∈ o.entries, e.2.content.Legible numbers) :
    read? numbers (o.write numbers) = (recovered? o.entries).map ofList := by
  rw [read?, write, String.toList_ofList, readObject?_writeObject ho]
  cases recovered? o.entries <;> rfl

/-- **Options survive their text, unless a number in them is not finite.**  Let whole numbers have
64 bits with sign, and let the spelling of the finite doubles be read back.  If all numbers are
finite, the text of the options is read as the same options, with every value of the same kind;
otherwise it is not read as any options at all. -/
theorem write_survives (hints : ∀ e ∈ o.entries, e.2.FitsInt)
    (hnumbers : ∀ name x, (name, .number x) ∈ o.entries → x.isFinite = true →
      numbers.ReadsBack x) :
    ((∀ e ∈ o.entries, e.2.Finite) → read? numbers (o.write numbers) = some o) ∧
      ((∃ e ∈ o.entries, ¬ e.2.Finite) → read? numbers (o.write numbers) = none) := by
  have hlegible : ∀ e ∈ o.entries, e.2.content.Legible numbers := by
    rintro ⟨name, v⟩ he
    cases v with
    | int i =>
        obtain ⟨hlow, hhigh⟩ := hints _ he
        exact ⟨hlow, hhigh.trans (by norm_num)⟩
    | number x => exact hnumbers name x he
    | _ => exact trivial
  rw [read?_write hlegible]
  constructor
  · intro hfinite
    rw [recovered?_eq_some fun e he => ⟨hints e he, hfinite e he⟩, Option.map_some, ofList_entries]
  · intro hlost
    rw [recovered?_eq_none hlost, Option.map_none]

/-- A whole double is written with a point, and so it is not read as an integer. -/
theorem readsBack_two : Numbers.standard.ReadsBack 2 := by
  have hwrite : Numbers.standard.write 2 = ['2', '.', '0'] := by decide +kernel
  have hread : Numbers.standard.content? ⟨false, [2], some [0], none⟩ = some (.number 2) := by
    have hdouble : (⟨false, [2], some [0], none⟩ : Decimal.Numeral).double? = some 2 := by
      decide +kernel
    exact congrArg (Option.map Content.number) hdouble
  intro r hr
  have hnumeral : readUnsigned? false ('2' :: '.' :: '0' :: r) =
      some (⟨false, [2], some [0], none⟩, r) := by
    obtain ⟨c, rest, rfl, rfl | rfl⟩ := hr <;> rfl
  rw [hwrite]
  show readContent? .standard ('2' :: '.' :: '0' :: r) = _
  rw [readContent?_of_isDigit (by decide), readNumber?, hnumeral]
  simp [hread]

/-- A whole double, digits in a string, a negative integer and a truth value. -/
def mixedOptions : Options Float :=
  ⟨[("limit", .number 2), ("method", .text "3"), ("steps", .int (-3)), ("verbose", .bool true)],
    by decide⟩

/-- An infinite time limit. -/
def endlessOptions : Options Float :=
  ⟨[("time_limit", .number (1 / 0)), ("verbose", .bool true)], by decide⟩

theorem write_survives_mixed :
    read? .standard (mixedOptions.write .standard) = some mixedOptions ∧
      read? .standard (endlessOptions.write .standard) = none := by
  constructor
  · refine (write_survives ?_ fun name x hx _ => ?_).1 ?_
    · simp [mixedOptions, OptionValue.FitsInt]
    · obtain ⟨-, rfl⟩ : name = "limit" ∧ x = 2 := by simpa [mixedOptions] using hx
      exact readsBack_two
    · have hfinite : (2 : Float).isFinite = true := by decide +kernel
      simp [mixedOptions, OptionValue.Finite, hfinite]
  · have hinfinite : (1 / 0 : Float).isFinite = false := by decide +kernel
    refine (write_survives ?_ fun name x hx hfinite => ?_).2 ?_
    · simp [endlessOptions, OptionValue.FitsInt]
    · obtain ⟨-, rfl⟩ : name = "time_limit" ∧ x = 1 / 0 := by simpa [endlessOptions] using hx
      rw [hinfinite] at hfinite
      cases hfinite
    · exact ⟨("time_limit", .number (1 / 0)), by simp [endlessOptions],
        by simp [OptionValue.Finite, hinfinite]⟩

end Options

end QuadProg
