import Mathlib
import QuadProg.Options.Json

/-!
# What is written is read back

The text of a string, of a truth value and of a whole number is read back as it was, whatever
follows it; a number ends where a comma or a closing brace follows (`Delimited`).  How doubles are
spelled is a parameter, so that the spelling of a double is read back is a property of it
(`Numbers.ReadsBack`).

So a content is read back if its numbers are (`readContent?_writeContent`), except that a number
that is not finite comes back as nothing (`Content.printed`).
-/

namespace QuadProg.Json

/-! ### Characters and strings -/

/-- A control character is escaped by its two last digits to base sixteen. -/
theorem hexDigits_of_lt : ∀ n < 32,
    hexDigits n = ['0', '0', Nat.digitChar (n / 16), Nat.digitChar (n % 16)] ∧
      codeUnit? '0' '0' (Nat.digitChar (n / 16)) (Nat.digitChar (n % 16)) = some n := by
  decide

/-- Any other character than a quote, a backslash and a control character stands for itself. -/
theorem readChar?_of_plain {c : Char} (hquote : c ≠ '"') (hbackslash : c ≠ '\\')
    (hcontrol : ¬ c.toNat < 32) (r : List Char) : readChar? (c :: r) = some (some c, r) := by
  unfold readChar?
  split
  case h_4 heq =>
    obtain ⟨rfl, rfl⟩ := List.cons.inj heq
    exact if_neg hcontrol
  all_goals simp_all

theorem readChar?_escape (c : Char) (r : List Char) :
    readChar? (escape c ++ r) = some (some c, r) := by
  unfold escape
  split
  case h_8 hquote hbackslash _ _ _ _ _ =>
    split_ifs with hcontrol
    · obtain ⟨hdigits, hunit⟩ := hexDigits_of_lt c.toNat hcontrol
      have hscalar : isScalarUnit c.toNat = true := by
        simp only [isScalarUnit, Bool.or_eq_true, decide_eq_true_eq]
        omega
      rw [hdigits]
      simp [readChar?, hunit, hscalar]
    · exact readChar?_of_plain hquote hbackslash hcontrol r
  all_goals rfl

theorem escape_ne_nil (c : Char) : escape c ≠ [] := by
  intro h
  have hread := readChar?_escape c []
  rw [h] at hread
  cases hread

theorem length_le_flatMap_escape (cs : List Char) : cs.length ≤ (cs.flatMap escape).length := by
  induction cs with
  | nil => exact le_rfl
  | cons c cs ih =>
      have hpos := List.length_pos_iff.2 (escape_ne_nil c)
      rw [List.flatMap_cons, List.length_append, List.length_cons]
      omega

theorem readRest?_flatMap (cs r : List Char) {fuel : Nat} (h : cs.length < fuel) :
    readRest? fuel (cs.flatMap escape ++ '"' :: r) = some (cs, r) := by
  induction cs generalizing fuel with
  | nil =>
      obtain ⟨fuel, rfl⟩ := Nat.exists_eq_succ_of_ne_zero (Nat.ne_zero_of_lt h)
      rfl
  | cons c cs ih =>
      obtain ⟨fuel, rfl⟩ := Nat.exists_eq_succ_of_ne_zero (Nat.ne_zero_of_lt h)
      have hrest := ih (Nat.lt_of_succ_lt_succ h)
      rw [List.flatMap_cons, List.append_assoc, Nat.succ_eq_add_one, readRest?]
      simp [readChar?_escape, hrest]

theorem readString?_writeString (s : String) (r : List Char) :
    readString? (writeString s ++ r) = some (s, r) := by
  have htext : writeString s ++ r = '"' :: (s.toList.flatMap escape ++ '"' :: r) := by
    simp [writeString]
  have hlength := length_le_flatMap_escape s.toList
  rw [htext, readString?, readRest?_flatMap]
  · simp
  · rw [List.length_append, List.length_cons]
    omega

/-! ### Whole numbers -/

/-- What follows a value inside an object. -/
def Delimited (r : List Char) : Prop := ∃ c rest, r = c :: rest ∧ (c = ',' ∨ c = '\x7d')

theorem Delimited.of_comma (rest : List Char) : Delimited (',' :: rest) := ⟨_, _, rfl, .inl rfl⟩

theorem Delimited.of_brace (rest : List Char) : Delimited ('\x7d' :: rest) := ⟨_, _, rfl, .inr rfl⟩

/-- The numbers that the digits of `n` stand for. -/
def digitValues (n : Nat) : List Nat := (Nat.toDigits 10 n).map fun c => c.toNat - 48

theorem readDigits_toDigits (n : Nat) {r : List Char} (hr : Delimited r) :
    readDigits (Nat.toDigits 10 n ++ r) = (digitValues n, r) := by
  have hdigit : ∀ c ∈ Nat.toDigits 10 n, c.isDigit = true :=
    fun c hc => Nat.isDigit_of_mem_toDigits (by decide) (by decide) hc
  have hstop : r.takeWhile Char.isDigit = [] ∧ r.dropWhile Char.isDigit = r := by
    obtain ⟨c, rest, rfl, rfl | rfl⟩ := hr
    · exact ⟨rfl, rfl⟩
    · exact ⟨rfl, rfl⟩
  rw [readDigits, List.takeWhile_append_of_pos hdigit, List.dropWhile_append_of_pos hdigit,
    hstop.1, hstop.2, List.append_nil, digitValues]

/-- Only zero starts with a zero. -/
theorem head_toDigits {n : Nat} (h : 0 < n) : (Nat.toDigits 10 n).head? ≠ some '0' := by
  induction n using Nat.strong_induction_on with
  | _ n ih =>
      rcases Nat.lt_or_ge n 10 with hlt | hge
      · rw [Nat.toDigits_of_lt_base hlt]
        interval_cases n <;> decide
      · have hrest := ih (n / 10) (by omega) (by omega)
        rw [Nat.toDigits_of_base_le (by decide) hge,
          List.head?_append_of_ne_nil _ Nat.toDigits_ne_nil]
        exact hrest

theorem digitValues_ne_zero_cons (n d : Nat) (ds : List Nat) :
    digitValues n ≠ 0 :: d :: ds := by
  intro h
  obtain ⟨c, cs, hcons, hc, hcs⟩ := List.map_eq_cons_iff.1 h
  have hdigit : c.isDigit = true :=
    Nat.isDigit_of_mem_toDigits (by decide) (by decide) (hcons ▸ List.mem_cons_self)
  have hzero : c = '0' := by
    have hle : 48 ≤ c.toNat := by
      rw [Char.isDigit, Bool.and_eq_true, decide_eq_true_eq] at hdigit
      exact hdigit.1
    exact Char.toNat_inj.1 (by rw [show ('0' : Char).toNat = 48 from rfl]; omega)
  rcases Nat.eq_zero_or_pos n with rfl | hpos
  · cases hcons
    cases hcs
  · exact head_toDigits hpos (by rw [hcons, hzero, List.head?_cons])

theorem readUnsigned?_toDigits (negative : Bool) (n : Nat) {r : List Char} (hr : Delimited r) :
    readUnsigned? negative (Nat.toDigits 10 n ++ r) =
      some (⟨negative, digitValues n, none, none⟩, r) := by
  have hfraction : readFraction? r = some (none, r) := by
    obtain ⟨c, rest, rfl, rfl | rfl⟩ := hr <;> rfl
  have hexponent : readExponent? r = some (none, r) := by
    obtain ⟨c, rest, rfl, rfl | rfl⟩ := hr <;> rfl
  unfold readUnsigned?
  rw [readDigits_toDigits n hr]
  dsimp only
  split
  case h_1 hnil => simp [digitValues, Nat.toDigits_ne_nil] at hnil
  case h_2 hzero => exact absurd hzero (digitValues_ne_zero_cons n _ _)
  case h_3 => simp [hfraction, hexponent]

theorem le_foldl_digits (ds : List Nat) (n : Nat) :
    n ≤ ds.foldl (fun n d => n * 10 + d) n := by
  induction ds generalizing n with
  | nil => exact le_rfl
  | cons d ds ih => exact (by omega : n ≤ n * 10 + d).trans (ih _)

/-- Digits are appended as long as the number has 64 bits. -/
theorem fill_eq {ds : List Nat} {n : Nat} (h : ds.foldl (fun n d => n * 10 + d) n < 2 ^ 64) :
    Decimal.fill n ds = (ds.foldl (fun n d => n * 10 + d) n, 0) := by
  induction ds generalizing n with
  | nil => rfl
  | cons d ds ih =>
      have hlt : n * 10 + d < Nat.pow 2 64 := (le_foldl_digits ds _).trans_lt h
      rw [Decimal.fill, if_pos hlt, ih h, List.foldl_cons]

theorem foldl_digitValues (n : Nat) : (digitValues n).foldl (fun n d => n * 10 + d) 0 = n := by
  have hvalue : Nat.ofDigitChars 10 (Nat.toDigits 10 n) 0 = n := Nat.ofDigitChars_ten_toDigits
  rw [Nat.ofDigitChars_eq_foldl] at hvalue
  simp only [Nat.mul_comm 10] at hvalue
  rw [digitValues, List.foldl_map]
  exact hvalue

theorem whole?_digitValues {n : Nat} (h : n < 2 ^ 64) :
    (Decimal.Numeral.mk false (digitValues n) none none).whole? = some (n : Int) := by
  rw [← foldl_digitValues n] at h
  simp [Decimal.Numeral.whole?, fill_eq h, foldl_digitValues]

theorem whole?_neg_digitValues {n : Nat} (hpos : 0 < n) (h : n ≤ 2 ^ 63) :
    (Decimal.Numeral.mk true (digitValues n) none none).whole? = some (-(n : Int)) := by
  have hlt : n < 2 ^ 64 := h.trans_lt (by decide)
  rw [← foldl_digitValues n] at hlt
  have hrange : 0 < n ∧ n ≤ Nat.pow 2 63 := ⟨hpos, h⟩
  simp only [Decimal.Numeral.whole?, fill_eq hlt, foldl_digitValues, if_pos hrange, if_true]

/-! ### Contents -/

section Contents

variable {numbers : Numbers}

/-- What begins with a digit is a number. -/
theorem readContent?_of_isDigit {c : Char} (h : c.isDigit = true) (s : List Char) :
    readContent? numbers (c :: s) = readNumber? numbers false (c :: s) := by
  unfold readContent?
  split
  case h_6 => rfl
  all_goals
    rename_i heq
    cases heq
    cases h

theorem toList_toString_natCast (n : Nat) : (toString (n : Int)).toList = Nat.toDigits 10 n := by
  show (toString n).toList = _
  rw [Nat.toString_eq_ofList_toDigits, String.toList_ofList]

theorem toList_toString_negSucc (n : Nat) :
    (toString (Int.negSucc n)).toList = '-' :: Nat.toDigits 10 (n + 1) := by
  show ("-" ++ toString (n + 1)).toList = _
  simp

/-- Whole numbers of 64 bits are read back, with and without sign. -/
theorem readContent?_toString {i : Int} (hlow : -2 ^ 63 ≤ i) (hhigh : i < 2 ^ 64) {r : List Char}
    (hr : Delimited r) :
    readContent? numbers ((toString i).toList ++ r) = some (.whole i, r) := by
  cases i with
  | ofNat n =>
      have hdigits : (toString (Int.ofNat n)).toList = Nat.toDigits 10 n :=
        toList_toString_natCast n
      obtain ⟨c, cs, hcons⟩ := List.exists_cons_of_ne_nil (Nat.toDigits_ne_nil (n := n) (b := 10))
      have hdigit : c.isDigit = true :=
        Nat.isDigit_of_mem_toDigits (by decide) (by decide) (hcons ▸ List.mem_cons_self)
      have hwhole := whole?_digitValues (Int.ofNat_lt.1 hhigh)
      have hread : readNumber? numbers false (Nat.toDigits 10 n ++ r) = some (.whole n, r) := by
        simp [readNumber?, readUnsigned?_toDigits false n hr, Numbers.content?, hwhole]
      rw [hdigits]
      rw [hcons] at hread ⊢
      exact (readContent?_of_isDigit hdigit _).trans hread
  | negSucc n =>
      have hwhole : (Decimal.Numeral.mk true (digitValues (n + 1)) none none).whole? =
          some (Int.negSucc n) := whole?_neg_digitValues (by omega) (by omega)
      rw [toList_toString_negSucc]
      show readNumber? numbers true (Nat.toDigits 10 (n + 1) ++ r) = _
      simp [readNumber?, readUnsigned?_toDigits true (n + 1) hr, Numbers.content?, hwhole]

/-- The text of the double is read back as the same double, and never as a whole number. -/
def Numbers.ReadsBack (numbers : Numbers) (x : Float) : Prop :=
  ∀ r, Delimited r → readContent? numbers (numbers.write x ++ r) = some (.number x, r)

/-- A whole number has 64 bits, and the spelling of a finite double can be read. -/
def Content.Legible (numbers : Numbers) : Content → Prop
  | .whole i => -2 ^ 63 ≤ i ∧ i < 2 ^ 64
  | .number x => x.isFinite = true → numbers.ReadsBack x
  | _ => True

/-- What is left of a content in a text: a number that is not finite is lost. -/
def Content.printed : Content → Content
  | .number x => if x.isFinite then .number x else .null
  | c => c

theorem readContent?_writeContent {c : Content} (hc : c.Legible numbers) {r : List Char}
    (hr : Delimited r) :
    readContent? numbers (writeContent numbers c ++ r) = some (c.printed, r) := by
  cases c with
  | null => rfl
  | bool b => cases b <;> rfl
  | whole i => exact readContent?_toString hc.1 hc.2 hr
  | number x =>
      by_cases hfinite : x.isFinite = true
      · rw [writeContent, if_pos hfinite, Content.printed, if_pos hfinite]
        exact hc hfinite r hr
      · rw [writeContent, if_neg hfinite, Content.printed, if_neg hfinite]
        rfl
  | text s =>
      show (readString? (writeString s ++ r)).map _ = _
      rw [readString?_writeString]
      rfl

end Contents

end QuadProg.Json
