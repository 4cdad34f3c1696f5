import QuadProg.Decimal.Reading
import QuadProg.Options.Basic

/-!
# Options as text

Options are kept in files as an object of the JSON format with one member per option, in the order
of the names and without blanks.  A number that is not finite has no text of its own and is written
`null`, which is not read back.

A text does not say which kind of option a value is.  It says no more than what the value is made
of, its `Content`: a truth value, a number with or without a fraction, a string, or nothing.  The
kinds are tried in turn, and the first one that takes the content is the kind of the option
(`OptionValue.ofContent?`): an integer takes a whole number that fits in 64 bits with sign, a double
any other number.  Reading takes any object whose values are such; of several members of one name
the last counts.

How doubles are spelled is a parameter (`Json.Numbers`).  Option files have the shortest digits that
stand for the double (`Json.Numbers.standard`).
-/

namespace QuadProg

namespace Json

/-- What a text says of a value. -/
inductive Content where
  | null
  | bool (value : Bool)
  /-- A whole number of 64 bits, with or without sign. -/
  | whole (value : Int)
  | number (value : Float)
  | text (value : String)

/-- How doubles are spelled. -/
structure Numbers where
  /-- The text of a finite double. -/
  write : Float → List Char
  /-- The double that a numeral stands for, if there is one. -/
  read : Decimal.Numeral → Option Float

def Numbers.standard : Numbers :=
  ⟨fun x => (Decimal.Style.json.write x).toList, Decimal.Numeral.double?⟩

end Json

/-! ## Kinds of options -/

namespace OptionValue

open Json (Content)

def content : OptionValue Float → Content
  | bool b => .bool b
  | int i => .whole i
  | number x => .number x
  | text s => .text s

def boolOf? : Content → Option (OptionValue Float)
  | .bool b => some (bool b)
  | _ => none

/-- A whole number in the range of 64 bits with sign. -/
def intOf? : Content → Option (OptionValue Float)
  | .whole i => if -Int.pow 2 63 ≤ i ∧ i < Int.pow 2 63 then some (int i) else none
  | _ => none

/-- Whole numbers are numbers too. -/
def numberOf? : Content → Option (OptionValue Float)
  | .whole i => some (number (Scalar.ofInt i))
  | .number x => some (number x)
  | _ => none

def textOf? : Content → Option (OptionValue Float)
  | .text s => some (text s)
  | _ => none

/-- The option of the first kind that takes the content. -/
def ofContent? (c : Content) : Option (OptionValue Float) :=
  [boolOf?, intOf?, numberOf?, textOf?].findSome? fun kind? => kind? c

end OptionValue

namespace Json

/-! ## Writing -/

/-- The digits of `n` to base sixteen, four at least. -/
def hexDigits (n : Nat) : List Char :=
  let digits := Nat.toDigits 16 n
  List.replicate (4 - digits.length) '0' ++ digits

def escape (c : Char) : List Char :=
  match c with
  | '"' => ['\\', '"']
  | '\\' => ['\\', '\\']
  | '\x08' => ['\\', 'b']
  | '\x0c' => ['\\', 'f']
  | '\n' => ['\\', 'n']
  | '\r' => ['\\', 'r']
  | '\t' => ['\\', 't']
  | c => if c.toNat < 32 then '\\' :: 'u' :: hexDigits c.toNat else [c]

/-- A string between quotes. -/
def writeString (s : String) : List Char := '"' :: s.toList.flatMap escape ++ ['"']

/-- A value; `null` where it is a number that is not finite. -/
def writeContent (numbers : Numbers) : Content → List Char
  | .null => ['n', 'u', 'l', 'l']
  | .bool b => (toString b).toList
  | .whole i => (toString i).toList
  | .number x => if x.isFinite then numbers.write x else ['n', 'u', 'l', 'l']
  | .text s => writeString s

def writeMember (numbers : Numbers) (e : String × OptionValue Float) : List Char :=
  writeString e.1 ++ ':' :: writeContent numbers e.2.content

/-- Members with commas between them. -/
def writeMembers (numbers : Numbers) (es : List (String × OptionValue Float)) : List Char :=
  [','].intercalate (es.map (writeMember numbers))

def writeObject (numbers : Numbers) (es : List (String × OptionValue Float)) : List Char :=
  '\x7b' :: writeMembers numbers es ++ ['\x7d']

/-! ## Reading -/

/-- The rest of a text after blanks. -/
def skipBlanks : List Char → List Char :=
  List.dropWhile fun c => c = ' ' || c = '\n' || c = '\t' || c = '\r'

def hexDigit? (c : Char) : Option Nat :=
  if '0' ≤ c ∧ c ≤ '9' then some (c.toNat - 48)
  else if 'a' ≤ c ∧ c ≤ 'f' then some (c.toNat - 87)
  else if 'A' ≤ c ∧ c ≤ 'F' then some (c.toNat - 55)
  else none

/-- The code unit that four digits stand for. -/
def codeUnit? (a b c d : Char) : Option Nat := do
  return ((← hexDigit? a) * 16 + (← hexDigit? b)) * 256 + (← hexDigit? c) * 16 + (← hexDigit? d)

/-- A code unit that stands for a character by itself. -/
def isScalarUnit (n : Nat) : Bool := n < 0xd800 || 0xe000 ≤ n

/-- The character that two code units stand for together. -/
def pair? (high low : Nat) : Option Char :=
  if 0xd800 ≤ high ∧ high < 0xdc00 ∧ 0xdc00 ≤ low ∧ low < 0xe000 then
    some (Char.ofNat (0x10000 + (high - 0xd800) * 0x400 + (low - 0xdc00)))
  else none

/-- The character that a short escape stands for. -/
def unescape? : Char → Option Char
  | '"' => some '"'
  | '\\' => some '\\'
  | '/' => some '/'
  | 'b' => some '\x08'
  | 'f' => some '\x0c'
  | 'n' => some '\n'
  | 'r' => some '\r'
  | 't' => some '\t'
  | _ => none

/-- The first character of the rest of a string, with what follows it.  `none` stands in for the
character at the end of the string. -/
def readChar? : List Char → Option (Option Char × List Char)
  | '"' :: r => some (none, r)
  | '\\' :: 'u' :: a :: b :: c :: d :: r => do
    let n ← codeUnit? a b c d
    if isScalarUnit n then return (some (Char.ofNat n), r)
    else match r with
      | '\\' :: 'u' :: a :: b :: c :: d :: r =>
        return (some (← pair? n (← codeUnit? a b c d)), r)
      | _ => none
  | '\\' :: c :: r => (unescape? c).map fun c => (some c, r)
  | c :: r => if c.toNat < 32 then none else some (some c, r)
  | [] => none

/-- The rest of a string after its opening quote.  The text is read one character at a time, so its
length is steps enough. -/
def readRest? : Nat → List Char → Option (List Char × List Char)
  | 0, _ => none
  | fuel + 1, s => do
    match ← readChar? s with
    | (none, r) => return ([], r)
    | (some c, r) =>
      let (cs, r) ← readRest? fuel r
      return (c :: cs, r)

def readString? : List Char → Option (String × List Char)
  | '"' :: r => (readRest? r.length r).map fun (cs, r) => (String.ofList cs, r)
  | _ => none

/-- The digits at the start of a text. -/
def readDigits (s : List Char) : List Nat × List Char :=
  ((s.takeWhile Char.isDigit).map fun c => c.toNat - 48, s.dropWhile Char.isDigit)

/-- A point with at least one digit after it, if there is a point. -/
def readFraction? : List Char → Option (Option (List Nat) × List Char)
  | '.' :: r =>
    match readDigits r with
    | ([], _) => none
    | (ds, r) => some (some ds, r)
  | r => some (none, r)

/-- An exponent with at least one digit, if there is an exponent. -/
def readExponent? (s : List Char) : Option (Option Int × List Char) :=
  match s with
  | c :: r =>
    if c = 'e' ∨ c = 'E' then
      let (negative, r) := match r with
        | '-' :: r => (true, r)
        | '+' :: r => (false, r)
        | r => (false, r)
      match readDigits r with
      | ([], _) => none
      | (ds, r) =>
        let n : Nat := ds.foldl (fun n d => n * 10 + d) 0
        some (some (if negative then -(n : Int) else n), r)
    else some (none, s)
  | [] => some (none, [])

/-- A numeral after its sign.  Only zero itself starts with a zero. -/
def readUnsigned? (negative : Bool) (s : List Char) : Option (Decimal.Numeral × List Char) := do
  let (whole, r) := readDigits s
  match whole with
  | [] => none
  | 0 :: _ :: _ => none
  | _ =>
    let (fraction, r) ← readFraction? r
    let (exponent, r) ← readExponent? r
    return (⟨negative, whole, fraction, exponent⟩, r)

/-- What a numeral says: a whole number if it can be one, else a double. -/
def Numbers.content? (numbers : Numbers) (n : Decimal.Numeral) : Option Content :=
  match n.whole? with
  | some i => some (.whole i)
  | none => (numbers.read n).map .number

/-- A number after its sign. -/
def readNumber? (numbers : Numbers) (negative : Bool) (s : List Char) :
    Option (Content × List Char) := do
  let (n, r) ← readUnsigned? negative s
  return (← numbers.content? n, r)

def readContent? (numbers : Numbers) : List Char → Option (Content × List Char)
  | 'n' :: 'u' :: 'l' :: 'l' :: r => some (.null, r)
  | 't' :: 'r' :: 'u' :: 'e' :: r => some (.bool true, r)
  | 'f' :: 'a' :: 'l' :: 's' :: 'e' :: r => some (.bool false, r)
  | '"' :: r => (readString? ('"' :: r)).map fun (s, r) => (.text s, r)
  | '-' :: r => readNumber? numbers true r
  | r => readNumber? numbers false r

/-- The members of an object up to its closing brace, with what follows.  Every member takes some
characters, so the length of the text is steps enough. -/
def readMembers? (numbers : Numbers) :
    Nat → List Char → Option (List (String × OptionValue Float) × List Char)
  | 0, _ => none
  | fuel + 1, s => do
    let (name, r) ← readString? s
    match skipBlanks r with
    | ':' :: r =>
      let (content, r) ← readContent? numbers (skipBlanks r)
      let value ← OptionValue.ofContent? content
      match skipBlanks r with
      | ',' :: r =>
        let (ms, r) ← readMembers? numbers fuel (skipBlanks r)
        return ((name, value) :: ms, r)
      | '\x7d' :: r => return ([(name, value)], r)
      | _ => none
    | _ => none

def readObject? (numbers : Numbers) (s : List Char) :
    Option (List (String × OptionValue Float) × List Char) :=
  match skipBlanks s with
  | '\x7b' :: r =>
    match skipBlanks r with
    | '\x7d' :: r => some ([], r)
    | r => readMembers? numbers r.length r
  | _ => none

end Json

namespace Options

def write (numbers : Json.Numbers) (o : Options Float) : String :=
  String.ofList (Json.writeObject numbers o.entries)

/-- The options that a text stands for, if it is well formed. -/
def read? (numbers : Json.Numbers) (s : String) : Option (Options Float) :=
  match Json.readObject? numbers s.toList with
  | some (members, r) => if Json.skipBlanks r = [] then some (ofList members) else none
  | none => none

def toJson (o : Options Float) : String := o.write .standard

def ofJson? (s : String) : Option (Options Float) := read? .standard s

end Options

end QuadProg
