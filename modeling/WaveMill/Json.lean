import WaveMill.Text.Numeral

/-!
# JSON documents

A configuration file is one JSON value with nothing but spaces around it.  The reader accepts
exactly the grammar of the format: no comments, no commas before a closing bracket, no leading
zeros, no control characters inside a string.

## What is here

* `Json` — the values.  A number is kept only as far as it is a natural number written with digits
  alone, and a string only as far as it is a text: an escape may name half of a surrogate pair, and
  then the string is well formed but is not a text.
* `Json.ofText?` — the value of a document.
-/

set_option autoImplicit false
namespace WaveMill

/-- A JSON value. -/
inductive Json where
  | null
  | bool (value : Bool)
  /-- A number; `natural` is its value if it is written with digits alone. -/
  | number (natural : Option Nat)
  /-- A string; `text` is what it writes unless a surrogate stands alone. -/
  | string (text : Option String)
  | array (items : List Json)
  | object (members : List (Option String × Json))

namespace Json

/-- Whether a character may stand between the parts of a document. -/
def isSpace (c : Char) : Bool := c == ' ' || c == '\n' || c == '\t' || c == '\x0d'

/-- The characters from the first that is no space. -/
def skipSpace (cs : List Char) : List Char := cs.dropWhile isSpace

/-! ## Numbers -/

/-- One digit or more, and the rest. -/
def readDigits (cs : List Char) : Option (List Char × List Char) :=
  match cs.takeWhile Char.isDigit with
  | [] => none
  | ds => some (ds, cs.dropWhile Char.isDigit)

/-- Digits without a leading zero, and the rest. -/
def readInteger (cs : List Char) : Option (List Char × List Char) := do
  let (ds, rest) ← readDigits cs
  if ds.head? = some '0' ∧ ds.length > 1 then none else some (ds, rest)

/-- What follows an optional fraction. -/
def skipFraction : List Char → Option (List Char)
  | '.' :: cs => (readDigits cs).map (·.2)
  | cs => some cs

/-- What follows an optional exponent. -/
def skipExponent : List Char → Option (List Char)
  | c :: cs =>
    if c = 'e' ∨ c = 'E' then
      match cs with
      | '+' :: cs => (readDigits cs).map (·.2)
      | '-' :: cs => (readDigits cs).map (·.2)
      | cs => (readDigits cs).map (·.2)
    else some (c :: cs)
  | [] => some []

/-- A number that is not negative, and the rest. -/
def readUnsigned (cs : List Char) : Option (Option Nat × List Char) := do
  let (ds, whole) ← readInteger cs
  let rest ← skipFraction whole >>= skipExponent
  return (if rest.length = whole.length then some (Nat.ofDigitChars 10 ds 0) else none, rest)

/-- A number, and the rest. -/
def readNumber : List Char → Option (Json × List Char)
  | '-' :: cs => (readUnsigned cs).map fun (_, rest) ↦ (.number none, rest)
  | cs => (readUnsigned cs).map fun (natural, rest) ↦ (.number natural, rest)

/-! ## Strings -/

/-- The value of a hexadecimal digit. -/
def hexDigit? (c : Char) : Option Nat :=
  if '0' ≤ c ∧ c ≤ '9' then some (c.toNat - '0'.toNat)
  else if 'a' ≤ c ∧ c ≤ 'f' then some (c.toNat - 'a'.toNat + 10)
  else if 'A' ≤ c ∧ c ≤ 'F' then some (c.toNat - 'A'.toNat + 10)
  else none

/-- A unit of a string: a character, or a word of UTF-16 from an escape. -/
inductive StringUnit where
  | char (c : Char)
  | word (w : Nat)

/-- The characters that some units write.  Two words may write one character together; a surrogate
that stands alone writes none. -/
def unitsToText? : List StringUnit → Option (List Char)
  | [] => some []
  | .char c :: rest => (unitsToText? rest).map (c :: ·)
  | .word high :: .word low :: rest =>
    if 0xd800 ≤ high ∧ high < 0xdc00 then
      if 0xdc00 ≤ low ∧ low < 0xe000 then
        (unitsToText? rest).map (.ofNat (0x10000 + (high - 0xd800) * 0x400 + (low - 0xdc00)) :: ·)
      else none
    else if 0xdc00 ≤ high ∧ high < 0xe000 then none
    else (unitsToText? (.word low :: rest)).map (.ofNat high :: ·)
  | .word w :: rest =>
    if 0xd800 ≤ w ∧ w < 0xe000 then none else (unitsToText? rest).map (.ofNat w :: ·)

/-- The unit that an escape of one letter names. -/
def shortEscape? : Char → Option Char
  | '"' => some '"'
  | '\\' => some '\\'
  | '/' => some '/'
  | 'b' => some '\x08'
  | 'f' => some '\x0c'
  | 'n' => some '\n'
  | 'r' => some '\x0d'
  | 't' => some '\t'
  | _ => none

/-- The units of a string up to its closing quote, and the rest. -/
def readUnits : List Char → Option (List StringUnit × List Char)
  | [] => none
  | '"' :: rest => some ([], rest)
  | '\\' :: 'u' :: a :: b :: c :: d :: rest => do
    let w := (← hexDigit? a) * 0x1000 + (← hexDigit? b) * 0x100 + (← hexDigit? c) * 0x10 +
      (← hexDigit? d)
    let (us, rest) ← readUnits rest
    return (.word w :: us, rest)
  | '\\' :: e :: rest => do
    let c ← shortEscape? e
    let (us, rest) ← readUnits rest
    return (.char c :: us, rest)
  | c :: rest =>
    if c.toNat < 0x20 ∨ c = '\\' then none
    else do
      let (us, rest) ← readUnits rest
      return (.char c :: us, rest)

/-- A string behind its opening quote, and the rest. -/
def readString (cs : List Char) : Option (Option String × List Char) := do
  let (us, rest) ← readUnits cs
  return ((unitsToText? us).map .ofList, rest)

/-! ## Values -/

/-- What follows a word that has to stand here. -/
def skipWord (word : String) (cs : List Char) : Option (List Char) :=
  if word.toList.isPrefixOf cs then some (cs.drop word.length) else none

mutual

/-- A value, and the rest.  The fuel bounds the number of steps. -/
def readValue : Nat → List Char → Option (Json × List Char)
  | 0, _ => none
  | fuel + 1, cs =>
    match skipSpace cs with
    | 'n' :: rest => (skipWord "ull" rest).map (.null, ·)
    | 't' :: rest => (skipWord "rue" rest).map (.bool true, ·)
    | 'f' :: rest => (skipWord "alse" rest).map (.bool false, ·)
    | '"' :: rest => (readString rest).map fun (text, rest) ↦ (.string text, rest)
    | '[' :: rest =>
      match skipSpace rest with
      | ']' :: rest => some (.array [], rest)
      | rest => (readItems fuel rest).map fun (vs, rest) ↦ (.array vs, rest)
    | '{' :: rest =>
      match skipSpace rest with
      | '}' :: rest => some (.object [], rest)
      | rest => (readMembers fuel rest).map fun (ms, rest) ↦ (.object ms, rest)
    | rest => readNumber rest

/-- The items of an array that has one, its closing bracket, and the rest. -/
def readItems : Nat → List Char → Option (List Json × List Char)
  | 0, _ => none
  | fuel + 1, cs => do
    let (v, rest) ← readValue fuel cs
    match skipSpace rest with
    | ']' :: rest => some ([v], rest)
    | ',' :: rest =>
      let (vs, rest) ← readItems fuel rest
      return (v :: vs, rest)
    | _ => none

/-- The members of an object that has one, its closing brace, and the rest. -/
def readMembers : Nat → List Char → Option (List (Option String × Json) × List Char)
  | 0, _ => none
  | fuel + 1, cs =>
    match skipSpace cs with
    | '"' :: rest => do
      let (key, rest) ← readString rest
      match skipSpace rest with
      | ':' :: rest =>
        let (v, rest) ← readValue fuel rest
        match skipSpace rest with
        | '}' :: rest => some ([(key, v)], rest)
        | ',' :: rest =>
          let (ms, rest) ← readMembers fuel rest
          return ((key, v) :: ms, rest)
        | _ => none
      | _ => none
    | _ => none

end

/-- The value of a document, if the document is well formed. -/
def ofText? (text : String) : Option Json := do
  let cs := text.toList
  let (v, rest) ← readValue (2 * cs.length + 2) cs
  if (skipSpace rest).isEmpty then some v else none

end Json
end WaveMill
