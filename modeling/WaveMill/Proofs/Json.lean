import Mathlib.Data.List.TakeWhile
import WaveMill.Json

/-!
# What the JSON reader makes of plain values

A writer that knows what it writes needs only a part of the format: numbers by their digits, strings
without escapes, and objects of such members.  Each law here hands a reader the text of one of these
with anything behind it, and says what the reader finds and that it leaves the rest alone.  A number
has no end mark, so its law asks that the rest cannot go on with it.

## What is here

* `Json.Ends` and `Json.readNumber_writeNat` — a number by its digits.
* `Json.Plain` and `Json.readString_plain` — a string without escapes.
* `Json.readValue_number`, `Json.readValue_string`, `Json.readValue_object` — values behind spaces.
* `Json.readMembers_last`, `Json.readMembers_more` — the members of an object, one by one.
-/

set_option autoImplicit false
namespace WaveMill

/-- The first digit of a number is no zero, unless the number is. -/
theorem Text.eq_zero_of_head?_writeNat {n : Nat} (h : (Text.writeNat n).head? = some '0') :
    n = 0 := by
  induction n using Nat.strong_induction_on with
  | _ n ih =>
    rw [writeNat, Nat.toDigits_eq_if (by decide)] at h
    split at h
    case isTrue hlt =>
      have hdigit : ∀ d < 10, Nat.digitChar d = '0' → d = 0 := by decide
      exact hdigit n hlt (Option.some.inj h)
    case isFalse hge =>
      obtain ⟨d, ds, hds⟩ :=
        List.exists_cons_of_ne_nil (Nat.toDigits_ne_nil : Nat.toDigits 10 (n / 10) ≠ [])
      have hhead : (writeNat (n / 10)).head? = some '0' := by
        rw [writeNat, hds]
        rw [hds, List.cons_append] at h
        exact h
      have hzero : n / 10 = 0 := ih (n / 10) (Nat.div_lt_self (by omega) (by decide)) hhead
      omega

namespace Json

variable {fuel n : Nat} {cs rest spaces : List Char} {key : String} {value : Json}

/-! ## Spaces -/

/-- There is nothing but spaces. -/
def Spaces (cs : List Char) : Prop := cs.all isSpace = true

theorem skipSpace_append (hspaces : Spaces spaces) (hcs : ∀ c ∈ cs.head?, isSpace c = false) :
    skipSpace (spaces ++ cs) = cs := by
  rw [skipSpace, List.dropWhile_append_of_pos (List.all_eq_true.1 hspaces)]
  cases cs with
  | nil => rfl
  | cons c cs => rw [List.dropWhile_cons, if_neg (Bool.not_eq_true _ ▸ hcs c rfl)]

/-! ## Numbers -/

/-- What comes behind a number: nothing that goes on with its digits, or with a fraction or an
exponent. -/
def Ends (rest : List Char) : Prop :=
  ∀ c ∈ rest.head?, c.isDigit = false ∧ c ≠ '.' ∧ c ≠ 'e' ∧ c ≠ 'E'

theorem readDigits_append {ds : List Char} (hne : ds ≠ []) (hall : ∀ d ∈ ds, d.isDigit = true)
    (hrest : Ends rest) : readDigits (ds ++ rest) = some (ds, rest) := by
  have hstop : rest.takeWhile Char.isDigit = [] ∧ rest.dropWhile Char.isDigit = rest := by
    cases rest with
    | nil => exact ⟨rfl, rfl⟩
    | cons c rest =>
      have hc := (hrest c rfl).1
      rw [List.takeWhile_cons, List.dropWhile_cons, hc]
      exact ⟨rfl, rfl⟩
  rw [readDigits, List.takeWhile_append_of_pos hall, List.dropWhile_append_of_pos hall, hstop.1,
    hstop.2, List.append_nil]
  cases ds with
  | nil => exact absurd rfl hne
  | cons d ds => rfl

theorem readInteger_writeNat (n : Nat) (hrest : Ends rest) :
    readInteger (Text.writeNat n ++ rest) = some (Text.writeNat n, rest) := by
  have hread := readDigits_append (Text.writeNat_ne_nil n)
    (fun _ ↦ Text.isDigit_of_mem_writeNat) hrest
  have hzero : ¬ ((Text.writeNat n).head? = some '0' ∧ (Text.writeNat n).length > 1) := by
    rintro ⟨hhead, hlength⟩
    rw [Text.eq_zero_of_head?_writeNat hhead] at hlength
    exact absurd hlength (by decide)
  rw [readInteger, hread]
  exact if_neg hzero

theorem skipFraction_of_ends (hrest : Ends rest) : skipFraction rest = some rest := by
  rw [skipFraction]
  rintro cs rfl
  exact (hrest '.' rfl).2.1 rfl

theorem skipExponent_of_ends (hrest : Ends rest) : skipExponent rest = some rest := by
  cases rest with
  | nil => rfl
  | cons c rest =>
    obtain ⟨-, -, he, hE⟩ := hrest c rfl
    exact if_neg (not_or.2 ⟨he, hE⟩)

theorem readUnsigned_writeNat (n : Nat) (hrest : Ends rest) :
    readUnsigned (Text.writeNat n ++ rest) = some (some n, rest) := by
  have hvalue : Nat.ofDigitChars 10 (Text.writeNat n) 0 = n :=
    Nat.ofDigitChars_toDigits (by decide) (by decide)
  rw [readUnsigned, readInteger_writeNat n hrest]
  show (skipFraction rest >>= skipExponent) >>= _ = _
  rw [skipFraction_of_ends hrest]
  show skipExponent rest >>= _ = _
  rw [skipExponent_of_ends hrest]
  show some (if rest.length = rest.length then _ else _, rest) = _
  rw [if_pos rfl, hvalue]

/-- The first character of a number is a digit. -/
theorem exists_cons_writeNat (n : Nat) :
    ∃ d ds, Text.writeNat n = d :: ds ∧ d.isDigit = true := by
  obtain ⟨d, ds, hds⟩ := List.exists_cons_of_ne_nil (Text.writeNat_ne_nil n)
  exact ⟨d, ds, hds, Text.isDigit_of_mem_writeNat (hds ▸ List.mem_cons_self)⟩

theorem readNumber_writeNat (n : Nat) (hrest : Ends rest) :
    readNumber (Text.writeNat n ++ rest) = some (.number (some n), rest) := by
  obtain ⟨d, ds, hds, hd⟩ := exists_cons_writeNat n
  rw [readNumber, readUnsigned_writeNat n hrest]
  · rfl
  · intro cs hcs
    rw [hds, List.cons_append, List.cons.injEq] at hcs
    rw [hcs.1] at hd
    exact absurd hd (by decide)

/-! ## Strings -/

/-- Whether a character stands for itself in a string. -/
def isPlain (c : Char) : Bool := !decide (c.toNat < 0x20) && c != '"' && c != '\\'

theorem isPlain_iff {c : Char} : isPlain c = true ↔ ¬ c.toNat < 0x20 ∧ c ≠ '"' ∧ c ≠ '\\' := by
  simp [isPlain, and_assoc]

/-- The characters stand for themselves in a string. -/
def Plain (cs : List Char) : Prop := cs.all isPlain = true

theorem readUnits_plain (hcs : Plain cs) (rest : List Char) :
    readUnits (cs ++ '"' :: rest) = some (cs.map .char, rest) := by
  induction cs with
  | nil => rw [List.nil_append, readUnits]; rfl
  | cons c cs ih =>
    obtain ⟨hc, hrest⟩ : isPlain c = true ∧ Plain cs := Bool.and_eq_true_iff.1 hcs
    obtain ⟨hlow, hquote, hslash⟩ := isPlain_iff.1 hc
    rw [List.cons_append, readUnits, if_neg (not_or.2 ⟨hlow, hslash⟩), ih hrest]
    · rfl
    · exact hquote
    · exact fun _ _ _ _ _ h _ ↦ hslash h
    · exact fun _ _ h _ ↦ hslash h

theorem unitsToText?_chars (cs : List Char) : unitsToText? (cs.map .char) = some cs := by
  induction cs with
  | nil => rfl
  | cons c cs ih =>
    rw [List.map_cons, unitsToText?, ih]
    rfl

theorem readString_plain (hkey : Plain key.toList) (rest : List Char) :
    readString (key.toList ++ '"' :: rest) = some (some key, rest) := by
  rw [readString, readUnits_plain hkey]
  show some ((unitsToText? (key.toList.map .char)).map String.ofList, rest) = _
  rw [unitsToText?_chars, Option.map_some, String.ofList_toList]

/-! ## Values -/

theorem isSpace_of_isDigit {c : Char} (h : c.isDigit = true) : isSpace c = false := by
  rw [← Bool.not_eq_true]
  intro hspace
  simp only [isSpace, Bool.or_eq_true, beq_iff_eq] at hspace
  rcases hspace with ((rfl | rfl) | rfl) | rfl <;> exact absurd h (by decide)

theorem readValue_number (hspaces : Spaces spaces) (n : Nat) (hrest : Ends rest) (fuel : Nat) :
    readValue (fuel + 1) (spaces ++ (Text.writeNat n ++ rest)) =
      some (.number (some n), rest) := by
  obtain ⟨d, ds, hds, hd⟩ := exists_cons_writeNat n
  have hskip : skipSpace (spaces ++ (Text.writeNat n ++ rest)) = Text.writeNat n ++ rest := by
    refine skipSpace_append hspaces fun c hc ↦ ?_
    rw [hds, List.cons_append, List.head?_cons, Option.mem_some_iff] at hc
    exact isSpace_of_isDigit (hc ▸ hd)
  have hhead (c : Char) (hc : c.isDigit = false) (cs : List Char) :
      ¬ Text.writeNat n ++ rest = c :: cs := by
    rw [hds, List.cons_append, List.cons.injEq]
    rintro ⟨rfl, -⟩
    exact absurd hd (Bool.not_eq_true _ ▸ hc)
  rw [readValue, hskip]
  split
  case h_1 h => exact absurd h (hhead 'n' (by decide) _)
  case h_2 h => exact absurd h (hhead 't' (by decide) _)
  case h_3 h => exact absurd h (hhead 'f' (by decide) _)
  case h_4 h => exact absurd h (hhead '"' (by decide) _)
  case h_5 h => exact absurd h (hhead '[' (by decide) _)
  case h_6 h => exact absurd h (hhead '\x7b' (by decide) _)
  case h_7 => exact readNumber_writeNat n hrest

theorem readValue_string (hspaces : Spaces spaces) (hkey : Plain key.toList) (rest : List Char)
    (fuel : Nat) :
    readValue (fuel + 1) (spaces ++ '"' :: (key.toList ++ '"' :: rest)) =
      some (.string (some key), rest) := by
  rw [readValue, skipSpace_append hspaces fun c hc ↦ by cases hc; rfl]
  show (readString _).map _ = _
  rw [readString_plain hkey]
  rfl

/-! ## Objects -/

/-- The text of a member of an object, up to its value. -/
def memberText (spaces : List Char) (key : String) (cs : List Char) : List Char :=
  spaces ++ '"' :: (key.toList ++ '"' :: ':' :: cs)

/-- The last member of an object, and the closing brace on the next line. -/
theorem readMembers_last (hspaces : Spaces spaces) (hkey : Plain key.toList)
    (hvalue : readValue fuel cs = some (value, '\n' :: '\x7d' :: rest)) :
    readMembers (fuel + 1) (memberText spaces key cs) = some ([(some key, value)], rest) := by
  rw [readMembers, memberText, skipSpace_append hspaces fun c hc ↦ by cases hc; rfl]
  show readString (key.toList ++ '"' :: ':' :: cs) >>= _ = _
  rw [readString_plain hkey]
  show readValue fuel cs >>= _ = _
  rw [hvalue]
  rfl

/-- A member of an object that others follow. -/
theorem readMembers_more {more : List Char} {members : List (Option String × Json)}
    (hspaces : Spaces spaces) (hkey : Plain key.toList)
    (hvalue : readValue fuel cs = some (value, ',' :: more))
    (hmore : readMembers fuel more = some (members, rest)) :
    readMembers (fuel + 1) (memberText spaces key cs) =
      some ((some key, value) :: members, rest) := by
  rw [readMembers, memberText, skipSpace_append hspaces fun c hc ↦ by cases hc; rfl]
  show readString (key.toList ++ '"' :: ':' :: cs) >>= _ = _
  rw [readString_plain hkey]
  show readValue fuel cs >>= _ = _
  rw [hvalue]
  show readMembers fuel more >>= _ = _
  rw [hmore]
  rfl

/-- An object that has a member. -/
theorem readValue_object {members : List (Option String × Json)} (hspaces : Spaces spaces)
    (hmembers : readMembers fuel (memberText [] key cs) = some (members, rest)) :
    readValue (fuel + 1) ('\x7b' :: memberText spaces key cs) = some (.object members, rest) := by
  have hskip : skipSpace (memberText spaces key cs) = memberText [] key cs :=
    skipSpace_append hspaces fun c hc ↦ by cases hc; rfl
  have hopen : skipSpace ('\x7b' :: memberText spaces key cs) =
      '\x7b' :: memberText spaces key cs := rfl
  rw [readValue, hopen]
  simp only [hskip]
  show (readMembers fuel (memberText [] key cs)).map _ = _
  rw [hmembers]
  rfl

end Json
end WaveMill
