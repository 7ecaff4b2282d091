import Mathlib.Data.List.Basic
import WaveMill.Bytes

/-!
# The order of texts is the order of their bytes

Texts are compared character by character, and a registry lists its assets in that order.  A reader
who compares the UTF-8 bytes of two names instead gets the same answer: the encoding of a character
never begins the encoding of another one, and the greater of two characters has the greater bytes.

## What is here

* `Bytes.codeUnits` — the UTF-8 bytes of a character, as numbers.
* `Bytes.codeUnits_append_lt` — the first character in which two texts differ decides, whatever
  follows.
* `Bytes.ofText_lt_iff` — the bytes of two texts are in the same order as the texts.
-/

set_option autoImplicit false
namespace WaveMill
namespace Bytes

/-! ## One character -/

/-- The UTF-8 bytes of the character with a given number, as numbers. -/
def codeUnits (n : Nat) : List Nat :=
  if n ≤ 0x7f then [n]
  else if n ≤ 0x7ff then [0xc0 + n / 64, 0x80 + n % 64]
  else if n ≤ 0xffff then [0xe0 + n / 4096, 0x80 + n / 64 % 64, 0x80 + n % 64]
  else [0xf0 + n / 262144, 0x80 + n / 4096 % 64, 0x80 + n / 64 % 64, 0x80 + n % 64]

theorem toNat_char_lt (c : Char) : c.toNat < 0x110000 := by
  rcases c.valid with h | ⟨-, h⟩
  · exact Nat.lt_trans h (by decide)
  · exact h

theorem map_toNat_utf8EncodeChar (c : Char) :
    (String.utf8EncodeChar c).map UInt8.toNat = codeUnits c.toNat := by
  have h := toNat_char_lt c
  simp only [String.utf8EncodeChar, codeUnits, Char.toNat_val]
  repeat' split
  all_goals simp
  all_goals omega

/-- **The first character that differs decides.**  In each of the sixteen cases the leading bytes
differ, or both characters have encodings of one length and are compared digit by digit in base
64. -/
theorem codeUnits_append_lt {m n : Nat} (h : m < n) (s t : List Nat) :
    codeUnits m ++ s < codeUnits n ++ t := by
  unfold codeUnits
  repeat' split
  all_goals simp only [List.cons_append, List.nil_append, List.cons_lt_cons_iff]
  all_goals omega

theorem codeUnits_ne_nil (n : Nat) : codeUnits n ≠ [] := by
  unfold codeUnits
  repeat' split
  all_goals exact List.cons_ne_nil _ _

/-! ## Texts -/

/-- Bytes are in the order of their numbers. -/
theorem map_toNat_lt_iff {xs ys : Bytes} : xs.map UInt8.toNat < ys.map UInt8.toNat ↔ xs < ys := by
  induction xs generalizing ys with
  | nil => cases ys <;> simp
  | cons x xs ih =>
    cases ys with
    | nil => simp
    | cons y ys =>
      rw [List.map_cons, List.map_cons, List.cons_lt_cons_iff, List.cons_lt_cons_iff, ih,
        UInt8.lt_iff_toNat_lt, UInt8.toNat_inj]

theorem map_toNat_ofText (text : String) :
    (ofText text).map UInt8.toNat = text.toList.flatMap fun c ↦ codeUnits c.toNat := by
  have h : ofText text = text.toList.flatMap String.utf8EncodeChar := by
    conv_lhs => rw [← String.ofList_toList (s := text)]
    rw [ofText, String.toUTF8_eq_toByteArray, String.toByteArray_ofList, List.utf8Encode,
      List.toList_data_toByteArray]
  simp only [h, List.map_flatMap, map_toNat_utf8EncodeChar]

theorem flatMap_codeUnits_lt {xs ys : List Char} (h : xs < ys) :
    xs.flatMap (fun c ↦ codeUnits c.toNat) < ys.flatMap fun c ↦ codeUnits c.toNat := by
  induction xs generalizing ys with
  | nil =>
    cases ys with
    | nil => exact absurd h (List.lt_irrefl _)
    | cons y ys =>
      obtain ⟨n, rest, hn⟩ := List.exists_cons_of_ne_nil (codeUnits_ne_nil y.toNat)
      rw [List.flatMap_nil, List.flatMap_cons, hn]
      exact List.nil_lt_cons ..
  | cons x xs ih =>
    cases ys with
    | nil => exact absurd h (List.not_lt_nil _)
    | cons y ys =>
      rw [List.flatMap_cons, List.flatMap_cons]
      rcases List.cons_lt_cons_iff.1 h with h | ⟨hxy, h⟩
      · exact codeUnits_append_lt h _ _
      · rw [hxy]
        exact List.append_left_lt (ih h)

/-- **Texts are in the order of their UTF-8 bytes.** -/
theorem ofText_lt_iff {a b : String} : ofText a < ofText b ↔ a < b := by
  have hlt : ∀ {a b : String}, a < b → ofText a < ofText b := by
    intro a b h
    rw [← map_toNat_lt_iff, map_toNat_ofText, map_toNat_ofText]
    exact flatMap_codeUnits_lt h
  refine ⟨fun h ↦ ?_, hlt⟩
  -- both orders are linear, so the converse follows from the same implication
  by_contra hab
  rcases Std.le_iff_lt_or_eq.1 (Std.not_lt.1 hab) with hba | rfl
  · exact List.lt_asymm h (hlt hba)
  · exact List.lt_irrefl _ h

end Bytes
end WaveMill
