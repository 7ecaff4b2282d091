/-!
# Numerals

Whole numbers are read and written in decimal.  A reader names the bound of its word: a numeral that
writes a larger number is refused, as is one with no digits.

## What is here

* `Text.readDigits` — digits alone, of a bounded value.
* `Text.readNat` — the same with a `+` allowed in front.
* `Text.writeNat` — the digits of a number, the first of which is not `0` unless it is alone;
  reading them gives the number back (`readDigits_writeNat`).
-/

set_option autoImplicit false
namespace WaveMill
namespace Text

/-- The number below `bound` that some digits write; leading zeros are allowed. -/
def readDigits (bound : Nat) (cs : List Char) : Option Nat :=
  if cs ≠ [] ∧ cs.all Char.isDigit then
    let n := Nat.ofDigitChars 10 cs 0
    if n < bound then some n else none
  else none

/-- The number below `bound` that some digits write, with or without a `+` in front. -/
def readNat (bound : Nat) : List Char → Option Nat
  | '+' :: cs => readDigits bound cs
  | cs => readDigits bound cs

/-- The digits of a number. -/
def writeNat (n : Nat) : List Char := Nat.toDigits 10 n

theorem writeNat_ne_nil (n : Nat) : writeNat n ≠ [] := Nat.toDigits_ne_nil

theorem isDigit_of_mem_writeNat {n : Nat} {c : Char} (h : c ∈ writeNat n) : c.isDigit = true :=
  Nat.isDigit_of_mem_toDigits (b := 10) (n := n) (by decide) (by decide) h

theorem readDigits_writeNat {bound n : Nat} (h : n < bound) :
    readDigits bound (writeNat n) = some n := by
  have hall : (writeNat n).all Char.isDigit = true :=
    List.all_eq_true.2 fun c hc ↦ isDigit_of_mem_writeNat hc
  have hval : Nat.ofDigitChars 10 (writeNat n) 0 = n :=
    Nat.ofDigitChars_toDigits (by decide) (by decide)
  rw [readDigits, if_pos ⟨writeNat_ne_nil n, hall⟩]
  simp only [hval, if_pos h]

theorem readDigits_lt {bound n : Nat} {cs : List Char} (h : readDigits bound cs = some n) :
    n < bound := by
  simp only [readDigits] at h
  split at h
  · split at h
    · cases h; assumption
    · cases h
  · cases h

end Text
end WaveMill
