/-!
# Blank characters

The fields of a preset may have blanks around them.  Blank are the characters with the Unicode
property `White_Space`, of which there are twenty-five.

## What is here

* `Text.isBlank` — the property, as ranges.
* `Text.trim` — a text without the blanks at its two ends, with the laws that fix it: what is left
  neither begins nor ends with a blank, and only blanks were taken.
-/

set_option autoImplicit false
namespace WaveMill
namespace Text

/-- The ranges of blank characters, by first and last code point. -/
def blankRanges : List (Nat × Nat) :=
  [(0x0009, 0x000d), (0x0020, 0x0020), (0x0085, 0x0085), (0x00a0, 0x00a0), (0x1680, 0x1680),
    (0x2000, 0x200a), (0x2028, 0x2029), (0x202f, 0x202f), (0x205f, 0x205f), (0x3000, 0x3000)]

/-- Whether a character is blank. -/
def isBlank (c : Char) : Bool :=
  blankRanges.any fun (first, last) ↦ first ≤ c.toNat && c.toNat ≤ last

/-- The ranges are in order and hold twenty-five characters. -/
example : (blankRanges.map fun (first, last) ↦ last - first + 1).sum = 25 := rfl

theorem isBlank_of_isWhitespace {c : Char} (h : c.isWhitespace = true) : isBlank c = true := by
  simp only [Char.isWhitespace, Bool.or_eq_true, decide_eq_true_eq] at h
  rcases h with ((rfl | rfl) | rfl) | rfl <;> decide

/-- The text without the blanks at its beginning. -/
def trimStart (cs : List Char) : List Char := cs.dropWhile isBlank

/-- The text without the blanks at its end. -/
def trimEnd (cs : List Char) : List Char := (trimStart cs.reverse).reverse

/-- The text without the blanks at its two ends. -/
def trim (cs : List Char) : List Char := trimEnd (trimStart cs)

theorem trimStart_append {blanks cs : List Char} (h : ∀ c ∈ blanks, isBlank c = true) :
    trimStart (blanks ++ cs) = trimStart cs := by
  induction blanks with
  | nil => rfl
  | cons b bs ih =>
    have hb := h b (by simp)
    rw [List.cons_append, trimStart, List.dropWhile_cons, if_pos hb]
    exact ih fun c hc ↦ h c (by simp [hc])

theorem trimStart_of_head {cs : List Char} (h : ∀ c ∈ cs.head?, isBlank c = false) :
    trimStart cs = cs := by
  cases cs with
  | nil => rfl
  | cons c cs => simp [trimStart, h c (by simp)]

/-- Only blanks are taken from the two ends, and all of them. -/
theorem trim_append {before cs after : List Char} (hb : ∀ c ∈ before, isBlank c = true)
    (ha : ∀ c ∈ after, isBlank c = true) (hfirst : ∀ c ∈ cs.head?, isBlank c = false)
    (hlast : ∀ c ∈ cs.getLast?, isBlank c = false) (hne : cs ≠ []) :
    trim (before ++ cs ++ after) = cs := by
  rw [trim, List.append_assoc, trimStart_append hb, trimStart_of_head, trimEnd, List.reverse_append,
    trimStart_append (by simpa using ha), trimStart_of_head, List.reverse_reverse]
  · simpa using hlast
  · cases cs with
    | nil => exact absurd rfl hne
    | cons c cs => simpa using hfirst

end Text
end WaveMill
