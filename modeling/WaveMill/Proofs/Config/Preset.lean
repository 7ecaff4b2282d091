import Mathlib.Data.List.TakeWhile
import WaveMill.Config.Preset
import WaveMill.Proofs.Path

/-!
# What a preset asks for

A preset is read field by field, and a field either asks for a value or is passed over.  Which
fields ask for what is said here in terms of the text alone: the fields are what stands between the
marks, a field may have blanks at its two ends, and between them stands a numeral or the name of a
mode.

## What is here

* `Text.Framed` and `Text.trim_eq_iff` — a word with blanks around it.
* `Text.Numeral` and `Text.readNat_eq_some_iff` — a numeral and its value.
* `Preset.Field` and `Preset.fields_getElem?_eq_some_iff` — the fields of a text.
* `Preset.AsksBytes`, `Preset.AsksMode`, `Preset.AsksRate` — what a field asks for, each with the
  law that the reader of the field finds that and nothing else.
-/

set_option autoImplicit false
namespace WaveMill
namespace Text

variable {cs word : List Char} {c : Char}

/-! ## Words between blanks -/

/-- The characters are a word with nothing but blanks around it. -/
def Framed (cs word : List Char) : Prop :=
  ∃ before after, cs = before ++ word ++ after ∧ (∀ c ∈ before, isBlank c = true) ∧
    ∀ c ∈ after, isBlank c = true

theorem exists_trimStart (cs : List Char) :
    ∃ before, cs = before ++ trimStart cs ∧ ∀ c ∈ before, isBlank c = true :=
  ⟨cs.takeWhile isBlank, List.takeWhile_append_dropWhile.symm,
    fun _ hc ↦ List.mem_takeWhile_imp hc⟩

theorem exists_trimEnd (cs : List Char) :
    ∃ after, cs = trimEnd cs ++ after ∧ ∀ c ∈ after, isBlank c = true := by
  obtain ⟨blanks, hblanks, hall⟩ := exists_trimStart cs.reverse
  refine ⟨blanks.reverse, ?_, fun c hc ↦ hall c (List.mem_reverse.1 hc)⟩
  rw [trimEnd, ← List.reverse_append, ← hblanks, List.reverse_reverse]

/-- Only blanks are taken away. -/
theorem framed_trim (cs : List Char) : Framed cs (trim cs) := by
  obtain ⟨before, hbefore, hblank⟩ := exists_trimStart cs
  obtain ⟨after, hafter, hblank'⟩ := exists_trimEnd (trimStart cs)
  refine ⟨before, after, ?_, hblank, hblank'⟩
  rw [trim, List.append_assoc, ← hafter, ← hbefore]

/-- What is left between the blanks is the word that has no blank at its ends. -/
theorem trim_eq_iff (hne : word ≠ []) (hends : ∀ c ∈ word, isBlank c = false) :
    trim cs = word ↔ Framed cs word := by
  constructor
  · rintro rfl
    exact framed_trim cs
  · rintro ⟨before, after, rfl, hbefore, hafter⟩
    exact trim_append hbefore hafter (fun c hc ↦ hends c (List.mem_of_head? hc))
      (fun c hc ↦ hends c (List.mem_of_getLast? hc)) hne

/-! ## Numerals -/

/-- The characters are digits, with or without a `+` in front, and write a number. -/
def Numeral (cs : List Char) (n : Nat) : Prop :=
  ∃ digits, (cs = digits ∨ cs = '+' :: digits) ∧ digits ≠ [] ∧
    (∀ d ∈ digits, d.isDigit = true) ∧ Nat.ofDigitChars 10 digits 0 = n

theorem readDigits_eq_some_iff {bound n : Nat} :
    readDigits bound cs = some n ↔
      cs ≠ [] ∧ (∀ d ∈ cs, d.isDigit = true) ∧ Nat.ofDigitChars 10 cs 0 = n ∧ n < bound := by
  have hall : cs.all Char.isDigit = true ↔ ∀ d ∈ cs, d.isDigit = true := List.all_eq_true
  rw [readDigits]
  split
  · rename_i h
    dsimp only
    split
    · rename_i hlt
      rw [Option.some.injEq]
      exact ⟨fun hn ↦ ⟨h.1, hall.1 h.2, hn, hn ▸ hlt⟩, fun hn ↦ hn.2.2.1⟩
    · rename_i hge
      exact iff_of_false (Option.some_ne_none n).symm fun hn ↦ hge (hn.2.2.1 ▸ hn.2.2.2)
  · rename_i h
    exact iff_of_false (Option.some_ne_none n).symm fun hn ↦ h ⟨hn.1, hall.2 hn.2.1⟩

theorem readNat_eq_some_iff {bound n : Nat} :
    readNat bound cs = some n ↔ Numeral cs n ∧ n < bound := by
  by_cases hplus : ∃ rest, cs = '+' :: rest
  · obtain ⟨rest, rfl⟩ := hplus
    show readDigits bound rest = some n ↔ _
    rw [readDigits_eq_some_iff]
    constructor
    · rintro ⟨hne, hdigits, hvalue, hlt⟩
      exact ⟨⟨rest, .inr rfl, hne, hdigits, hvalue⟩, hlt⟩
    · rintro ⟨⟨digits, rfl | hdigits, hne, hall, hvalue⟩, hlt⟩
      · exact absurd (hall '+' List.mem_cons_self) (by decide)
      · obtain rfl := (List.cons.inj hdigits).2
        exact ⟨hne, hall, hvalue, hlt⟩
  · have hread : readNat bound cs = readDigits bound cs := by
      rw [readNat]
      exact fun rest hrest ↦ hplus ⟨rest, hrest⟩
    rw [hread, readDigits_eq_some_iff]
    constructor
    · rintro ⟨hne, hdigits, hvalue, hlt⟩
      exact ⟨⟨cs, .inl rfl, hne, hdigits, hvalue⟩, hlt⟩
    · rintro ⟨⟨digits, rfl | hdigits, hne, hall, hvalue⟩, hlt⟩
      · exact ⟨hne, hall, hvalue, hlt⟩
      · exact absurd ⟨digits, hdigits⟩ hplus

theorem isBlank_of_isDigit (h : c.isDigit = true) : isBlank c = false := by
  obtain ⟨hlow, hhigh⟩ : 48 ≤ c.toNat ∧ c.toNat ≤ 57 := Char.isDigit_iff_toNat.1 h
  rw [isBlank, List.any_eq_false]
  simp only [blankRanges, List.mem_cons, List.not_mem_nil, or_false]
  rintro range (rfl | rfl | rfl | rfl | rfl | rfl | rfl | rfl | rfl | rfl)
  all_goals
    simp only [Bool.and_eq_true, decide_eq_true_eq]
    omega

theorem Numeral.ne_nil {n : Nat} (h : Numeral cs n) : cs ≠ [] := by
  obtain ⟨digits, rfl | rfl, hne, -⟩ := h
  · exact hne
  · exact List.cons_ne_nil _ _

/-- No character of a numeral is blank. -/
theorem Numeral.isBlank_eq_false {n : Nat} (h : Numeral cs n) (hc : c ∈ cs) :
    isBlank c = false := by
  obtain ⟨digits, rfl | rfl, -, hall, -⟩ := h
  · exact isBlank_of_isDigit (hall c hc)
  · rcases List.mem_cons.1 hc with rfl | hc
    · decide
    · exact isBlank_of_isDigit (hall c hc)

/-- A numeral between blanks is found by taking the blanks away. -/
theorem readNat_trim_eq_some_iff {bound n : Nat} :
    readNat bound (trim cs) = some n ↔ (∃ word, Framed cs word ∧ Numeral word n) ∧ n < bound := by
  rw [readNat_eq_some_iff]
  refine and_congr_left fun _ ↦ ⟨fun h ↦ ⟨trim cs, framed_trim cs, h⟩, ?_⟩
  rintro ⟨word, hframed, hnumeral⟩
  rwa [(trim_eq_iff hnumeral.ne_nil fun _ ↦ hnumeral.isBlank_eq_false).2 hframed]

end Text

namespace Preset

variable {text : String} {field : List Char}

/-! ## Fields -/

/-- Field `k` of a preset, counted from zero: what stands between two `&`, where one `#` at the very
beginning does not count. -/
def Field (text : String) (k : Nat) (field : List Char) : Prop :=
  ∃ body fields, (text.toList = '#' :: body ∨ text.toList = body ∧ body.head? ≠ some '#') ∧
    ['&'].intercalate fields = body ∧ (∀ f ∈ fields, '&' ∉ f) ∧ fields[k]? = some field

theorem withoutMark_eq_iff {cs body : List Char} :
    withoutMark cs = body ↔ cs = '#' :: body ∨ cs = body ∧ body.head? ≠ some '#' := by
  by_cases hmark : ∃ rest, cs = '#' :: rest
  · obtain ⟨rest, rfl⟩ := hmark
    show rest = body ↔ _
    constructor
    · rintro rfl
      exact .inl rfl
    · rintro (heq | ⟨rfl, hhead⟩)
      · exact (List.cons.inj heq).2
      · exact absurd rfl hhead
  · have hcs : withoutMark cs = cs := by
      rw [withoutMark]
      exact fun rest hrest ↦ hmark ⟨rest, hrest⟩
    rw [hcs]
    constructor
    · rintro rfl
      exact .inr ⟨rfl, fun hhead ↦ hmark (List.head?_eq_some_iff.1 hhead)⟩
    · rintro (heq | ⟨heq, -⟩)
      · exact absurd ⟨body, heq⟩ hmark
      · exact heq

theorem fields_getElem?_eq_some_iff {k : Nat} :
    (fields text)[k]? = some field ↔ Field text k field := by
  constructor
  · intro h
    exact ⟨withoutMark text.toList, fields text, withoutMark_eq_iff.1 rfl,
      List.intercalate_splitOn '&', fun _ ↦ Path.not_mem_of_mem_splitOn, h⟩
  · rintro ⟨body, parts, hbody, rfl, hparts, hk⟩
    have hne : parts ≠ [] := by
      rintro rfl
      cases hk
    rwa [fields, withoutMark_eq_iff.2 hbody, List.splitOn_intercalate '&' hparts hne]

/-! ## What a field asks for -/

/-- The field asks for samples of so many bytes. -/
def AsksBytes (field : List Char) (bytes : UInt16) : Prop :=
  ∃ word, Text.Framed field word ∧
    (bytes = 1 ∧ Text.Numeral word 8 ∨ bytes = 2 ∧ Text.Numeral word 16)

/-- The field asks for a channel mode. -/
def AsksMode (field : List Char) (mode : ChannelMode) : Prop :=
  Text.Framed field mode.name.toList

/-- The field asks for a sample rate, which a conversion may ask for. -/
def AsksRate (field : List Char) (rate : UInt32) : Prop :=
  ∃ word, Text.Framed field word ∧ Text.Numeral word rate.toNat ∧
    8000 ≤ rate.toNat ∧ rate.toNat ≤ 64000

theorem bytes?_eq_some_iff {bytes : UInt16} :
    bytes? field = some bytes ↔ AsksBytes field bytes := by
  have hread (n : Nat) (hn : n < UInt16.size) :
      Text.readNat UInt16.size (Text.trim field) = some n ↔
        ∃ word, Text.Framed field word ∧ Text.Numeral word n := by
    rw [Text.readNat_trim_eq_some_iff]
    exact and_iff_left hn
  have hbytes : bytes? field = some bytes ↔
      bytes = 1 ∧ Text.readNat UInt16.size (Text.trim field) = some 8 ∨
        bytes = 2 ∧ Text.readNat UInt16.size (Text.trim field) = some 16 := by
    rw [bytes?]
    split
    case h_1 h => simp [h, eq_comm]
    case h_2 h => simp [h, eq_comm]
    case h_3 h8 h16 =>
      refine iff_of_false nofun ?_
      rintro (⟨-, h⟩ | ⟨-, h⟩)
      · exact h8 h
      · exact h16 h
  rw [hbytes, hread 8 (by decide), hread 16 (by decide)]
  constructor
  · rintro (⟨hbytes, word, hframed, hword⟩ | ⟨hbytes, word, hframed, hword⟩)
    · exact ⟨word, hframed, .inl ⟨hbytes, hword⟩⟩
    · exact ⟨word, hframed, .inr ⟨hbytes, hword⟩⟩
  · rintro ⟨word, hframed, ⟨hbytes, hword⟩ | ⟨hbytes, hword⟩⟩
    · exact .inl ⟨hbytes, word, hframed, hword⟩
    · exact .inr ⟨hbytes, word, hframed, hword⟩

theorem mode?_eq_some_iff {mode : ChannelMode} : mode? field = some mode ↔ AsksMode field mode := by
  have hne : mode.name.toList ≠ [] := by cases mode <;> decide
  have hblank : ∀ c ∈ mode.name.toList, Text.isBlank c = false := by
    have hall : mode.name.toList.all (fun c ↦ !Text.isBlank c) = true := by cases mode <;> rfl
    simpa using hall
  rw [mode?, ChannelMode.ofName?_eq_some_iff, ← String.toList_inj, String.toList_ofList,
    Text.trim_eq_iff hne hblank]
  rfl

theorem rate?_eq_some_iff {rate : UInt32} : rate? field = some rate ↔ AsksRate field rate := by
  have hrate : rate? field = some rate ↔
      Text.readNat UInt32.size (Text.trim field) = some rate.toNat ∧ Rate.accepted rate = true := by
    refine Option.bind_eq_some_iff.trans ?_
    constructor
    · rintro ⟨n, hread, hn⟩
      obtain ⟨haccepted, hn⟩ := Option.ite_none_right_eq_some.1 hn
      obtain rfl := Option.some.inj hn
      have hlt : n < UInt32.size := (Text.readNat_eq_some_iff.1 hread).2
      rw [UInt32.toNat_ofNat_of_lt' hlt]
      exact ⟨hread, haccepted⟩
    · rintro ⟨hread, haccepted⟩
      refine ⟨rate.toNat, hread, ?_⟩
      dsimp only
      rw [UInt32.ofNat_toNat, if_pos haccepted]
  rw [hrate, Rate.accepted_iff, Text.readNat_trim_eq_some_iff, and_iff_left rate.toNat_lt]
  constructor
  · rintro ⟨⟨word, hframed, hword⟩, hrange⟩
    exact ⟨word, hframed, hword, hrange⟩
  · rintro ⟨word, hframed, hword, hrange⟩
    exact ⟨⟨word, hframed, hword⟩, hrange⟩

end Preset
end WaveMill
