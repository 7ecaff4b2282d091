import Mathlib.Data.List.Induction
import WaveMill.Proofs.Config.Fieldwise

/-!
# How a description is spelled

A preset can hold everything that a description holds, so it can be asked for a whole description.
The texts that do that, whatever description they are applied to, are those that spell it: bits,
mode and rate in three fields, where a number may have a `+` and zeros in front, a field may have
blanks around its word, and anything may follow behind a third `&`.

That these texts suffice is read off what the fields ask for.  That no other text does comes from
the old description, which may be any: a setting that had another value before was asked for.

## What is here

* `Text.Padded` and `Text.padded_iff_numeral` — the digits of a number with something in front.
* `Preset.Spells` and `Preset.spells_iff` — the texts that spell a description, by their fields.
* `Preset.spells_write` — the preset that is written for a description is one of them.
* `Config.applyPreset_spelled` — they are the texts that make the description of every other one.
-/

set_option autoImplicit false
namespace WaveMill
namespace Text

variable {cs word : List Char} {mark : Char} {n : Nat}

/-! ## Numbers with something in front -/

/-- The decimal digits of a number, with or without a `+` in front, and with zeros between the
two. -/
def Padded (word : List Char) (n : Nat) : Prop :=
  ∃ sign zeros, (sign = [] ∨ sign = ['+']) ∧ (∀ z ∈ zeros, z = '0') ∧
    word = sign ++ (zeros ++ writeNat n)

theorem padded_writeNat (n : Nat) : Padded (writeNat n) n := ⟨[], [], .inl rfl, nofun, rfl⟩

/-- Zeros in front of a number do not count. -/
theorem ofDigitChars_zeros_append {zeros : List Char} (h : ∀ z ∈ zeros, z = '0') :
    Nat.ofDigitChars 10 (zeros ++ cs) 0 = Nat.ofDigitChars 10 cs 0 := by
  induction zeros with
  | nil => rfl
  | cons z zeros ih =>
    obtain rfl := h z List.mem_cons_self
    rw [List.cons_append, Nat.ofDigitChars_cons]
    exact ih fun z hz ↦ h z (List.mem_cons_of_mem _ hz)

theorem digitChar_of_isDigit {d : Char} (h : d.isDigit = true) :
    d.toNat - '0'.toNat < 10 ∧ Nat.digitChar (d.toNat - '0'.toNat) = d := by
  obtain ⟨hlow, hhigh⟩ : 48 ≤ d.toNat ∧ d.toNat ≤ 57 := Char.isDigit_iff_toNat.1 h
  have hzero : '0'.toNat = 48 := rfl
  have hlt : d.toNat - '0'.toNat < 10 := by omega
  refine ⟨hlt, Char.toNat_inj.1 ?_⟩
  rw [Nat.toNat_digitChar_of_lt_ten hlt]
  omega

/-- Digits that write a number are its own digits behind some zeros. -/
theorem exists_zeros_append (hne : cs ≠ []) (hdigits : ∀ d ∈ cs, d.isDigit = true) :
    ∃ zeros, (∀ z ∈ zeros, z = '0') ∧ cs = zeros ++ writeNat (Nat.ofDigitChars 10 cs 0) := by
  induction cs using List.reverseRecOn with
  | nil => exact absurd rfl hne
  | append_singleton init d ih =>
    obtain ⟨hlt, hchar⟩ := digitChar_of_isDigit (hdigits d (by simp))
    rw [Nat.ofDigitChars_append, Nat.ofDigitChars_cons, Nat.ofDigitChars_nil]
    rcases init.eq_nil_or_concat with rfl | ⟨_, _, hconcat⟩
    · refine ⟨[], nofun, ?_⟩
      rw [Nat.ofDigitChars_nil, Nat.mul_zero, Nat.zero_add, writeNat, Nat.toDigits_of_lt_base hlt,
        hchar, List.nil_append]
    · obtain ⟨zeros, hzeros, hinit⟩ := ih (by simp [hconcat]) fun c hc ↦ hdigits c (by simp [hc])
      rcases Nat.eq_zero_or_pos (Nat.ofDigitChars 10 init 0) with hzero | hpos
      · -- All digits so far are zeros, and none of them is kept.
        rw [hzero, Nat.mul_zero, Nat.zero_add, writeNat, Nat.toDigits_of_lt_base hlt, hchar]
        refine ⟨init, fun z hz ↦ ?_, rfl⟩
        rw [hinit, hzero] at hz
        exact (List.mem_append.1 hz).elim (hzeros z) fun hz ↦ List.mem_singleton.1 hz
      · refine ⟨zeros, hzeros, ?_⟩
        rw [writeNat, ← Nat.toDigits_append_toDigits (by decide) hpos hlt,
          Nat.toDigits_of_lt_base hlt, hchar, ← List.append_assoc]
        exact congrArg (· ++ [d]) hinit

/-- A numeral is the number in decimal, with something in front or not. -/
theorem padded_iff_numeral : Padded word n ↔ Numeral word n := by
  constructor
  · rintro ⟨sign, zeros, hsign, hzeros, rfl⟩
    refine ⟨zeros ++ writeNat n, ?_, ?_, ?_, ?_⟩
    · exact hsign.imp (fun h ↦ by rw [h, List.nil_append]) fun h ↦ by rw [h, List.singleton_append]
    · exact List.append_ne_nil_of_right_ne_nil _ (writeNat_ne_nil n)
    · intro d hd
      rcases List.mem_append.1 hd with hzero | hdigit
      · rw [hzeros d hzero]
        decide
      · exact isDigit_of_mem_writeNat hdigit
    · rw [ofDigitChars_zeros_append hzeros]
      exact Nat.ofDigitChars_toDigits (by decide) (by decide)
  · rintro ⟨digits, hsign, hne, hdigits, rfl⟩
    obtain ⟨zeros, hzeros, hwritten⟩ := exists_zeros_append hne hdigits
    rw [hwritten] at hsign
    rcases hsign with rfl | rfl
    · exact ⟨[], zeros, .inl rfl, hzeros, rfl⟩
    · exact ⟨['+'], zeros, .inr rfl, hzeros, rfl⟩

/-! ## Framed words -/

theorem framed_self (word : List Char) : Framed word word :=
  ⟨[], [], by rw [List.nil_append, List.append_nil], nofun, nofun⟩

/-- A character that is not blank stands in a framed word or not at all. -/
theorem Framed.not_mem (h : Framed cs word) (hmark : isBlank mark = false) (hword : mark ∉ word) :
    mark ∉ cs := by
  obtain ⟨before, after, rfl, hbefore, hafter⟩ := h
  intro hmem
  rcases List.mem_append.1 hmem with hmem | hmem
  · rcases List.mem_append.1 hmem with hmem | hmem
    · exact absurd (hbefore mark hmem) (Bool.not_eq_true _ ▸ hmark)
    · exact hword hmem
  · exact absurd (hafter mark hmem) (Bool.not_eq_true _ ▸ hmark)

/-- A numeral has digits and perhaps a `+`. -/
theorem Padded.not_mem (h : Padded word n) (hdigit : mark.isDigit = false) (hplus : mark ≠ '+') :
    mark ∉ word := by
  obtain ⟨digits, rfl | rfl, -, hall, -⟩ := padded_iff_numeral.1 h
  · exact fun hmem ↦ Bool.false_ne_true (hdigit.symm.trans (hall mark hmem))
  · intro hmem
    rcases List.mem_cons.1 hmem with heq | hmem
    · exact hplus heq
    · exact Bool.false_ne_true (hdigit.symm.trans (hall mark hmem))

end Text

theorem ChannelMode.exists_ne (mode : ChannelMode) : ∃ other : ChannelMode, other ≠ mode := by
  cases mode with
  | both => exact ⟨.mix, nofun⟩
  | _ => exact ⟨.both, nofun⟩

namespace Preset

open Text

variable {text : String} {bits rate : Nat} {mode : ChannelMode}

/-! ## Texts that spell a description -/

/-- The text asks for so many bits, for the mode and for the rate, in this order.  One `#` may stand
in front, blanks around every word, and anything behind a third `&`. -/
inductive Spells (bits : Nat) (mode : ChannelMode) (rate : Nat) (text : String) : Prop where
  | intro {mark first second third tail width speed : List Char}
      (htext : text.toList = mark ++ (first ++ '&' :: (second ++ '&' :: (third ++ tail))))
      (hmark : mark = [] ∨ mark = ['#'])
      (hfirst : Framed first width) (hwidth : Padded width bits)
      (hsecond : Framed second mode.name.toList)
      (hthird : Framed third speed) (hspeed : Padded speed rate)
      (htail : tail = [] ∨ tail.head? = some '&')

theorem withoutMark_append {mark body : List Char} (hmark : mark = [] ∨ mark = ['#'])
    (hbody : body.head? ≠ some '#') : withoutMark (mark ++ body) = body := by
  rcases hmark with rfl | rfl
  · exact withoutMark_eq_iff.2 (.inr ⟨rfl, hbody⟩)
  · rfl

/-- A field does not bring a `#` to the front of a text. -/
theorem head?_append_ne {first : List Char} (h : '#' ∉ first) (rest : List Char) :
    (first ++ '&' :: rest).head? ≠ some '#' := by
  cases first with
  | nil => exact nofun
  | cons c cs =>
    intro hc
    exact h (Option.some.inj hc ▸ List.mem_cons_self)

theorem not_mem_name {mark : Char} (h : mark = '#' ∨ mark = '&') (mode : ChannelMode) :
    mark ∉ mode.name.toList := by
  rcases h with rfl | rfl <;> cases mode <;> decide

theorem Spells.exists_fields (h : Spells bits mode rate text) :
    ∃ first second third more, fields text = first :: second :: third :: more ∧
      (∃ word, Framed first word ∧ Padded word bits) ∧ Framed second mode.name.toList ∧
      ∃ word, Framed third word ∧ Padded word rate := by
  obtain ⟨htext, hmark, hfirst, hwidth, hsecond, hthird, hspeed, htail⟩ := h
  rename_i mark first second third tail width speed
  have hfirst' : '&' ∉ first :=
    hfirst.not_mem (by decide) (hwidth.not_mem (by decide) (by decide))
  have hsecond' : '&' ∉ second := hsecond.not_mem (by decide) (not_mem_name (.inr rfl) mode)
  have hthird' : '&' ∉ third :=
    hthird.not_mem (by decide) (hspeed.not_mem (by decide) (by decide))
  have hnone : '#' ∉ first := hfirst.not_mem (by decide) (hwidth.not_mem (by decide) (by decide))
  obtain ⟨more, hmore⟩ : ∃ more, (third ++ tail).splitOn '&' = third :: more := by
    rcases htail with rfl | htail
    · exact ⟨[], by rw [List.append_nil, List.splitOn_eq_singleton hthird']⟩
    · obtain ⟨rest, rfl⟩ := List.head?_eq_some_iff.1 htail
      exact ⟨_, List.splitOn_append_cons_self_of_not_mem hthird' rest⟩
  refine ⟨first, second, third, more, ?_, ⟨width, hfirst, hwidth⟩, hsecond, speed, hthird, hspeed⟩
  rw [fields, htext, withoutMark_append hmark (head?_append_ne hnone _),
    List.splitOn_append_cons_self_of_not_mem hfirst',
    List.splitOn_append_cons_self_of_not_mem hsecond', hmore]

/-- What the first three fields of a text leave open: a mark in front, and a tail. -/
theorem exists_text_eq {first second third : List Char} {more : List (List Char)}
    (hfields : fields text = first :: second :: third :: more) :
    ∃ mark tail, (mark = [] ∨ mark = ['#']) ∧ (tail = [] ∨ tail.head? = some '&') ∧
      text.toList = mark ++ (first ++ '&' :: (second ++ '&' :: (third ++ tail))) := by
  obtain ⟨tail, htail, hbody⟩ : ∃ tail, (tail = [] ∨ tail.head? = some '&') ∧
      withoutMark text.toList = first ++ '&' :: (second ++ '&' :: (third ++ tail)) := by
    have hbody : ['&'].intercalate (fields text) = withoutMark text.toList :=
      List.intercalate_splitOn '&'
    rw [hfields] at hbody
    cases more with
    | nil => exact ⟨[], .inl rfl, by rw [← hbody]; simp [List.intercalate_cons_cons]⟩
    | cons next more =>
      exact ⟨'&' :: ['&'].intercalate (next :: more), .inr rfl, by
        rw [← hbody]; simp [List.intercalate_cons_cons]⟩
  rcases withoutMark_eq_iff.1 hbody with htext | ⟨htext, -⟩
  · exact ⟨['#'], tail, .inr rfl, htail, htext⟩
  · exact ⟨[], tail, .inl rfl, htail, htext⟩

/-- A text spells a description by its first three fields. -/
theorem spells_iff : Spells bits mode rate text ↔
    ∃ first second third more, fields text = first :: second :: third :: more ∧
      (∃ word, Framed first word ∧ Padded word bits) ∧ Framed second mode.name.toList ∧
      ∃ word, Framed third word ∧ Padded word rate := by
  refine ⟨Spells.exists_fields, ?_⟩
  rintro ⟨first, second, third, more, hfields, ⟨width, hfirst, hwidth⟩, hsecond, speed, hthird,
    hspeed⟩
  obtain ⟨mark, tail, hmark, htail, htext⟩ := exists_text_eq hfields
  exact ⟨htext, hmark, hfirst, hwidth, hsecond, hthird, hspeed, htail⟩

/-- The preset that is written for a description spells it. -/
theorem spells_write (bits : Nat) (mode : ChannelMode) (rate : UInt32) :
    Spells bits mode rate.toNat (write bits mode rate) := by
  have htext : (write bits mode rate).toList = [] ++ (writeNat bits ++ '&' :: (mode.name.toList ++
      '&' :: (writeNat rate.toNat ++ []))) := by
    simp [write]
  exact ⟨htext, .inl rfl, framed_self _, padded_writeNat bits, framed_self _, framed_self _,
    padded_writeNat rate.toNat, .inl rfl⟩

/-! ## What is asked for by everyone -/

section Makes

variable {α : Type} {k : Nat} {asks : List Char → α → Prop} {old new : α}

/-- A setting that has changed was asked for. -/
theorem Makes.asked_of_ne (h : Makes text k asks old new) (hne : old ≠ new) :
    ∃ field, (fields text)[k]? = some field ∧ asks field new := by
  rcases h with ⟨hfield, hasks⟩ | -
  · exact ⟨_, fields_getElem?_eq_some_iff.2 hfield, hasks⟩
  · exact absurd rfl hne

end Makes

theorem exists_fields_eq {first second third : List Char} (hfirst : (fields text)[0]? = some first)
    (hsecond : (fields text)[1]? = some second) (hthird : (fields text)[2]? = some third) :
    ∃ more, fields text = first :: second :: third :: more := by
  rcases hfields : fields text with - | ⟨a, - | ⟨b, - | ⟨c, more⟩⟩⟩ <;>
    simp [hfields] at hfirst hsecond hthird
  exact ⟨more, by rw [hfirst, hsecond, hthird]⟩

/-- A field asks for a width by its number of bits. -/
theorem asksBytes_iff {field : List Char} {bytes : UInt16} (h : bytes = 1 ∨ bytes = 2) :
    AsksBytes field bytes ↔ ∃ word, Framed field word ∧ Padded word (bytes * 8).toNat := by
  refine exists_congr fun word ↦ and_congr_right fun _ ↦ ?_
  rw [padded_iff_numeral]
  rcases h with rfl | rfl
  · exact ⟨fun h ↦ h.elim And.right fun h ↦ absurd h.1 (by decide), fun h ↦ .inl ⟨rfl, h⟩⟩
  · exact ⟨fun h ↦ h.elim (fun h ↦ absurd h.1 (by decide)) And.right, fun h ↦ .inr ⟨rfl, h⟩⟩

end Preset

namespace Config

open Preset Text

variable {config : Config}

theorem bitDepth_of_valid (h : config.validate = .ok ()) :
    config.bitDepth = .ok (config.bytes * 8) := by
  refine if_pos ?_
  rcases (validate_eq_ok_iff.1 h).1 with hbytes | hbytes <;> rw [hbytes] <;> decide

/-- **A description is spelled by the texts that make it of every description.**  The bits, the mode
and the rate of a description that can be converted to, written in decimal, make it of whatever
description there was before, valid or not; and so do the texts that spell it with other blanks,
signs, zeros or a tail, and no other texts. -/
theorem applyPreset_spelled (h : config.validate = .ok ()) :
    ∃ bits, config.bitDepth = .ok bits ∧
      (∀ old : Config,
        old.applyPreset (Preset.write bits.toNat config.mode config.rate) = config) ∧
      ∀ text, (∀ old : Config, old.applyPreset text = config) ↔
        Spells bits.toNat config.mode config.rate.toNat text := by
  obtain ⟨hbytes, hrate⟩ := validate_eq_ok_iff.1 h
  have hmakes (text : String) (hspells : Spells (config.bytes * 8).toNat config.mode
      config.rate.toNat text) (old : Config) : old.applyPreset text = config := by
    obtain ⟨first, second, third, more, hfields, hfirst, hsecond, speed, hthird, hspeed⟩ :=
      spells_iff.1 hspells
    have hwidth := bytes?_eq_some_iff.2 ((asksBytes_iff hbytes).2 hfirst)
    have hmode := mode?_eq_some_iff.2 (show AsksMode second config.mode from hsecond)
    have hspeed := rate?_eq_some_iff.2 ⟨speed, hthird, padded_iff_numeral.1 hspeed, hrate⟩
    simp only [applyPreset, hfields, List.getElem?_cons_zero, List.getElem?_cons_succ,
      Option.bind_some, hwidth, hmode, hspeed, Option.getD_some]
  refine ⟨_, bitDepth_of_valid h, hmakes _ (spells_write ..), fun text ↦ ⟨fun hall ↦ ?_,
    hmakes text⟩⟩
  -- Every setting of this description has to change, so the text asks for all of them.
  obtain ⟨other, hother⟩ := config.mode.exists_ne
  have hold := hall ⟨0, 0, other⟩
  have hbytesMade := makes_bytes ⟨0, 0, other⟩ text
  have hmodeMade := makes_mode ⟨0, 0, other⟩ text
  have hrateMade := makes_rate ⟨0, 0, other⟩ text
  rw [hold] at hbytesMade hmodeMade hrateMade
  obtain ⟨first, hfirst, hasksBytes⟩ := hbytesMade.asked_of_ne (by
    rintro hzero
    rw [← hzero] at hbytes
    exact absurd hbytes (by decide : ¬((0 : UInt16) = 1 ∨ (0 : UInt16) = 2)))
  obtain ⟨second, hsecond, hasksMode⟩ := hmodeMade.asked_of_ne hother
  obtain ⟨third, hthird, speed, hframed, hspeed, -⟩ := hrateMade.asked_of_ne (by
    intro hzero
    rw [← hzero] at hrate
    exact absurd hrate.1 (by decide : ¬8000 ≤ (0 : UInt32).toNat))
  obtain ⟨more, hfields⟩ := exists_fields_eq hfirst hsecond hthird
  exact spells_iff.2 ⟨first, second, third, more, hfields, (asksBytes_iff hbytes).1 hasksBytes,
    hasksMode, speed, hframed, padded_iff_numeral.2 hspeed⟩

/-- A sign, zeros, blanks of two kinds and a tail do not matter. -/
theorem applyPreset_spelled_loosely :
    Config.validate ⟨32000, 1, .mix⟩ = .ok () ∧
      ∀ old : Config, old.applyPreset "#+008 &\u2003mix&032000 &rest" = ⟨32000, 1, .mix⟩ := by
  have hvalid : Config.validate ⟨32000, 1, .mix⟩ = .ok () := by decide
  obtain ⟨bits, hbits, -, hspelled⟩ := applyPreset_spelled hvalid
  obtain rfl : bits = 8 := Except.ok.inj (hbits.symm.trans (by decide))
  refine ⟨hvalid, (hspelled _).2 ?_⟩
  have htext : "#+008 &\u2003mix&032000 &rest".toList =
      ['#'] ++ (['+', '0', '0', '8', ' '] ++ '&' :: (['\u2003', 'm', 'i', 'x'] ++ '&' ::
        (['0', '3', '2', '0', '0', '0', ' '] ++ ['&', 'r', 'e', 's', 't']))) := by rfl
  have hfirst : Framed ['+', '0', '0', '8', ' '] ['+', '0', '0', '8'] :=
    ⟨[], [' '], by rfl, nofun, List.forall_mem_singleton.2 (by rfl)⟩
  have hwidth : Padded ['+', '0', '0', '8'] 8 := ⟨['+'], ['0', '0'], .inr rfl, by simp, by rfl⟩
  have hsecond : Framed ['\u2003', 'm', 'i', 'x'] "mix".toList :=
    ⟨['\u2003'], [], by rfl, List.forall_mem_singleton.2 (by rfl), nofun⟩
  have hthird : Framed ['0', '3', '2', '0', '0', '0', ' '] ['0', '3', '2', '0', '0', '0'] :=
    ⟨[], [' '], by rfl, nofun, List.forall_mem_singleton.2 (by rfl)⟩
  have hspeed : Padded ['0', '3', '2', '0', '0', '0'] 32000 :=
    ⟨[], ['0'], .inl rfl, by simp, by rfl⟩
  exact ⟨htext, .inr rfl, hfirst, hwidth, hsecond, hthird, hspeed, .inr rfl⟩

end Config
end WaveMill
