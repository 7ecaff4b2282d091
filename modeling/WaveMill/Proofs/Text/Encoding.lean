import WaveMill.Proofs.Text.ByteOrder

/-!
# Places in a text, by bytes

A text is a sequence of characters, and of one to four bytes for each of them.  Where a text is cut
at an offset in bytes, the offset can be inside of a character, which is an error.  It is not where
an ASCII character begins or ends: such a character is a single byte, which is in no other
character.  So its last occurrence among the characters is the last one among the bytes.

## What is here

* `Bytes.toText?_ofText` — a text is read back from its bytes.
* `Bytes.mem_ofText_iff` — the byte of an ASCII character is in no other character.
* `Bytes.lastOffset?` — the offset at which a byte stands last.
* `Text.cut?` — a text cut at an offset, and `Text.cut?_append`, where it can be cut.
-/

set_option autoImplicit false
namespace WaveMill

namespace Bytes

theorem toText?_ofText (text : String) : toText? (ofText text) = some text := by
  have hbytes : (ofText text).toByteArray = text.toUTF8 := by
    refine ByteArray.ext ?_
    rw [List.data_toByteArray]
    exact Array.toArray_toList ..
  rw [toText?, hbytes, String.fromUTF8?]
  exact dif_pos text.isValidUTF8

theorem ofText_append (a b : String) : ofText (a ++ b) = ofText a ++ ofText b := by
  simp [ofText]

theorem length_ofText (text : String) : (ofText text).length = text.utf8ByteSize := by
  simp [ofText]

theorem mem_codeUnits_iff {m n : Nat} (hm : m < 0x80) : m ∈ codeUnits n ↔ n = m := by
  unfold codeUnits
  repeat' split
  all_goals simp only [List.mem_cons, List.not_mem_nil, or_false]
  all_goals omega

/-- The byte of an ASCII character is in no other character. -/
theorem mem_ofText_iff {byte : UInt8} {c : Char} (hbyte : byte.toNat = c.toNat)
    (hascii : c.toNat < 0x80) {text : String} : byte ∈ ofText text ↔ c ∈ text.toList := by
  have hnumbers : byte ∈ ofText text ↔ c.toNat ∈ (ofText text).map UInt8.toNat := by
    rw [← hbyte, List.mem_map_of_injective fun _ _ ↦ UInt8.toNat_inj.1]
  rw [hnumbers, map_toNat_ofText, List.mem_flatMap]
  constructor
  · rintro ⟨d, hd, hmem⟩
    obtain rfl : d = c := Char.toNat_inj.1 ((mem_codeUnits_iff hascii).1 hmem)
    exact hd
  · exact fun hc ↦ ⟨c, hc, (mem_codeUnits_iff hascii).2 rfl⟩

variable {byte : UInt8} {before behind : Bytes}

/-- The offset at which a byte stands last. -/
def lastOffset? (byte : UInt8) : Bytes → Option Nat
  | [] => none
  | b :: rest =>
    match lastOffset? byte rest with
    | some offset => some (offset + 1)
    | none => if b = byte then some 0 else none

theorem lastOffset?_eq_none (h : byte ∉ behind) : lastOffset? byte behind = none := by
  induction behind with
  | nil => rfl
  | cons b rest ih =>
    rw [List.mem_cons, not_or] at h
    rw [lastOffset?, ih h.2]
    exact if_neg (Ne.symm h.1)

theorem lastOffset?_append (h : byte ∉ behind) :
    lastOffset? byte (before ++ byte :: behind) = some before.length := by
  induction before with
  | nil =>
    rw [List.nil_append, lastOffset?, lastOffset?_eq_none h]
    exact if_pos rfl
  | cons b rest ih => rw [List.cons_append, lastOffset?, ih, List.length_cons]

end Bytes

namespace Text

/-- The text before an offset in bytes and the text behind it.  There are none if the offset is
inside of a character. -/
def cut? (text : String) (offset : Nat) : Option (String × String) :=
  if (String.Pos.Raw.mk offset).IsValid text then do
    let before ← Bytes.toText? ((Bytes.ofText text).take offset)
    let behind ← Bytes.toText? ((Bytes.ofText text).drop offset)
    return (before, behind)
  else none

theorem cut?_append (before behind : String) :
    cut? (before ++ behind) before.utf8ByteSize = some (before, behind) := by
  have hvalid : (String.Pos.Raw.mk before.utf8ByteSize).IsValid (before ++ behind) :=
    String.Pos.Raw.isValid_iff_exists_append.2 ⟨before, behind, rfl, rfl⟩
  rw [cut?, if_pos hvalid, Bytes.ofText_append, ← Bytes.length_ofText, List.take_left,
    List.drop_left, Bytes.toText?_ofText, Bytes.toText?_ofText]
  rfl

end Text
end WaveMill
