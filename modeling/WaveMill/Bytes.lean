/-!
# Bytes

File contents are lists of bytes, so that what a reader does with a file can be said with `take`,
`drop` and `++`.

## What is here

* `Bytes.split?` — the first `n` bytes and the rest, if there are that many; every reader of
  fixed-size fields is built from it.
* `Bytes.little` and `Bytes.big` — the number that some bytes write, least or most significant byte
  first.
* `Bytes.ofWord16` and `Bytes.ofWord32` — a word, least significant byte first, and that
  `Bytes.little` reads it back.
-/

set_option autoImplicit false
namespace WaveMill

/-- The contents of a file. -/
abbrev Bytes := List UInt8

namespace Bytes

/-- The bytes of a text of ASCII characters. -/
def ofAscii (text : String) : Bytes := text.toList.map fun c ↦ c.toNat.toUInt8

/-- The bytes of a text in UTF-8. -/
def ofText (text : String) : Bytes := text.toUTF8.data.toList

/-- The text that the bytes write in UTF-8, if they do. -/
def toText? (bytes : Bytes) : Option String := String.fromUTF8? bytes.toByteArray

/-- The first `n` bytes and the rest, if there are that many. -/
def split? (n : Nat) (bytes : Bytes) : Option (Bytes × Bytes) :=
  let head := bytes.take n
  if head.length = n then some (head, bytes.drop n) else none

theorem split?_append {head rest : Bytes} :
    split? head.length (head ++ rest) = some (head, rest) := by
  simp [split?]

theorem split?_eq_some_iff {n : Nat} {bytes head rest : Bytes} :
    split? n bytes = some (head, rest) ↔ bytes = head ++ rest ∧ head.length = n := by
  constructor
  · intro h
    simp only [split?] at h
    split at h
    · cases h
      exact ⟨(List.take_append_drop n bytes).symm, by assumption⟩
    · cases h
  · rintro ⟨rfl, rfl⟩
    exact split?_append

/-- The number that the bytes write, least significant byte first. -/
def little : Bytes → Nat
  | [] => 0
  | b :: rest => b.toNat + 256 * little rest

/-- The number that the bytes write, most significant byte first. -/
def big (bytes : Bytes) : Nat := bytes.foldl (fun n b ↦ 256 * n + b.toNat) 0

/-- The number that the bytes write as a word of `8 * bytes.length` bits in two's complement. -/
def signed (n : Nat) (bits : Nat) : Int :=
  if n < Nat.pow 2 (bits - 1) then n else (n : Int) - (Nat.pow 2 bits : Nat)

/-- A word of 16 bits, least significant byte first. -/
def ofWord16 (n : UInt16) : Bytes := [n.toUInt8, (n >>> 8).toUInt8]

/-- A word of 32 bits, least significant byte first. -/
def ofWord32 (n : UInt32) : Bytes :=
  [n.toUInt8, (n >>> 8).toUInt8, (n >>> 16).toUInt8, (n >>> 24).toUInt8]

@[simp]
theorem length_ofWord16 (n : UInt16) : (ofWord16 n).length = 2 := rfl

@[simp]
theorem length_ofWord32 (n : UInt32) : (ofWord32 n).length = 4 := rfl

theorem little_ofWord16 (n : UInt16) : little (ofWord16 n) = n.toNat := by
  have h := n.toNat_lt
  simp only [ofWord16, little, UInt16.toNat_toUInt8, UInt16.toNat_shiftRight,
    Nat.shiftRight_eq_div_pow]
  have h8 : (8 : UInt16).toNat % 16 = 8 := by decide
  rw [h8]
  omega

theorem little_ofWord32 (n : UInt32) : little (ofWord32 n) = n.toNat := by
  have h := n.toNat_lt
  simp only [ofWord32, little, UInt32.toNat_toUInt8, UInt32.toNat_shiftRight,
    Nat.shiftRight_eq_div_pow]
  have h8 : (8 : UInt32).toNat % 32 = 8 := by decide
  have h16 : (16 : UInt32).toNat % 32 = 16 := by decide
  have h24 : (24 : UInt32).toNat % 32 = 24 := by decide
  rw [h8, h16, h24]
  omega

end Bytes
end WaveMill
