import WaveMill.Bytes
import WaveMill.Number.Convert

/-!
# Codings of samples

How the bytes of one sample are read.  A container stores plain samples in either byte order, or
companded ones, in which a byte stands for a sample on a logarithmic scale.

## What is here

* `Scan.Coding` and `Scan.Coding.value` — the codings, and the value of a sample.
* `Scan.muLaw`, `Scan.aLaw` — the two companding laws.
* `Scan.Coding.room` — the width of the word that a sample is decoded into.
-/

set_option autoImplicit false
namespace WaveMill
namespace Scan

/-- The order of the bytes of a number. -/
inductive ByteOrder where
  | little
  | big
  deriving DecidableEq, Repr

/-- The number that some bytes write in an order. -/
def ByteOrder.value : ByteOrder → Bytes → Nat
  | little => Bytes.little
  | big => Bytes.big

/-- The ways in which a sample can be written on its own. -/
inductive Coding where
  /-- A byte, with silence at 128. -/
  | offset8
  /-- A signed word of 8, 16, 24 or 32 bits. -/
  | signed (bits : Nat) (order : ByteOrder)
  /-- A floating point number of 32 bits. -/
  | float32 (order : ByteOrder)
  /-- A floating point number of 64 bits. -/
  | float64 (order : ByteOrder)
  | muLaw
  | aLaw
  deriving DecidableEq, Repr

/-- The number of bytes of a sample. -/
def Coding.width : Coding → Nat
  | offset8 => 1
  | signed bits _ => bits / 8
  | float32 _ => 4
  | float64 _ => 8
  | muLaw => 1
  | aLaw => 1

/-- The number of bits of the word that a sample is decoded into.  A companded sample is one of 16
bits. -/
def Coding.room : Coding → Nat
  | offset8 => 8
  | signed bits _ => bits
  | float32 _ => 32
  | float64 _ => 64
  | muLaw => 16
  | aLaw => 16

/-- The 16-bit sample that a byte stands for under the first companding law: the complement of the
byte is a sign, three bits of exponent and four bits of mantissa, and the scale is shifted by
132. -/
def muLaw (b : UInt8) : Int :=
  let m := 255 - b.toNat
  let t : Int := ((m % 16 * 8 + 132) * Nat.pow 2 (m / 16 % 8) : Nat)
  if m < 128 then t - 132 else 132 - t

/-- The 16-bit sample that a byte stands for under the second companding law: every other bit of the
byte is flipped, and what results is a sign, three bits of exponent and four bits of mantissa. -/
def aLaw (b : UInt8) : Int :=
  let a := (b ^^^ 0x55).toNat
  let t := a % 16 * 16
  let magnitude : Int := match a / 16 % 8 with
    | 0 => (t + 8 : Nat)
    | segment + 1 => ((t + 264) * Nat.pow 2 segment : Nat)
  if a < 128 then -magnitude else magnitude

/-- An integer as a fraction of the range of a word of so many bits. -/
def fraction (bits : Nat) (n : Int) : Float32 :=
  Number.ofInt32 n / Number.ofInt32 (Nat.pow 2 (bits - 1) : Nat)

/-- The value that the bytes of one sample write. -/
def Coding.value : Coding → Bytes → Float32
  | offset8, bytes => fraction 8 ((Bytes.little bytes : Int) - 128)
  | signed bits order, bytes => fraction bits (Bytes.signed (order.value bytes) bits)
  | float32 order, bytes => .ofBits (UInt32.ofNat (order.value bytes))
  | float64 order, bytes => Number.narrow (.ofBits (UInt64.ofNat (order.value bytes)))
  | muLaw, bytes => fraction 16 (Scan.muLaw (bytes.headD 0))
  | aLaw, bytes => fraction 16 (Scan.aLaw (bytes.headD 0))

end Scan
end WaveMill
