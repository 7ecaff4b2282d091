import WaveMill.Bytes
import WaveMill.Failure

/-!
# The wave container

Sample bytes become a wave file by a header of 44 bytes in front of them.  Every number in the
header has a field of fixed size.  A product that does not fit its field leaves the file without an
answer; the length of the data is cut to its field.

## What is here

* `Wave.Header` — what a header says, and `Wave.Header.bytes`, how it says it.
* `Wave.header` — the header for some data.
* `Wave.file` — the header and the data behind it.
-/

set_option autoImplicit false
namespace WaveMill
namespace Wave

/-- What the header of a file of plain samples says. -/
structure Header where
  channels : UInt16
  rate : UInt32
  /-- Bytes per second. -/
  byteRate : UInt32
  /-- Bytes per frame. -/
  blockAlign : UInt16
  /-- Bits per sample. -/
  bits : UInt16
  /-- Bytes of the file behind this field. -/
  fileLength : UInt32
  /-- Bytes of data. -/
  dataLength : UInt32
  deriving DecidableEq, Repr

/-- The number of bytes of a header. -/
def headerLength : Nat := 44

/-- The bytes of a header. -/
def Header.bytes (h : Header) : Bytes :=
  Bytes.ofAscii "RIFF" ++ Bytes.ofWord32 h.fileLength ++ Bytes.ofAscii "WAVE" ++
  Bytes.ofAscii "fmt " ++ Bytes.ofWord32 16 ++ Bytes.ofWord16 1 ++ Bytes.ofWord16 h.channels ++
  Bytes.ofWord32 h.rate ++ Bytes.ofWord32 h.byteRate ++ Bytes.ofWord16 h.blockAlign ++
  Bytes.ofWord16 h.bits ++
  Bytes.ofAscii "data" ++ Bytes.ofWord32 h.dataLength

theorem length_bytes (h : Header) : h.bytes.length = headerLength := by
  have ascii (s : String) (n : Nat) (hn : s.toList.length = n) : (Bytes.ofAscii s).length = n := by
    simpa [Bytes.ofAscii] using hn
  simp only [Header.bytes, List.length_append, Bytes.length_ofWord16, Bytes.length_ofWord32,
    ascii "RIFF" 4 rfl, ascii "WAVE" 4 rfl, ascii "fmt " 4 rfl, ascii "data" 4 rfl, headerLength]

/-- The product of two fields, if it fits the first. -/
def product16 (a b : UInt16) : Outcome UInt16 :=
  if a.toNat * b.toNat < UInt16.size then .ok (a * b) else .error (.aborted .productOverflow)

/-- The product of two fields, if it fits the first. -/
def product32 (a b : UInt32) : Outcome UInt32 :=
  if a.toNat * b.toNat < UInt32.size then .ok (a * b) else .error (.aborted .productOverflow)

/-- The sum of two fields, if it fits them. -/
def sum32 (a b : UInt32) : Outcome UInt32 :=
  if a.toNat + b.toNat < UInt32.size then .ok (a + b) else .error (.aborted .sumOverflow)

/-- The header for `length` bytes of data. -/
def header (length : Nat) (channels : UInt16) (rate : UInt32) (bytes : UInt16) : Outcome Header :=
  do
  let dataLength := UInt32.ofNat length
  let blockAlign ← product16 bytes channels
  let byteRate ← product32 rate blockAlign.toUInt32
  let fileLength ← sum32 36 dataLength
  let bits ← product16 bytes 8
  return { channels, rate, byteRate, blockAlign, bits, fileLength, dataLength }

/-- The wave file of some sample bytes. -/
def file (data : Bytes) (channels : UInt16) (rate : UInt32) (bytes : UInt16) : Outcome Bytes := do
  let h ← header data.length channels rate bytes
  return h.bytes ++ data

end Wave
end WaveMill
