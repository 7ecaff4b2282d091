import WaveMill.Scan
import WaveMill.Wave.Reader

/-!
# Decoding files

A file that begins as a wave file does is read by the strict reader, and every other file is left to
a scanner.  A batch decodes each file as a task of its own, and a task that is aborted is a file
that failed.

## What is here

* `Decoder` — anything that makes a buffer of the contents of a file, or says why not.
* `Decoder.ofScanner` — the decoder that chooses between the strict reader and a scanner, and
  `decodeAudio` — the one that gets along without a library.
* `Decoder.asTask` — a decoder whose aborts are reported as failures of the file.
-/

set_option autoImplicit false
namespace WaveMill

/-- A way to make a buffer of the contents of a named file. -/
abbrev Decoder := String → Bytes → Outcome Buffer

/-- Whether a file begins as a wave file does. -/
def beginsAsWave (bytes : Bytes) : Bool :=
  bytes.take 4 = Bytes.ofAscii "RIFF" && (bytes.drop 8).take 4 = Bytes.ofAscii "WAVE"

/-- The buffer of a file in any format that a scanner knows. -/
def Decoder.ofScanner (scan : Scanner) : Decoder := fun name bytes ↦
  if beginsAsWave bytes then Wave.decode name bytes else scan.decode name bytes

/-- The decoder of audio that is not compressed. -/
def decodeAudio : Decoder := Decoder.ofScanner (Scan.stream Scan.noLibrary)

/-- The decoder run as a task. -/
def Decoder.asTask (decode : Decoder) : Decoder := fun name bytes ↦
  match decode name bytes with
  | .error (.aborted _) => .error (.decode name .abortedTask)
  | result => result

end WaveMill
