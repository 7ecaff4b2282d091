import WaveMill.Scan.Aiff
import WaveMill.Scan.Marker
import WaveMill.Scan.Ogg
import WaveMill.Scan.Riff
import WaveMill.Scan.Stream

/-!
# Scanning for a container

A file of unknown format is decoded as the first container that is found in it.  The name of the
file does not matter.  Samples that stand on their own or in adaptive blocks are taken out here.
Compressed audio is left to a library, which is a scanner of its own and may be anything; without
one, compressed audio is only recognized.

## What is here

* `Scan.headers?` and `Scan.readSamples` — the samples of a container that is read here, and the
  track that they belong to.
* `Scan.stream` — the scanner, with a library for compressed audio; `Scan.noLibrary`, where there is
  none.
* `Scan.decode` — the buffer that is found in a file without a library.
-/

set_option autoImplicit false
namespace WaveMill
namespace Scan

/-- The headers of a container from its marker on, if its audio is not compressed. -/
def headers? : Container → Option (Walk (Option Track × Nat))
  | .riff => some do skip 4; Riff.readHeaders
  | .form => some do skip 4; Aiff.readHeaders
  | .ogg => none
  | .compressed => none

/-- The samples behind some headers together with the track that they belong to. -/
def readSamples (headers : Walk (Option Track × Nat)) (bytes : Bytes) :
    Except Stop (Track × Array Float32) := do
  let ((track, length), region) ← headers.run bytes
  match track with
  | none => throw (.fault .noTrack)
  | some track => return (track, ← track.samples length region)

/-- The scanner with a library for compressed audio.  All other samples it hands out at once. -/
def stream (library : Scanner) : Scanner := fun hint bytes ↦ do
  let (container, body) ← locate bytes
  match headers? container with
  | none => library hint bytes
  | some headers => do
    let (track, samples) ← readSamples headers body
    return {
      rate := track.rate, channels := track.channels, stop := none,
      packets := [.decoded track.rate track.channels samples] }

/-- What stands for a library where there is none.  Of the containers of compressed audio only one
is known, and there is no decoder for what is in it. -/
def noLibrary : Scanner := fun _ bytes ↦ do
  let (container, body) ← locate bytes
  if container = .ogg then
    let _ ← Ogg.readHeaders.run body
    throw (.fault .noCodec)
  throw unknown

/-- The buffer that the first container of a file holds, if its audio is not compressed. -/
def decode (name : String) (bytes : Bytes) : Outcome Buffer :=
  Scanner.decode (stream noLibrary) name bytes

end Scan
end WaveMill
