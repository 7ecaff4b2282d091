import WaveMill.Scan.Walk

/-!
# Markers of containers

A file of unknown format is searched for the first marker of a container, which may stand behind any
amount of other data.  A label with the title of the audio is passed over when its marker is found,
and the search goes on behind it.

## What is here

* `Scan.Container` — the containers by their markers.
* `Scan.Marker` and `Scan.find` — the markers, and the search for the first one.
* `Scan.skipLabel` — passes over a label.
* `Scan.locate` — the first container of a file.
-/

set_option autoImplicit false
namespace WaveMill
namespace Scan

/-- The containers that are known by their markers. -/
inductive Container where
  | riff
  | form
  | ogg
  /-- A container of compressed audio. -/
  | compressed
  deriving DecidableEq, Repr

/-- What a marker announces. -/
inductive Marker where
  | label
  | container (container : Container)
  deriving DecidableEq, Repr

/-- The markers of containers of compressed audio: of FLAC, of MP4, of Matroska, and the first bytes
of a frame of AAC and of MP3. -/
def compressedMarkers : List Bytes :=
  [Bytes.ofAscii "fLaC", Bytes.ofAscii "ftyp", [0x1a, 0x45, 0xdf, 0xa3], [0xff, 0xf1],
    [0xff, 0xfa], [0xff, 0xfb], [0xff, 0xf2], [0xff, 0xf3], [0xff, 0xe2], [0xff, 0xe3]]

/-- The markers with what they announce. -/
def markers : List (Bytes × Marker) :=
  [(Bytes.ofAscii "RIFF", .container .riff), (Bytes.ofAscii "FORM", .container .form),
    (Bytes.ofAscii "OggS", .container .ogg), (Bytes.ofAscii "ID3", .label)] ++
    compressedMarkers.map fun bytes ↦ (bytes, .container .compressed)

/-- The marker at the front of some bytes. -/
def Marker.at? (bytes : Bytes) : Option Marker :=
  (markers.find? fun (mark, _) ↦ mark.isPrefixOf bytes).map Prod.snd

/-- The first marker in some bytes, and the bytes from it on. -/
def find : Bytes → Option (Marker × Bytes)
  | [] => none
  | b :: rest =>
    match Marker.at? (b :: rest) with
    | some marker => some (marker, b :: rest)
    | none => find rest

/-- The number of bytes that have to be there from a marker on. -/
def windowLength : Nat := 16

/-- A number of 28 bits, seven to a byte, the highest first. -/
def wideWord : Walk Nat := do
  return (← take 4).foldl (fun n b ↦ 128 * n + b.toNat % 128) 0

/-- Passes over a label: a mark, a version, flags, a length, and so many bytes, which hold at least
the head of one field.  The compressed form of the oldest version is not read. -/
def skipLabel : Walk Unit := do
  skip 3
  let version ← byte
  let revision ← byte
  let flags ← byte
  let length ← wideWord
  require (2 ≤ version ∧ version ≤ 4 ∧ revision ≠ 255)
  require (¬(version = 2 ∧ flags / 64 % 2 = 1))
  require (if version = 2 then 6 ≤ length else 10 ≤ length)
  skip length

/-- The first container in some bytes, and the bytes from its marker on.  The fuel bounds the number
of labels. -/
def locateIn : Nat → Bytes → Except Stop (Container × Bytes)
  | 0, _ => .error unknown
  | fuel + 1, bytes =>
    match find bytes with
    | none => .error unknown
    | some (marker, bytes) =>
      if (bytes.take windowLength).length < windowLength then .error unknown
      else
        match marker with
        | .container container => .ok (container, bytes)
        | .label => do
          let (_, rest) ← skipLabel.run bytes
          locateIn fuel rest

/-- The first container of a file, and the bytes from its marker on. -/
def locate (bytes : Bytes) : Except Stop (Container × Bytes) := locateIn (bytes.length + 1) bytes

end Scan
end WaveMill
