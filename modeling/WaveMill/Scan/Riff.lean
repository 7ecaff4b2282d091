import WaveMill.Scan.Chunk
import WaveMill.Scan.Riff.Format

/-!
# Wave containers, scanned

The scanner reads wave files too, by looser rules than the strict reader: chunks are padded to even
places, the numbers of a description need not agree with each other, and a file may end before its
data does.

## What is here

* `Scan.Riff.readList` — passes over a list, and looks into a list of remarks.
* `Scan.Riff.readHeaders` — the chunks up to the data.
-/

set_option autoImplicit false
namespace WaveMill
namespace Scan
namespace Riff

/-- Passes over the remarks in a list of `limit` bytes of which `used` are used up, and says how
many are then.  The fuel bounds the number of remarks. -/
def skipRemarks (limit : Nat) : Nat → Nat → Walk Nat
  | 0, _ => throw unknown
  | fuel + 1, used => do
    match ← nextChunk .little limit used with
    | (none, used) => return used
    | (some chunk, used) => do
      skip chunk.length
      skipRemarks limit fuel used

/-- Passes over a list.  A list of remarks has to be sound. -/
def readList (length : Nat) : Walk Unit := do
  require (4 ≤ length)
  let form ← take 4
  let limit := length - 4
  if form = Bytes.ofAscii "INFO" then
    finishChunks limit (← skipRemarks limit ((← Reader.rest).length + 1) 0)
  else finishChunks limit 0

/-- The chunks up to the data: the last track that was described, and the length of the data.  The
fuel bounds the number of chunks. -/
def findData (limit : Nat) : Nat → Nat → Option Track → Walk (Option Track × Nat)
  | 0, _, _ => throw unknown
  | fuel + 1, used, track => do
    match ← nextChunk .little limit used with
    | (none, _) => throw unknown
    | (some chunk, used) =>
      if chunk.tag = Bytes.ofAscii "fmt " then do
        let told := (track.map Track.toldBits).getD 0
        findData limit fuel used (some (← readFormat told chunk.length))
      else if chunk.tag = Bytes.ofAscii "data" then return (track, chunk.length)
      else if chunk.tag = Bytes.ofAscii "fact" then do
        require (chunk.length = 4)
        skip 4
        findData limit fuel used track
      else if chunk.tag = Bytes.ofAscii "LIST" then do
        readList chunk.length
        findData limit fuel used track
      else do
        skip chunk.length
        findData limit fuel used track

/-- The headers of a container behind its first tag. -/
def readHeaders : Walk (Option Track × Nat) := do
  let limit ← word .little 4
  let form ← take 4
  require (form = Bytes.ofAscii "WAVE")
  findData limit ((← Reader.rest).length + 1) 0 none

end Riff
end Scan
end WaveMill
