import WaveMill.Scan.Walk

/-!
# Chunks

The containers that the scanner knows are sequences of chunks: a tag of four bytes, a length, and so
many bytes.  A chunk begins at an even place, and the length of the container limits what its chunks
may claim.  The walk keeps count of the bytes that are used up in a word of 32 bits.

## What is here

* `Scan.Chunk` — the head of a chunk.
* `Scan.nextChunk` — the head of the next chunk, with the count of bytes that are used up once its
  body is passed.
* `Scan.finishChunks` — passes over what the chunks left of their container.
-/

set_option autoImplicit false
namespace WaveMill
namespace Scan

/-- The head of a chunk. -/
structure Chunk where
  tag : Bytes
  length : Nat
  deriving DecidableEq, Repr

/-- The largest length that can be written.  A container that is written before its length is known
states it for itself and for its last chunk. -/
def longest : Nat := 0xffffffff

/-- Passes over the byte before an even place, where `used` bytes are used up. -/
def align (used : Nat) : Walk Nat := do
  if used % 2 = 0 then return used
  skip 1
  abortIf (used = longest) .sumOverflow
  return used + 1

/-- The head of the next chunk, where `used` bytes of a container of `limit` bytes are used up; and
how many are used up behind the chunk.  There is no chunk if the container has no room for the head
of one. -/
def nextChunk (order : ByteOrder) (limit used : Nat) : Walk (Option Chunk × Nat) := do
  let used ← align used
  abortIf (longest < used + 8) .sumOverflow
  if limit < used + 8 then return (none, used)
  let tag ← take 4
  let length ← word order 4
  let used := used + 8
  require (length ≤ limit - used ∨ limit = longest ∧ length = longest)
  return (some { tag, length }, min (used + length) longest)

/-- Passes over what is left of a container of `limit` bytes of which `used` are used up, and over
the byte behind a container of odd length. -/
def finishChunks (limit used : Nat) : Walk Unit := do
  skip (limit - used)
  skip (limit % 2)

end Scan
end WaveMill
