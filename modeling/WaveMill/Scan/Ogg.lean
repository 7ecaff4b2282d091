import WaveMill.Scan.Walk

/-!
# Ogg containers

An Ogg container is a sequence of pages.  A page belongs to one of several streams, carries pieces
of its packets, and is protected by a checksum.  The first pages name the streams, and the packets
behind them hold remarks before they hold audio.  The scanner looks for a stream of Opus audio, for
which there is no decoder; other streams do not count.

## What is here

* `Scan.Ogg.checksum` — the checksum of a page.
* `Scan.Ogg.Page` and `Scan.Ogg.readPage` — the pages of a container.
* `Scan.Ogg.Stream` — what was seen of a stream.
* `Scan.Ogg.readHeaders` — the pages up to the first audio.
-/

set_option autoImplicit false
namespace WaveMill
namespace Scan
namespace Ogg

/-! ## Pages -/

/-- One step of a division of polynomials over two elements, from the highest power down. -/
def divideStep (sum : UInt32) : UInt32 :=
  if sum < 0x80000000 then sum <<< 1 else (sum <<< 1) ^^^ 0x04c11db7

/-- The remainder of a division of polynomials over two elements. -/
def checksum (bytes : Bytes) : UInt32 :=
  bytes.foldl
    (fun (sum : UInt32) (b : UInt8) ↦ Nat.repeat divideStep 8 (sum ^^^ (b.toUInt32 <<< 24))) 0

/-- A page. -/
structure Page where
  /-- Whether it goes on with a packet that an earlier page began. -/
  continued : Bool
  /-- Whether it is the first page of its stream. -/
  first : Bool
  /-- The number of its stream. -/
  serial : Nat
  /-- The packets that end on it. -/
  packets : List Bytes
  /-- The beginning of a packet that ends on a later page. -/
  rest : Bytes
  deriving DecidableEq, Repr

/-- The mark at the front of a page. -/
def pageMark : Bytes := Bytes.ofAscii "OggS"

/-- What stands behind the first page mark. -/
def behindMark? : Bytes → Option Bytes
  | [] => none
  | b :: rest => if pageMark.isPrefixOf (b :: rest) then some (rest.drop 3) else behindMark? rest

/-- Passes over all bytes up to the next page mark, and over the mark. -/
def seekPage : Walk Unit := do
  match behindMark? (← Reader.rest) with
  | some bytes => set bytes
  | none => throw unknown

/-- The packets that end inside a body, and what is left of it.  A packet comes in pieces of 255
bytes and ends with a shorter piece; `begun` is the length of the pieces of the packet so far. -/
def cutPackets (begun : Nat) : List Nat → Bytes → List Bytes × Bytes
  | [], body => ([], body)
  | length :: lengths, body =>
    let begun := begun + length
    if length = 255 then cutPackets begun lengths body
    else
      let (packets, rest) := cutPackets 0 lengths (body.drop begun)
      (body.take begun :: packets, rest)

/-- The next page.  The checksum covers the whole page, with zeros in its own place. -/
def readPage : Walk Page := do
  seekPage
  let head ← take 18
  let sum ← word .little 4
  let count ← take 1
  let version := Bytes.little (head.take 1)
  let flags := Bytes.little ((head.drop 1).take 1)
  require (version = 0 ∧ flags < 8)
  let lengths ← take (Bytes.little count)
  let body ← take (lengths.foldl (fun total length ↦ total + length.toNat) 0)
  let page := pageMark ++ head ++ [0, 0, 0, 0] ++ count ++ lengths ++ body
  require ((checksum page).toNat = sum)
  let (packets, rest) := cutPackets 0 (lengths.map UInt8.toNat) body
  return {
    continued := flags % 2 = 1
    first := flags / 2 % 2 = 1
    serial := Bytes.little ((head.drop 10).take 4)
    packets, rest }

/-! ## Streams -/

/-- What was seen of a stream. -/
structure Stream where
  serial : Nat
  /-- Whether its remarks were seen. -/
  remarked : Bool
  /-- A packet that was begun. -/
  begun : Bytes
  deriving DecidableEq, Repr

/-- Whether a packet names a stream of Opus audio: a mark, a version, the number of channels, eight
bytes in all for a delay, a rate and a gain, and the order of the channels. -/
def namesOpus (packet : Bytes) : Bool :=
  let channels := (packet.drop 9).headD 0
  let order := (packet.drop 18).headD 0
  (Bytes.ofAscii "OpusHead").isPrefixOf packet && decide (19 ≤ packet.length) &&
    decide ((packet.drop 8).headD 0 < 16) &&
    decide (1 ≤ channels ∧ channels ≤ (if order = 0 then 2 else 8)) && decide (order < 2)

/-- Passes over a text with its length in front of it. -/
def skipText : Walk Unit := do skip (← word .little 4)

/-- Passes over so many texts. -/
def skipTexts : Nat → Walk Unit
  | 0 => pure ()
  | n + 1 => do
    skipText
    skipTexts n

/-- Passes over the remarks on a stream: a mark, the name of a maker, and the remarks with their
count in front of them.  The bytes limit how many of them there can be. -/
def readRemarks : Walk Unit := do
  require ((← take 8) = Bytes.ofAscii "OpusTags")
  skipText
  let count ← word .little 4
  require (count * 4 ≤ (← Reader.rest).length)
  skipTexts count

/-- Whether a packet holds the remarks on a stream. -/
def holdsRemarks (packet : Bytes) : Bool := (readRemarks.run packet).toOption.isSome

/-- Whether some packets of a stream hold audio, and whether its remarks were seen then. -/
def followPackets : Bool → List Bytes → Bool × Bool
  | remarked, [] => (false, remarked)
  | true, _ :: _ => (true, true)
  | false, packet :: rest => followPackets (holdsRemarks packet) rest

/-- Adds a page to its stream: whether audio came in, and the stream then.  A packet whose beginning
is missing does not count, and one whose end is missing neither. -/
def Stream.add (stream : Stream) (page : Page) : Bool × Stream :=
  let begun := if page.continued then stream.begun else []
  let lost := page.continued && begun.isEmpty
  let packets := match page.packets with
    | [] => []
    | packet :: rest => if lost then rest else (begun ++ packet) :: rest
  let (audio, remarked) := followPackets stream.remarked packets
  let begun := match page.packets with
    | [] => if lost then [] else begun ++ page.rest
    | _ :: _ => page.rest
  (audio, { stream with remarked, begun })

/-- The first pages: the streams that they name, and the page behind them.  The fuel bounds the
number of pages. -/
def readNames : Nat → Page → List Stream → Walk (List Stream × Page)
  | 0, _, _ => throw unknown
  | fuel + 1, page, streams => do
    if page.first then
      let others := streams.filter fun stream ↦ stream.serial ≠ page.serial
      let streams := if page.packets.head?.any namesOpus then
          { serial := page.serial, remarked := false, begun := [] } :: others
        else streams
      readNames fuel (← readPage) streams
    else return (streams, page)

/-- The pages up to the first audio of a stream.  The fuel bounds the number of pages. -/
def findAudio : Nat → Page → List Stream → Walk Unit
  | 0, _, _ => throw unknown
  | fuel + 1, page, streams => do
    match streams.find? fun stream ↦ stream.serial = page.serial with
    | none => findAudio fuel (← readPage) streams
    | some stream =>
      let (audio, stream) := stream.add page
      if audio then return
      let others := streams.filter fun other ↦ other.serial ≠ page.serial
      findAudio fuel (← readPage) (stream :: others)

/-- The pages of a container up to the first audio. -/
def readHeaders : Walk Unit := do
  let fuel := (← Reader.rest).length + 1
  let page ← readPage
  require (page.first = true)
  let (streams, page) ← readNames fuel page []
  findAudio fuel page streams

end Ogg
end Scan
end WaveMill
