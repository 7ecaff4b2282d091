import WaveMill.Buffer
import WaveMill.Path
import WaveMill.Scan.Walk

/-!
# Files as streams of packets

What is inside a file of unknown format is for a scanner to find out, and any library for audio
files may be the scanner.  It gets the bytes of the file, and the extension of its name as a hint.
It says what the headers tell of the audio, as far as they tell anything, and hands out the packets
of the file.  A buffer is made of the samples of all packets in their order.  Every packet that is
decoded knows its rate and its number of channels, and the last one has the last word.

## What is here

* `Scan.Packet`, `Scan.Stream` — what comes out of a file; `Scanner` — what takes it out.
* `Scan.Stream.audio` — the samples of all packets, and what is known of them.
* `Scanner.contents` and `Scanner.decode` — what a file holds, and the buffer of it.
-/

set_option autoImplicit false
namespace WaveMill
namespace Scan

/-- What became of a packet. -/
inductive Packet where
  /-- It belongs to another track. -/
  | foreign
  /-- It is damaged, and is left out. -/
  | damaged
  /-- It holds samples, frame by frame. -/
  | decoded (rate : UInt32) (channels : Nat) (samples : Array Float32)

/-- What comes out of a file: what its headers tell of the first track that can be decoded, and the
packets. -/
structure Stream where
  rate : Option UInt32
  channels : Option Nat
  packets : List Packet
  /-- What went wrong behind the packets, if the file did not just end there. -/
  stop : Option Stop

/-- The samples of a file up to some packet, and what is known of them. -/
structure Audio where
  rate : Option UInt32
  channels : Option Nat
  samples : Array Float32

/-- One more packet. -/
def Audio.add (audio : Audio) : Packet → Audio
  | .foreign => audio
  | .damaged => audio
  | .decoded rate channels samples => ⟨some rate, some channels, audio.samples ++ samples⟩

/-- All packets of a file. -/
def Stream.audio (stream : Stream) : Except Stop Audio :=
  match stream.stop with
  | some stop => .error stop
  | none => .ok (stream.packets.foldl Audio.add ⟨stream.rate, stream.channels, #[]⟩)

end Scan

open Scan

/-- A way to take the audio out of the bytes of a file, with the extension of its name as a hint. -/
abbrev Scanner := Option String → Bytes → Except Stop Stream

namespace Scanner

variable (scan : Scanner) (name : String) (bytes : Bytes)

/-- What a file holds. -/
def contents : Outcome Contents :=
  match scan (Path.extension? name) bytes >>= Stream.audio with
  | .error (.fault fault) => .error (.decode name fault)
  | .error (.abort abort) => .error (.aborted abort)
  | .ok ⟨none, _, _⟩ => .error (.decode name .unknownRate)
  | .ok ⟨some _, none, _⟩ => .error (.decode name .unknownChannelCount)
  | .ok ⟨some rate, some count, samples⟩ =>
    match Layout.ofCount? count with
    | none => .error (.decode name (.channelCount count))
    | some layout => .ok ⟨samples, layout, rate⟩

/-- The buffer that a file holds. -/
def decode : Outcome Buffer := do
  Buffer.ofContents name (← scan.contents name bytes)

end Scanner
end WaveMill
