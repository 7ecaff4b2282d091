import WaveMill.Buffer
import WaveMill.Number.Convert

/-!
# Playback devices

A device plays buffers.  Every playback gets a number, and with it goes one signal, which the device
gives when the playback is over.  A manual device gives its signals when it is told to, if need be
before it has answered that the playback started; a timed device gives them by its clock, at the
first whole millisecond at which the duration of the buffer has passed.  Times are in nanoseconds.
The device remembers all its playbacks and keeps a log of what it was asked and of what it did.

## What is here

* `Signal` — how far the signal of a playback has come.
* `Conduct` — what a manual device does when it is asked to start.
* `Device.release` — the signal of a manual device is given, or the device lets go of it.
* `Device.dueAt` — when a timed device gives the signal of a playback.
* `Device.start` and `Device.stop`, which the player uses, and `Device.listen`, which looks for a
  signal.
* `Device.advance` — the time of a timed device goes by.
-/

set_option autoImplicit false
namespace WaveMill

/-- How far the signal that a playback is over has come. -/
inductive Signal where
  /-- The device holds it. -/
  | pending
  /-- It was given, and nobody has looked. -/
  | delivered
  /-- It was given and seen. -/
  | taken
  /-- The device let go of it without giving it, or nobody was listening any more. -/
  | closed
  deriving DecidableEq, Repr

/-- One playback of a device. -/
structure Playback where
  buffer : Buffer
  /-- When it is over by the clock of the device. -/
  deadline : Option Nat
  stopped : Bool
  signal : Signal
  deriving DecidableEq

/-- An entry in the log of a device. -/
inductive DeviceEvent where
  /-- The device was asked to start, and refused. -/
  | refused
  | started (id : Nat) (buffer : Buffer)
  | stopped (id : Nat)
  /-- The signal was given, or the device let go of it. -/
  | ended (id : Nat)
  deriving DecidableEq

/-- Who gives the signals of a device. -/
inductive DeviceKind where
  | manual
  | timed
  deriving DecidableEq, Repr

/-- What a manual device does when it is asked to start. -/
inductive Conduct where
  | refuse (failure : Failure)
  /-- It starts the playback and keeps its signal. -/
  | keep
  /-- It starts the playback, and before it answers it gives the signal or lets go of it. -/
  | finish (send : Bool)
  deriving DecidableEq, Repr

/-- A playback device. -/
structure Device where
  kind : DeviceKind
  /-- Nanoseconds since the device was made. -/
  clock : Nat
  /-- What a manual device does when it is asked to start; a timed device always starts. -/
  conduct : Conduct
  /-- All playbacks so far; the place of one in the list is its number. -/
  playbacks : List Playback
  /-- The log, the latest entry last. -/
  log : List DeviceEvent
  deriving DecidableEq

namespace Device

/-- A device that has played nothing. -/
def new (kind : DeviceKind) : Device where
  kind := kind
  clock := 0
  conduct := .keep
  playbacks := []
  log := []

/-- The device with a longer log. -/
def record (device : Device) (event : DeviceEvent) : Device :=
  { device with log := device.log ++ [event] }

/-- The device with one playback changed. -/
def update (device : Device) (id : Nat) (change : Playback → Playback) : Device :=
  { device with playbacks := device.playbacks.modify id change }

/-- A millisecond. -/
def millisecond : Nat := 1000000

/-- The first whole millisecond that is not before a time. -/
def tick (time : Nat) : Nat := Number.quotientUp time millisecond * millisecond

/-- When a buffer that is started at a time is over.  Its duration is taken in whole nanoseconds. -/
def dueAt (time : Nat) (buffer : Buffer) : Nat :=
  tick (time + Number.nanoseconds buffer.duration)

/-- What became of an order to give a signal or to let go of it. -/
inductive Release where
  | sent
  /-- It was given, but nobody was listening any more. -/
  | gone
  | dropped
  /-- The device does not hold such a signal. -/
  | nothing
  deriving DecidableEq, Repr

/-- Whether a manual device holds the signal of a playback. -/
def holds (device : Device) (id : Nat) : Bool :=
  device.kind == .manual && device.playbacks[id]?.any fun playback ↦ playback.signal == .pending

/-- The device after the signal of a playback has become what it will be. -/
def give (id : Nat) (signal : Signal) (device : Device) : Device :=
  (device.update id fun playback ↦ { playback with signal }).record (.ended id)

/-- Gives a signal, or lets go of it. -/
def release (id : Nat) (send listening : Bool) (device : Device) : Release × Device :=
  if device.holds id then
    match send, listening with
    | true, true => (.sent, device.give id .delivered)
    | true, false => (.gone, device.give id .closed)
    | false, _ => (.dropped, device.give id .closed)
  else (.nothing, device)

/-- The device with one more playback. -/
def launch (buffer : Buffer) (deadline : Option Nat) (device : Device) : Device :=
  let playback : Playback := { buffer, deadline, stopped := false, signal := .pending }
  { device with playbacks := device.playbacks ++ [playback] }.record
    (.started device.playbacks.length buffer)

/-- Starts a playback, and gives its number. -/
def start (buffer : Buffer) (device : Device) : Outcome Nat × Device :=
  let id := device.playbacks.length
  match device.kind, device.conduct with
  | .timed, _ => (.ok id, device.launch buffer (some (dueAt device.clock buffer)))
  | .manual, .refuse failure => (.error failure, device.record .refused)
  | .manual, .keep => (.ok id, device.launch buffer none)
  | .manual, .finish send => (.ok id, ((device.launch buffer none).release id send true).2)

/-- Stops a playback.  A timed device forgets its signal. -/
def stop (id : Nat) (device : Device) : Device :=
  (device.update id fun playback ↦
    { playback with
      stopped := true
      signal :=
        if device.kind = .timed ∧ playback.signal = .pending then .closed
        else playback.signal }).record (.stopped id)

/-- Looks for the signal of a playback: whether it is over.  A signal that was given is seen once;
after that, as after the device has let go of it, the playback is known to be over. -/
def listen (id : Nat) (device : Device) : Bool × Device :=
  match device.playbacks[id]?.map Playback.signal with
  | some .pending => (false, device)
  | some .delivered => (true, device.update id fun playback ↦ { playback with signal := .taken })
  | _ => (true, device)

/-- Whether a playback is over by the clock, and its signal was not given yet. -/
def isDue (clock : Nat) (playback : Playback) : Bool :=
  playback.signal == .pending && playback.deadline.any (· ≤ clock)

/-- Gives the signals that are due. -/
def settle (device : Device) : Device :=
  let due := (List.range device.playbacks.length).filter fun id ↦
    device.playbacks[id]?.any (isDue device.clock)
  { device with
    playbacks := device.playbacks.map fun playback ↦
      if isDue device.clock playback then { playback with signal := .delivered } else playback
    log := device.log ++ due.map .ended }

/-- Lets some time go by. -/
def advance (time : Nat) (device : Device) : Device :=
  { device with clock := device.clock + time }.settle

/-- Lets the time go by until a playback is over, if that will be. -/
def advanceTo (id : Nat) (device : Device) : Option Device := do
  let deadline ← (← device.playbacks[id]?).deadline
  return device.advance (deadline - device.clock)

end Device
end WaveMill
