import WaveMill.Playback.Device

/-!
# The player

A player plays at most one asset at a time on a device, and knows it by its index.  That a playback
is over comes to light only when the player looks for the signal.  Looking uses the signal up, so
the player remembers what it has seen; every function that depends on the end of a playback looks
first.

## What is here

* `Player.state` — what is playing; `Player.isPlaying`, `Player.playingIndex` and `Player.describe`
  ask for nothing else.
* `Player.start`, `Player.stop`, `Player.poll` — playing and no longer playing.
* `Player.waitForEnd` — waiting for the end of a playback.
* `Player.elapse`, `Player.settle`, `Player.release` — what happens at the device meanwhile.
-/

set_option autoImplicit false
namespace WaveMill

/-- What a player does. -/
inductive PlayState where
  | idle
  | playing (index : Nat)
  deriving DecidableEq, Repr

namespace PlayState

/-- The index of the asset that is playing. -/
def index? : PlayState → Option Nat
  | idle => none
  | playing index => some index

/-- The wording of a state. -/
def message : PlayState → String
  | idle => "Idle"
  | playing index => s!"Playing({index})"

end PlayState

/-- The playback that a player holds. -/
structure ActivePlayback where
  /-- The index of the asset. -/
  index : Nat
  /-- The number of the playback at the device. -/
  id : Nat
  /-- Whether the player has seen that the playback is over. -/
  finished : Bool
  deriving DecidableEq, Repr

/-- A player and its device. -/
structure Player where
  device : Device
  active : Option ActivePlayback
  deriving DecidableEq

namespace Player

/-- A player that has played nothing. -/
def new (device : Device) : Player := ⟨device, none⟩

/-- Looks whether a playback that the player holds is over, and remembers it. -/
def look (active : ActivePlayback) : StateM Player Bool := fun player ↦
  if active.finished then (true, player)
  else
    match player.device.listen active.id with
    | (false, device) => (false, { player with device })
    | (true, device) => (true, { device, active := some { active with finished := true } })

/-- What the player does.  A playback that is over does not count. -/
def state : StateM Player PlayState := do
  match (← get).active with
  | none => return .idle
  | some active => return if ← look active then .idle else .playing active.index

/-- Whether the asset at an index is playing. -/
def isPlaying (index : Nat) : StateM Player Bool := do return (← state) == .playing index

/-- The index of the asset that is playing. -/
def playingIndex : StateM Player (Option Nat) := do return (← state).index?

/-- The wording of a player. -/
def describe : StateM Player String := do
  return "PlaybackManager \x7b state: " ++ (← state).message ++ " \x7d"

/-- Lets go of the playback that the player holds. -/
def forget : StateM Player Unit := modify fun player ↦ { player with active := none }

/-- Stops what is playing, and gives its index.  A playback that is over is not stopped. -/
def stop : StateM Player (Option Nat) := do
  match (← get).active with
  | none => return none
  | some active =>
    let finished ← look active
    forget
    if finished then return none
    modify fun player ↦ { player with device := player.device.stop active.id }
    return some active.index

/-- Starts to play a buffer for the asset at an index.  What was playing is stopped first, even if
the device then refuses to start. -/
def start (index : Nat) (buffer : Buffer) : StateM Player (Outcome Unit) := do
  let _ ← stop
  let (result, device) := (← get).device.start buffer
  match result with
  | .ok id =>
    set ({ device, active := some { index, id, finished := false } } : Player)
    return .ok ()
  | .error failure =>
    set ({ device, active := none } : Player)
    return .error failure

/-- Lets go of a playback that is over, and says what is playing. -/
def poll : StateM Player PlayState := do
  match (← get).active with
  | none => return .idle
  | some active =>
    if ← look active then forget
    state

/-- Lets so many nanoseconds go by at the device. -/
def elapse (time : Nat) : StateM Player Unit := modify fun player ↦
  { player with device := player.device.advance time }

/-- Lets so many milliseconds go by at the device. -/
def advance (ms : Nat) : StateM Player Unit := elapse (ms * Device.millisecond)

/-- Lets the device give the signals that are due.  It can do so whenever somebody waits. -/
def settle : StateM Player Unit :=
  modify fun player ↦ { player with device := player.device.settle }

/-- Whether the player listens for the signal of a playback. -/
def listensTo (player : Player) (id : Nat) : Bool := player.active.any fun active ↦ active.id == id

/-- The device gives a signal, or lets go of it. -/
def release (id : Nat) (send : Bool) : StateM Player Device.Release := fun player ↦
  let (result, device) := player.device.release id send (player.listensTo id)
  (result, { player with device })

/-- Tells a manual device what to do when it is asked to start. -/
def setConduct (conduct : Conduct) : StateM Player Unit := modify fun player ↦
  { player with device := { player.device with conduct } }

/-- Makes a manual device refuse to start, or start again. -/
def setRefusing (refusing : Bool) : StateM Player Unit :=
  setConduct (if refusing then .refuse (.playback "no output device") else .keep)

/-- Waits until what the player holds is over, and gives its index.  Where it never will be, there
is no answer. -/
def waitForEnd (player : Player) : Option (Option Nat × Player) :=
  match player.active with
  | none => some (none, player)
  | some active =>
    match look active player with
    | (true, player) => some (some active.index, { player with active := none })
    | (false, player) => do
      let device ← player.device.advanceTo active.id
      return (some active.index, { device, active := none })

/-- Waits until what the player holds is over, while something happens at the device.  If there is
nothing to wait for, it happens afterwards. -/
def waitThrough {α : Type} (event : StateM Player α) (player : Player) :
    Option ((Option Nat × α) × Player) :=
  match player.active with
  | none =>
    let (a, player) := event player
    some ((none, a), player)
  | some active =>
    match look active player with
    | (true, player) =>
      let (a, player) := event { player with active := none }
      some ((some active.index, a), player)
    | (false, player) => do
      let (a, player) := event player
      let (index, player) ← player.waitForEnd
      return ((index, a), player)

end Player
end WaveMill
