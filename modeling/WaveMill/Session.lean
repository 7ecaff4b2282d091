import WaveMill.Convert
import WaveMill.OutputName
import WaveMill.Playback.Player
import WaveMill.Registry
import WaveMill.Store

/-!
# Sessions

A session holds a registry of assets, a target format and a player for previews.  A preview plays
what a conversion to the target format would write.  The player knows assets by index, and a preview
belongs to one target format; whatever moves an index or changes the format therefore stops the
preview.

## What is here

* `Session` and `Session.new`.
* `Session.setConfig`, `Session.add`, `Session.remove`, `Session.clear` — changes, with the stop
  that goes with them.
* `Session.playPause` — starts or stops the preview of an asset.
* `Session.convert`, `Session.save` — converts one asset; neither changes the session.
-/

set_option autoImplicit false
namespace WaveMill

/-- Assets, the target format and the player. -/
structure Session where
  registry : Registry
  player : Player
  config : Config

/-- One line of the list of assets. -/
structure AssetSummary where
  index : Nat
  name : String
  duration : Float
  sourceSize : Nat
  estimate : Nat
  playing : Bool

namespace Session

/-- A session without assets.  The target format must be one that can be converted to. -/
def new (device : Device) (config : Config) : Outcome Session := do
  config.validate
  return { registry := .empty, player := .new device, config }

/-- Does something with the player of a session. -/
def onPlayer {α : Type} (action : StateM Player α) : StateM Session α := fun session ↦
  let (a, player) := action session.player
  (a, { session with player })

/-- What is playing. -/
def playState : StateM Session PlayState := onPlayer Player.state

/-- Changes the target format and stops the preview, which was one of the old format. -/
def setConfig (config : Config) : StateM Session (Outcome Unit) := do
  match config.validate with
  | .error failure => return .error failure
  | .ok () =>
    let _ ← onPlayer Player.stop
    modify fun session ↦ { session with config }
    return .ok ()

/-- Adds a batch of files.  If any file is decoded, the session waits for it, and the device can
give signals meanwhile.  If any asset came in, indices may have moved, and the preview is
stopped. -/
def add (decode : Decoder) (files : List Source) : StateM Session AddReport := do
  let (report, registry) := (← get).registry.add decode files
  modify fun session ↦ { session with registry }
  if report.added ≠ [] ∨ ¬report.isComplete then onPlayer Player.settle
  if report.added ≠ [] then
    let _ ← onPlayer Player.stop
  return report

/-- Takes out the asset at an index and stops the preview. -/
def remove (index : Nat) : StateM Session (Outcome Asset) := do
  match (← get).registry.remove index with
  | .error failure => return .error failure
  | .ok (asset, registry) =>
    let _ ← onPlayer Player.stop
    modify fun session ↦ { session with registry }
    return .ok asset

/-- Stops the preview and takes out all assets. -/
def clear : StateM Session Unit := do
  let _ ← onPlayer Player.stop
  modify fun session ↦ { session with registry := .empty }

/-- One line for every asset. -/
def summaries : StateM Session (List AssetSummary) := do
  let playing := (← playState).index?
  let session ← get
  return session.registry.assets.mapIdx fun index asset ↦
    { index
      name := asset.name
      duration := asset.buffer.duration
      sourceSize := asset.sourceSize
      estimate := asset.estimate session.config
      playing := playing == some index }

/-- Stops the preview of the asset at an index if it is playing.  Otherwise stops any other preview
and starts one of this asset in the target format. -/
def playPause (resample : Resampler) (index : Nat) : StateM Session (Outcome PlayState) := do
  match (← get).registry.require index with
  | .error failure => return .error failure
  | .ok asset =>
    let _ ← onPlayer Player.poll
    if ← onPlayer (Player.isPlaying index) then
      let _ ← onPlayer Player.stop
      return .ok (← playState)
    let _ ← onPlayer Player.stop
    match transcode resample (← get).config asset.buffer with
    | .error failure => return .error failure
    | .ok preview =>
      match ← onPlayer (Player.start index preview) with
      | .error failure => return .error failure
      | .ok () => return .ok (← playState)

/-- The wave file of the asset at an index. -/
def convert (session : Session) (resample : Resampler) (index : Nat) : Outcome Bytes := do
  let asset ← session.registry.require index
  WaveMill.convert resample session.config asset.buffer

/-- Converts the asset at an index and stores the file; gives its output name. -/
def save {m : Type → Type} [Monad m] (session : Session) (resample : Resampler) (store : Store m)
    (index : Nat) : m (Outcome String) := do
  match session.registry.require index, session.convert resample index with
  | .error failure, _ => return .error failure
  | _, .error failure => return .error failure
  | .ok asset, .ok wave =>
    match ← store (outputName asset.name) wave with
    | .error failure => return .error failure
    | .ok () => return .ok (outputName asset.name)

end Session
end WaveMill
