import WaveMill.Proofs.Playback.Run
import WaveMill.Proofs.Registry.Assets
import WaveMill.Session.Batch

/-!
# What a session keeps true

The player of a session knows an asset by its index only, and a preview was made in the target
format of its time.  The session is *sound* if the preview that its player holds is nevertheless the
one that it would make now: the index is still that of an asset, and converting that asset to the
present format gives the samples that the device got.

An operation that moves no index and changes no format has nothing to show for that but the law of
the player (`Session.Sound.onPlayer`); one that does stops the player, and a player that holds
nothing is sound with any assets and any format (`Session.Sound.of_active_eq_none`).

## What is here

* `Session.Sound` — what is kept true, with one law for every operation.
* `Session.Action`, `Session.act` and `Session.run` — the operations, one by one and in a row.
* `Session.Sound.run` — a run keeps a session sound.
* `Session.sound_run` — what that means for the format, the names and the preview.
-/

set_option autoImplicit false
namespace WaveMill
namespace Session

open Stateful

variable {resample : Resampler} {session after : Session}

/-- The target format can be converted to, and what the player plays is what the session would play
now. -/
structure Sound (resample : Resampler) (session : Session) : Prop where
  config : session.config.validate = .ok ()
  player : session.player.Coherent
  preview : ∀ index buffer, (index, buffer) ∈ session.player.preview? →
    ∃ asset, session.registry.assets[index]? = some asset ∧
      transcode resample session.config asset.buffer = .ok buffer

theorem onPlayer_apply {α : Type} (action : StateM Player α) (session : Session) :
    onPlayer action session =
      ((action session.player).1, { session with player := (action session.player).2 }) :=
  rfl

theorem sound_new {kind : DeviceKind} {config : Config}
    (h : Session.new (.new kind) config = .ok session) :
    Sound resample session := by
  unfold Session.new at h
  cases hconfig : config.validate with
  | error failure =>
    rw [hconfig] at h
    cases h
  | ok =>
    rw [hconfig] at h
    cases h
    exact ⟨hconfig, Player.coherent_new kind, fun _ _ hnone ↦ by cases hnone⟩

namespace Sound

/-! ## Operations -/

/-- A player that holds nothing plays nothing stale. -/
theorem of_active_eq_none (hconfig : session.config.validate = .ok ())
    (hplayer : session.player.Coherent) (hactive : session.player.active = none) :
    Sound resample session where
  config := hconfig
  player := hplayer
  preview index buffer h := by
    rw [Player.preview?, hactive] at h
    cases h

variable (h : Sound resample session)
include h

theorem follows {player : Player} (hfollows : Player.Follows session.player player) :
    Sound resample { session with player } where
  config := h.config
  player := hfollows.coherent h.player
  preview index buffer hpreview := h.preview index buffer (hfollows.preview _ hpreview)

/-- Whatever is asked of the player short of a start, the session stays sound. -/
theorem onPlayer {α : Type} {action : StateM Player α}
    (haction : ∀ player, Player.Follows player (action player).2) :
    Sound resample (Session.onPlayer action session).2 :=
  h.follows (haction session.player)

/-- Once the player is stopped, assets may move and the format may change. -/
theorem stop {config : Config} (hconfig : config.validate = .ok ()) (registry : Registry) :
    Sound resample ⟨registry, (Player.stop session.player).2, config⟩ :=
  of_active_eq_none hconfig ((Player.follows_stop session.player).coherent h.player)
    (Player.active_stop session.player)

theorem playState : Sound resample (Session.playState session).2 := h.onPlayer Player.follows_state

theorem setConfig (config : Config) : Sound resample (Session.setConfig config session).2 := by
  unfold Session.setConfig
  cases hconfig : config.validate with
  | error failure => exact h
  | ok => exact h.stop hconfig session.registry

/-- A batch from which nothing was added leaves the assets where they were. -/
theorem add (decode : Decoder) (files : List Source) :
    Sound resample (Session.add decode files session).2 := by
  by_cases hadded : (session.registry.add decode files).1.added = []
  · have hregistry : (session.registry.add decode files).2 = session.registry := by
      have hassets := List.map_eq_nil_iff.1 hadded
      simp only [Registry.add, hassets, List.foldl_nil]
    have hsettled := h.onPlayer Player.follows_settle
    simp only [Session.add, bind_apply, get_apply, modify_apply, ite_apply, pure_apply,
      hregistry, hadded]
    split
    · exact hsettled
    · exact h
  · simp only [Session.add, bind_apply, get_apply, modify_apply, pure_apply, ne_eq, hadded,
      not_false_eq_true, true_or, if_true]
    exact (h.onPlayer Player.follows_settle).stop h.config _

theorem remove (index : Nat) : Sound resample (Session.remove index session).2 := by
  unfold Session.remove
  simp only [bind_apply, get_apply]
  cases session.registry.remove index with
  | error failure => exact h
  | ok removed => exact h.stop h.config removed.2

theorem clear : Sound resample (Session.clear session).2 := h.stop h.config .empty

theorem summaries : Sound resample (Session.summaries session).2 := h.playState

/-- The preview that the device gets is the one of the asset in the format of the moment. -/
theorem start {index : Nat} {asset : Asset} {buffer : Buffer}
    (hasset : session.registry.assets[index]? = some asset)
    (hbuffer : transcode resample session.config asset.buffer = .ok buffer) :
    Sound resample (Session.onPlayer (Player.start index buffer) session).2 where
  config := h.config
  player := h.player.start index buffer
  preview i b hpreview := by
    cases Player.preview_start index buffer session.player (i, b) hpreview
    exact ⟨asset, hasset, hbuffer⟩

theorem playPause (index : Nat) : Sound resample (Session.playPause resample index session).2 := by
  unfold Session.playPause
  simp only [bind_apply, get_apply]
  cases hrequire : session.registry.require index with
  | error failure => exact h
  | ok asset =>
    have hasset := Registry.require_eq_ok_iff.1 hrequire
    have hpolled := h.onPlayer Player.follows_poll
    have hasked := hpolled.onPlayer fun player ↦ Player.follows_state player
    have hstopped := hasked.onPlayer Player.follows_stop
    simp only [bind_apply, ite_apply, pure_apply, get_apply]
    split
    · exact hstopped.playState
    · cases hbuffer : transcode resample session.config asset.buffer with
      | error failure =>
        simp only [onPlayer_apply, hbuffer]
        exact hstopped
      | ok buffer =>
        have hstarted := hstopped.start hasset hbuffer
        simp only [onPlayer_apply, hbuffer, bind_apply]
        cases (Player.start index buffer
          (Player.isPlaying index session.player.poll.2).2.stop.2).1 with
        | error failure => exact hstarted
        | ok => exact hstarted.playState

/-- While all assets are saved, the device can give signals; nothing else happens to the session. -/
theorem saveAll {σ : Type} (store : Store (StateM σ)) (stored : σ) :
    Sound resample (session.saveAll resample store stored).1.2 := by
  simp only [Session.saveAll, bind_apply, pure_apply]
  split
  · exact h
  · exact h.onPlayer Player.follows_settle

end Sound

/-! ## Runs -/

/-- What can be asked of a session, and what can happen at its device in between.  A batch brings a
decoder of its own along. -/
inductive Action where
  | setConfig (config : Config)
  | add (decode : Decoder) (files : List Source)
  | remove (index : Nat)
  | clear
  | playPause (index : Nat)
  | stopPlayback
  | pollPlayback
  /-- Waiting for the end of the preview, while something happens at the device. -/
  | waitPlaybackEnd (meanwhile : List Player.Event)
  | playbackState
  | summaries
  /-- Converting only reads the session. -/
  | convert (index : Nat)
  | save (index : Nat)
  | saveAll
  | event (event : Player.Event)

variable {σ : Type}

/-- The session and what its store holds after an action.  After a wait that does not come to an end
there is none. -/
def act (resample : Resampler) (store : Store (StateM σ)) (state : Session × σ) :
    Action → Option (Session × σ)
  | .setConfig config => some ((Session.setConfig config state.1).2, state.2)
  | .add decode files => some ((Session.add decode files state.1).2, state.2)
  | .remove index => some ((Session.remove index state.1).2, state.2)
  | .clear => some ((Session.clear state.1).2, state.2)
  | .playPause index => some ((Session.playPause resample index state.1).2, state.2)
  | .stopPlayback => some ((onPlayer Player.stop state.1).2, state.2)
  | .pollPlayback => some ((onPlayer Player.poll state.1).2, state.2)
  | .waitPlaybackEnd meanwhile => do
    let (_, player) ← Player.waitThrough (meanwhile.forM Player.happen) state.1.player
    return ({ state.1 with player }, state.2)
  | .playbackState => some ((playState state.1).2, state.2)
  | .summaries => some ((Session.summaries state.1).2, state.2)
  | .convert _ => some state
  | .save index => some (state.1, (state.1.save resample store index state.2).2)
  | .saveAll =>
    let ((_, session), stored) := state.1.saveAll resample store state.2
    some (session, stored)
  | .event event => some ((onPlayer (Player.happen event) state.1).2, state.2)

/-- The session and what its store holds after some actions, one after the other. -/
def run (resample : Resampler) (store : Store (StateM σ)) (state : Session × σ)
    (actions : List Action) :
    Option (Session × σ) :=
  actions.foldlM (act resample store) state

variable {store : Store (StateM σ)} {state later : Session × σ}

/-- **Every action keeps a session sound, whether it succeeds or fails.** -/
theorem Sound.act {action : Action} (h : Sound resample state.1)
    (hact : Session.act resample store state action = some later) : Sound resample later.1 := by
  cases action with
  | setConfig config =>
    obtain rfl := Option.some.inj hact
    exact h.setConfig config
  | add decode files =>
    obtain rfl := Option.some.inj hact
    exact h.add decode files
  | remove index =>
    obtain rfl := Option.some.inj hact
    exact h.remove index
  | clear =>
    obtain rfl := Option.some.inj hact
    exact h.clear
  | playPause index =>
    obtain rfl := Option.some.inj hact
    exact h.playPause index
  | stopPlayback =>
    obtain rfl := Option.some.inj hact
    exact h.follows (Player.follows_stop state.1.player)
  | pollPlayback =>
    obtain rfl := Option.some.inj hact
    exact h.follows (Player.follows_poll state.1.player)
  | waitPlaybackEnd meanwhile =>
    obtain ⟨⟨result, player⟩, hwait, heq⟩ := Option.bind_eq_some_iff.1 hact
    cases heq
    exact h.follows (Player.follows_waitThrough (Player.follows_happen_all meanwhile) hwait)
  | playbackState =>
    obtain rfl := Option.some.inj hact
    exact h.playState
  | summaries =>
    obtain rfl := Option.some.inj hact
    exact h.summaries
  | convert index =>
    obtain rfl := Option.some.inj hact
    exact h
  | save index =>
    obtain rfl := Option.some.inj hact
    exact h
  | saveAll =>
    obtain rfl := Option.some.inj hact
    exact h.saveAll store state.2
  | event event =>
    obtain rfl := Option.some.inj hact
    exact h.follows (Player.follows_happen event state.1.player)

theorem run_cons_eq_some_iff {action : Action} {rest : List Action} :
    run resample store state (action :: rest) = some later ↔
      ∃ next, act resample store state action = some next ∧
        run resample store next rest = some later := by
  rw [run, List.foldlM_cons, Option.bind_eq_bind, Option.bind_eq_some_iff]
  rfl

theorem Sound.run {actions : List Action} (h : Sound resample state.1)
    (hrun : Session.run resample store state actions = some later) : Sound resample later.1 := by
  induction actions generalizing state with
  | nil =>
    cases hrun
    exact h
  | cons action rest ih =>
    obtain ⟨next, hact, hrest⟩ := run_cons_eq_some_iff.1 hrun
    exact ih (h.act hact) hrest

/-- **A session never plays anything stale.**  Whatever is done to a session that could be made at
all, its target format can be converted to, its names ascend byte by byte, and if it says that it
plays an asset, then there is one at that index, and the one playback that is live at the device is
that of this asset, converted to the present format. -/
theorem sound_run {kind : DeviceKind} {config : Config} {stored stored' : σ} {actions : List Action}
    (hnew : Session.new (.new kind) config = .ok session)
    (hrun : run resample store (session, stored) actions = some (after, stored')) :
    after.config.validate = .ok () ∧
      (after.registry.names.Pairwise fun a b ↦ Bytes.ofText a < Bytes.ofText b) ∧
      ∀ index, (playState after).1 = .playing index →
        ∃ (h : index < after.registry.assets.length) (id : Nat) (buffer : Buffer),
          (∀ n b, Log.Live after.player.device.log n b ↔ n = id ∧ b = buffer) ∧
          transcode resample after.config after.registry.assets[index].buffer = .ok buffer := by
  have hafter : Sound resample after := (sound_new hnew).run hrun
  refine ⟨hafter.config, after.registry.names_ascend, fun index hplaying ↦ ?_⟩
  obtain ⟨id, buffer, hpreview, hlive⟩ := hafter.player.live_iff_of_state hplaying
  obtain ⟨asset, hasset, hbuffer⟩ := hafter.preview index buffer hpreview
  obtain ⟨hindex, rfl⟩ := List.getElem?_eq_some_iff.1 hasset
  exact ⟨hindex, id, buffer, hlive, hbuffer⟩

/-- A preview is stopped as its asset moves from the first place to the second, another one ends
unseen, an asset goes, the format changes, and the third preview plays. -/
def busyRun : List Action :=
  let decode : Decoder := fun name _ ↦ .ok (if name = "c.wav" then Player.swing else Player.pulse)
  [.add decode [⟨"b.wav", "audio/wav", []⟩, ⟨"c.wav", "audio/wav", []⟩], .playPause 0,
    .add decode [⟨"a.wav", "audio/wav", []⟩], .playPause 2, .event (.release 1 true), .remove 0,
    .setConfig ⟨9000, 1, .left⟩, .playPause 1]

theorem sound_busyRun :
    ∃ after stored, run Resample.linear Shelf.store
        (⟨.empty, .new (.new .manual), ⟨9000, 2, .both⟩⟩, .empty) busyRun = some (after, stored) ∧
      after.registry.names = ["b.wav", "c.wav"] ∧ (playState after).1 = .playing 1 ∧
      ∃ (h : 1 < after.registry.assets.length) (id : Nat) (buffer : Buffer),
        (∀ n b, Log.Live after.player.device.log n b ↔ n = id ∧ b = buffer) ∧
        transcode Resample.linear after.config after.registry.assets[1].buffer = .ok buffer ∧
        buffer.channels = [#[1, 0]] ∧ buffer.rate = 9000 := by
  have hnew : Session.new (.new .manual) ⟨9000, 2, .both⟩ =
      .ok ⟨.empty, .new (.new .manual), ⟨9000, 2, .both⟩⟩ := rfl
  have hrun : run Resample.linear Shelf.store
      (⟨.empty, .new (.new .manual), ⟨9000, 2, .both⟩⟩, .empty) busyRun = some (_, _) := rfl
  refine ⟨_, _, hrun, rfl, rfl, ?_⟩
  obtain ⟨h, id, buffer, hlive, hbuffer⟩ := (sound_run hnew hrun).2.2 1 rfl
  have hpreview : (transcode Resample.linear ⟨9000, 1, .left⟩ Player.swing).map
      (fun b ↦ (b.channels, b.rate)) = .ok ([#[1, 0]], 9000) := by
    decide +kernel
  have hsame := congrArg (Except.map fun b : Buffer ↦ (b.channels, b.rate)) hbuffer
  exact ⟨h, id, buffer, hlive, hbuffer, Prod.ext_iff.1 (Except.ok.inj (hsame.symm.trans hpreview))⟩

end Session
end WaveMill
