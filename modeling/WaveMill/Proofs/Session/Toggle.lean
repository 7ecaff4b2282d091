import WaveMill.Proofs.Playback.Outlook
import WaveMill.Proofs.Session.Failing

/-!
# One button for playing and stopping

The same call starts the preview of an asset and stops it, and which of the two it is must not
depend on what anybody has noticed.  A playback may be over without the player having looked, and
the call looks four times before it is done.  What decides is the log of the device: if the playback
that the player holds for the asset is live there, the call stops it, and otherwise it stops what
else is live and starts a new one.

That the looks do not get in each other's way follows from what is known of them already: a look
adds nothing to the log, and leaves the outlook of a player alone, so that the last look sees what
the first one saw.

## What is here

* `Player.Sounds`, `Player.state_eq_playing_iff` — what is playing, according to the log.
* `Device.reply`, `Device.start_of_refuse`, `Device.start_of_keep`, `Device.start_of_finish` — how a
  device answers when it is asked to start.
* `Session.ComesTo` — what a call returns, asks of the device and leaves playing, with one law for
  each way that it can take.
* `Session.Undisturbed`, `Session.undisturbed_run` — actions that leave the playback alone.
* `Session.playPause_toggles` — the call as a toggle.
-/

set_option autoImplicit false
namespace WaveMill

open Stateful Log

/-! ## What is playing -/

namespace Player

variable {player after : Player} {index id : Nat} {buffer : Buffer}

/-- Playback `id`, which the player holds for the asset at an index, is live at the device. -/
def Sounds (player : Player) (index id : Nat) : Prop :=
  ∃ active buffer, player.active = some active ∧ active.index = index ∧ active.id = id ∧
    Live player.device.log id buffer

/-- **What a player says that it plays is what is live**, whether it has looked before or not. -/
theorem Coherent.state_eq_playing_iff (h : player.Coherent) :
    (state player).1 = .playing index ↔ ∃ id, player.Sounds index id := by
  rcases state_cases player with
    ⟨hactive, hstate⟩ | ⟨active, hactive, hover, hstate⟩ |
      ⟨active, device, hactive, hover, -, hstate⟩
  · rw [hstate]
    refine iff_of_false nofun ?_
    rintro ⟨id, held, buffer, hheld, -⟩
    cases hactive.symm.trans hheld
  · rw [hstate]
    constructor
    · intro hplaying
      obtain ⟨buffer, hlive⟩ := h.live_of_not_isOver hactive hover
      exact ⟨active.id, active, buffer, hactive, PlayState.playing.inj hplaying, rfl, hlive⟩
    · rintro ⟨id, held, buffer, hheld, rfl, -⟩
      obtain rfl : active = held := Option.some.inj (hactive.symm.trans hheld)
      rfl
  · rw [hstate]
    refine iff_of_false nofun ?_
    rintro ⟨id, held, buffer, hheld, -, rfl, hlive⟩
    obtain rfl : active = held := Option.some.inj (hactive.symm.trans hheld)
    exact hlive.2 (.inr (h.ended_of_isOver hactive hover))

/-- Polling first makes no difference to the question what is playing. -/
theorem isPlaying_poll (player : Player) (index : Nat) :
    (isPlaying index (poll player).2).1 = true ↔ (state player).1 = .playing index := by
  have hpoll : (poll player).2.outlook = player.outlook.poll.2 :=
    congrArg Prod.snd (map_poll player)
  have hstate : player.outlook.poll.2.state = player.outlook.state := by
    unfold Outlook.poll
    dsimp only
    split
    · rename_i hidle
      exact hidle.symm
    · rfl
  have hsame : (state (poll player).2).1 = (state player).1 := by
    rw [← state_outlook, hpoll, hstate, state_outlook]
  have hasked : (isPlaying index (poll player).2).1 =
      ((state (poll player).2).1 == .playing index) := rfl
  rw [hasked, hsame, beq_iff_eq]

theorem state_state (player : Player) : (state (state player).2).1 = (state player).1 := by
  rw [← state_outlook, outlook_state, state_outlook]

/-- A playback that sounds goes on sounding while nothing is started and it is not over. -/
theorem Sounds.follows (h : player.Sounds index id) (hplayer : player.Coherent)
    (hfollows : Follows player after) (hlive : Live after.device.log id buffer) :
    after.Sounds index id := by
  have hafter := hfollows.coherent hplayer
  obtain ⟨active, sample, hactive, rfl, rfl, hstarted, -⟩ := h
  obtain ⟨held, hheld, hid⟩ := hafter.active_of_live _ _ hlive
  have hbuffer := hplayer.device.started_mem_iff.1 hstarted
  have hheldBuffer := hafter.device.started_mem_iff.1 hlive.1
  have hpreview : (held.index, buffer) ∈ player.preview? :=
    hfollows.preview _ (by simp [preview?, hheld, hid, hheldBuffer])
  simp only [preview?, hactive, hbuffer, Option.bind_eq_bind, Option.bind_some, Option.pure_def,
    Option.mem_def, Option.some.injEq, Prod.mk.injEq] at hpreview
  exact ⟨held, buffer, hheld, hpreview.1.symm, hid, hlive⟩

end Player

/-! ## How a device answers -/

/-- What a device does when it is asked to start, which a timed one is not told. -/
def Device.reply (device : Device) : Conduct :=
  match device.kind with
  | .timed => .keep
  | .manual => device.conduct

theorem Device.isPending_launch (device : Device) (buffer : Buffer) (deadline : Option Nat) :
    (device.launch buffer deadline).IsPending device.playbacks.length := by
  simp [IsPending, launch, record]

theorem Device.start_of_refuse {device : Device} {failure : Failure}
    (h : device.reply = .refuse failure) (buffer : Buffer) :
    device.start buffer = (.error failure, device.record .refused) := by
  unfold reply at h
  unfold start
  split at h
  · cases h
  · rename_i hkind
    rw [hkind, h]

theorem Device.start_of_keep {device : Device} (h : device.reply = .keep) (buffer : Buffer) :
    ∃ deadline, device.start buffer =
      (.ok device.playbacks.length, device.launch buffer deadline) := by
  unfold reply at h
  unfold start
  split at h
  · rename_i hkind
    rw [hkind]
    exact ⟨_, rfl⟩
  · rename_i hkind
    rw [hkind, h]
    exact ⟨_, rfl⟩

theorem Device.start_of_finish {device : Device} {send : Bool} (h : device.reply = .finish send)
    (buffer : Buffer) :
    ∃ after, Gives [device.playbacks.length] (device.launch buffer none) after ∧
      device.start buffer = (.ok device.playbacks.length, after) := by
  have hpending := device.isPending_launch buffer none
  unfold reply at h
  unfold start
  split at h
  · cases h
  · rename_i hkind
    rw [hkind, h]
    refine ⟨_, ?_, rfl⟩
    have hholds : (device.launch buffer none).holds device.playbacks.length = true := by
      simpa [holds, launch_kind, hkind, Option.any_eq_true, IsPending] using hpending
    simp only [release, if_pos hholds]
    cases send with
    | true => exact gives_give hpending (by decide)
    | false => exact gives_give hpending (by decide)

namespace Player

variable {player : Player} {index : Nat} {buffer : Buffer}

theorem start_of_active_eq_none (h : player.active = none) :
    start index buffer player =
      match player.device.start buffer with
      | (.ok id, device) => (.ok (), ⟨device, some ⟨index, id, false⟩⟩)
      | (.error failure, device) => (.error failure, ⟨device, none⟩) := by
  simp only [start, bind_apply, stop_of_active_eq_none h, get_apply]
  rcases player.device.start buffer with ⟨failure | id, device⟩
  · rfl
  · rfl

/-- A playback that was just started is playing, unless its signal was given at once. -/
theorem state_of_started {device : Device} {id : Nat} :
    (state ⟨device, some ⟨index, id, false⟩⟩).1 =
      if device.prospect id = .past then .idle else .playing index := by
  rw [← state_outlook, outlook_unfinished, Outlook.state, Device.held_outlook]
  cases device.prospect id with
  | past => rfl
  | awaited deadline => rfl

end Player

namespace Session

variable {resample : Resampler} {session after : Session} {index : Nat} {asset : Asset}
  {player : Player} {returned : Outcome PlayState} {failure : Failure} {preview : Buffer}
  {asked stops : List DeviceEvent}

/-! ## What a call comes to -/

/-- What a call to play or to stop comes to: what it returns, what it asks of the device and hears
of it, and what is playing afterwards, which is what it returns, or nothing if it fails.  It changes
nothing else. -/
structure ComesTo (resample : Resampler) (index : Nat) (session : Session)
    (returned : Outcome PlayState) (asked : List DeviceEvent) : Prop where
  result : (playPause resample index session).1 = returned
  log : (playPause resample index session).2.player.device.log =
    session.player.device.log ++ asked
  state : (playState (playPause resample index session).2).1 = returned.toOption.getD .idle
  registry : (playPause resample index session).2.registry = session.registry
  config : (playPause resample index session).2.config = session.config

theorem comesTo_of_eq (player : Player)
    (hcall : playPause resample index session = (returned, { session with player }))
    (hlog : player.device.log = session.player.device.log ++ asked)
    (hstate : (Player.state player).1 = returned.toOption.getD .idle) :
    ComesTo resample index session returned asked := by
  constructor
  · rw [hcall]
  · rw [hcall]
    exact hlog
  · rw [hcall]
    exact hstate
  · rw [hcall]
  · rw [hcall]

/-- What the device is asked before a preview is started: to stop the one that is live. -/
structure Stops (log stops : List DeviceEvent) : Prop where
  of_live : ∀ id buffer, Live log id buffer → stops = [.stopped id]
  of_silent : (∀ id buffer, ¬Live log id buffer) → stops = []

theorem active_halted (session : Session) (index : Nat) :
    (session.halted index).active = none :=
  Player.active_stop _

theorem exists_stops (h : session.player.Coherent) (index : Nat) :
    ∃ stops, Stops session.player.device.log stops ∧
      (session.halted index).device.log = session.player.device.log ++ stops := by
  obtain ⟨hlive, hsilent⟩ := log_halted h index
  by_cases hsome : ∃ id buffer, Live session.player.device.log id buffer
  · obtain ⟨id, buffer, hid⟩ := hsome
    refine ⟨[.stopped id], ⟨fun n b hn ↦ ?_, fun hnone ↦ absurd hid (hnone id buffer)⟩,
      hlive id buffer hid⟩
    exact List.append_cancel_left ((hlive id buffer hid).symm.trans (hlive n b hn))
  · simp only [not_exists] at hsome
    exact ⟨[], ⟨fun n b hn ↦ absurd hn (hsome n b), fun _ ↦ rfl⟩,
      (hsilent hsome).trans (List.append_nil _).symm⟩

/-- Neither looking nor stopping changes what the device will answer, or counts as a playback. -/
theorem device_halted (session : Session) (index : Nat) :
    (session.halted index).device.reply = session.player.device.reply ∧
      (session.halted index).device.playbacks.length = session.player.device.playbacks.length := by
  have houtlook : (session.halted index).outlook = session.player.outlook.poll.2.stop.2 := by
    have hpolled := congrArg Prod.snd (Player.map_poll session.player)
    have hasked := Player.outlook_state (Player.poll session.player).2
    have hstopped := congrArg Prod.snd
      (Player.map_stop (Player.isPlaying index (Player.poll session.player).2).2)
    exact hstopped.trans (congrArg (fun outlook ↦ (Outlook.stop outlook).2) (hasked.trans hpolled))
  obtain ⟨held, hheld⟩ := session.player.outlook.exists_poll_eq
  obtain ⟨requests, hrequests⟩ := session.player.outlook.poll.2.exists_stop_eq
  rw [hrequests, hheld] at houtlook
  have hkind : (session.halted index).device.kind = session.player.device.kind :=
    congrArg Outlook.kind houtlook
  have hconduct : (session.halted index).device.conduct = session.player.device.conduct :=
    congrArg Outlook.conduct houtlook
  exact ⟨by rw [Device.reply, Device.reply, hkind, hconduct], congrArg Outlook.count houtlook⟩

section Calls

variable (h : session.player.Coherent) (hasset : session.registry.require index = .ok asset)
include h hasset

/-- **A preview that is live is stopped**, and nothing is started. -/
theorem comesTo_off {id : Nat} (hsounds : session.player.Sounds index id) :
    ComesTo resample index session (.ok .idle) [.stopped id] := by
  have hplaying : (Player.isPlaying index (Player.poll session.player).2).1 = true :=
    (Player.isPlaying_poll ..).2 (h.state_eq_playing_iff.2 ⟨id, hsounds⟩)
  have hidle : Player.state (session.halted index) = (.idle, session.halted index) :=
    Player.state_of_active_eq_none (active_halted session index)
  obtain ⟨active, buffer, -, -, -, hlive⟩ := hsounds
  refine comesTo_of_eq _ ?_ ((log_halted h index).1 id buffer hlive) (congrArg Prod.fst hidle)
  rw [playPause_apply hasset, if_pos hplaying, hidle]

variable (hsilent : ∀ id, ¬session.player.Sounds index id)
include hsilent

/-- What a call does if the asset is not playing. -/
theorem playPause_of_silent : playPause resample index session =
    match transcode resample session.config asset.buffer with
    | .error failure => (.error failure, { session with player := session.halted index })
    | .ok preview =>
      match Player.start index preview (session.halted index) with
      | (.error failure, player) => (.error failure, { session with player })
      | (.ok (), player) =>
        (.ok (Player.state player).1, { session with player := (Player.state player).2 }) := by
  have hplaying : ¬(Player.isPlaying index (Player.poll session.player).2).1 = true := by
    rw [Player.isPlaying_poll, h.state_eq_playing_iff, not_exists]
    exact hsilent
  rw [playPause_apply hasset, if_neg hplaying]
  rfl

variable (hstops : (session.halted index).device.log = session.player.device.log ++ stops)
include hstops

/-- If there is no preview, the device is not asked for one. -/
theorem comesTo_of_transcode_eq_error
    (htranscode : transcode resample session.config asset.buffer = .error failure) :
    ComesTo resample index session (.error failure) stops := by
  refine comesTo_of_eq _ ?_ hstops
    (congrArg Prod.fst (Player.state_of_active_eq_none (active_halted session index)))
  rw [playPause_of_silent h hasset hsilent, htranscode]

variable (htranscode : transcode resample session.config asset.buffer = .ok preview)
include htranscode

theorem comesTo_of_start_eq_error {device : Device}
    (hstart : Device.start preview (session.halted index).device = (.error failure, device))
    (hlog : device.log = (session.halted index).device.log ++ asked) :
    ComesTo resample index session (.error failure) (stops ++ asked) := by
  refine comesTo_of_eq ⟨device, none⟩ ?_ ?_ rfl
  · rw [playPause_of_silent h hasset hsilent, htranscode]
    simp only [Player.start_of_active_eq_none (active_halted session index), hstart]
  · rw [hlog, hstops, List.append_assoc]

theorem comesTo_of_start_eq_ok {device : Device} {id : Nat}
    (hstart : Device.start preview (session.halted index).device = (.ok id, device))
    (hlog : device.log = (session.halted index).device.log ++ asked) :
    ComesTo resample index session
      (.ok (if device.prospect id = .past then .idle else .playing index)) (stops ++ asked) := by
  refine comesTo_of_eq (Player.state ⟨device, some ⟨index, id, false⟩⟩).2 ?_ ?_ ?_
  · rw [playPause_of_silent h hasset hsilent, htranscode]
    simp only [Player.start_of_active_eq_none (active_halted session index), hstart,
      Player.state_of_started]
  · rw [Player.log_state, hlog, hstops, List.append_assoc]
  · rw [Player.state_state, Player.state_of_started]
    rfl

/-- **How a call that is to start a preview turns out**, by the answer of the device. -/
theorem comesTo_of_reply :
    (∀ failure, session.player.device.reply = .refuse failure →
      ComesTo resample index session (.error failure) (stops ++ [.refused])) ∧
    (session.player.device.reply = .keep →
      ComesTo resample index session (.ok (.playing index))
        (stops ++ [.started session.player.device.playbacks.length preview])) ∧
    ∀ send, session.player.device.reply = .finish send →
      ComesTo resample index session (.ok .idle)
        (stops ++ [.started session.player.device.playbacks.length preview,
          .ended session.player.device.playbacks.length]) := by
  obtain ⟨hreply, hlength⟩ := device_halted session index
  rw [← hreply, ← hlength]
  refine ⟨fun failure hrefuse ↦ ?_, fun hkeep ↦ ?_, fun send hfinish ↦ ?_⟩
  · exact comesTo_of_start_eq_error h hasset hsilent hstops htranscode
      (Device.start_of_refuse hrefuse preview) rfl
  · obtain ⟨deadline, hstart⟩ := Device.start_of_keep hkeep preview
    have hcall := comesTo_of_start_eq_ok h hasset hsilent hstops htranscode hstart rfl
    rwa [Device.prospect_launch, if_neg nofun] at hcall
  · obtain ⟨device, hgives, hstart⟩ := Device.start_of_finish hfinish preview
    have hover : device.prospect (session.halted index).device.playbacks.length = .past := by
      rw [Device.prospect_eq_past_iff, hgives.isPending_iff]
      simp
    have hlog : device.log = (session.halted index).device.log ++
        [.started (session.halted index).device.playbacks.length preview,
          .ended (session.halted index).device.playbacks.length] := by
      rw [hgives.log]
      simp [Device.launch, Device.record]
    have hcall := comesTo_of_start_eq_ok h hasset hsilent hstops htranscode hstart hlog
    rwa [hover, if_pos rfl] at hcall

end Calls

/-! ## What leaves the playback alone -/

/-- Nothing was started or stopped, and neither the assets nor the format have changed.  Playbacks
may have ended. -/
structure Undisturbed (session after : Session) : Prop where
  follows : Player.Follows session.player after.player
  log : ∃ ids : List Nat, after.player.device.log = session.player.device.log ++ ids.map .ended
  registry : after.registry = session.registry
  config : after.config = session.config

theorem Undisturbed.refl (session : Session) : Undisturbed session session :=
  ⟨.refl _, ⟨[], by simp⟩, rfl, rfl⟩

theorem Undisturbed.trans {first second third : Session} (h : Undisturbed first second)
    (h' : Undisturbed second third) : Undisturbed first third where
  follows := h.follows.trans h'.follows
  log := by
    obtain ⟨ids, hids⟩ := h.log
    obtain ⟨others, hothers⟩ := h'.log
    exact ⟨ids ++ others, by rw [hothers, hids, List.map_append, List.append_assoc]⟩
  registry := h'.registry.trans h.registry
  config := h'.config.trans h.config

theorem undisturbed_onPlayer {α : Type} {action : StateM Player α}
    (hfollows : ∀ player, Player.Follows player (action player).2)
    (hlog : ∀ player, ∃ ids : List Nat,
      (action player).2.device.log = player.device.log ++ ids.map .ended)
    (session : Session) : Undisturbed session (onPlayer action session).2 :=
  ⟨hfollows session.player, hlog session.player, rfl, rfl⟩

theorem undisturbed_playState (session : Session) : Undisturbed session (playState session).2 :=
  undisturbed_onPlayer Player.follows_state
    (fun player ↦ ⟨[], by rw [Player.log_state, List.map_nil, List.append_nil]⟩) session

theorem undisturbed_settle (session : Session) :
    Undisturbed session (onPlayer Player.settle session).2 :=
  undisturbed_onPlayer Player.follows_settle
    (fun player ↦ (Device.gives_settle player.device).imp fun _ hgives ↦ hgives.log) session

theorem undisturbed_happen (event : Player.Event) (session : Session) :
    Undisturbed session (onPlayer (Player.happen event) session).2 := by
  refine undisturbed_onPlayer (Player.follows_happen event) (fun player ↦ ?_) session
  cases event with
  | release id send =>
    exact (Device.gives_release id send (player.listensTo id) player.device).imp
      fun _ hgives ↦ hgives.log
  | elapse time => exact (Device.gives_advance time player.device).imp fun _ hgives ↦ hgives.log
  | settle => exact (Device.gives_settle player.device).imp fun _ hgives ↦ hgives.log
  | behave conduct => exact ⟨[], (Device.gives_conduct conduct).log⟩

/-- Actions that ask what there is, or store it, and events at the device. -/
def Action.isQuiet : Action → Bool
  | .pollPlayback | .playbackState | .summaries | .convert _ | .save _ | .saveAll | .event _ => true
  | .setConfig _ | .add _ _ | .remove _ | .clear | .playPause _ | .stopPlayback
  | .waitPlaybackEnd _ => false

variable {σ : Type} {store : Store (StateM σ)} {state later : Session × σ}

theorem undisturbed_saveAll (session : Session) (store : Store (StateM σ)) (stored : σ) :
    Undisturbed session (session.saveAll resample store stored).1.2 := by
  simp only [saveAll, bind_apply, pure_apply]
  split
  · exact .refl session
  · exact undisturbed_settle session

theorem undisturbed_act {action : Action} (hquiet : action.isQuiet = true)
    (hact : act resample store state action = some later) : Undisturbed state.1 later.1 := by
  cases action with
  | pollPlayback =>
    obtain rfl := Option.some.inj hact
    exact undisturbed_onPlayer Player.follows_poll
      (fun player ↦ ⟨[], by rw [Player.log_poll, List.map_nil, List.append_nil]⟩) state.1
  | playbackState =>
    obtain rfl := Option.some.inj hact
    exact undisturbed_playState state.1
  | summaries =>
    obtain rfl := Option.some.inj hact
    exact undisturbed_playState state.1
  | convert index =>
    obtain rfl := Option.some.inj hact
    exact .refl state.1
  | save index =>
    obtain rfl := Option.some.inj hact
    exact .refl state.1
  | saveAll =>
    obtain rfl := Option.some.inj hact
    exact undisturbed_saveAll state.1 store state.2
  | event event =>
    obtain rfl := Option.some.inj hact
    exact undisturbed_happen event state.1
  | _ => cases hquiet

theorem undisturbed_run {actions : List Action} (hquiet : ∀ action ∈ actions, action.isQuiet = true)
    (hrun : run resample store state actions = some later) : Undisturbed state.1 later.1 := by
  induction actions generalizing state with
  | nil =>
    cases hrun
    exact .refl _
  | cons action rest ih =>
    obtain ⟨next, hact, hrest⟩ := run_cons_eq_some_iff.1 hrun
    obtain ⟨hfirst, hothers⟩ := List.forall_mem_cons.1 hquiet
    exact (undisturbed_act hfirst hact).trans (ih hothers hrest)

/-- A preview sounds on through all that is quiet, unless it comes to its end. -/
theorem Undisturbed.sounds {id : Nat} (h : Undisturbed session after)
    (hplayer : session.player.Coherent) (hsounds : session.player.Sounds index id)
    (hend : .ended id ∉ after.player.device.log) : after.player.Sounds index id := by
  have hheld := hsounds
  obtain ⟨active, buffer, -, -, -, hstarted, hover⟩ := hheld
  obtain ⟨ids, hlog⟩ := h.log
  have hlive : Live after.player.device.log id buffer := by
    refine ⟨hlog ▸ List.mem_append_left _ hstarted, ?_⟩
    rintro (hstopped | hended)
    · rw [hlog, List.mem_append] at hstopped
      rcases hstopped with hbefore | hnew
      · exact hover (.inl hbefore)
      · obtain ⟨n, -, hn⟩ := List.mem_map.1 hnew
        cases hn
    · exact hend hended
  exact hsounds.follows hplayer h.follows hlive

/-! ## The toggle -/

theorem coherent_playPause (resample : Resampler) (h : session.player.Coherent)
    (hasset : session.registry.require index = .ok asset) :
    (playPause resample index session).2.player.Coherent := by
  have hpolled := (Player.follows_poll session.player).coherent h
  have hhalted : (session.halted index).Coherent :=
    (Player.follows_stop _).coherent ((Player.follows_state _).coherent hpolled)
  rw [playPause_apply hasset]
  split
  · exact (Player.follows_state _).coherent hhalted
  · cases transcode resample session.config asset.buffer with
    | error failure => exact hhalted
    | ok preview =>
      have hstarted := hhalted.start index preview
      rcases hstart : Player.start index preview (session.halted index) with ⟨failure | _, player⟩
      · rw [hstart] at hstarted
        simpa only [hstart] using hstarted
      · rw [hstart] at hstarted
        simpa only [hstart] using (Player.follows_state player).coherent hstarted

/-- After a start, what sounds is the playback that was started. -/
theorem eq_of_sounds {player : Player} {log : List DeviceEvent} {id n : Nat}
    (h : player.Coherent) (hlog : player.device.log = log ++ [.started n preview])
    (hsounds : player.Sounds index id) : id = n := by
  obtain ⟨active, buffer, -, -, -, hstarted, hover⟩ := hsounds
  rw [hlog] at hstarted hover
  rcases List.mem_append.1 hstarted with hbefore | hlast
  · have hgone := h.device.orderly.exclusive.over_of_isStart log _ [] hlog rfl id buffer hbefore
    exact absurd (hgone.imp (List.mem_append_left _) (List.mem_append_left _)) hover
  · cases List.mem_singleton.1 hlast
    rfl

/-- **Twice is never**: after a call that succeeded, another one stops what the first one started,
unless that has come to its end. -/
theorem comesTo_twice {first : PlayState} {stored : σ} {quiet : List Action}
    {between : Session × σ} {resample' resample'' : Resampler} (h : session.player.Coherent)
    (hasset : session.registry.require index = .ok asset)
    (hsilent : ∀ id, ¬session.player.Sounds index id)
    (hfirst : (playPause resample index session).1 = .ok first)
    (hquiet : ∀ action ∈ quiet, action.isQuiet = true)
    (hrun : run resample' store ((playPause resample index session).2, stored) quiet =
      some between)
    (hend : ∀ id, .ended id ∈ between.1.player.device.log →
      .ended id ∈ session.player.device.log) :
    ComesTo resample'' index between.1 (.ok .idle)
      [.stopped session.player.device.playbacks.length] := by
  have hcoherent := coherent_playPause resample h hasset
  have hundisturbed := undisturbed_run hquiet hrun
  have hnew : .ended session.player.device.playbacks.length ∉ between.1.player.device.log := by
    intro hended
    have hlt := h.device.lt_of_ended (hend _ hended)
    simp [Device.buffers] at hlt
  obtain ⟨stops, -, hstops⟩ := exists_stops h index
  cases htranscode : transcode resample session.config asset.buffer with
  | error failure =>
    have hcall := comesTo_of_transcode_eq_error h hasset hsilent hstops htranscode
    cases hfirst.symm.trans hcall.result
  | ok preview =>
    obtain ⟨hrefuse, hkeep, hfinish⟩ := comesTo_of_reply h hasset hsilent hstops htranscode
    cases hreply : session.player.device.reply with
    | refuse failure => cases hfirst.symm.trans (hrefuse failure hreply).result
    | finish send =>
      obtain ⟨ids, hlog⟩ := hundisturbed.log
      refine absurd ?_ hnew
      simp [hlog, (hfinish send hreply).log]
    | keep =>
      have hcall := hkeep hreply
      obtain ⟨id, hid⟩ := hcoherent.state_eq_playing_iff.1 hcall.state
      have hlog := hcall.log
      rw [← List.append_assoc] at hlog
      obtain rfl := eq_of_sounds hcoherent hlog hid
      have hasset' : between.1.registry.require index = .ok asset := by
        rw [hundisturbed.registry, hcall.registry]
        exact hasset
      exact comesTo_off (hundisturbed.follows.coherent hcoherent) hasset'
        (hundisturbed.sounds hcoherent hid hnew)

/-- **The call to play or to stop is a toggle**, in every session that can be reached.  It goes by
what is live at the device.  If that is a playback of the asset, the call stops it once and starts
nothing.  Otherwise it stops what else is live, and if there is a preview and the device keeps it,
one playback is started and the asset is playing; where something fails, nothing is playing.  And
if nothing comes to its end in between, a second call after one that succeeded stops what the first
one started. -/
theorem playPause_toggles {kind : DeviceKind} {config : Config} {stored stored' : σ}
    {actions : List Action} (hnew : Session.new (.new kind) config = .ok session)
    (hrun : run resample store (session, stored) actions = some (after, stored'))
    (resample' : Resampler) (hasset : after.registry.assets[index]? = some asset) :
    let device := after.player.device
    let next := device.playbacks.length
    ((playState after).1 = .playing index ↔ ∃ id, after.player.Sounds index id) ∧
    (∀ id, after.player.Sounds index id →
      ComesTo resample' index after (.ok .idle) [.stopped id]) ∧
    ((∀ id, ¬after.player.Sounds index id) →
      (∃ stops, Stops device.log stops ∧
        (∀ failure, transcode resample' after.config asset.buffer = .error failure →
          ComesTo resample' index after (.error failure) stops) ∧
        ∀ preview, transcode resample' after.config asset.buffer = .ok preview →
          (∀ failure, device.reply = .refuse failure →
            ComesTo resample' index after (.error failure) (stops ++ [.refused])) ∧
          (device.reply = .keep →
            ComesTo resample' index after (.ok (.playing index))
              (stops ++ [.started next preview])) ∧
          ∀ send, device.reply = .finish send →
            ComesTo resample' index after (.ok .idle)
              (stops ++ [.started next preview, .ended next])) ∧
      ∀ first, (playPause resample' index after).1 = .ok first →
        ∀ (quiet : List Action) (between : Session × σ),
          (∀ action ∈ quiet, action.isQuiet = true) →
          run resample store ((playPause resample' index after).2, stored') quiet = some between →
          (∀ id, .ended id ∈ between.1.player.device.log → .ended id ∈ device.log) →
          ∀ resample'', ComesTo resample'' index between.1 (.ok .idle) [.stopped next]) := by
  have hafter : Sound resample after := (sound_new hnew).run hrun
  have hrequire := Registry.require_eq_ok_iff.2 hasset
  refine ⟨hafter.player.state_eq_playing_iff, fun id ↦ comesTo_off hafter.player hrequire,
    fun hsilent ↦ ⟨?_, fun first hfirst quiet between hquiet hbetween hend resample'' ↦ ?_⟩⟩
  · obtain ⟨stops, hstops, hlog⟩ := exists_stops hafter.player index
    exact ⟨stops, hstops,
      fun failure ↦ comesTo_of_transcode_eq_error hafter.player hrequire hsilent hlog,
      fun preview ↦ comesTo_of_reply hafter.player hrequire hsilent hlog⟩
  · exact comesTo_twice hafter.player hrequire hsilent hfirst hquiet hbetween hend

/-- Another preview gives way to one that comes to its end without anybody looking. -/
def unseenRun : List Action :=
  let decode : Decoder := fun name _ ↦ .ok (if name = "a.wav" then Player.pulse else Player.swing)
  [.add decode [⟨"a.wav", "audio/wav", []⟩, ⟨"b.wav", "audio/wav", []⟩], .playPause 1,
    .playPause 0, .event (.release 1 true)]

/-- The preview that ended starts again, and the next call stops it. -/
theorem playPause_toggles_unseenRun :
    ∃ after stored between swing, run Resample.linear Shelf.store
        (⟨.empty, .new (.new .manual), ⟨9000, 2, .both⟩⟩, .empty) unseenRun =
          some (after, stored) ∧
      transcode Resample.linear after.config Player.swing = .ok swing ∧
      after.player.device.log =
        [.started 0 swing, .stopped 0, .started 1 Player.pulse, .ended 1] ∧
      ComesTo Resample.linear 0 after (.ok (.playing 0)) [.started 2 Player.pulse] ∧
      run Resample.linear Shelf.store ((playPause Resample.linear 0 after).2, stored)
        [.pollPlayback, .event .settle] = some between ∧
      ComesTo Resample.linear 0 between.1 (.ok .idle) [.stopped 2] := by
  have hnew : Session.new (.new .manual) ⟨9000, 2, .both⟩ =
      .ok ⟨.empty, .new (.new .manual), ⟨9000, 2, .both⟩⟩ := rfl
  obtain ⟨after, stored, between, asset, swing, hrun, hswing, hlog, hasset, hidle, hpreview, hreply,
      hcount, hfirst, hbetween, hlater⟩ :
    ∃ after stored between asset swing, run Resample.linear Shelf.store
        (⟨.empty, .new (.new .manual), ⟨9000, 2, .both⟩⟩, .empty) unseenRun =
          some (after, stored) ∧
      transcode Resample.linear after.config Player.swing = .ok swing ∧
      after.player.device.log =
        [.started 0 swing, .stopped 0, .started 1 Player.pulse, .ended 1] ∧
      after.registry.assets[0]? = some asset ∧ (playState after).1 = .idle ∧
      transcode Resample.linear after.config asset.buffer = .ok Player.pulse ∧
      after.player.device.reply = .keep ∧ after.player.device.playbacks.length = 2 ∧
      (playPause Resample.linear 0 after).1 = .ok (.playing 0) ∧
      run Resample.linear Shelf.store ((playPause Resample.linear 0 after).2, stored)
        [.pollPlayback, .event .settle] = some between ∧
      between.1.player.device.log =
        [.started 0 swing, .stopped 0, .started 1 Player.pulse, .ended 1,
          .started 2 Player.pulse] :=
    ⟨_, _, _, _, _, rfl, rfl, rfl, rfl, rfl, rfl, rfl, rfl, rfl, rfl, rfl⟩
  obtain ⟨hplaying, -, hcall⟩ := playPause_toggles hnew hrun Resample.linear hasset
  rw [hidle] at hplaying
  obtain ⟨⟨stops, hstops, -, hstarted⟩, htwice⟩ := hcall fun id hid ↦ nomatch hplaying.2 ⟨id, hid⟩
  rw [hlog, hcount] at htwice
  rw [hlog] at hstops
  have hnothing : stops = [] := by
    refine hstops.of_silent fun id buffer hlive ↦ hlive.2 ?_
    have hid : id = 0 ∧ buffer = swing ∨ id = 1 ∧ buffer = Player.pulse := by
      simpa using hlive.1
    rcases hid with ⟨rfl, -⟩ | ⟨rfl, -⟩
    · exact .inl (by simp)
    · exact .inr (by simp)
  have hkeep := (hstarted _ hpreview).2.1 hreply
  rw [hnothing, hcount] at hkeep
  refine ⟨after, stored, between, swing, hrun, hswing, hlog, hkeep, hbetween,
    htwice _ hfirst _ between (by decide) hbetween (fun id hid ↦ ?_) Resample.linear⟩
  rw [hlater] at hid
  simpa using hid

end Session
end WaveMill
