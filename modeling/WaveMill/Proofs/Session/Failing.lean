import WaveMill.Proofs.Session.Sound

/-!
# What a failure leaves behind

An operation of a session that fails has changed nothing, with two exceptions.  A store that was
asked to take a file may have kept something of it; what it has kept is its own affair, and a store
that keeps nothing of what it refuses makes no exception.  And a preview that cannot be made has
already cost the one that was playing: that is stopped before the samples of the new one are made,
so that a failure after it leaves the player idle.

An operation that is to fail before it touches anything has its check in front, and then the state
afterwards is the state before by definition.  What is left to show is that of `Session.playPause`,
which polls, looks and stops before it can fail again (`Session.playPause_apply`).

## What is here

* `Player.Coherent.log_stop` — what stopping adds to the log of the device.
* `Store.Clean` — a store that keeps nothing of what it refuses.
* `Session.failure?` — the failure that an action returns.
* `Session.Interrupted` — the preview that was playing is stopped, and nothing else has changed.
* `Session.Aftermath` and `Session.aftermath` — what an action that fails leaves behind.
* `Session.aftermath_run` — the same of every session that can be reached.
-/

set_option autoImplicit false
namespace WaveMill

open Stateful Log

/-! ## Stopping and the log -/

namespace Player

variable {player : Player} {id : Nat} {buffer : Buffer}

theorem log_state (player : Player) : (state player).2.device.log = player.device.log := by
  rcases state_cases player with
    ⟨-, hstate⟩ | ⟨active, -, -, hstate⟩ | ⟨active, device, -, -, hgives, hstate⟩
  · rw [hstate]
  · rw [hstate]
  · rw [hstate, hgives.log, List.map_nil, List.append_nil]

theorem log_poll (player : Player) : (poll player).2.device.log = player.device.log := by
  rcases poll_cases player with
    ⟨-, hpoll⟩ | ⟨active, -, -, hpoll⟩ | ⟨active, device, -, -, hgives, hpoll⟩
  · rw [hpoll]
  · rw [hpoll]
  · rw [hpoll, hgives.log, List.map_nil, List.append_nil]

/-- A player that holds nothing has nothing to stop. -/
theorem stop_of_active_eq_none (h : player.active = none) : stop player = (none, player) := by
  simp [stop, h]

theorem state_of_active_eq_none (h : player.active = none) : state player = (.idle, player) := by
  simp [state, h]

/-- **The playback that is live is stopped once**, and where none is live the device is asked for
nothing. -/
theorem Coherent.log_stop (h : player.Coherent) :
    (∀ id buffer, Live player.device.log id buffer →
      (stop player).2.device.log = player.device.log ++ [.stopped id]) ∧
    ((∀ id buffer, ¬Live player.device.log id buffer) →
      (stop player).2.device.log = player.device.log) := by
  rcases stop_cases player with
    ⟨hactive, hstop⟩ | ⟨active, hactive, hover, hstop⟩ |
      ⟨active, device, hactive, hover, hgives, hstop⟩
  · rw [hstop]
    exact ⟨fun id buffer hlive ↦ absurd hlive (h.not_live_of_active hactive id buffer), fun _ ↦ rfl⟩
  · rw [hstop]
    constructor
    · intro id buffer hlive
      obtain ⟨held, hheld, rfl⟩ := h.active_of_live id buffer hlive
      obtain rfl : active = held := Option.some.inj (hactive.symm.trans hheld)
      rfl
    · intro hsilent
      obtain ⟨buffer, hlive⟩ := h.live_of_not_isOver hactive hover
      exact absurd hlive (hsilent active.id buffer)
  · have hlog : device.log = player.device.log := by
      rw [hgives.log, List.map_nil, List.append_nil]
    rw [hstop]
    refine ⟨fun id buffer hlive ↦ ?_, fun _ ↦ hlog⟩
    obtain ⟨held, hheld, rfl⟩ := h.active_of_live id buffer hlive
    obtain rfl : active = held := Option.some.inj (hactive.symm.trans hheld)
    exact absurd (.inr (h.ended_of_isOver hactive hover)) hlive.2

end Player

/-! ## Stores -/

/-- A store that keeps nothing of what it refuses. -/
def Store.Clean {σ : Type} (store : Store (StateM σ)) : Prop :=
  ∀ name bytes stored failure, (store name bytes stored).1 = .error failure →
    (store name bytes stored).2 = stored

theorem Shelf.clean_storeIf (verdict : String → Outcome Unit) : (Shelf.storeIf verdict).Clean := by
  intro name bytes shelf failure h
  unfold Shelf.storeIf at h ⊢
  cases hverdict : verdict name with
  | error => rfl
  | ok =>
    rw [hverdict] at h
    cases h

/-- The failure of an operation, if it failed. -/
def Outcome.failure? {α : Type} : Outcome α → Option Failure
  | .ok _ => none
  | .error failure => some failure

namespace Session

variable {resample : Resampler} {σ : Type} {store : Store (StateM σ)} {session after : Session}

/-! ## Starting and stopping a preview -/

/-- The player that `playPause` goes on with when the asset is not the one that is playing: it has
polled, looked, and stopped whatever else was playing. -/
def halted (session : Session) (index : Nat) : Player :=
  (Player.stop (Player.isPlaying index (Player.poll session.player).2).2).2

/-- Halting adds the stop of the one live playback to the log, if there is one. -/
theorem log_halted (h : session.player.Coherent) (index : Nat) :
    (∀ id buffer, Live session.player.device.log id buffer →
      (session.halted index).device.log = session.player.device.log ++ [.stopped id]) ∧
    ((∀ id buffer, ¬Live session.player.device.log id buffer) →
      (session.halted index).device.log = session.player.device.log) := by
  have hlooked : (Player.isPlaying index (Player.poll session.player).2).2.device.log =
      session.player.device.log := (Player.log_state _).trans (Player.log_poll _)
  have hcoherent : (Player.isPlaying index (Player.poll session.player).2).2.Coherent :=
    (Player.follows_state _).coherent ((Player.follows_poll _).coherent h)
  have hstop := hcoherent.log_stop
  rwa [hlooked] at hstop

/-- Whether a preview is started or stopped is decided by what is playing, after an end that nobody
has seen yet has been seen. -/
theorem playPause_apply {index : Nat} {asset : Asset}
    (hasset : session.registry.require index = .ok asset) :
    playPause resample index session =
      if (Player.isPlaying index (Player.poll session.player).2).1 then
        (.ok (Player.state (session.halted index)).1,
          { session with player := (Player.state (session.halted index)).2 })
      else
        match transcode resample session.config asset.buffer with
        | .error failure => (.error failure, { session with player := session.halted index })
        | .ok preview =>
          match Player.start index preview (session.halted index) with
          | (.error failure, player) => (.error failure, { session with player })
          | (.ok (), player) =>
            (.ok (Player.state player).1, { session with player := (Player.state player).2 }) := by
  unfold playPause
  simp only [bind_apply, get_apply, hasset, ite_apply, pure_apply]
  by_cases hplaying : (Player.isPlaying index (Player.poll session.player).2).1 = true
  · rw [if_pos hplaying]
    exact if_pos hplaying
  · rw [if_neg hplaying]
    refine (if_neg hplaying).trans ?_
    simp only [onPlayer_apply]
    cases transcode resample session.config asset.buffer with
    | error failure => rfl
    | ok preview =>
      simp only [bind_apply, onPlayer_apply]
      rw [halted]
      rcases Player.start index preview _ with ⟨failure | _, player⟩
      · rfl
      · rfl

/-! ## Actions that fail -/

/-- The failure that an action returns, if it returns one.  Adding files and saving all assets
report failures file by file, and return none. -/
def failure? (resample : Resampler) (store : Store (StateM σ)) (state : Session × σ) :
    Action → Option Failure
  | .setConfig config => Outcome.failure? (Session.setConfig config state.1).1
  | .remove index => Outcome.failure? (Session.remove index state.1).1
  | .playPause index => Outcome.failure? (Session.playPause resample index state.1).1
  | .convert index => Outcome.failure? (state.1.convert resample index)
  | .save index => Outcome.failure? (state.1.save resample store index state.2).1
  | .add _ _ | .clear | .stopPlayback | .pollPlayback | .waitPlaybackEnd _ | .playbackState
  | .summaries | .saveAll | .event _ => none

/-- The player is idle: the preview that was live has been stopped, once, and nothing was started in
its place.  `asked` is what the device was asked besides.  Nothing else has changed. -/
structure Interrupted (asked : List DeviceEvent) (session after : Session) : Prop where
  registry : after.registry = session.registry
  config : after.config = session.config
  idle : (playState after).1 = .idle
  log_of_live : ∀ id buffer, Live session.player.device.log id buffer →
    after.player.device.log = session.player.device.log ++ [.stopped id] ++ asked
  log_of_silent : (∀ id buffer, ¬Live session.player.device.log id buffer) →
    after.player.device.log = session.player.device.log ++ asked

/-- Whatever leaves the player with nothing after it has halted has interrupted the preview. -/
theorem interrupted_of_log {player : Player} {index : Nat} {asked : List DeviceEvent}
    (h : session.player.Coherent) (hactive : player.active = none)
    (hlog : player.device.log = (session.halted index).device.log ++ asked) :
    Interrupted asked session { session with player } := by
  obtain ⟨hlive, hsilent⟩ := log_halted h index
  refine ⟨rfl, rfl, ?_, fun id buffer hid ↦ ?_, fun hnone ↦ ?_⟩
  · exact congrArg Prod.fst (Player.state_of_active_eq_none hactive)
  · exact hlog.trans (congrArg (· ++ asked) (hlive id buffer hid))
  · exact hlog.trans (congrArg (· ++ asked) (hsilent hnone))

/-- **A preview that cannot be made has cost the one that was playing.**  The device is asked only
if the samples of the new one could be made. -/
theorem interrupted_of_playPause {index : Nat} {asset : Asset} {failure : Failure}
    (h : session.player.Coherent) (hasset : session.registry.require index = .ok asset)
    (hfailure : Outcome.failure? (playPause resample index session).1 = some failure) :
    (transcode resample session.config asset.buffer = .error failure ∧
        Interrupted [] session (playPause resample index session).2) ∨
      (∃ preview, transcode resample session.config asset.buffer = .ok preview) ∧
        Interrupted [.refused] session (playPause resample index session).2 := by
  have hactive : (session.halted index).active = none := Player.active_stop _
  rw [playPause_apply hasset] at hfailure ⊢
  by_cases hplaying : (Player.isPlaying index (Player.poll session.player).2).1 = true
  · rw [if_pos hplaying] at hfailure
    cases hfailure
  · rw [if_neg hplaying] at hfailure ⊢
    cases htranscode : transcode resample session.config asset.buffer with
    | error fault =>
      rw [htranscode] at hfailure
      obtain rfl : fault = failure := Option.some.inj hfailure
      exact .inl ⟨rfl, interrupted_of_log h hactive (List.append_nil _).symm⟩
    | ok preview =>
      refine .inr ⟨⟨preview, rfl⟩, ?_⟩
      rcases Player.start_cases index preview (session.halted index) with
        ⟨fault, hstart⟩ | ⟨deadline, ids, device, -, hstart⟩
      · rw [Player.stop_of_active_eq_none hactive] at hstart
        simp only [hstart]
        exact interrupted_of_log h rfl rfl
      · simp only [htranscode, hstart] at hfailure
        cases hfailure

/-- What an action that failed leaves of a session and of what its store holds. -/
structure Aftermath (resample : Resampler) (store : Store (StateM σ)) (state : Session × σ)
    (action : Action) (failure : Failure) (later : Session × σ) : Prop where
  /-- A session is as it was, unless a preview was to be made of an asset that there is. -/
  session : (∀ index, action = .playPause index → state.1.registry.assets.length ≤ index) →
    later.1 = state.1
  /-- A preview that could not be made has interrupted the one that was playing. -/
  preview : ∀ index asset, action = .playPause index →
    state.1.registry.assets[index]? = some asset →
    (transcode resample state.1.config asset.buffer = .error failure ∧
        Interrupted [] state.1 later.1) ∨
      (∃ buffer, transcode resample state.1.config asset.buffer = .ok buffer) ∧
        Interrupted [.refused] state.1 later.1
  /-- The store was asked for nothing, unless a file was made that was to be saved. -/
  stored : (∀ index wave, action = .save index → state.1.convert resample index ≠ .ok wave) →
    later.2 = state.2
  stored_of_clean : store.Clean → later.2 = state.2

variable {state : Session × σ} {failure : Failure}

/-- An action that has changed nothing at all, and is not to make a preview of an asset. -/
theorem Aftermath.refl {action : Action}
    (hpreview : ∀ index asset, action = .playPause index →
      state.1.registry.assets[index]? ≠ some asset) :
    Aftermath resample store state action failure state where
  session _ := rfl
  preview index asset haction hasset := absurd hasset (hpreview index asset haction)
  stored _ := rfl
  stored_of_clean _ := rfl

/-- **What is wrong from the start is found before anything is touched.** -/
theorem failure?_of_wrong (resample : Resampler) (store : Store (StateM σ)) (state : Session × σ) :
    (∀ config fault, config.validate = .error fault →
      failure? resample store state (.setConfig config) = some fault) ∧
    ∀ index, state.1.registry.assets.length ≤ index →
      ∀ action ∈ [Action.remove index, .playPause index, .convert index, .save index],
        failure? resample store state action =
          some (.assetIndex index state.1.registry.assets.length) := by
  refine ⟨fun config fault hconfig ↦ ?_, fun index hindex action haction ↦ ?_⟩
  · simp only [failure?, Session.setConfig, hconfig]
    rfl
  · have hrequire : state.1.registry.require index =
        .error (.assetIndex index state.1.registry.assets.length) := by
      rw [Registry.require, List.getElem?_eq_none hindex]
    simp only [List.mem_cons, List.not_mem_nil, or_false] at haction
    rcases haction with rfl | rfl | rfl | rfl
    · simp only [failure?, Session.remove, Registry.remove, bind_apply, get_apply, hrequire]
      rfl
    · simp only [failure?, Session.playPause, bind_apply, get_apply, hrequire]
      rfl
    · simp only [failure?, Session.convert, hrequire]
      rfl
    · simp only [failure?, Session.save, hrequire]
      rfl

/-- Saving fails because there is no file to save, and the store is not asked, or because the store
refuses it. -/
theorem save_cases {index : Nat} (session : Session) (stored : σ)
    (hfailure : Outcome.failure? (session.save resample store index stored).1 = some failure) :
    ((∀ wave, session.convert resample index ≠ .ok wave) ∧
        (session.save resample store index stored).2 = stored) ∨
      ∃ output wave, session.convert resample index = .ok wave ∧
        store output wave stored =
          (.error failure, (session.save resample store index stored).2) := by
  simp only [save] at hfailure ⊢
  cases hasset : session.registry.require index with
  | error fault =>
    refine .inl ⟨fun wave hwave ↦ ?_, rfl⟩
    rw [Session.convert, hasset] at hwave
    cases hwave
  | ok asset =>
    cases hwave : session.convert resample index with
    | error fault => exact .inl ⟨fun _ h ↦ (by cases h), rfl⟩
    | ok wave =>
      refine .inr ⟨outputName asset.name, wave, rfl, ?_⟩
      simp only [hasset, hwave, bind_apply] at hfailure ⊢
      rcases hstore : store (outputName asset.name) wave stored with ⟨fault | _, stored'⟩
      · rw [hstore] at hfailure
        obtain rfl : fault = failure := Option.some.inj hfailure
        rfl
      · rw [hstore] at hfailure
        cases hfailure

/-- **What an action that fails leaves behind**, whatever becomes of it. -/
theorem aftermath {action : Action} (h : state.1.player.Coherent)
    (hfailure : failure? resample store state action = some failure) :
    ∃ later, act resample store state action = some later ∧
      Aftermath resample store state action failure later := by
  cases action with
  | setConfig config =>
    have hsame : (Session.setConfig config state.1).2 = state.1 := by
      simp only [failure?, Session.setConfig] at hfailure ⊢
      cases hconfig : config.validate with
      | error fault => rfl
      | ok =>
        rw [hconfig] at hfailure
        cases hfailure
    exact ⟨state, by rw [act, hsame], .refl fun _ _ h ↦ by cases h⟩
  | remove index =>
    have hsame : (Session.remove index state.1).2 = state.1 := by
      simp only [failure?, Session.remove, bind_apply, get_apply] at hfailure ⊢
      cases hremove : state.1.registry.remove index with
      | error fault => rfl
      | ok removed =>
        rw [hremove] at hfailure
        cases hfailure
    exact ⟨state, by rw [act, hsame], .refl fun _ _ h ↦ by cases h⟩
  | playPause index =>
    cases hasset : state.1.registry.assets[index]? with
    | none =>
      have hsame : (Session.playPause resample index state.1).2 = state.1 := by
        simp only [Session.playPause, bind_apply, get_apply, Registry.require, hasset]
        rfl
      refine ⟨state, by rw [act, hsame], .refl fun i asset haction ↦ ?_⟩
      obtain rfl := Action.playPause.inj haction
      rw [hasset]
      nofun
    | some asset =>
      have hpreview := interrupted_of_playPause h (Registry.require_eq_ok_iff.2 hasset) hfailure
      refine ⟨_, rfl, fun hrange ↦ ?_, fun i other haction hother ↦ ?_, fun _ ↦ rfl, fun _ ↦ rfl⟩
      · have hlength := (List.getElem?_eq_some_iff.1 hasset).1
        exact absurd hlength (Nat.not_lt.2 (hrange index rfl))
      · obtain rfl := Action.playPause.inj haction
        obtain rfl : asset = other := Option.some.inj (hasset.symm.trans hother)
        exact hpreview
  | convert index => exact ⟨state, rfl, .refl fun _ _ h ↦ by cases h⟩
  | save index =>
    refine ⟨_, rfl, fun _ ↦ rfl, fun _ _ h ↦ (by cases h), fun hnone ↦ ?_, fun hclean ↦ ?_⟩
    · rcases save_cases state.1 state.2 hfailure with ⟨-, hsame⟩ | ⟨output, wave, hwave, -⟩
      · exact hsame
      · exact absurd hwave (hnone index wave rfl)
    · rcases save_cases state.1 state.2 hfailure with ⟨-, hsame⟩ | ⟨output, wave, -, hstore⟩
      · exact hsame
      · have hkept := hclean output wave state.2 failure (congrArg Prod.fst hstore)
        rwa [hstore] at hkept
  | _ => cases hfailure

/-- **An operation that fails leaves a session as it was**, with the one exception that a preview
which cannot be made has interrupted the one that was playing.  What is wrong with a target format
or with an index makes the operation fail before it does anything.  The resampler and the store of
the operation that fails need not be those that the session worked with before. -/
theorem aftermath_run {kind : DeviceKind} {config : Config} {stored stored' : σ}
    {actions : List Action} (hnew : Session.new (.new kind) config = .ok session)
    (hrun : run resample store (session, stored) actions = some (after, stored'))
    (resample' : Resampler) (store' : Store (StateM σ)) :
    (∀ config fault, config.validate = .error fault →
      failure? resample' store' (after, stored') (.setConfig config) = some fault) ∧
    (∀ index, after.registry.assets.length ≤ index →
      ∀ action ∈ [Action.remove index, .playPause index, .convert index, .save index],
        failure? resample' store' (after, stored') action =
          some (.assetIndex index after.registry.assets.length)) ∧
    ∀ action failure, failure? resample' store' (after, stored') action = some failure →
      ∃ later, act resample' store' (after, stored') action = some later ∧
        Aftermath resample' store' (after, stored') action failure later := by
  have hafter : Sound resample after := (sound_new hnew).run hrun
  obtain ⟨hconfig, hindex⟩ := failure?_of_wrong resample' store' (after, stored')
  exact ⟨hconfig, hindex, fun action failure hfailure ↦ aftermath hafter.player hfailure⟩

/-- Two assets, of which the first one is playing when the device begins to refuse. -/
def brokenRun : List Action :=
  let decode : Decoder := fun name _ ↦ .ok (if name = "a.wav" then Player.pulse else Player.swing)
  [.add decode [⟨"a.wav", "audio/wav", []⟩, ⟨"b.wav", "audio/wav", []⟩], .playPause 0,
    .event (.behave (.refuse (.playback "no output device")))]

theorem aftermath_brokenRun :
    let full : Store (StateM Shelf) :=
      Shelf.storeIf fun name ↦ .error (.persist name (.stated "disk full"))
    ∃ after stored later unsaved,
      run Resample.linear Shelf.store (⟨.empty, .new (.new .manual), ⟨9000, 2, .both⟩⟩, .empty)
        brokenRun = some (after, stored) ∧
      (playState after).1 = .playing 0 ∧
      act Resample.linear full (after, stored) (.save 0) = some unsaved ∧
      unsaved = (after, stored) ∧
      act Resample.linear full (after, stored) (.playPause 1) = some later ∧
      later.1.player.device.log = [.started 0 Player.pulse, .stopped 0, .refused] ∧
      Aftermath Resample.linear full (after, stored) (.playPause 1)
        (.playback "no output device") later := by
  intro full
  have hnew : Session.new (.new .manual) ⟨9000, 2, .both⟩ =
      .ok ⟨.empty, .new (.new .manual), ⟨9000, 2, .both⟩⟩ := rfl
  have hrun : run Resample.linear Shelf.store
      (⟨.empty, .new (.new .manual), ⟨9000, 2, .both⟩⟩, .empty) brokenRun = some (_, _) := rfl
  have hfailed := (aftermath_run hnew hrun Resample.linear full).2.2
  obtain ⟨unsaved, hsave, hunsaved⟩ :=
    hfailed (.save 0) (.persist "a.wav" (.stated "disk full")) rfl
  obtain ⟨later, hact, hafter⟩ := hfailed (.playPause 1) (.playback "no output device") rfl
  have hsame : unsaved = _ := Prod.ext (hunsaved.session fun _ h ↦ (by cases h))
    (hunsaved.stored_of_clean (Shelf.clean_storeIf _))
  refine ⟨_, _, later, unsaved, hrun, rfl, hsave, hsame, hact, ?_, hafter⟩
  rw [← Option.some.inj hact]
  rfl

end Session
end WaveMill
