import WaveMill.Proofs.Buffer.Parts

/-!
# Every way to make a buffer

Buffers come from channels, from interleaved samples, from tones and from files, and the stages of a
conversion make buffers of buffers.  A recipe puts such operations together in any way.  It can be
followed twice: with the operations on buffers, which carry the promises of a buffer in their types
(`Recipe.build`), and with the operations on parts, which rely on nothing but their own checks and
assertions (`Recipe.run`).  Both come to the same, by induction over the recipe with one step for
each operation.  So whatever is put together keeps the promises, and no assertion ever fails.

A resampler from outside the library is code that looks at the parts of a buffer and then follows
some recipe, or fails.  It is treated like the operations of the library themselves.  A scanner from
outside may hand out any packets at all: what it finds are samples, of which a buffer has to be made
first.

## What is here

* `Recipe`, `Recipe.run`, `Recipe.build` — recipes, followed without promises and with them.
* `Recipe.run_eq` — both come to the same.
* `Recipe.run_sound` — what that means for the promises.
-/

set_option autoImplicit false
namespace WaveMill

/-- A way to make a buffer. -/
inductive Recipe where
  /-- What fails, for a reason of its own. -/
  | fail (failure : Failure)
  | channels (channels : List Channel) (rate : UInt32)
  | mono (samples : Channel) (rate : UInt32)
  | stereo (left right : Channel) (rate : UInt32)
  | interleaved (samples : Array Float32) (layout : Layout) (rate : UInt32)
  | tone (frequency amplitude seconds : Float32) (rate : UInt32)
  | stereoTone (left right amplitude seconds : Float32) (rate : UInt32)
  /-- A file that is read by the strict reader. -/
  | wave (name : String) (bytes : Bytes)
  /-- A file that is left to a scanner. -/
  | scanned (scan : Scanner) (name : String) (bytes : Bytes)
  /-- A file in any format that the scanner knows. -/
  | audio (scan : Scanner) (name : String) (bytes : Bytes)
  | resampled (source : Recipe) (target : UInt32)
  | reduced (source : Recipe) (mode : ChannelMode)
  | normalized (source : Recipe)
  /-- The stages of a conversion up to normalization, where the resampler may be any code that
  follows recipes. -/
  | transcoded (resample : Parts → UInt32 → Recipe) (config : Config) (source : Recipe)

namespace Recipe

open Parts

/-- Follows a recipe without relying on any promise. -/
def run : Recipe → Except Stop Parts
  | fail failure => .error (.failed failure)
  | channels parts rate => checked ⟨parts, rate⟩
  | mono samples rate => checked ⟨[samples], rate⟩
  | stereo left right rate => checked ⟨[left, right], rate⟩
  | interleaved samples layout rate => ofInterleaved samples layout rate
  | tone frequency amplitude seconds rate => Parts.tone frequency amplitude seconds rate
  | stereoTone left right amplitude seconds rate =>
    Parts.stereoTone left right amplitude seconds rate
  | wave name bytes => do ofContents name (← opened (Wave.contents name bytes))
  | scanned scan name bytes => do ofContents name (← opened (scan.contents name bytes))
  | audio scan name bytes => do
    let contents :=
      if beginsAsWave bytes then Wave.contents name bytes else scan.contents name bytes
    ofContents name (← opened contents)
  | resampled source target => do (← source.run).resample target
  | reduced source mode => do (← source.run).reduce mode
  | normalized source => do return (← source.run).normalize
  | transcoded resample config source => do
    let raw ← source.run
    raw.transcode (fun p target ↦ (resample p target).run) config

/-- Follows a recipe with buffers. -/
def build : Recipe → Outcome Buffer
  | fail failure => .error failure
  | channels parts rate => Buffer.ofChannels parts rate
  | mono samples rate => Buffer.mono samples rate
  | stereo left right rate => Buffer.stereo left right rate
  | interleaved samples layout rate => Buffer.ofInterleaved samples layout rate
  | tone frequency amplitude seconds rate => Buffer.tone frequency amplitude seconds rate
  | stereoTone left right amplitude seconds rate =>
    Buffer.stereoTone left right amplitude seconds rate
  | wave name bytes => Wave.decode name bytes
  | scanned scan name bytes => scan.decode name bytes
  | audio scan name bytes => Decoder.ofScanner scan name bytes
  | resampled source target => do Resample.linear (← source.build) target
  | reduced source mode => do return (← source.build).reduce mode
  | normalized source => do return (← source.build).normalize
  | transcoded resample config source => do
    let raw ← source.build
    transcode (fun b target ↦ (resample b.parts target).build) config raw

/-- **Followed without promises, a recipe comes to the same.** -/
theorem run_eq (recipe : Recipe) : recipe.run = lift recipe.build := by
  induction recipe with
  | fail failure => rfl
  | channels parts rate => exact (lift_ofChannels parts rate).symm
  | mono samples rate => exact (lift_ofChannels [samples] rate).symm
  | stereo left right rate => exact (lift_ofChannels [left, right] rate).symm
  | interleaved samples layout rate => exact (lift_ofInterleaved samples layout rate).symm
  | tone frequency amplitude seconds rate =>
    exact (lift_tone frequency amplitude seconds rate).symm
  | stereoTone left right amplitude seconds rate =>
    exact (lift_stereoTone left right amplitude seconds rate).symm
  | wave name bytes => exact (lift_ofContents name (Wave.contents name bytes)).symm
  | scanned scan name bytes => exact (lift_ofContents name (scan.contents name bytes)).symm
  | audio scan name bytes =>
    rw [run, build, Decoder.ofScanner]
    split
    · exact (lift_ofContents name (Wave.contents name bytes)).symm
    · exact (lift_ofContents name (scan.contents name bytes)).symm
  | resampled source target ih =>
    rw [run, build, ih]
    exact (lift_bind fun b ↦ lift_linear b target).symm
  | reduced source mode ih =>
    rw [run, build, ih]
    have hreduce (b : Buffer) : lift (.ok (b.reduce mode)) = b.parts.reduce mode :=
      (reduce_parts b mode).symm
    exact (lift_bind hreduce).symm
  | normalized source ih =>
    rw [run, build, ih]
    have hnormalize (b : Buffer) : lift (.ok b.normalize) = .ok b.parts.normalize :=
      congrArg Except.ok (normalize_parts b).symm
    exact (lift_bind hnormalize).symm
  | transcoded resample config source ihResample ih =>
    rw [run, build, ih]
    have hresample (b : Buffer) (target : UInt32) :
        lift (resample b.parts target).build = (resample b.parts target).run :=
      (ihResample b.parts target).symm
    exact (lift_bind fun b ↦ lift_transcode hresample config b).symm

/-- **Whatever buffers are made of and whatever is made of them, they keep their promises.**  A
recipe that is followed without relying on any promise leaves one or two equally long channels at a
positive rate, if it does not fail.  No assertion about the parts fails on the way, and no channel
is missing where one is taken out.  And it leaves the very channels and the rate of the buffer that
the operations on buffers leave, or fails with the same failure. -/
theorem run_sound (recipe : Recipe) :
    (∀ p, recipe.run = .ok p → p.Sound) ∧
      (∀ fault, recipe.run ≠ .error (.asserted fault)) ∧
      (∀ index, recipe.run ≠ .error (.noChannel index)) ∧
      recipe.run = lift recipe.build := by
  rw [run_eq]
  cases recipe.build with
  | error failure => exact ⟨nofun, nofun, nofun, rfl⟩
  | ok b =>
    refine ⟨fun p hp ↦ ?_, nofun, nofun, rfl⟩
    obtain rfl : b.parts = p := Except.ok.inj hp
    exact sound_parts b

/-- The assertions are alive: channels of different lengths do not pass the resampler. -/
example : Parts.resample ⟨[#[1], #[1, 2]], 8000⟩ 16000 = .error (.asserted .unequalLengths) := by
  decide +kernel

end Recipe
end WaveMill
