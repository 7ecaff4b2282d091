import WaveMill.Buffer
import WaveMill.Number.Convert

/-!
# Linear resampling

A channel is brought to another rate by reading it at evenly spaced positions.  Between two samples
the value is interpolated along a straight line; behind the last sample the last sample is held.
Positions are `binary64` numbers, samples are `binary32` numbers.

## What is here

* `Resampler` — anything that brings a buffer to a rate, or says why not.
* `Resample.valueAt` — the value of a channel at a position.
* `Resample.channel` — a channel at another rate.
* `Resample.linear` — the resampler made of it.
-/

set_option autoImplicit false
namespace WaveMill

/-- A way to bring a buffer to another sample rate. -/
abbrev Resampler := Buffer → UInt32 → Outcome Buffer

namespace Resample

/-- A count as a `binary64` number. -/
def position (n : Nat) : Float := n.toUInt64.toFloat

/-- The greatest whole number that is not above `x`. -/
def wholePart (x : Float) : Nat := x.toUInt64.toNat

/-- The value at a position of a channel: a point on the line between its two neighbours, the last
sample behind all others, and zero behind that. -/
def valueAt (samples : Channel) (x : Float) : Float32 :=
  let i := wholePart x
  let t := Number.narrow (x - position i)
  if h : i + 1 < samples.size then samples[i] * (1 - t) + samples[i + 1] * t
  else if h : i < samples.size then samples[i]
  else 0

/-- The ratio of two rates. -/
def ratio (source target : UInt32) : Float := target.toFloat / source.toFloat

/-- The number of samples that a channel of `n` samples has after resampling. -/
def length (n : Nat) (ratio : Float) : Nat := Number.ceiling (position n * ratio)

/-- A channel with `ratio` samples for every one that it had. -/
def channel (ratio : Float) (samples : Channel) : Channel :=
  if samples.isEmpty then #[]
  else .ofFn fun i : Fin (length samples.size ratio) ↦ valueAt samples (position i / ratio)

theorem size_channel (ratio : Float) (samples : Channel) :
    (channel ratio samples).size = if samples.size = 0 then 0 else length samples.size ratio := by
  unfold channel
  split <;> simp_all

/-- Brings every channel of a buffer to the target rate.  A buffer that is already there stays as it
is, and a target of zero is refused first. -/
def linear : Resampler := fun b target ↦
  if h : target = 0 then .error (.resample .zeroTarget)
  else if b.rate = target then .ok b
  else .ok
    { channels := b.channels.map (channel (ratio b.rate target))
      rate := target
      channels_ne_nil := by simpa using b.channels_ne_nil
      length_channels_le := by simpa using b.length_channels_le
      size_eq := by
        intro c hc d hd
        obtain ⟨x, hx, rfl⟩ := List.mem_map.1 hc
        obtain ⟨y, hy, rfl⟩ := List.mem_map.1 hd
        rw [size_channel, size_channel, b.size_eq x hx y hy]
      rate_pos := by
        rw [UInt32.lt_iff_toNat_lt]
        have : target.toNat ≠ 0 := fun h0 ↦ h (UInt32.toNat_inj.1 h0)
        simp only [UInt32.toNat_zero]
        omega }

end Resample
end WaveMill
