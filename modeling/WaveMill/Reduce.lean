import WaveMill.Buffer
import WaveMill.ChannelMode

/-!
# Bringing two channels down to one

A stereo buffer becomes mono by its left channel, its right channel or the mean of both.  A mono
buffer is already what every mode asks for.
-/

set_option autoImplicit false
namespace WaveMill
namespace Buffer

/-- The mean of two samples. -/
def mean (l r : Float32) : Float32 := (l + r) / 2

/-- The buffer of one channel that is as long as those of another buffer. -/
def single (b : Buffer) (channel : Channel) : Buffer where
  channels := [channel]
  rate := b.rate
  channels_ne_nil := by simp
  length_channels_le := by simp
  size_eq := by simp
  rate_pos := b.rate_pos

/-- The channels that a mode keeps of two. -/
def reduce (b : Buffer) (mode : ChannelMode) : Buffer :=
  match b.channels, mode with
  | [l, _], .left => b.single l
  | [_, r], .right => b.single r
  | [l, r], .mix => b.single (l.zipWith mean r)
  | _, _ => b

@[simp]
theorem reduce_both (b : Buffer) : b.reduce .both = b := by
  unfold reduce
  split <;> simp_all

@[simp]
theorem rate_reduce (b : Buffer) (mode : ChannelMode) : (b.reduce mode).rate = b.rate := by
  unfold reduce
  split <;> rfl

theorem reduce_of_mono {b : Buffer} {channel : Channel} (h : b.channels = [channel])
    (mode : ChannelMode) : b.reduce mode = b := by
  unfold reduce
  split <;> simp_all

end Buffer
end WaveMill
