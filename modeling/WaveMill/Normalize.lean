import WaveMill.Buffer

/-!
# Peak normalization

The loudest sample of a buffer is brought to full scale by multiplying every sample by one over the
peak.  A buffer whose peak is already at full scale or above is left alone, and so is a silent one.
Peaks a hair below full scale count as full scale, since rounding may leave a normalized buffer
there.
-/

set_option autoImplicit false
namespace WaveMill
namespace Buffer

/-- The distance from `1` to the next larger `binary32` number. -/
def epsilon : Float32 := .ofBits 0x34000000

/-- The least peak that counts as full scale. -/
def fullScale : Float32 := 1 - 2 * epsilon

/-- What normalization did. -/
inductive Normalization where
  /-- Every sample was multiplied by `gain`. -/
  | scaled (gain : Float32)
  /-- The peak was already at full scale. -/
  | alreadyFullScale (peak : Float32)
  /-- There was nothing but silence. -/
  | silent
  deriving DecidableEq

/-- What normalization does to a buffer. -/
def normalization (b : Buffer) : Normalization :=
  if fullScale ≤ b.peak then .alreadyFullScale b.peak
  else if b.peak ≤ 0 then .silent
  else .scaled (1 / b.peak)

/-- The buffer with its loudest sample at full scale. -/
def normalize (b : Buffer) : Buffer :=
  match b.normalization with
  | .scaled gain => b.mapSamples (· * gain)
  | _ => b

@[simp]
theorem rate_normalize (b : Buffer) : b.normalize.rate = b.rate := by
  unfold normalize
  split <;> rfl

@[simp]
theorem length_channels_normalize (b : Buffer) :
    b.normalize.channels.length = b.channels.length := by
  unfold normalize
  split <;> simp [mapSamples]

end Buffer
end WaveMill
