import WaveMill.Proofs.Number.Packing
import WaveMill.Reduce

/-!
# Sums of samples

Adding samples takes no notice of their order, and a sum that starts from minus zero is the sum of
the samples alone.  That holds of all samples, of zeros of either sign, of infinities and of what is
not a number too, since there is only one sample that is not a number.

## What is here

* `Number.add_swap` — the order of two samples.
* `Number.minusZero_add_add` — minus zero in front of a sum.
-/

set_option autoImplicit false
namespace WaveMill
namespace Number

open Float.Model (Format UnpackedFloat)
open Float.Model.UnpackedFloat

/-- Two numbers are brought to one exponent before they are added. -/
theorem unpacked_add_finite (S : Format) (s t : Sign) (m n : Nat) (e f : Int) (hm : 0 < m)
    (hn : 0 < n) :
    UnpackedFloat.add S (.finite s m e hm) (.finite t n f hn) =
      normalize S (s.apply (decreaseExponent m e (min e f)).1 +
        t.apply (decreaseExponent n f (min e f)).1) (min e f) .positive :=
  rfl

/-- Whichever of two numbers comes first, they are brought to the same exponent. -/
theorem unpacked_add_swap (S : Format) (a b : UnpackedFloat) :
    UnpackedFloat.add S a b = UnpackedFloat.add S b a := by
  cases a with
  | notANumber => cases b <;> rfl
  | infinity s =>
    cases b with
    | infinity t => cases s <;> cases t <;> rfl
    | notANumber => rfl
    | zero => rfl
    | finite => rfl
  | zero s =>
    cases b with
    | zero t => cases s <;> cases t <;> rfl
    | notANumber => rfl
    | infinity => rfl
    | finite => rfl
  | finite s m e hm =>
    cases b with
    | finite t n f hn =>
      rw [unpacked_add_finite, unpacked_add_finite, Int.min_comm f e, Int.add_comm]
    | notANumber => rfl
    | infinity => rfl
    | zero => rfl

theorem add_swap (x y : Float32) : x + y = y + x := by
  show Float32.ofModel (Float32.Model.pack _) = Float32.ofModel (Float32.Model.pack _)
  rw [unpacked_add_swap]

/-- Minus zero changes nothing that it is added to, not even the sign of a zero. -/
theorem unpacked_minusZero_add (S : Format) (a : UnpackedFloat) :
    UnpackedFloat.add S (.zero .negative) a = a := by
  cases a with
  | notANumber => rfl
  | infinity => rfl
  | zero s => cases s <;> rfl
  | finite => rfl

/-- What a sample is read as is read again when it has been packed. -/
theorem unpack_pack_unpack (x : Float32.Model) :
    (Float32.Model.pack x.unpack).unpack = x.unpack := by
  rcases unpack_cases (S := .binary32) x.toBits.toBitVec with ⟨s, hs⟩ | hnan | ⟨s, a, ha, hlt⟩
  · have hread : x.unpack = .infinity s := hs
    rw [hread]
    exact unpack_packedInfinity
  · have hread : x.unpack = .notANumber := hnan
    rw [hread]
    rfl
  · exact unpack_pack_of_lt (by decide) ha hlt

/-- A sum that starts from minus zero is the sum of the samples alone. -/
theorem minusZero_add_add (x y : Float32) : -0 + x + y = x + y := by
  have hread : (-0 + x).toModel.unpack = x.toModel.unpack := by
    show (Float32.Model.pack (UnpackedFloat.add .binary32 (.zero .negative)
      x.toModel.unpack)).unpack = _
    rw [unpacked_minusZero_add, unpack_pack_unpack]
  show Float32.ofModel (Float32.Model.pack (UnpackedFloat.add .binary32
    (-0 + x).toModel.unpack y.toModel.unpack)) = _
  rw [hread]
  rfl

end Number

/-- The mean of two samples takes no notice of their order. -/
theorem Buffer.mean_swap (l r : Float32) : mean l r = mean r l := by
  rw [mean, mean, Number.add_swap]

end WaveMill
