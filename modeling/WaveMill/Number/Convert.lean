/-!
# Conversions between numbers

Samples are numbers of the format `binary32`, times and ratios are of the format `binary64`, and
both have to become whole numbers now and then.  Core gives each format a model, a sign, a natural
mantissa and an exponent of two, and defines the arithmetic on it; the conversions between formats
and the roundings to whole numbers are defined here on the same model, in exact arithmetic.

## What is here

* `Number.widen`, `Number.narrow` — the nearest number of the other format.
* `Number.ofInt32` — the nearest `binary32` number to an integer.
* `Number.ceiling`, `Number.nearest` — a `binary64` number as a natural number, rounded up, or to
  the nearest with halves away from zero.  Numbers below zero and NaN give `0`; numbers too large
  for a word of 64 bits give its largest value.
* `Number.nanoseconds` — seconds as whole nanoseconds, halves to even.
-/

set_option autoImplicit false
namespace WaveMill
namespace Number

open Float.Model (Format UnpackedFloat)

/-- The number of the given format that is nearest to a value; between two equally near ones, the
one with the even mantissa. -/
def inFormat (format : Format) : UnpackedFloat → UnpackedFloat
  | .finite sign mantissa exponent _ => .round format sign mantissa exponent
  | value => value

/-- A sample as a `binary64` number.  Each `binary32` number is one, so nothing is lost. -/
def widen (x : Float32) : Float := .ofModel (.pack (inFormat .binary64 x.toModel.unpack))

/-- The `binary32` number that is nearest to a `binary64` number. -/
def narrow (x : Float) : Float32 := .ofModel (.pack (inFormat .binary32 x.toModel.unpack))

/-- The `binary32` number that is nearest to an integer. -/
def ofInt32 (n : Int) : Float32 := .ofModel (.ofInt n)

/-- The nearest integer towards zero, as a word of 16 bits; NaN gives `0`, and numbers out of range
give the nearest end of the range. -/
def truncate16 (x : Float32) : Int16 := x.toModel.toInt16

/-- The largest word of 64 bits. -/
def maxWord : Nat := UInt64.size - 1

/-- A natural number from the exact quotient that a `binary64` number is, by way of `round`. -/
def toNatBy (round : Nat → Nat → Nat) (x : Float) : Nat :=
  match x.toModel.unpack with
  | .finite .positive mantissa exponent _ =>
    min (round (mantissa * Nat.pow 2 exponent.toNat) (Nat.pow 2 (-exponent).toNat)) maxWord
  | .infinity .positive => maxWord
  | _ => 0

/-- The quotient rounded up. -/
def quotientUp (num den : Nat) : Nat := (num + den - 1) / den

/-- The quotient rounded to the nearest whole number, halves up. -/
def quotientNearest (num den : Nat) : Nat := (2 * num + den) / (2 * den)

/-- The quotient rounded to the nearest whole number, halves to the even neighbour. -/
def quotientEven (num den : Nat) : Nat :=
  let q := num / den
  let r := 2 * (num % den)
  if r < den ∨ (r = den ∧ q % 2 = 0) then q else q + 1

/-- The least natural number that is not below `x`. -/
def ceiling (x : Float) : Nat := toNatBy quotientUp x

/-- The natural number nearest to `x`, halves away from zero. -/
def nearest (x : Float) : Nat := toNatBy quotientNearest x

/-- Seconds as the nearest whole number of nanoseconds. -/
def nanoseconds (x : Float) : Nat := toNatBy (fun num den ↦ quotientEven (num * 1000000000) den) x

theorem quotientUp_le_iff {num den n : Nat} (h : 0 < den) :
    quotientUp num den ≤ n ↔ num ≤ n * den := by
  rw [quotientUp, Nat.le_iff_lt_add_one, Nat.div_lt_iff_lt_mul h, Nat.add_mul, Nat.one_mul]
  omega

end Number
end WaveMill
