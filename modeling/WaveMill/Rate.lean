/-!
# Sample rates

A conversion may ask for any whole number of samples per second between two limits.  Audio that
comes in may have any positive rate.
-/

set_option autoImplicit false
namespace WaveMill
namespace Rate

/-- The lowest sample rate a conversion may ask for, in Hz. -/
def lowest : UInt32 := 8000

/-- The highest sample rate a conversion may ask for, in Hz. -/
def highest : UInt32 := 64000

/-- Whether a conversion may ask for the rate. -/
def accepted (rate : UInt32) : Bool := lowest ≤ rate && rate ≤ highest

theorem accepted_iff {rate : UInt32} :
    accepted rate = true ↔ 8000 ≤ rate.toNat ∧ rate.toNat ≤ 64000 := by
  simp [accepted, lowest, highest, UInt32.le_iff_toNat_le]

end Rate
end WaveMill
