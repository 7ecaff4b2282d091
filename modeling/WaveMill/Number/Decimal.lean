import WaveMill.Number.Convert

/-!
# One decimal place

Sizes are shown in megabytes with one digit after the point.  The digit is found in exact arithmetic
from the binary value, and a value half way between two tenths goes to the even one.
-/

set_option autoImplicit false
namespace WaveMill
namespace Number

/-- A number of tenths with its point: `125` is written `12.5`. -/
def writeTenths (tenths : Nat) : String := s!"{tenths / 10}.{tenths % 10}"

/-- A number that is not negative, to the nearest tenth. -/
def oneDecimal (x : Float) : String :=
  writeTenths (toNatBy (fun num den ↦ quotientEven (num * 10) den) x)

end Number
end WaveMill
