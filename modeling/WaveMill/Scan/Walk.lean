import WaveMill.Bytes.Reader
import WaveMill.Failure
import WaveMill.Scan.Coding

/-!
# Walking through a container

The scanner goes through a container from its front to its back.  It stops where the container is
damaged, and where a count does not fit the word that it is kept in.

## What is here

* `Scan.Stop` — why a walk stopped.
* `Scan.Walk` — readers that stop for such a reason, with `take`, `skip`, `word` and `byte` for what
  is in the container, and `require` and `abortIf` for what has to hold.
-/

set_option autoImplicit false
namespace WaveMill
namespace Scan

/-- Why a walk stopped: the container is damaged, or there is no answer. -/
inductive Stop where
  | fault (fault : DecodeFault)
  | abort (abort : Abort)
  deriving DecidableEq, Repr

/-- Takes a value from the front of a container. -/
abbrev Walk (α : Type) := Reader Stop α

/-- The container is not one that is known. -/
def unknown : Stop := .fault .unrecognized

/-- The next `n` bytes. -/
def take (n : Nat) : Walk Bytes := Reader.take unknown n

/-- Passes over `n` bytes. -/
def skip (n : Nat) : Walk Unit := Reader.skip unknown n

/-- The number that the next `n` bytes write. -/
def word (order : ByteOrder) (n : Nat) : Walk Nat := order.value <$> take n

/-- The number that the next byte writes. -/
def byte : Walk Nat := word .little 1

/-- Stops if the condition does not hold. -/
def require (condition : Prop) [Decidable condition] : Walk Unit :=
  if condition then pure () else throw unknown

/-- Stops without an answer if the condition holds. -/
def abortIf (condition : Prop) [Decidable condition] (abort : Abort) : Walk Unit :=
  if condition then throw (.abort abort) else pure ()

end Scan
end WaveMill
