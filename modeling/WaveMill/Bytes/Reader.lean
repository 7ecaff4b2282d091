import WaveMill.Bytes

/-!
# Reading fields one after the other

A reader takes what it needs from the front of some bytes and leaves the rest.  It fails with a
value of its own choice when the bytes run out.
-/

set_option autoImplicit false
namespace WaveMill

/-- Takes a value from the front of some bytes, or fails with a fault. -/
abbrev Reader (ε α : Type) := StateT Bytes (Except ε) α

namespace Reader

variable {ε : Type}

/-- The next `n` bytes; `fault` if there are not that many. -/
def take (fault : ε) (n : Nat) : Reader ε Bytes := fun bytes ↦
  match bytes.split? n with
  | some (head, rest) => .ok (head, rest)
  | none => .error fault

/-- The number that the next `n` bytes write, least significant byte first. -/
def little (fault : ε) (n : Nat) : Reader ε Nat := Bytes.little <$> take fault n

/-- The number that the next `n` bytes write, most significant byte first. -/
def big (fault : ε) (n : Nat) : Reader ε Nat := Bytes.big <$> take fault n

/-- Passes over `n` bytes. -/
def skip (fault : ε) (n : Nat) : Reader ε Unit := fun bytes ↦
  match bytes.split? n with
  | some (_, rest) => .ok ((), rest)
  | none => .error fault

/-- Passes over `n` bytes, or over all that are left if they are fewer. -/
def skipUpTo (n : Nat) : Reader ε Unit := fun bytes ↦ .ok ((), bytes.drop n)

/-- All bytes that are left. -/
def rest : Reader ε Bytes := fun bytes ↦ .ok (bytes, bytes)

theorem take_append (fault : ε) (head rest : Bytes) :
    (take fault head.length).run (head ++ rest) = .ok (head, rest) := by
  simp [StateT.run, take, Bytes.split?_append]

end Reader

/-- A file as so many values of the same width, one after the other; `fault` if it ends before the
last of them is complete. -/
def Bytes.readMany {ε α : Type} (fault : ε) (width : Nat) (value : Bytes → α) :
    Nat → Bytes → Array α → Except ε (Array α)
  | 0, _, done => .ok done
  | n + 1, bytes, done =>
    match bytes.split? width with
    | some (head, rest) => readMany fault width value n rest (done.push (value head))
    | none => .error fault

end WaveMill
