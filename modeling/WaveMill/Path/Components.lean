import WaveMill.Path

/-!
# The components of paths

Paths are put in order component by component, and not character by character: what is below a
directory comes all together.  A slash is no part of a component, so `a/x` comes before `a-b`,
although a dash comes before a slash.

## What is here

* `Path.Component` — what paths are made of when they are compared, in its order.
* `Path.components` — the components of a path.
-/

set_option autoImplicit false
namespace WaveMill
namespace Path

/-- What a path is made of when it is compared with another one. -/
inductive Component where
  /-- The slash at the very beginning. -/
  | root
  /-- A dot at the very beginning.  Any other dot says nothing. -/
  | here
  | up
  | name (text : String)
  deriving DecidableEq, Repr

namespace Component

/-- The order of components of different kinds. -/
def rank : Component → Nat
  | root => 0
  | here => 1
  | up => 2
  | name _ => 3

/-- The text of a name. -/
def text : Component → String
  | name text => text
  | _ => ""

/-- The names come last, and are in the order of texts. -/
instance : LT Component where
  lt a b := a.rank < b.rank ∨ a.rank = b.rank ∧ a.text < b.text

instance : DecidableLT Component := fun a b ↦
  inferInstanceAs (Decidable (a.rank < b.rank ∨ a.rank = b.rank ∧ a.text < b.text))

/-- What a step says. -/
def ofStep (step : String) : Component := if step = ".." then up else name step

end Component

/-- The components of a path. -/
def components (path : String) : List Component :=
  let start := if isAbsolute path then [.root]
    else if (steps path).head? = some "." then [.here] else []
  start ++ (names path).map .ofStep

end Path
end WaveMill
