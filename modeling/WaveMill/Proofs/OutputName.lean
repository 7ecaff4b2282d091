import WaveMill.Proofs.Path
import WaveMill.Proofs.Text.Encoding

/-!
# Which names have the same output name

Two files of a batch get in each other's way exactly if their names are the same without their
extensions.  What an extension is has to be said without looking for a last dot: letters and digits
behind a dot, at the very end.  There are no dots among them, so the last dot is the one in front.

Names are texts in UTF-8, and where a dot stands can be told by an offset in bytes as well.  The
name is cut there, and to cut it inside of a character would be an error.  It does not occur, since
the byte of a dot is in no other character.

## What is here

* `OutputName.Extended` — a name with an extension; `OutputName.Bare` — what is left of a name
  without it, and `OutputName.bare_iff`.
* `OutputName.byOffset?` — the output name, found by offsets, and `OutputName.byOffset?_eq`.
* `outputName_eq_iff_bare` — which output name a name has, and which other names have the same.
-/

set_option autoImplicit false
namespace WaveMill
namespace OutputName

variable {name rest ext : String}

/-! ## The last dot -/

theorem toList_append_dot (rest ext : String) :
    (rest ++ "." ++ ext).toList = rest.toList ++ '.' :: ext.toList := by
  simp

theorem exists_last_dot (h : '.' ∈ name.toList) :
    ∃ rest ext : String, '.' ∉ ext.toList ∧ name = rest ++ "." ++ ext := by
  cases hsplit : Text.splitLast '.' name.toList with
  | none => exact absurd h (Text.splitLast_eq_none_iff.1 hsplit)
  | some split =>
    obtain ⟨before, behind⟩ := split
    obtain ⟨hname, hbehind⟩ := Text.splitLast_eq_some_iff.1 hsplit
    refine ⟨.ofList before, .ofList behind, by rwa [String.toList_ofList], ?_⟩
    rw [← String.toList_inj, hname, toList_append_dot, String.toList_ofList, String.toList_ofList]

theorem outputName_of_dot_notMem (h : '.' ∉ name.toList) : outputName name = name ++ ".wav" := by
  rw [outputName, stem, Text.splitLast_eq_none_iff.2 h, String.ofList_append,
    String.ofList_toList, String.ofList_toList]

theorem outputName_append_dot (h : '.' ∉ ext.toList) :
    outputName (rest ++ "." ++ ext) =
      if isExtension ext.toList then rest ++ ".wav" else rest ++ "." ++ ext ++ ".wav" := by
  have hsplit : Text.splitLast '.' (rest ++ "." ++ ext).toList = some (rest.toList, ext.toList) :=
    Text.splitLast_eq_some_iff.2 ⟨toList_append_dot rest ext, h⟩
  rw [outputName, stem, hsplit]
  dsimp only
  split
  · rw [String.ofList_append, String.ofList_toList, String.ofList_toList]
  · rw [String.ofList_append, String.ofList_toList, String.ofList_toList]

/-! ## Extensions -/

/-- A name that ends in a dot and letters and digits, and what stands in front of the dot. -/
structure Extended (name rest ext : String) : Prop where
  nonempty : ext ≠ ""
  letters : ∀ c ∈ ext.toList, c.isAlphanum = true
  eq : name = rest ++ "." ++ ext

/-- What is left of a name without its extension, if it has one. -/
inductive Bare (name : String) : String → Prop where
  | cut {rest ext : String} (h : Extended name rest ext) : Bare name rest
  | whole (h : ∀ rest ext, ¬Extended name rest ext) : Bare name name

theorem isExtension_iff : isExtension ext.toList = true ↔
    ext ≠ "" ∧ ∀ c ∈ ext.toList, c.isAlphanum = true := by
  simp [isExtension]

/-- The dot in front of an extension is the last one. -/
theorem outputName_of_extended (h : Extended name rest ext) : outputName name = rest ++ ".wav" := by
  have hdot : '.' ∉ ext.toList := fun hdot ↦ absurd (h.letters '.' hdot) (by decide)
  rw [h.eq, outputName_append_dot hdot, if_pos (isExtension_iff.2 ⟨h.nonempty, h.letters⟩)]

theorem outputName_of_not_extended (h : ∀ rest ext, ¬Extended name rest ext) :
    outputName name = name ++ ".wav" := by
  by_cases hdot : '.' ∈ name.toList
  · obtain ⟨rest, ext, hlast, rfl⟩ := exists_last_dot hdot
    rw [outputName_append_dot hlast, if_neg]
    intro hext
    obtain ⟨hne, hletters⟩ := isExtension_iff.1 hext
    exact h rest ext ⟨hne, hletters, rfl⟩
  · exact outputName_of_dot_notMem hdot

/-- A name without its extension is what its output name begins with. -/
theorem bare_iff : Bare name rest ↔ outputName name = rest ++ ".wav" := by
  constructor
  · rintro (h | h)
    · exact outputName_of_extended h
    · exact outputName_of_not_extended h
  · intro hname
    by_cases h : ∃ rest ext, Extended name rest ext
    · obtain ⟨front, ext, h⟩ := h
      obtain rfl : front = rest :=
        (String.append_left_inj _).1 ((outputName_of_extended h).symm.trans hname)
      exact .cut h
    · have hnone : ∀ rest ext, ¬Extended name rest ext := fun rest ext hext ↦ h ⟨rest, ext, hext⟩
      obtain rfl : name = rest :=
        (String.append_left_inj _).1 ((outputName_of_not_extended hnone).symm.trans hname)
      exact .whole hnone

theorem exists_bare (name : String) : ∃ rest, Bare name rest := by
  refine ⟨.ofList (stem name.toList), bare_iff.2 ?_⟩
  rw [outputName, String.ofList_append, String.ofList_toList]

theorem bare_wav (rest : String) : Bare (rest ++ ".wav") rest := by
  obtain ⟨hne, hletters⟩ := isExtension_iff.1 (show isExtension "wav".toList = true by decide)
  have h : Extended (rest ++ ".wav") rest "wav" := ⟨hne, hletters, by rw [String.append_assoc]; rfl⟩
  exact .cut h

/-! ## Cutting by offsets -/

/-- The output name, found by the offset of the last dot among the bytes of the name.  There is none
if the name is cut inside of a character. -/
def byOffset? (name : String) : Option String :=
  match Bytes.lastOffset? 0x2e (Bytes.ofText name) with
  | none => some (name ++ ".wav")
  | some dot =>
    if dot + 1 < name.utf8ByteSize then do
      let (_, ext) ← Text.cut? name (dot + 1)
      if ext.toList.all Char.isAlphanum then
        let (rest, _) ← Text.cut? name dot
        return rest ++ ".wav"
      else return name ++ ".wav"
    else some (name ++ ".wav")

theorem dot_mem_ofText_iff {text : String} : 0x2e ∈ Bytes.ofText text ↔ '.' ∈ text.toList :=
  Bytes.mem_ofText_iff rfl (by decide)

/-- The name is cut in front of its last dot and right behind it. -/
theorem byOffset?_append_dot (h : '.' ∉ ext.toList) :
    byOffset? (rest ++ "." ++ ext) = some (outputName (rest ++ "." ++ ext)) := by
  have hbytes : Bytes.ofText (rest ++ "." ++ ext) =
      Bytes.ofText rest ++ 0x2e :: Bytes.ofText ext := by
    rw [Bytes.ofText_append, Bytes.ofText_append, List.append_assoc]
    rfl
  have hlast : Bytes.lastOffset? 0x2e (Bytes.ofText (rest ++ "." ++ ext)) =
      some rest.utf8ByteSize := by
    rw [hbytes, Bytes.lastOffset?_append (mt dot_mem_ofText_iff.1 h), Bytes.length_ofText]
  have hbehind : Text.cut? (rest ++ "." ++ ext) (rest.utf8ByteSize + 1) =
      some (rest ++ ".", ext) := by
    rw [← Text.cut?_append, String.utf8ByteSize_append]
    rfl
  have hbefore : Text.cut? (rest ++ "." ++ ext) rest.utf8ByteSize = some (rest, "." ++ ext) := by
    rw [← Text.cut?_append, String.append_assoc]
  have hsize : (rest ++ "." ++ ext).utf8ByteSize = rest.utf8ByteSize + 1 + ext.utf8ByteSize := by
    rw [String.utf8ByteSize_append, String.utf8ByteSize_append]
    rfl
  rw [byOffset?, hlast, outputName_append_dot h]
  simp only [hbehind, hbefore, hsize]
  by_cases hempty : ext = ""
  · subst hempty
    exact if_neg (Nat.lt_irrefl _)
  · have hpos : 0 < ext.utf8ByteSize :=
      Nat.pos_of_ne_zero (mt String.utf8ByteSize_eq_zero_iff.1 hempty)
    have hletters : isExtension ext.toList = ext.toList.all Char.isAlphanum := by
      simp [isExtension, hempty]
    rw [if_pos (Nat.lt_add_of_pos_right hpos), hletters]
    cases hall : ext.toList.all Char.isAlphanum with
    | true =>
      simp only [Option.bind_eq_bind, Option.bind_some, hall, if_true]
      rfl
    | false =>
      simp only [Option.bind_eq_bind, Option.bind_some, hall]
      rfl

/-- **A name is never cut inside of a character**, and the offsets lead to the output name. -/
theorem byOffset?_eq (name : String) : byOffset? name = some (outputName name) := by
  by_cases hdot : '.' ∈ name.toList
  · obtain ⟨rest, ext, hlast, rfl⟩ := exists_last_dot hdot
    exact byOffset?_append_dot hlast
  · rw [byOffset?, Bytes.lastOffset?_eq_none (mt dot_mem_ofText_iff.1 hdot),
      outputName_of_dot_notMem hdot]

end OutputName

open OutputName

/-- **Two names have the same output name exactly if they are the same without their extensions.**
The output name is what is left of a name without its extension, with the extension of a wave file;
a name that has this extension is its own output name.  The output name can be found by offsets in
bytes, without cutting a name inside of a character. -/
theorem outputName_eq_iff_bare (a b : String) :
    (∃ rest, (∀ other, Bare a other ↔ other = rest) ∧ outputName a = rest ++ ".wav") ∧
      (∀ rest, outputName (rest ++ ".wav") = rest ++ ".wav") ∧
      outputName (outputName a) = outputName a ∧
      (outputName a = outputName b ↔ ∃ rest, Bare a rest ∧ Bare b rest) ∧
      byOffset? a = some (outputName a) := by
  obtain ⟨rest, hrest⟩ := exists_bare a
  have hname := bare_iff.1 hrest
  have hwav (rest : String) : outputName (rest ++ ".wav") = rest ++ ".wav" :=
    bare_iff.1 (bare_wav rest)
  refine ⟨⟨rest, fun other ↦ ?_, hname⟩, hwav, ?_, ⟨fun hsame ↦ ?_, ?_⟩, byOffset?_eq a⟩
  · rw [bare_iff, hname, String.append_left_inj, eq_comm]
  · rw [hname, hwav]
  · exact ⟨rest, hrest, bare_iff.2 (hsame.symm.trans hname)⟩
  · rintro ⟨front, ha, hb⟩
    rw [bare_iff.1 ha, bare_iff.1 hb]

example : outputName "ü.tar.gz" = "ü.tar.wav" ∧ outputName "ü.tar." = "ü.tar..wav" := by decide

end WaveMill
