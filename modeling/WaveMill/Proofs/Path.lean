import WaveMill.OutputName
import WaveMill.Path

/-!
# What a path ends in

Only the last name of an output name decides under which path a file is written.  A text that is a
name itself is the last name of the path that it is, and continuing one path by different names
gives different paths.  Which name is the last one can be seen in the text: it stands at the
beginning or behind a slash, and there is nothing behind it but slashes and single dots.

## What is here

* `Path.fileName?_of_isName`, `Path.isName_of_fileName?` — names are their own last names, and last
  names are names.
* `Path.EndsIn` and `Path.fileName?_eq_some_iff` — the last name, as it stands in the text.
* `Path.join_inj` — different names lead to different paths; `Path.steps_join_append` and
  `Path.isAbsolute_join_of_relative` — a path that is continued.
* `isName_outputName` — the output name of a name without a slash is a name.
-/

set_option autoImplicit false
namespace WaveMill
namespace Path

theorem isName_iff {name : String} :
    isName name = true ↔ name ≠ "" ∧ name ≠ "." ∧ name ≠ ".." ∧ '/' ∉ name.toList := by
  simp [isName, isIdle, and_assoc]

/-- No part of a path contains the mark at which the path was cut. -/
theorem not_mem_of_mem_splitOn {mark : Char} {cs part : List Char} (h : part ∈ cs.splitOn mark) :
    mark ∉ part := by
  induction cs generalizing part with
  | nil =>
    rw [List.splitOn_nil, List.mem_singleton] at h
    simp [h]
  | cons c cs ih =>
    rw [List.splitOn_cons_eq_if_modifyHead] at h
    split at h
    · rcases List.mem_cons.1 h with rfl | h
      · simp
      · exact ih h
    · rename_i hc
      cases hparts : cs.splitOn mark with
      | nil => exact absurd hparts (List.splitOn_ne_nil mark cs)
      | cons first rest =>
        rw [hparts, List.modifyHead_cons] at h
        rcases List.mem_cons.1 h with rfl | h
        · have hne : mark ≠ c := by
            rintro rfl
            simp at hc
          have hfirst : mark ∉ first := ih (by rw [hparts]; exact List.mem_cons_self)
          simp [hne, hfirst]
        · exact ih (by rw [hparts]; exact List.mem_cons_of_mem _ h)

/-- The last name of a path is the name of an entry. -/
theorem isName_of_fileName? {path name : String} (h : fileName? path = some name) :
    isName name = true := by
  obtain ⟨hlast, hup⟩ := Option.filter_eq_some_iff.1 h
  obtain ⟨hstep, hidle⟩ := List.mem_filter.1 (List.mem_of_getLast? hlast)
  obtain ⟨part, hpart, rfl⟩ := List.mem_map.1 hstep
  have hslash := not_mem_of_mem_splitOn hpart
  rw [Bool.not_eq_true'] at hidle
  rw [isName, String.toList_ofList, hidle]
  simpa [hslash] using hup

theorem steps_eq_singleton {name : String} (h : '/' ∉ name.toList) : steps name = [name] := by
  rw [steps, List.splitOn_eq_singleton h, List.map_singleton, String.ofList_toList]

/-- A name is its own last name. -/
theorem fileName?_of_isName {name : String} (h : isName name = true) :
    fileName? name = some name := by
  obtain ⟨hempty, hdot, hup, hslash⟩ := isName_iff.1 h
  have hidle : isIdle name = false := by simp [isIdle, hempty, hdot]
  simp [fileName?, names, steps_eq_singleton hslash, hidle, hup]

/-! ## The last name in the text -/

/-- What says nothing behind a name: slashes, and between them single dots at most. -/
inductive Idling : List Char → Prop where
  | nil : Idling []
  | slash {cs : List Char} (h : Idling cs) : Idling ('/' :: cs)
  | dot {cs : List Char} (h : Idling cs) : Idling ('/' :: '.' :: cs)

/-- The text of a path ends in a name, apart from what says nothing. -/
def EndsIn (path name : String) : Prop :=
  isName name = true ∧ ∃ before behind, path.toList = before ++ name.toList ++ behind ∧
    (∀ c ∈ before.getLast?, c = '/') ∧ Idling behind

theorem isIdle_ofList_iff {part : List Char} :
    isIdle (.ofList part) = true ↔ part = [] ∨ part = ['.'] := by
  simp [isIdle, String.ext_iff]

theorem idling_flatMap {parts : List (List Char)} (h : ∀ part ∈ parts, part = [] ∨ part = ['.']) :
    Idling (parts.flatMap ('/' :: ·)) := by
  induction parts with
  | nil => exact .nil
  | cons part rest ih =>
    have hrest := ih fun p hp ↦ h p (List.mem_cons_of_mem _ hp)
    rw [List.flatMap_cons]
    rcases h part List.mem_cons_self with rfl | rfl
    · exact .slash hrest
    · exact .dot hrest

/-- Behind a name that is followed by nothing that says anything, all parts are empty or dots. -/
theorem Idling.splitOn_append {behind : List Char} (h : Idling behind) {name : List Char}
    (hname : '/' ∉ name) :
    ∃ parts, (name ++ behind).splitOn '/' = name :: parts ∧
      ∀ part ∈ parts, part = [] ∨ part = ['.'] := by
  induction h generalizing name with
  | nil => exact ⟨[], by rw [List.append_nil, List.splitOn_eq_singleton hname], by simp⟩
  | @slash cs _ ih =>
    obtain ⟨parts, hparts, hidle⟩ := ih List.not_mem_nil
    rw [List.nil_append] at hparts
    rw [List.splitOn_append_cons_self_of_not_mem hname, hparts]
    exact ⟨_, rfl, List.forall_mem_cons.2 ⟨.inl rfl, hidle⟩⟩
  | @dot cs _ ih =>
    obtain ⟨parts, hparts, hidle⟩ := ih (show '/' ∉ ['.'] by decide)
    rw [List.singleton_append] at hparts
    rw [List.splitOn_append_cons_self_of_not_mem hname, hparts]
    exact ⟨_, rfl, List.forall_mem_cons.2 ⟨.inr rfl, hidle⟩⟩

/-- A text around one of its parts. -/
theorem intercalate_append_cons (mark : Char) (first : List (List Char)) (part : List Char)
    (rest : List (List Char)) :
    [mark].intercalate (first ++ part :: rest) =
      first.flatMap (· ++ [mark]) ++ part ++ rest.flatMap (mark :: ·) := by
  induction first with
  | nil =>
    rw [List.nil_append, List.flatMap_nil, List.nil_append]
    induction rest generalizing part with
    | nil => simp
    | cons next rest ih => simp [List.intercalate_cons_cons, ih]
  | cons other first ih =>
    rw [List.cons_append, List.flatMap_cons]
    cases hnext : first ++ part :: rest with
    | nil => simp at hnext
    | cons next more =>
      rw [List.intercalate_cons_cons, ← hnext, ih]
      simp

/-- The last name of a path is the last part that says something. -/
theorem fileName?_eq_some_iff_steps {path name : String} :
    fileName? path = some name ↔ isName name = true ∧
      ∃ before behind, steps path = before ++ name :: behind ∧
        ∀ step ∈ behind, isIdle step = true := by
  constructor
  · intro h
    refine ⟨isName_of_fileName? h, ?_⟩
    obtain ⟨names, hnames⟩ := List.getLast?_eq_some_iff.1 (Option.filter_eq_some_iff.1 h).1
    obtain ⟨before, last, hsteps, -, hlast⟩ := List.filter_eq_append_iff.1 hnames
    obtain ⟨idle, behind, rfl, -, -, hbehind⟩ := List.filter_eq_cons_iff.1 hlast
    refine ⟨before ++ idle, behind, by rw [hsteps, List.append_assoc], fun step hstep ↦ ?_⟩
    simpa using List.filter_eq_nil_iff.1 hbehind step hstep
  · rintro ⟨hname, before, behind, hsteps, hidle⟩
    have hbehind : behind.filter (fun step ↦ !isIdle step) = [] :=
      List.filter_eq_nil_iff.2 fun step hstep ↦ by simp [hidle step hstep]
    obtain ⟨hempty, hdot, hup, -⟩ := isName_iff.1 hname
    have hself : isIdle name = false := by simp [isIdle, hempty, hdot]
    simp [fileName?, names, hsteps, hbehind, hself, hup]

/-- The last name of a path is the one that its text ends in. -/
theorem fileName?_eq_some_iff {path name : String} :
    fileName? path = some name ↔ EndsIn path name := by
  rw [fileName?_eq_some_iff_steps, EndsIn]
  refine and_congr_right fun hname ↦ ?_
  have hslash := (isName_iff.1 hname).2.2.2
  constructor
  · rintro ⟨before, behind, hsteps, hidle⟩
    obtain ⟨first, last, hparts, rfl, hlast⟩ := List.map_eq_append_iff.1 hsteps
    obtain ⟨part, rest, rfl, rfl, rfl⟩ := List.map_eq_cons_iff.1 hlast
    refine ⟨first.flatMap (· ++ ['/']), rest.flatMap ('/' :: ·), ?_, ?_, idling_flatMap ?_⟩
    · rw [String.toList_ofList, ← intercalate_append_cons, ← hparts, List.intercalate_splitOn]
    · intro c hc
      rcases first.eq_nil_or_concat with rfl | ⟨first, part, rfl⟩
      · cases hc
      · simpa [eq_comm] using hc
    · exact fun part hpart ↦ isIdle_ofList_iff.1 (hidle _ (List.mem_map_of_mem hpart))
  · rintro ⟨before, behind, hpath, hbefore, hbehind⟩
    obtain ⟨parts, hparts, hidle⟩ := hbehind.splitOn_append hslash
    have hidle : ∀ step ∈ parts.map String.ofList, isIdle step = true :=
      List.forall_mem_map.2 fun part hpart ↦ isIdle_ofList_iff.2 (hidle part hpart)
    rw [steps, hpath, List.append_assoc]
    rcases before.eq_nil_or_concat with rfl | ⟨before, c, rfl⟩
    · refine ⟨[], _, ?_, hidle⟩
      rw [List.nil_append, hparts, List.map_cons, String.ofList_toList, List.nil_append]
    · obtain rfl : c = '/' := hbefore c (by simp)
      refine ⟨(before.splitOn '/').map .ofList, _, ?_, hidle⟩
      rw [List.concat_eq_append, List.append_assoc, List.singleton_append,
        List.splitOn_append_cons_self, hparts, List.map_append, List.map_cons, String.ofList_toList]

/-! ## A path continued by a name -/

theorem join_inj {path name other : String} : join path name = join path other ↔ name = other := by
  unfold join
  split
  · exact String.append_right_inj _
  · exact String.append_right_inj _

theorem steps_append (path rest : String) :
    steps (path ++ "/" ++ rest) = steps path ++ steps rest := by
  rw [steps, String.toList_append, String.toList_append, List.append_assoc,
    show "/".toList ++ rest.toList = '/' :: rest.toList from rfl, List.splitOn_append_cons_self,
    List.map_append]
  rfl

/-- What a path continues with stands behind a slash, unless there is no path at all. -/
theorem join_cases (path rest : String) :
    (path = "" ∧ join path rest = rest) ∨
    (∃ front, path = front ++ "/" ∧ join path rest = front ++ "/" ++ rest) ∨
    join path rest = path ++ "/" ++ rest := by
  unfold join
  split
  case isTrue hlast =>
    rcases path.toList.eq_nil_or_concat with hnil | ⟨front, c, hfront⟩
    · rw [String.toList_eq_nil_iff] at hnil
      exact .inl ⟨hnil, by rw [hnil, String.empty_append]⟩
    · rw [hfront, List.concat_eq_append, List.getLast?_concat] at hlast
      obtain rfl : c = '/' := by simpa using hlast
      have hpath : path = .ofList front ++ "/" := by
        rw [String.ext_iff, hfront, String.toList_append, String.toList_ofList]
        exact List.concat_eq_append
      exact .inr (.inl ⟨.ofList front, hpath, by rw [← hpath]⟩)
  case isFalse => exact .inr (.inr rfl)

/-- The steps of a path that is continued: those of the continuation come last.  A slash that the
path ends in counts for nothing. -/
theorem steps_join_append (path rest : String) :
    ∃ base, steps (join path rest) = base ++ steps rest ∧
      (steps path = base ∨ steps path = base ++ [""]) := by
  rcases join_cases path rest with ⟨rfl, hjoin⟩ | ⟨front, rfl, hjoin⟩ | hjoin
  · exact ⟨[], by rw [hjoin, List.nil_append], .inr rfl⟩
  · refine ⟨steps front, by rw [hjoin, steps_append], .inr ?_⟩
    rw [← String.append_empty (s := front ++ "/"), steps_append]
    rfl
  · exact ⟨steps path, by rw [hjoin, steps_append], .inl rfl⟩

/-- The steps of a path that is continued by a name: the name comes last. -/
theorem steps_join {name : String} (h : '/' ∉ name.toList) (path : String) :
    ∃ base, steps (join path name) = base ++ [name] ∧
      (steps path = base ∨ steps path = base ++ [""]) := by
  rw [← steps_eq_singleton h]
  exact steps_join_append path name

/-- Continuing a path does not change where it begins. -/
theorem isAbsolute_join_of_relative {rest : String} (h : isAbsolute rest = false) (path : String) :
    isAbsolute (join path rest) = isAbsolute path := by
  rw [isAbsolute] at h
  unfold isAbsolute join
  cases hpath : path.toList with
  | nil => simp [hpath, h]
  | cons c cs => split <;> simp [hpath]

/-- Continuing a path by a name does not change where it begins. -/
theorem isAbsolute_join {name : String} (h : '/' ∉ name.toList) (path : String) :
    isAbsolute (join path name) = isAbsolute path := by
  refine isAbsolute_join_of_relative ?_ path
  have hhead : name.toList.head? ≠ some '/' := fun hhead ↦ h (List.mem_of_head? hhead)
  simpa [isAbsolute] using hhead

end Path

namespace OutputName

theorem mem_of_mem_stem {c : Char} {name : List Char} (h : c ∈ stem name) : c ∈ name := by
  rw [stem] at h
  split at h
  · rename_i before behind hsplit
    obtain ⟨rfl, -⟩ := Text.splitLast_eq_some_iff.1 hsplit
    split at h
    · exact List.mem_append_left _ h
    · exact h
  · exact h

end OutputName

theorem toList_outputName (name : String) :
    (outputName name).toList = OutputName.stem name.toList ++ ['.', 'w', 'a', 'v'] := by
  rw [outputName, String.toList_ofList]
  rfl

/-- Converting a file does not bring a slash into its name. -/
theorem isName_outputName {name : String} (h : '/' ∉ name.toList) :
    Path.isName (outputName name) = true := by
  have hne (text : String) (hshort : text.length < 4) : outputName name ≠ text := by
    rintro rfl
    rw [← String.length_toList, toList_outputName, List.length_append] at hshort
    exact absurd hshort (Nat.not_lt.2 (Nat.le_add_left _ _))
  refine Path.isName_iff.2 ⟨hne _ (by decide), hne _ (by decide), hne _ (by decide), ?_⟩
  rw [toList_outputName]
  intro hmem
  rcases List.mem_append.1 hmem with hstem | hext
  · exact h (OutputName.mem_of_mem_stem hstem)
  · simp at hext

end WaveMill
