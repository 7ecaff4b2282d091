import Mathlib.Data.List.Induction
import Mathlib.Data.List.Nodup
import WaveMill.Proofs.FileTree.Written

/-!
# What a walk through a directory comes to

A walk through a directory comes to its entries one after the other, in any order.  It goes down
into a directory right when it comes to it, and nowhere else: a link is come to like a file, and
not followed.  Whatever the orders of the entries are, what a walk comes to is all that can be
reached through real directories, and it comes to nothing twice.  The table of a tree, from a place
on, is such a walk, one in which the names ascend in every directory.

## What is here

* `FileTree.Below` — what can be reached from a place through real directories.
* `FileTree.Walks` and `FileTree.Walked` — the walk, through some of the entries of a directory and
  through all of it.
* `FileTree.Walked.mem_iff` and `FileTree.Walked.nodup` — what a walk comes to, and how often.
* `FileTree.listing` — the names in a directory, by the table; `FileTree.walked_below` — the table
  is a walk.
-/

set_option autoImplicit false
namespace WaveMill
namespace FileTree

variable {tree : FileTree} {place : Place} {name : String} {names siblings : List String}
  {entry : Entry} {seen : List (Place × Entry)}

/-! ## What is below a place -/

/-- The entry can be reached from the place by way of the names, through real directories. -/
inductive Below (tree : FileTree) : Place → List String → Entry → Prop where
  | here {place : Place} {name : String} {entry : Entry}
      (hentry : tree.entry? (place ++ [name]) = some entry) : Below tree place [name] entry
  | inside {place : Place} {name : String} {names : List String} {entry : Entry}
      (hdirectory : tree.entry? (place ++ [name]) = some .directory)
      (h : Below tree (place ++ [name]) names entry) : Below tree place (name :: names) entry

theorem Below.ne_nil (h : tree.Below place names entry) : names ≠ [] := by
  cases h <;> exact List.cons_ne_nil _ _

theorem below_cons_iff : tree.Below place (name :: names) entry ↔
    names = [] ∧ tree.entry? (place ++ [name]) = some entry ∨
    tree.entry? (place ++ [name]) = some .directory ∧ tree.Below (place ++ [name]) names entry := by
  constructor
  · rintro (hentry | ⟨hdirectory, h⟩)
    · exact .inl ⟨rfl, hentry⟩
    · exact .inr ⟨hdirectory, h⟩
  · rintro (⟨rfl, hentry⟩ | ⟨hdirectory, h⟩)
    · exact .here hentry
    · exact .inside hdirectory h

/-- The first name on the way down is one of the directory. -/
theorem Below.exists_entry (h : tree.Below place (name :: names) entry) :
    ∃ first, tree.entry? (place ++ [name]) = some first := by
  rcases below_cons_iff.1 h with ⟨-, hentry⟩ | ⟨hdirectory, -⟩
  · exact ⟨_, hentry⟩
  · exact ⟨_, hdirectory⟩

/-- Whatever is at a longer place is in directories all the way down. -/
theorem isDirectoryAt_of_append (hne : names ≠ [])
    (h : tree.entry? (place ++ names) = some entry) : tree.isDirectoryAt place = true := by
  induction names using List.reverseRecOn generalizing entry with
  | nil => exact absurd rfl hne
  | append_singleton above name ih =>
    rw [← List.append_assoc] at h
    have habove := isDirectoryAt_of_entry?_eq_some h
    by_cases hroot : above = []
    · rwa [hroot, List.append_nil] at habove
    · exact ih hroot (entry?_eq_directory_iff.2 habove)

/-- **Everything at a longer place can be reached through real directories.** -/
theorem below_iff : tree.Below place names entry ↔
    names ≠ [] ∧ tree.entry? (place ++ names) = some entry := by
  induction names generalizing place with
  | nil => exact ⟨fun h ↦ absurd rfl h.ne_nil, fun h ↦ absurd rfl h.1⟩
  | cons name rest ih =>
    rw [below_cons_iff, ih, List.append_assoc, List.singleton_append]
    constructor
    · rintro (⟨rfl, hentry⟩ | ⟨-, -, hentry⟩)
      · exact ⟨List.cons_ne_nil _ _, hentry⟩
      · exact ⟨List.cons_ne_nil _ _, hentry⟩
    · rintro ⟨-, hentry⟩
      by_cases hrest : rest = []
      · exact .inl ⟨hrest, hrest ▸ hentry⟩
      · have hsplit : place ++ name :: rest = place ++ [name] ++ rest := by simp
        have hdirectory := isDirectoryAt_of_append hrest (hsplit ▸ hentry)
        exact .inr ⟨entry?_eq_directory_iff.2 hdirectory, hrest, hentry⟩

theorem Below.isName (h : tree.Below place names entry) :
    ∀ name ∈ names, Path.isName name = true := by
  obtain ⟨hne, hentry⟩ := below_iff.1 h
  rcases entry?_eq_some_iff.1 hentry with ⟨hnil, -⟩ | hmem
  · exact absurd (List.append_eq_nil_iff.1 hnil).2 hne
  · exact fun name hname ↦ (tree.named _ _ hmem).2 name (List.mem_append_right _ hname)

/-! ## The walk -/

/-- These are the names in a directory, in some order. -/
structure Lists (tree : FileTree) (place : Place) (siblings : List String) : Prop where
  distinct : siblings.Nodup
  mem_iff : ∀ name, name ∈ siblings ↔ ∃ entry, tree.entry? (place ++ [name]) = some entry

/-- A walk through entries of the directory at a place, and what it comes to, seen from there. -/
inductive Walks (tree : FileTree) : Place → List String → List (Place × Entry) → Prop where
  | done {place : Place} : Walks tree place [] []
  | pass {place : Place} {name : String} {rest : List String} {entry : Entry}
      {seen : List (Place × Entry)} (hentry : tree.entry? (place ++ [name]) = some entry)
      (hplain : entry ≠ .directory) (hrest : Walks tree place rest seen) :
      Walks tree place (name :: rest) (([name], entry) :: seen)
  | enter {place : Place} {name : String} {inside rest : List String}
      {deeper seen : List (Place × Entry)}
      (hdirectory : tree.entry? (place ++ [name]) = some .directory)
      (hlists : tree.Lists (place ++ [name]) inside)
      (hinside : Walks tree (place ++ [name]) inside deeper) (hrest : Walks tree place rest seen) :
      Walks tree place (name :: rest)
        (([name], .directory) :: deeper.map (Prod.map (name :: ·) id) ++ seen)

/-- A walk through the whole directory at a place. -/
def Walked (tree : FileTree) (place : Place) (seen : List (Place × Entry)) : Prop :=
  ∃ siblings, tree.Lists place siblings ∧ tree.Walks place siblings seen

/-! ## What the walk comes to -/

theorem mem_map_cons_iff {first : String} :
    (names, entry) ∈ seen.map (Prod.map (first :: ·) id) ↔
      ∃ rest, names = first :: rest ∧ (rest, entry) ∈ seen := by
  rw [List.mem_map]
  constructor
  · rintro ⟨⟨rest, e⟩, hmem, heq⟩
    obtain ⟨rfl, rfl⟩ := Prod.mk.inj heq
    exact ⟨rest, rfl, hmem⟩
  · rintro ⟨rest, rfl, hmem⟩
    exact ⟨_, hmem, rfl⟩

/-- Whoever lists a directory has the first name of every way down. -/
theorem Lists.exists_cons (h : tree.Lists place siblings) (hbelow : tree.Below place names entry) :
    ∃ name ∈ siblings, ∃ rest, names = name :: rest := by
  obtain ⟨name, rest, rfl⟩ := List.exists_cons_of_ne_nil hbelow.ne_nil
  exact ⟨name, (h.mem_iff name).2 hbelow.exists_entry, rest, rfl⟩

/-- A walk through some entries comes to those that are below one of them, or are one. -/
theorem Walks.mem_iff (h : tree.Walks place siblings seen) : (names, entry) ∈ seen ↔
    (∃ name ∈ siblings, ∃ rest, names = name :: rest) ∧ tree.Below place names entry := by
  induction h generalizing names entry with
  | done => simp
  | @pass place name rest e seen hentry hplain hrest ih =>
    rw [List.mem_cons, ih]
    constructor
    · rintro (heq | ⟨⟨n, hn, hnames⟩, hbelow⟩)
      · obtain ⟨rfl, rfl⟩ := Prod.mk.inj heq
        exact ⟨⟨name, List.mem_cons_self, [], rfl⟩, .here hentry⟩
      · exact ⟨⟨n, List.mem_cons_of_mem _ hn, hnames⟩, hbelow⟩
    · rintro ⟨⟨n, hn, deeper, rfl⟩, hbelow⟩
      rcases List.mem_cons.1 hn with rfl | hn
      · rcases below_cons_iff.1 hbelow with ⟨rfl, hsame⟩ | ⟨hdirectory, -⟩
        · exact .inl (by rw [Option.some.inj (hentry.symm.trans hsame)])
        · exact absurd (Option.some.inj (hentry.symm.trans hdirectory)) hplain
      · exact .inr ⟨⟨n, hn, deeper, rfl⟩, hbelow⟩
  | @enter place name inside rest deeper seen hdirectory hlists hinside hrest ihinside ih =>
    rw [List.cons_append, List.mem_cons, List.mem_append, mem_map_cons_iff, ih]
    constructor
    · rintro (heq | ⟨names, rfl, hmem⟩ | ⟨⟨n, hn, hnames⟩, hbelow⟩)
      · obtain ⟨rfl, rfl⟩ := Prod.mk.inj heq
        exact ⟨⟨name, List.mem_cons_self, [], rfl⟩, .here hdirectory⟩
      · exact ⟨⟨name, List.mem_cons_self, names, rfl⟩, .inside hdirectory (ihinside.1 hmem).2⟩
      · exact ⟨⟨n, List.mem_cons_of_mem _ hn, hnames⟩, hbelow⟩
    · rintro ⟨⟨n, hn, names, rfl⟩, hbelow⟩
      rcases List.mem_cons.1 hn with rfl | hn
      · rcases below_cons_iff.1 hbelow with ⟨rfl, hsame⟩ | ⟨-, hdeeper⟩
        · exact .inl (by rw [Option.some.inj (hdirectory.symm.trans hsame)])
        · exact .inr (.inl ⟨names, rfl, ihinside.2 ⟨hlists.exists_cons hdeeper, hdeeper⟩⟩)
      · exact .inr (.inr ⟨⟨n, hn, names, rfl⟩, hbelow⟩)

/-- **A walk through a directory comes to all that can be reached through real directories.** -/
theorem Walked.mem_iff (h : tree.Walked place seen) :
    (names, entry) ∈ seen ↔ tree.Below place names entry := by
  obtain ⟨siblings, hlists, hwalks⟩ := h
  rw [hwalks.mem_iff, and_iff_right_iff_imp]
  exact hlists.exists_cons

theorem Walks.exists_cons (h : tree.Walks place siblings seen) (hmem : names ∈ seen.map Prod.fst) :
    ∃ name ∈ siblings, ∃ rest, names = name :: rest := by
  obtain ⟨⟨names, entry⟩, hseen, rfl⟩ := List.mem_map.1 hmem
  exact (h.mem_iff.1 hseen).1

theorem map_fst_map_cons (first : String) (seen : List (Place × Entry)) :
    (seen.map (Prod.map (first :: ·) id)).map Prod.fst = (seen.map Prod.fst).map (first :: ·) := by
  simp

/-- It comes to nothing twice, unless it is sent there twice. -/
theorem Walks.nodup (h : tree.Walks place siblings seen) (hdistinct : siblings.Nodup) :
    (seen.map Prod.fst).Nodup := by
  induction h with
  | done => exact List.nodup_nil
  | @pass place name rest e seen hentry hplain hrest ih =>
    obtain ⟨hname, hdistinct⟩ := List.nodup_cons.1 hdistinct
    refine List.nodup_cons.2 ⟨fun hmem ↦ ?_, ih hdistinct⟩
    obtain ⟨n, hn, _, heq⟩ := hrest.exists_cons hmem
    exact hname ((List.cons.inj heq).1 ▸ hn)
  | @enter place name inside rest deeper seen hdirectory hlists hinside hrest ihinside ih =>
    obtain ⟨hname, hdistinct⟩ := List.nodup_cons.1 hdistinct
    have hlater {names : List String} (hmem : name :: names ∈ seen.map Prod.fst) : False := by
      obtain ⟨n, hn, _, heq⟩ := hrest.exists_cons hmem
      exact hname ((List.cons.inj heq).1 ▸ hn)
    have hdeeper : ((deeper.map Prod.fst).map (name :: ·)).Nodup :=
      (ihinside hlists.distinct).map (List.cons_injective)
    rw [List.cons_append, List.map_cons, List.map_append, map_fst_map_cons]
    refine List.nodup_cons.2 ⟨fun hmem ↦ ?_, hdeeper.append (ih hdistinct) ?_⟩
    · rcases List.mem_append.1 hmem with hmem | hmem
      · obtain ⟨names, hnames, heq⟩ := List.mem_map.1 hmem
        obtain ⟨n, -, _, rfl⟩ := hinside.exists_cons hnames
        exact absurd (List.cons.inj heq).2 (List.cons_ne_nil _ _)
      · exact hlater hmem
    · intro names hmem hseen
      obtain ⟨names, -, rfl⟩ := List.mem_map.1 hmem
      exact hlater hseen

/-- **A walk through a directory comes to nothing twice.** -/
theorem Walked.nodup (h : tree.Walked place seen) : (seen.map Prod.fst).Nodup := by
  obtain ⟨siblings, hlists, hwalks⟩ := h
  exact hwalks.nodup hlists.distinct

/-! ## The table is a walk -/

theorem mem_entries_of_entry (h : tree.entry? (place ++ [name]) = some entry) :
    (place ++ [name], entry) ∈ tree.entries :=
  (entry?_eq_some_iff.1 h).resolve_left fun ⟨hnil, _⟩ ↦ List.concat_ne_nil name place hnil

theorem mem_below : (names, entry) ∈ tree.below place ↔ tree.Below place names entry := by
  rw [below_iff, entry?_eq_some_iff, below, List.mem_filterMap]
  constructor
  · rintro ⟨⟨p, e⟩, hmem, heq⟩
    obtain ⟨⟨hbelow, hne⟩, heq⟩ := Option.ite_none_right_eq_some.1 heq
    obtain ⟨rfl, rfl⟩ := Prod.mk.inj (Option.some.inj heq)
    rw [← List.prefix_iff_eq_append.1 hbelow] at hmem hne
    exact ⟨fun hnil ↦ hne (by rw [hnil, List.append_nil]), .inr hmem⟩
  · rintro ⟨hne, ⟨hnil, -⟩ | hmem⟩
    · exact absurd (List.append_eq_nil_iff.1 hnil).2 hne
    · refine ⟨_, hmem, (if_pos ⟨List.prefix_append .., by simpa using hne⟩).trans ?_⟩
      rw [List.drop_left]

theorem append_left_lt_iff {p q : Place} : place ++ p < place ++ q ↔ p < q := by
  induction place with
  | nil => rfl
  | cons name place ih => rw [List.cons_append, List.cons_append, List.cons_lt_cons_self, ih]

/-- The places below a place ascend, as those of the tree do. -/
theorem ordered_below (tree : FileTree) (place : Place) :
    Ordered.By Prod.fst (tree.below place) := by
  refine tree.ordered.filterMap _ fun ⟨p, e⟩ ⟨q, f⟩ hlt b hb c hc ↦ ?_
  obtain ⟨⟨hp, -⟩, hb⟩ := Option.ite_none_right_eq_some.1 hb
  obtain ⟨⟨hq, -⟩, hc⟩ := Option.ite_none_right_eq_some.1 hc
  obtain rfl := Option.some.inj hb
  obtain rfl := Option.some.inj hc
  have hbehind : place ++ p.drop place.length < place ++ q.drop place.length := by
    rwa [List.prefix_iff_eq_append.1 hp, List.prefix_iff_eq_append.1 hq]
  exact append_left_lt_iff.1 hbehind

/-- The name of an entry that is right in a directory. -/
def lastName? : Place × Entry → Option String
  | ([name], _) => some name
  | _ => none

theorem lastName?_eq_some_iff {found : Place × Entry} :
    lastName? found = some name ↔ found.1 = [name] := by
  obtain ⟨_ | ⟨first, _ | _⟩, entry⟩ := found <;> simp [lastName?]

/-- The names in a directory, in the order of the table. -/
def listing (tree : FileTree) (place : Place) : List String :=
  (tree.below place).filterMap lastName?

theorem mem_listing :
    name ∈ tree.listing place ↔ ∃ entry, tree.entry? (place ++ [name]) = some entry := by
  rw [listing, List.mem_filterMap]
  constructor
  · rintro ⟨⟨names, entry⟩, hmem, hname⟩
    obtain rfl : names = [name] := lastName?_eq_some_iff.1 hname
    exact (mem_below.1 hmem).exists_entry
  · rintro ⟨entry, hentry⟩
    exact ⟨([name], entry), mem_below.2 (.here hentry), rfl⟩

theorem ordered_listing (tree : FileTree) (place : Place) :
    (tree.listing place).Pairwise (· < ·) := by
  refine (tree.ordered_below place).filterMap _ fun p q hlt a ha b hb ↦ ?_
  rw [lastName?_eq_some_iff.1 ha, lastName?_eq_some_iff.1 hb, List.cons_lt_cons_iff] at hlt
  exact hlt.resolve_right fun h ↦ List.lt_irrefl _ h.2

/-- The names of the table are those in the directory, in whatever order. -/
theorem lists_of_perm (h : siblings.Perm (tree.listing place)) : tree.Lists place siblings where
  distinct := h.nodup_iff.2 ((tree.ordered_listing place).imp fun hlt ↦ Std.ne_of_lt hlt)
  mem_iff _ := h.mem_iff.trans mem_listing

/-- All that is inside of a directory comes before what is next to it. -/
theorem Walks.ordered_enter {deeper : List (Place × Entry)}
    (hdeeper : tree.Walks place siblings deeper) (hinside : Ordered.By Prod.fst deeper)
    (hseen : Ordered.By Prod.fst seen)
    (hlater : ∀ rest {found : Place × Entry}, found ∈ seen → name :: rest < found.1) :
    Ordered.By Prod.fst (([name], entry) :: deeper.map (Prod.map (name :: ·) id) ++ seen) := by
  rw [List.cons_append]
  refine List.pairwise_cons.2 ⟨fun found hfound ↦ ?_,
    List.pairwise_append.2 ⟨List.pairwise_map.2 (hinside.imp List.cons_lt_cons_self.2), hseen, ?_⟩⟩
  · rcases List.mem_append.1 hfound with hfound | hfound
    · obtain ⟨inner, hinner, rfl⟩ := List.mem_map.1 hfound
      obtain ⟨n, -, rest, heq⟩ := hdeeper.exists_cons (List.mem_map_of_mem hinner)
      rw [Prod.map_fst, heq]
      exact List.cons_lt_cons_self.2 (List.nil_lt_cons ..)
    · exact hlater [] hfound
  · intro outer houter found hfound
    obtain ⟨inner, -, rfl⟩ := List.mem_map.1 houter
    exact hlater inner.1 hfound

/-- No place has more names than that. -/
def Within (tree : FileTree) (depth : Nat) : Prop :=
  ∀ place entry, (place, entry) ∈ tree.entries → place.length ≤ depth

theorem exists_within (tree : FileTree) : ∃ depth, tree.Within depth :=
  ⟨(tree.entries.map fun found ↦ found.1.length).max?.getD 0, fun _ _ hmem ↦
    List.le_max?_getD_of_mem (List.mem_map_of_mem hmem)⟩

/-- Through entries whose names ascend there is a walk in which they do so in every directory.  The
induction is on the number of names that there can be behind the place, as the walk goes down. -/
theorem exists_walks {depth : Nat} (hwithin : tree.Within (place.length + depth))
    (hascend : siblings.Pairwise (· < ·))
    (hentries : ∀ name ∈ siblings, ∃ entry, tree.entry? (place ++ [name]) = some entry) :
    ∃ seen, tree.Walks place siblings seen ∧ Ordered.By Prod.fst seen := by
  induction depth generalizing place siblings with
  | zero =>
    cases siblings with
    | nil => exact ⟨[], .done, .nil⟩
    | cons name rest =>
      obtain ⟨entry, hentry⟩ := hentries name List.mem_cons_self
      have hshort := hwithin _ _ (mem_entries_of_entry hentry)
      rw [List.length_append] at hshort
      exact absurd hshort (Nat.not_succ_le_self _)
  | succ depth ihdepth =>
    induction siblings with
    | nil => exact ⟨[], .done, .nil⟩
    | cons name rest ih =>
      obtain ⟨hfirst, hascend⟩ := List.pairwise_cons.1 hascend
      obtain ⟨⟨entry, hentry⟩, hentries⟩ := List.forall_mem_cons.1 hentries
      obtain ⟨seen, hseen, hordered⟩ := ih hascend hentries
      have hlater (rest : List String) {found : Place × Entry} (hfound : found ∈ seen) :
          name :: rest < found.1 := by
        obtain ⟨n, hn, _, heq⟩ := hseen.exists_cons (List.mem_map_of_mem hfound)
        rw [heq, List.cons_lt_cons_iff]
        exact .inl (hfirst n hn)
      by_cases hplain : entry = .directory
      · subst hplain
        have hbehind : tree.Within ((place ++ [name]).length + depth) := by
          rwa [List.length_append, List.length_singleton, Nat.add_right_comm]
        obtain ⟨deeper, hdeeper, hbelow⟩ :=
          ihdepth hbehind (tree.ordered_listing _) fun _ ↦ mem_listing.1
        exact ⟨_, .enter hentry (lists_of_perm (.refl _)) hdeeper hseen,
          hdeeper.ordered_enter hbelow hordered hlater⟩
      · exact ⟨_, .pass hentry hplain hseen, List.pairwise_cons.2 ⟨fun _ ↦ hlater [], hordered⟩⟩

/-- **The table of a tree, from a place on, is a walk.**  The names ascend in every directory. -/
theorem walked_below (tree : FileTree) (place : Place) : tree.Walked place (tree.below place) := by
  obtain ⟨depth, hdepth⟩ := tree.exists_within
  have hwithin : tree.Within (place.length + depth) := fun p e hmem ↦
    Nat.le_add_left_of_le (hdepth p e hmem)
  obtain ⟨seen, hwalks, hordered⟩ :=
    exists_walks hwithin (tree.ordered_listing place) fun _ ↦ mem_listing.1
  have hwalked : tree.Walked place seen := ⟨_, lists_of_perm (.refl _), hwalks⟩
  have hsame : tree.below place = seen :=
    Ordered.By.ext (tree.ordered_below place) hordered fun (_, _) ↦
      mem_below.trans hwalked.mem_iff.symm
  rwa [hsame]

end FileTree
end WaveMill
