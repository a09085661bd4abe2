import Mathlib.Data.List.Induction
import Mathlib.Data.List.Nodup
import Mathlib.Data.List.Perm.Subperm
import Monorepo.Proofs.Descending

/-!
# What is below a directory

A tree is a list of entries at locations.  Where it is that of a file system, all that is below a
location can be told entry by entry:

* `FileTree.WellFormed` — every entry has a proper name, stands in a directory and is alone at its
  location;
* `FileTree.WellFormed.above_of_entry` — every location on the way to an entry is a directory, and
  `FileTree.WellFormed.length_le`, that such a way is no longer than there are entries;
* `FileTree.below` — the entries below a location, with the names that lead to them;
* `Disk.below`, `Disk.filesBelow` — the same with the paths that a walk finds them under.
-/

namespace Monorepo

namespace FileTree

/-- The entries are those of a file system: each has a proper name, stands in a directory and is the
only one at its location. -/
structure WellFormed (t : FileTree) : Prop where
  names : ∀ e ∈ t.entries, ∀ name ∈ e.1, ProperName name
  not_root : ∀ e ∈ t.entries, e.1 ≠ []
  above : ∀ e ∈ t.entries, t.entry? e.1.dropLast = some .directory
  distinct : (t.entries.map Prod.fst).Nodup

instance (t : FileTree) : Decidable t.WellFormed :=
  decidable_of_iff ((∀ e ∈ t.entries, ∀ name ∈ e.1, ProperName name) ∧ (∀ e ∈ t.entries, e.1 ≠ []) ∧
      (∀ e ∈ t.entries, t.entry? e.1.dropLast = some .directory) ∧ (t.entries.map Prod.fst).Nodup)
    ⟨fun ⟨h₁, h₂, h₃, h₄⟩ => ⟨h₁, h₂, h₃, h₄⟩, fun ⟨h₁, h₂, h₃, h₄⟩ => ⟨h₁, h₂, h₃, h₄⟩⟩

/-- The name of a location in a directory, if it is one there. -/
def nameIn? (dir location : Location) : Option String :=
  if location.dropLast = dir then location.getLast? else none

theorem namesIn_eq (t : FileTree) (dir : Location) :
    t.namesIn dir = (t.entries.map Prod.fst).filterMap (nameIn? dir) := by
  rw [List.filterMap_map]
  rfl

theorem eq_of_nameIn? {dir location : Location} {name : String}
    (h : name ∈ nameIn? dir location) : location = dir ++ [name] := by
  rw [nameIn?] at h
  split at h
  · rename_i hdir
    rw [← hdir, List.dropLast_append_getLast? name h]
  · cases h

theorem lookup_eq_some_of_mem {α β : Type} [BEq α] [LawfulBEq α] {entries : List (α × β)}
    (hdistinct : (entries.map Prod.fst).Nodup) {key : α} {value : β} (h : (key, value) ∈ entries) :
    entries.lookup key = some value := by
  obtain ⟨before, after, rfl⟩ := List.append_of_mem h
  rw [List.map_append, List.nodup_append'] at hdistinct
  refine List.lookup_eq_some_iff.mpr ⟨before, after, rfl, fun e he => ?_⟩
  have hne : key ≠ e.1 := by
    rintro rfl
    exact hdistinct.2.2 (List.mem_map_of_mem he) List.mem_cons_self
  simpa using hne

namespace WellFormed

variable {t : FileTree} {at_ : Location} {entry : Entry}

theorem mem_entries (ht : t.WellFormed) :
    (at_, entry) ∈ t.entries ↔ at_ ≠ [] ∧ t.entry? at_ = some entry := by
  constructor
  · intro h
    have hroot : at_ ≠ [] := ht.not_root _ h
    refine ⟨hroot, ?_⟩
    rw [lookup_of_ne_root hroot]
    exact lookup_eq_some_of_mem ht.distinct h
  · rintro ⟨hroot, h⟩
    rw [lookup_of_ne_root hroot] at h
    obtain ⟨before, after, hentries, -⟩ := List.lookup_eq_some_iff.mp h
    simp [hentries]

/-- Every location on the way to an entry is a directory. -/
theorem above_of_entry (ht : t.WellFormed) {names : List String} (hnames : names ≠ [])
    (h : t.entry? (at_ ++ names) = some entry) : t.entry? at_ = some .directory := by
  induction names using List.reverseRecOn generalizing entry with
  | nil => exact absurd rfl hnames
  | append_singleton before last ih =>
    have hmem : (at_ ++ (before ++ [last]), entry) ∈ t.entries :=
      ht.mem_entries.mpr ⟨by simp, h⟩
    have habove : t.entry? (at_ ++ before) = some .directory := by
      have hdropped := ht.above _ hmem
      rwa [← List.append_assoc, List.dropLast_concat] at hdropped
    by_cases hbefore : before = []
    · rwa [hbefore, List.append_nil] at habove
    · exact ih hbefore habove

/-- All names on the way to an entry are proper. -/
theorem properNames_of_entry (ht : t.WellFormed) {names : List String}
    (h : t.entry? (at_ ++ names) = some entry) : ∀ name ∈ names, ProperName name := by
  intro name hname
  have hroot : at_ ++ names ≠ [] := by
    rw [Ne, List.append_eq_nil_iff]
    exact fun hempty => List.ne_nil_of_mem hname hempty.2
  exact ht.names _ (ht.mem_entries.mpr ⟨hroot, h⟩) name (List.mem_append_right at_ hname)

theorem properName_of_entry (ht : t.WellFormed) {name : String} {names : List String}
    (h : t.entry? (at_ ++ name :: names) = some entry) : ProperName name :=
  ht.properNames_of_entry h name List.mem_cons_self

theorem mem_namesIn (ht : t.WellFormed) {name : String} :
    name ∈ t.namesIn at_ ↔ ∃ entry, t.entry? (at_ ++ [name]) = some entry := by
  rw [namesIn_eq, List.mem_filterMap]
  constructor
  · rintro ⟨location, hmem, hname⟩
    obtain ⟨⟨_, entry⟩, he, rfl⟩ := List.mem_map.mp hmem
    obtain rfl := eq_of_nameIn? hname
    exact ⟨entry, (ht.mem_entries.mp he).2⟩
  · rintro ⟨entry, h⟩
    refine ⟨at_ ++ [name], ?_, by simp [nameIn?]⟩
    exact List.mem_map.mpr ⟨_, ht.mem_entries.mpr ⟨by simp, h⟩, rfl⟩

theorem nodup_namesIn (ht : t.WellFormed) (at_ : Location) : (t.namesIn at_).Nodup := by
  rw [namesIn_eq]
  apply List.Nodup.filterMap _ ht.distinct
  intro location location' name h h'
  rw [eq_of_nameIn? h, eq_of_nameIn? h']

/-- There is an entry at every location on the way to an entry, and at its end. -/
theorem exists_of_take (ht : t.WellFormed) (h : t.entry? at_ = some entry) (n : Nat) :
    ∃ found, t.entry? (at_.take n) = some found := by
  by_cases hrest : at_.drop n = []
  · have hall : at_.take n = at_ := by
      have hsplit := List.take_append_drop n at_
      rwa [hrest, List.append_nil] at hsplit
    exact ⟨entry, by rw [hall, h]⟩
  · rw [← List.take_append_drop n at_] at h
    exact ⟨.directory, ht.above_of_entry hrest h⟩

/-- The first name on the way to an entry is one of the names in the directory. -/
theorem mem_namesIn_of_entry (ht : t.WellFormed) {name : String} {names : List String}
    (h : t.entry? (at_ ++ name :: names) = some entry) : name ∈ t.namesIn at_ := by
  rw [← List.singleton_append, ← List.append_assoc] at h
  have hfirst := ht.exists_of_take h (at_ ++ [name]).length
  rw [List.take_left] at hfirst
  exact ht.mem_namesIn.mpr hfirst

/-- A way to an entry is no longer than there are entries. -/
theorem length_le (ht : t.WellFormed) (h : t.entry? at_ = some entry) :
    at_.length ≤ t.entries.length := by
  -- The ways to the entries on the way have different lengths, so they are different entries.
  have hdistinct : ((List.range at_.length).map fun n => at_.take (n + 1)).Nodup := by
    apply List.Nodup.map_on _ List.nodup_range
    intro m hm n hn heq
    rw [List.mem_range] at hm hn
    have hlength := congrArg List.length heq
    simp only [List.length_take] at hlength
    omega
  have hsubset : ((List.range at_.length).map fun n => at_.take (n + 1)) ⊆
      t.entries.map Prod.fst := by
    intro location hlocation
    obtain ⟨n, hn, rfl⟩ := List.mem_map.mp hlocation
    rw [List.mem_range] at hn
    obtain ⟨found, hfound⟩ := ht.exists_of_take h (n + 1)
    have hroot : at_.take (n + 1) ≠ [] := by
      apply List.ne_nil_of_length_pos
      rw [List.length_take]
      omega
    exact List.mem_map.mpr ⟨_, ht.mem_entries.mpr ⟨hroot, hfound⟩, rfl⟩
  simpa using (List.subperm_of_subset hdistinct hsubset).length_le

/-- What stands where does not depend on the order in which the entries are listed. -/
theorem entry?_of_perm (ht : t.WellFormed) {entries : List (Location × Entry)}
    (hperm : entries.Perm t.entries) (at_ : Location) : entry? ⟨entries⟩ at_ = t.entry? at_ := by
  have hdistinct : (entries.map Prod.fst).Nodup := (hperm.map _).nodup_iff.mpr ht.distinct
  by_cases hroot : at_ = []
  · rw [hroot]
    rfl
  · cases h : t.entry? at_ with
    | some entry =>
      have hmem := hperm.mem_iff.mpr (ht.mem_entries.mpr ⟨hroot, h⟩)
      rw [lookup_of_ne_root hroot]
      exact lookup_eq_some_of_mem hdistinct hmem
    | none =>
      rw [lookup_of_ne_root hroot] at h ⊢
      rw [List.lookup_eq_none_iff] at h ⊢
      exact fun e he => h e (hperm.mem_iff.mp he)

theorem of_perm (ht : t.WellFormed) {entries : List (Location × Entry)}
    (hperm : entries.Perm t.entries) : WellFormed ⟨entries⟩ where
  names e he := ht.names e (hperm.mem_iff.mp he)
  not_root e he := ht.not_root e (hperm.mem_iff.mp he)
  above e he := (ht.entry?_of_perm hperm _).trans (ht.above e (hperm.mem_iff.mp he))
  distinct := (hperm.map _).nodup_iff.mpr ht.distinct

end WellFormed

/-- The entries below a location, each with the names that lead to it from there. -/
def below (t : FileTree) (top : Location) : List (List String × Entry) :=
  (t.entries.filter fun e => top.isPrefixOf e.1 && e.1 ≠ top).map fun e =>
    (e.1.drop top.length, e.2)

theorem WellFormed.mem_below {t : FileTree} (ht : t.WellFormed) {top : Location}
    {names : List String} {entry : Entry} :
    (names, entry) ∈ t.below top ↔ names ≠ [] ∧ t.entry? (top ++ names) = some entry := by
  simp only [below, List.mem_map, List.mem_filter, Bool.and_eq_true, List.isPrefixOf_iff_prefix,
    decide_eq_true_eq]
  constructor
  · rintro ⟨⟨location, found⟩, ⟨hmem, ⟨rest, rfl⟩, hne⟩, heq⟩
    rw [List.drop_left] at heq
    cases heq
    refine ⟨fun hempty => hne ?_, (ht.mem_entries.mp hmem).2⟩
    show top ++ names = top
    rw [hempty, List.append_nil]
  · rintro ⟨hnames, h⟩
    refine ⟨(top ++ names, entry), ⟨ht.mem_entries.mpr ⟨by simp [hnames], h⟩,
      List.prefix_append _ _, by simpa using hnames⟩, ?_⟩
    rw [List.drop_left]

theorem WellFormed.nodup_below {t : FileTree} (ht : t.WellFormed) (top : Location) :
    ((t.below top).map Prod.fst).Nodup := by
  rw [below, List.map_map]
  apply List.Nodup.map_on _ (ht.distinct.of_map.filter _)
  rintro ⟨location, entry⟩ hmem ⟨location', entry'⟩ hmem' heq
  simp only [List.mem_filter, Bool.and_eq_true, List.isPrefixOf_iff_prefix] at hmem hmem'
  obtain ⟨hmem, ⟨names, rfl⟩, -⟩ := hmem
  obtain ⟨hmem', ⟨names', rfl⟩, -⟩ := hmem'
  obtain rfl : names = names' := by simpa using heq
  exact List.inj_on_of_nodup_map ht.distinct hmem hmem' rfl

end FileTree

namespace Disk

/-- The entries below the directory at a path, each under the path that a walk finds it under. -/
def below (d : Disk) (dir : Path) : List (Path × Entry) :=
  match d.find dir with
  | .ok (top, _) => (d.tree.below top).map fun e => (dir.descend e.1, e.2)
  | .error _ => []

/-- The files below the directory at a path. -/
def filesBelow (d : Disk) (dir : Path) : List Path :=
  ((d.below dir).filter fun e => e.2.isFile).map Prod.fst

end Disk

end Monorepo
