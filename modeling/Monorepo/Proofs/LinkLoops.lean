import Monorepo.Proofs.Deepening
import Monorepo.Proofs.Walking

/-!
# Links that lead back

A walk that refuses links always ends.  One that follows them comes to a directory under the names
that lead there, from where it starts or, behind a link, from the root.  There are only so many such
paths, so a walk that is nested deeper has come to one of them inside itself:

* `Disk.pathOf_eq_descend` — the path from the root to a location, by names;
* `Disk.Nested`, `Disk.nested_of_reached` — the paths under which a walk comes to directories, and
  `Disk.Nested.mem_nestedPaths`, that there are at most two for each directory;
* `Disk.ending_walk_eq_endless` — so the bound of `Disk.walk` tells walks that never end from those that
  do;
* `Disk.walk_ends_unless_comesBack` — which walks end, and with what.
-/

namespace Monorepo

/-! ### Paths from the root -/

namespace FileTree

variable {t : FileTree}

/-- What is followed to its end is no link. -/
theorem Leads.not_link (ht : t.WellFormed) {links : Nat} {here found : Location}
    {segments : List String} (h : t.Leads false links here segments found)
    (hhere : ∀ target, t.entry? here ≠ some (.link target)) (target : String) :
    t.entry? found ≠ some (.link target) := by
  have hplain : ∀ {location : Location}, t.entry? location = some .directory →
      ∀ target, t.entry? location ≠ some (.link target) := by
    intro location hdirectory target htarget
    rw [hdirectory] at htarget
    cases htarget
  induction h with
  | done links here => exact hhere target
  | stay hdirectory _ _ ih => exact ih hhere
  | @above links here found rest hdirectory _ ih =>
    refine ih (hplain ?_)
    by_cases hroot : here = []
    · rw [hroot]
      rfl
    · rw [← List.dropLast_append_getLast hroot] at hdirectory
      exact ht.above_of_entry (List.cons_ne_nil _ _) hdirectory
  | name _ _ hname _ ih => exact ih hname
  | kept _ _ _ hkeep => cases hkeep
  | link hdirectory _ _ _ _ ih =>
    refine ih (hplain ?_)
    split
    · rfl
    · exact hdirectory

end FileTree

namespace Disk

open FileTree

variable {d : Disk} {dir p sub base : Path} {top start location : Location}

theorem pathOf_append {location : Location} (h : ∀ name ∈ location, ProperName name) {name : String}
    (hname : ProperName name) : pathOf (location ++ [name]) = (pathOf location).join ⟨name⟩ := by
  induction location using List.reverseRecOn generalizing name with
  | nil =>
    rw [List.nil_append, Path.join_name (by decide) hname.no_slash, if_pos (by decide), pathOf,
      String.intercalate_singleton]
    rfl
  | append_singleton init last ih =>
    have hinit : ∀ name ∈ init, ProperName name :=
      fun name hname => h name (List.mem_append_left _ hname)
    have hlast : ProperName last := h last (by simp)
    have hroot : (pathOf init).text ≠ "" := by simp [pathOf]
    have hends : (pathOf (init ++ [last])).endsInSlash = false := by
      rw [ih hinit hlast]
      exact Path.endsInSlash_join hroot hlast.no_slash hlast.nonempty
    rw [Path.join_name (by simp [pathOf]) hname.no_slash, if_neg (by simp [hends]), pathOf,
      String.intercalate_append_of_ne_nil (by simp) (by simp), String.intercalate_singleton]
    simp only [pathOf, String.append_assoc]

/-- The path from the root to a location descends by its names. -/
theorem pathOf_eq_descend {location : Location} (h : ∀ name ∈ location, ProperName name) :
    pathOf location = Path.descend ⟨"/"⟩ location := by
  induction location using List.reverseRecOn with
  | nil => rfl
  | append_singleton init last ih =>
    have hinit : ∀ name ∈ init, ProperName name :=
      fun name hname => h name (List.mem_append_left _ hname)
    rw [pathOf_append hinit (h last (by simp)), Path.descend_append, ih hinit]
    rfl

theorem find_root (d : Disk) : d.find ⟨"/"⟩ = .ok ([], .directory) := by
  refine find_eq_ok.mpr ⟨locate_eq_ok.mpr ⟨by decide, ?_⟩, rfl⟩
  exact .stay rfl (.inl rfl) (.stay rfl (.inl rfl) (.done _ _))

/-- What a path leads to is no link. -/
theorem not_link_of_find (ht : d.tree.WellFormed) {entry : Entry}
    (h : d.find p = .ok (location, entry)) (target : String) : entry ≠ .link target := by
  obtain ⟨hlocate, hentry⟩ := find_eq_ok.mp h
  obtain ⟨-, hleads⟩ := locate_eq_ok.mp hlocate
  have hsegments : p.segments ≠ [] := by simpa [Path.segments] using Path.splitSegments_ne_nil _
  obtain ⟨first, rest, hcons⟩ := List.exists_cons_of_ne_nil hsegments
  have hstart : d.tree.entry? (d.startOf p) = some .directory := by
    rw [hcons] at hleads
    exact hleads.directory_of_cons
  rintro rfl
  refine hleads.not_link ht (fun target htarget => ?_) target hentry
  rw [hstart] at htarget
  cases htarget

/-! ### Under which paths a walk comes to directories -/

/-- A path that leads to a directory, by names from the path `base`, which leads to `start`. -/
def Descends (d : Disk) (base : Path) (start : Location) (p : Path) : Prop :=
  ∃ names entry, p = base.descend names ∧ d.find p = .ok (start ++ names, entry) ∧
    entry.isDirectory = true

/-- A path that leads to a directory, by names from where a walk starts or from the root. -/
def Nested (d : Disk) (dir : Path) (top : Location) (p : Path) : Prop :=
  d.Descends dir top p ∨ d.Descends ⟨"/"⟩ [] p

theorem Descends.join (h : d.Descends base start p) (hfind : d.find p = .ok (location, .directory))
    {name : String} (hname : ProperName name) {entry : Entry}
    (hentry : d.linkEntry (p.join ⟨name⟩) = .ok entry) (hdirectory : entry.isDirectory = true) :
    d.Descends base start (p.join ⟨name⟩) := by
  obtain ⟨names, found, rfl, hfound, -⟩ := h
  rw [hfound] at hfind
  cases hfind
  obtain ⟨hshort, hplaced⟩ := (linkEntry_join hfound hname).mp hentry
  have hlink : ∀ target, entry ≠ .link target := by
    rintro target rfl
    cases hdirectory
  refine ⟨names ++ [name], entry, (Path.descend_append base names [name]).symm, ?_, hdirectory⟩
  rw [← List.append_assoc]
  exact find_join hfound hname hshort hplaced hlink

/-- A path without links that leads to a directory does so by names from the root. -/
theorem descends_of_canonical (ht : d.tree.WellFormed) (hcanonical : d.canonical p = .ok sub)
    {subEntry : Entry} (hsub : d.entry sub = .ok subEntry)
    (hdirectory : subEntry.isDirectory = true) : d.Descends ⟨"/"⟩ [] sub := by
  obtain ⟨⟨location, entry⟩, hfind, hpath⟩ := Except.bind_eq_ok_iff.mp hcanonical
  obtain rfl : pathOf location = sub := Except.ok.inj hpath
  obtain ⟨⟨found, foundEntry⟩, hfound, hsame⟩ := Except.bind_eq_ok_iff.mp hsub
  obtain rfl : foundEntry = subEntry := Except.ok.inj hsame
  have hentry : d.tree.entry? ([] ++ location) = some entry := (find_eq_ok.mp hfind).2
  have hproper := ht.properNames_of_entry hentry
  have hshort := (checkText_eq_ok.mp (checkText_of_find hfound)).2.2
  rw [pathOf_eq_descend hproper] at hfound hshort ⊢
  have hsame := find_descend ht d.find_root hentry (not_link_of_find ht hfind) hshort
  rw [hfound] at hsame
  cases hsame
  exact ⟨location, _, rfl, hfound, hdirectory⟩

theorem Nested.goesInto (ht : d.tree.WellFormed) (h : d.Nested dir top p) (hgoes : d.GoesInto p sub) :
    d.Nested dir top sub := by
  obtain ⟨entries, before, q, after, hlist, hsorted, -, hopens⟩ := hgoes
  cases hopens with
  | directory hentry hdirectory =>
    obtain ⟨location, hfind, rfl⟩ := list_eq_ok.mp hlist
    have hmem : sub ∈ Path.sort ((d.tree.namesIn location).map fun name => p.join ⟨name⟩) := by
      rw [hsorted]
      simp
    obtain ⟨name, hname, rfl⟩ := List.mem_map.mp ((List.mergeSort_perm _ _).mem_iff.mp hmem)
    obtain ⟨entry, hplaced⟩ := ht.mem_namesIn.mp hname
    have hproper := ht.properName_of_entry hplaced
    exact h.imp (fun hdown => hdown.join hfind hproper hentry hdirectory)
      fun hdown => hdown.join hfind hproper hentry hdirectory
  | link hentry hcanonical hsub hdirectory =>
    exact .inr (descends_of_canonical ht hcanonical hsub hdirectory)

/-- **A walk comes to directories under such paths only.** -/
theorem nested_of_reached (ht : d.tree.WellFormed) (h : d.find dir = .ok (top, .directory))
    (hreached : Relation.ReflTransGen d.GoesInto dir p) : d.Nested dir top p := by
  induction hreached with
  | refl =>
    refine .inl ⟨[], .directory, rfl, ?_, rfl⟩
    rw [List.append_nil]
    exact h
  | tail _ hgoes ih => exact ih.goesInto ht hgoes

/-- The names that lead down from a location, and those that lead nowhere else. -/
def waysDown (d : Disk) (start : Location) : List (List String) :=
  [] :: (d.tree.below start).map Prod.fst

theorem length_waysDown (d : Disk) (start : Location) :
    (d.waysDown start).length ≤ d.tree.entries.length + 1 := by
  have hfilter := List.length_filter_le (fun e => start.isPrefixOf e.1 && e.1 ≠ start) d.tree.entries
  rw [waysDown, List.length_cons, List.length_map, FileTree.below, List.length_map]
  omega

theorem Descends.mem (ht : d.tree.WellFormed) (h : d.Descends base start p) :
    p ∈ (d.waysDown start).map base.descend := by
  obtain ⟨names, entry, rfl, hfind, -⟩ := h
  refine List.mem_map_of_mem ?_
  by_cases hnames : names = []
  · rw [hnames]
    exact List.mem_cons_self
  · have hmem := ht.mem_below.mpr ⟨hnames, (find_eq_ok.mp hfind).2⟩
    exact List.mem_cons_of_mem _ (List.mem_map_of_mem hmem)

/-- All paths that a walk may come to directories under. -/
def nestedPaths (d : Disk) (dir : Path) (top : Location) : List Path :=
  (d.waysDown top).map dir.descend ++ (d.waysDown []).map (Path.descend ⟨"/"⟩)

theorem Nested.mem_nestedPaths (ht : d.tree.WellFormed) (h : d.Nested dir top p) :
    p ∈ d.nestedPaths dir top :=
  List.mem_append.mpr (h.imp (fun hdown => hdown.mem ht) (fun hdown => hdown.mem ht))

theorem length_nestedPaths (d : Disk) (dir : Path) (top : Location) :
    (d.nestedPaths dir top).length ≤ 2 * (d.tree.entries.length + 1) := by
  have hbelow := d.length_waysDown top
  have hroot := d.length_waysDown []
  rw [nestedPaths, List.length_append, List.length_map, List.length_map]
  omega

/-! ### Which walks end -/

/-- **A walk that comes to its bound has come back.**  It is nested deeper than there are paths that it
may come to directories under. -/
theorem ending_walk_eq_endless (ht : d.tree.WellFormed) (dir : Path) :
    (d.walk .follow dir).ending = .endless ↔ d.ComesBack dir := by
  constructor
  · intro hendless
    obtain ⟨inner, hlength, hchain⟩ := exists_chain_of_endless hendless
    refine comesBack_of_chain hchain fun hnodup => ?_
    have hinner : inner ≠ [] := List.ne_nil_of_length_pos (by omega)
    obtain ⟨first, rest, rfl⟩ := List.exists_cons_of_ne_nil hinner
    obtain ⟨entries, -, -, -, hlist, -⟩ := (List.isChain_cons_cons.mp hchain).1
    obtain ⟨top, hfind, -⟩ := list_eq_ok.mp hlist
    have hsubset : dir :: first :: rest ⊆ d.nestedPaths dir top := fun p hp =>
      (nested_of_reached ht hfind (reached_of_chain hchain p hp)).mem_nestedPaths ht
    have hle := (List.subperm_of_subset hnodup hsubset).length_le
    have hmost := d.length_nestedPaths dir top
    rw [List.length_cons, hlength] at hle
    omega
  · intro hback
    exact endless_of_comesBack hback _

/-- A walk that refuses links is never nested too deep. -/
theorem ending_walk_refuse (ht : d.tree.WellFormed) (dir : Path) :
    (d.walk .refuse dir).ending ≠ .endless := by
  rcases cases_of_walk ht dir with ⟨fault, -, hwalk⟩ | ⟨entries, paths, -, -, hwalk⟩
  · rw [hwalk]
    exact nofun
  · rw [hwalk]
    rcases Walk.cases_of_along entries with ⟨-, halong⟩ | ⟨before, e, rest, error, -, -, halong, -⟩
    · rw [halong]
      exact nofun
    · rw [halong]
      exact nofun

/-- **Which walks end.**  One that refuses links does, and so does one that follows them if it does not
come back to a directory inside itself; what becomes of a visit is then what `Disk.walk` says.  If it
comes back, it does not end unless the visitor rejects a path. -/
theorem walk_ends_unless_comesBack (ht : d.tree.WellFormed) (dir : Path) {σ : Type}
    (visitor : σ → Path → Except LoadError σ) (state : σ) :
    d.EndsWith .refuse dir visitor state ((d.walk .refuse dir).visit visitor state) ∧
      (¬ d.ComesBack dir →
        d.EndsWith .follow dir visitor state ((d.walk .follow dir).visit visitor state)) ∧
      (d.ComesBack dir → (∀ state p, ∃ next, visitor state p = .ok next) →
        ∀ result, ¬ d.EndsWith .follow dir visitor state result) ∧
      ((d.walk .follow dir).ending = .endless ↔ d.ComesBack dir) := by
  refine ⟨?_, fun hnot => ?_, fun hback haccepts result => ?_, ending_walk_eq_endless ht dir⟩
  · exact endsWith_of_ending visitor state (ending_walk_refuse ht dir)
  · refine endsWith_of_ending visitor state fun hendless => ?_
    exact hnot ((ending_walk_eq_endless ht dir).mp hendless)
  · exact not_endsWith_of_endless haccepts (endless_of_comesBack hback) state result

/-- A visitor who takes down what he sees. -/
def takeDown (seen : List Path) (p : Path) : Except LoadError (List Path) :=
  .ok (seen ++ [p])

/-- A directory with a file, and another with a link to the first. -/
def linkedDisk : Disk where
  tree := ⟨[
    (["real"], .directory),
    (["real", "x.toml"], .file []),
    (["links"], .directory),
    (["links", "l"], .link "../real")]⟩

/-- The file is met behind the link, or the walk ends at the link. -/
theorem walk_ends_unless_comesBack_linked :
    linkedDisk.tree.WellFormed ∧ ¬ linkedDisk.ComesBack ⟨"links"⟩ ∧
      linkedDisk.EndsWith .follow ⟨"links"⟩ takeDown [] ([⟨"/real/x.toml"⟩], .complete) ∧
      linkedDisk.EndsWith .refuse ⟨"links"⟩ takeDown [] ([], .failed (.symlink ⟨"links/l"⟩)) := by
  have ht : linkedDisk.tree.WellFormed := by decide +kernel
  have hfollow : linkedDisk.walk .follow ⟨"links"⟩ = ⟨[⟨"/real/x.toml"⟩], .complete⟩ := by
    decide +kernel
  have hrefuse : linkedDisk.walk .refuse ⟨"links"⟩ = .failing (.symlink ⟨"links/l"⟩) := by
    decide +kernel
  obtain ⟨hrefused, hfollowed, -, hendless⟩ :=
    walk_ends_unless_comesBack ht ⟨"links"⟩ takeDown []
  rw [hfollow] at hfollowed hendless
  rw [hrefuse] at hrefused
  have hnot : ¬ linkedDisk.ComesBack ⟨"links"⟩ := fun hback => nomatch hendless.mpr hback
  exact ⟨ht, hnot, hfollowed hnot, hrefused⟩

/-- A directory with a link to itself. -/
def loopDisk : Disk where
  tree := ⟨[(["inc"], .directory), (["inc", "loop"], .link ".")]⟩

/-- **A walk over it that follows links does not end**, though nothing is ever rejected. -/
theorem not_endsWith_loop :
    loopDisk.tree.WellFormed ∧
      ∀ result, ¬ loopDisk.EndsWith .follow ⟨"/inc"⟩ takeDown [] result := by
  have hlist : loopDisk.list ⟨"/inc"⟩ = .ok [⟨"/inc/loop"⟩] := by decide +kernel
  have hlink : loopDisk.linkEntry ⟨"/inc/loop"⟩ = .ok (.link ".") := by decide +kernel
  have hcanonical : loopDisk.canonical ⟨"/inc/loop"⟩ = .ok ⟨"/inc"⟩ := by decide +kernel
  have hentry : loopDisk.entry ⟨"/inc"⟩ = .ok .directory := by decide +kernel
  have hgoes : loopDisk.GoesInto ⟨"/inc"⟩ ⟨"/inc"⟩ :=
    ⟨_, [], ⟨"/inc/loop"⟩, [], hlist, List.mergeSort_singleton _, nofun,
      .link hlink hcanonical hentry rfl⟩
  have hback : loopDisk.ComesBack ⟨"/inc"⟩ := ⟨⟨"/inc"⟩, .refl, .single hgoes⟩
  have haccepts : ∀ (seen : List Path) (p : Path), ∃ next, takeDown seen p = .ok next :=
    fun seen p => ⟨seen ++ [p], rfl⟩
  exact ⟨by decide +kernel, not_endsWith_of_endless haccepts (endless_of_comesBack hback) []⟩

end Disk

end Monorepo
