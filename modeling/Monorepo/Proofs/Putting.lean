import Monorepo.Proofs.Spelling
import Monorepo.Proofs.Writing

/-!
# Trees that are written to

A write puts an entry where its path leads.  The tree stays that of a file system, because a path
only leads to entries, or to names in directories that an entry could have:

* `FileTree.Placeable` — such a location;
* `FileTree.Leads.placeable` — paths lead to no other, as long as no link holds what no name can;
* `FileTree.WellFormed.put` — putting an entry at such a location, where there is a file or nothing;
* `FileTree.SameWays` — two trees with the same directories and links; every path leads to the same
  location in both, and writing a file leaves it at that.
-/

namespace Monorepo

namespace FileTree

variable {t t' : FileTree} {at_ : Location}

/-! ### Where an entry can stand -/

/-- There is an entry at a location, or there could be: its name is proper and in a directory. -/
def Placeable (t : FileTree) (at_ : Location) : Prop :=
  (∃ entry, t.entry? at_ = some entry) ∨
    ∃ dir name, at_ = dir ++ [name] ∧ t.entry? dir = some .directory ∧ ProperName name

/-- No link has a target that holds the character of code zero. -/
def LinksProper (t : FileTree) : Prop :=
  ∀ location target, t.entry? location = some (.link target) → '\x00' ∉ target.toList

theorem linksProper_of_entries
    (h : ∀ e ∈ t.entries, ∀ target, e.2 = .link target → '\x00' ∉ target.toList) :
    t.LinksProper := by
  intro location target htarget
  have hroot : location ≠ [] := by
    intro hempty
    rw [hempty] at htarget
    cases htarget
  rw [lookup_of_ne_root hroot] at htarget
  obtain ⟨before, after, hentries, -⟩ := List.lookup_eq_some_iff.mp htarget
  exact h (location, .link target) (by simp [hentries]) target rfl

/-- A path leads to an entry, or to where there could be one. -/
theorem Leads.placeable (ht : t.WellFormed) (hlinks : t.LinksProper) {keepLast : Bool}
    {links : Nat} {here found : Location} {segments : List String}
    (h : t.Leads keepLast links here segments found) (hnames : Path.TextOfNames segments)
    (hhere : t.Placeable here) : t.Placeable found := by
  induction h with
  | done links here => exact hhere
  | stay hdirectory hblank _ ih =>
    exact ih (fun s hs => hnames s (List.mem_cons_of_mem _ hs)) hhere
  | @above links here found rest hdirectory _ ih =>
    refine ih (fun s hs => hnames s (List.mem_cons_of_mem _ hs)) (.inl ?_)
    have habove := ht.exists_of_take hdirectory (here.length - 1)
    rwa [← List.dropLast_eq_take] at habove
  | name hdirectory hname _ _ ih =>
    obtain ⟨hslash, hzero⟩ := hnames _ List.mem_cons_self
    exact ih (fun s hs => hnames s (List.mem_cons_of_mem _ hs))
      (.inr ⟨_, _, rfl, hdirectory, ⟨hname, hslash, hzero⟩⟩)
  | kept hdirectory hname htarget _ => exact .inl ⟨_, htarget⟩
  | link hdirectory hname htarget _ _ ih =>
    refine ih (fun s hs => ?_) (.inl ?_)
    · rcases List.mem_append.mp hs with htargetName | hrest
      · exact Path.textOfNames_segments (p := ⟨_⟩) (hlinks _ _ htarget) s htargetName
      · exact hnames s (List.mem_cons_of_mem _ hrest)
    · split
      · exact ⟨_, rfl⟩
      · exact ⟨_, hdirectory⟩

/-! ### Putting an entry into a well-formed tree -/

theorem mem_putEntry {entry : Entry} {entries : List (Location × Entry)} {e : Location × Entry}
    (h : e ∈ putEntry at_ entry entries) : e = (at_, entry) ∨ e ∈ entries := by
  induction entries with
  | nil => exact .inl (List.mem_singleton.mp h)
  | cons first rest ih =>
    rw [putEntry] at h
    split at h
    · rcases List.mem_cons.mp h with heq | hrest
      · exact .inl heq
      · exact .inr (List.mem_cons_of_mem _ hrest)
    · rcases List.mem_cons.mp h with heq | hrest
      · exact .inr (heq ▸ List.mem_cons_self)
      · exact (ih hrest).imp id (List.mem_cons_of_mem _)

/-- Putting an entry replaces the one that is there, or adds one at the end. -/
theorem map_fst_putEntry (entry : Entry) (entries : List (Location × Entry)) :
    (putEntry at_ entry entries).map Prod.fst =
      if at_ ∈ entries.map Prod.fst then entries.map Prod.fst
      else entries.map Prod.fst ++ [at_] := by
  induction entries with
  | nil => rfl
  | cons first rest ih =>
    rw [putEntry]
    by_cases hfirst : first.1 = at_
    · rw [if_pos hfirst]
      simp [hfirst]
    · rw [if_neg hfirst, List.map_cons, ih, List.map_cons]
      by_cases hrest : at_ ∈ rest.map Prod.fst
      · rw [if_pos hrest, if_pos (List.mem_cons_of_mem _ hrest)]
      · have hboth : at_ ∉ first.1 :: rest.map Prod.fst :=
          List.not_mem_cons_of_ne_of_not_mem (fun h => hfirst h.symm) hrest
        rw [if_neg hrest, if_neg hboth]
        rfl

/-- **The tree stays that of a file system** when an entry is put where one can be, and no directory
is lost. -/
theorem WellFormed.put (ht : t.WellFormed) (hplace : t.Placeable at_)
    (hnot : t.entry? at_ ≠ some .directory) (entry : Entry) : (t.put at_ entry).WellFormed := by
  have hroot : at_ ≠ [] := fun h => hnot (h ▸ rfl)
  have hlocation : (∀ name ∈ at_, ProperName name) ∧ t.entry? at_.dropLast = some .directory := by
    rcases hplace with ⟨old, hold⟩ | ⟨dir, name, rfl, hdir, hname⟩
    · have hmem := ht.mem_entries.mpr ⟨hroot, hold⟩
      exact ⟨ht.names _ hmem, ht.above _ hmem⟩
    · rw [List.dropLast_concat]
      refine ⟨fun other hother => ?_, hdir⟩
      rcases List.mem_append.mp hother with habove | hlast
      · have hdirRoot : dir ≠ [] := List.ne_nil_of_mem habove
        exact ht.names _ (ht.mem_entries.mpr ⟨hdirRoot, hdir⟩) other habove
      · rw [List.mem_singleton.mp hlast]
        exact hname
  have hkeeps : ∀ location, t.entry? location = some .directory →
      FileTree.entry? (t.put at_ entry) location = some .directory := by
    intro location hdirectory
    rw [lookup_put hroot, if_neg, hdirectory]
    rintro rfl
    exact hnot hdirectory
  constructor
  · intro e he
    rcases mem_putEntry he with rfl | hold
    · exact hlocation.1
    · exact ht.names e hold
  · intro e he
    rcases mem_putEntry he with rfl | hold
    · exact hroot
    · exact ht.not_root e hold
  · intro e he
    rcases mem_putEntry he with rfl | hold
    · exact hkeeps _ hlocation.2
    · exact hkeeps _ (ht.above e hold)
  · show ((putEntry at_ entry t.entries).map Prod.fst).Nodup
    rw [map_fst_putEntry]
    split
    · exact ht.distinct
    · rename_i hnew
      exact List.nodup_append'.mpr
        ⟨ht.distinct, List.nodup_singleton _, List.disjoint_singleton.mpr hnew⟩

/-- Putting a directory where there was nothing changes no way. -/
theorem keepsWays_put_directory {at_ : Location} (hnone : t.entry? at_ = none) :
    t.KeepsWays (t.put at_ .directory) := by
  have hroot : at_ ≠ [] := by
    intro h
    rw [h] at hnone
    cases hnone
  have hentry := lookup_put (t := t) hroot .directory
  constructor
  · intro location hdirectory
    rw [hentry]
    split
    · rfl
    · exact hdirectory
  · intro location target
    rw [hentry]
    by_cases hlocation : location = at_
    · rw [if_pos hlocation, hlocation, hnone]
      exact ⟨nofun, nofun⟩
    · rw [if_neg hlocation]

/-! ### Trees with the same ways -/

/-- Two trees have the same directories and the same links. -/
structure SameWays (t t' : FileTree) : Prop where
  directories : ∀ location, t'.entry? location = some .directory ↔
    t.entry? location = some .directory
  links : ∀ location target, t'.entry? location = some (.link target) ↔
    t.entry? location = some (.link target)

theorem SameWays.refl (t : FileTree) : t.SameWays t :=
  ⟨fun _ => .rfl, fun _ _ => .rfl⟩

theorem SameWays.symm (h : t.SameWays t') : t'.SameWays t :=
  ⟨fun location => (h.directories location).symm, fun location target =>
    (h.links location target).symm⟩

theorem SameWays.trans {t'' : FileTree} (h : t.SameWays t') (h' : t'.SameWays t'') :
    t.SameWays t'' :=
  ⟨fun location => (h'.directories location).trans (h.directories location),
    fun location target => (h'.links location target).trans (h.links location target)⟩

theorem SameWays.keepsWays (h : t.SameWays t') : t.KeepsWays t' :=
  ⟨fun location => (h.directories location).mpr, h.links⟩

/-- A file that is put where there was a file or nothing leaves directories and links as they
are. -/
theorem sameWays_put (hfree : t.Free at_) (bytes : List UInt8) :
    t.SameWays (t.put at_ (.file bytes)) := by
  have hkeeps := keepsWays_put hfree bytes
  refine ⟨fun location => ⟨fun hdirectory => ?_, hkeeps.directories location⟩, hkeeps.links⟩
  rw [lookup_put hfree.ne_root] at hdirectory
  split at hdirectory
  · cases hdirectory
  · exact hdirectory

/-- Every path leads to the same location in both. -/
theorem Leads.of_sameWays (hways : t.SameWays t') {keepLast : Bool} {links : Nat}
    {here found : Location} {segments : List String}
    (h : t.Leads keepLast links here segments found) :
    t'.Leads keepLast links here segments found := by
  induction h with
  | done links here => exact .done links here
  | stay hdirectory hblank _ ih =>
    exact .stay ((hways.directories _).mpr hdirectory) hblank ih
  | above hdirectory _ ih => exact .above ((hways.directories _).mpr hdirectory) ih
  | name hdirectory hname hplain _ ih =>
    have hplain' := fun target htarget => hplain target ((hways.links _ target).mp htarget)
    exact .name ((hways.directories _).mpr hdirectory) hname hplain' ih
  | kept hdirectory hname htarget hkeep =>
    exact .kept ((hways.directories _).mpr hdirectory) hname ((hways.links _ _).mpr htarget) hkeep
  | link hdirectory hname htarget hlast _ ih =>
    exact .link ((hways.directories _).mpr hdirectory) hname ((hways.links _ _).mpr htarget)
      hlast ih

theorem SameWays.linksProper (h : t.SameWays t') (hlinks : t.LinksProper) : t'.LinksProper :=
  fun location target htarget => hlinks location target ((h.links location target).mp htarget)

end FileTree

end Monorepo
