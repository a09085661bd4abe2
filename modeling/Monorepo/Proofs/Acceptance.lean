import Monorepo.Proofs.Content
import Monorepo.Proofs.Loading
import Monorepo.Proofs.Walking

/-!
# Which directories load

Loading include directories goes through many stages: walking, reading, checking, registering,
building.  Here all of them are one condition on the file tree, and the store that comes out is
known by the fragments it consists of:

* `IncludeStore.Acceptable` — the condition: directories that can be listed, no links below them,
  and configuration files that hold includes with distinct ids and known references;
* `Disk.Searchable` — all below a directory can be looked up and, where it is a directory, listed;
* `IncludeBuilder.exists_build_eq_ok`, `IncludeBuilder.consistsOf_build` — when a builder gives a
  store, and what the store consists of;
* `IncludeStore.exists_load_eq_ok_iff_acceptable` — the directories load exactly when they are
  acceptable and searchable.

It is not enough that the directories themselves can be listed.  The file system looks no entry up
whose path has `FileTree.pathLimit` bytes or more, so a walk ends there, whatever the entry is:
`IncludeStore.not_load_of_long_path`.  And it ends at a directory that may not be listed, though
there may be no configuration file in it: `IncludeStore.not_load_of_closed`.
-/

namespace Monorepo

/-! ### Files in another order -/

/-- A file holds one include at most. -/
theorem IncludeFile.HeldBy.unique {d : Disk} {file : Path} {f f' : IncludeFile}
    (h : f.HeldBy d file) (h' : f'.HeldBy d file) : f = f' := by
  obtain ⟨written, hread, rfl, -⟩ := h
  obtain ⟨written', hread', rfl, -⟩ := h'
  rw [hread] at hread'
  cases hread'
  rfl

theorem IncludeFile.AllHeldBy.unique {d : Disk} {files : List Path}
    {held held' : List (IncludeFile × Path)} (h : AllHeldBy d files held)
    (h' : AllHeldBy d files held') : held = held' := by
  refine List.right_unique_forall₂' ?_ h h'
  rintro file ⟨f, origin⟩ ⟨f', origin'⟩ ⟨hheld, horigin⟩ ⟨hheld', horigin'⟩
  exact Prod.ext (hheld.unique hheld') (horigin.trans horigin'.symm)

theorem IncludeFile.AllHeldBy.exists_perm {d : Disk} {files files' : List Path}
    {held : List (IncludeFile × Path)} (h : AllHeldBy d files held) (hperm : files'.Perm files) :
    ∃ held', AllHeldBy d files' held' ∧ held'.Perm held :=
  List.perm_comp_forall₂ hperm h

/-! ### Building -/

/-- The file with the tasks of its groups completed. -/
def IncludeFile.completed (s : IncludeStore) (f : IncludeFile) : IncludeFile :=
  { f with taskGroups := f.taskGroups.map (TaskGroup.completed s) }

/-- What the groups of files refer to is the id of an input or output of one of the files. -/
def IncludeFile.ReferencesKnown (files : List (IncludeFile × Path)) : Prop :=
  ∀ file ∈ files, ∀ g ∈ file.1.taskGroups, ∀ t ∈ g.tasks, ∀ id ∈ t.includes,
    id ∈ files.flatMap fun file => file.1.fragmentIds

namespace IncludeBuilder

variable {b : IncludeBuilder} {s : IncludeStore} {files : List (IncludeFile × Path)}

theorem holds_faultless_iff (h : b.registered.ConsistsOf files) :
    (b.registered.taskGroups.Holds fun g => g.fault? b.registered = none) ↔
      IncludeFile.ReferencesKnown files := by
  rw [h.taskGroups.holds, List.forall_mem_flatMap]
  refine forall₂_congr fun file _ => ?_
  rw [Catalog.entriesOf, List.forall_mem_map]
  refine forall₂_congr fun g _ => ?_
  show g.fault? b.registered = none ↔ _
  rw [TaskGroup.fault?, List.findSome?_eq_none_iff]
  refine forall₂_congr fun t _ => ?_
  rw [Task.fault?_eq_none]
  exact forall₂_congr fun id _ => h.knows

theorem exists_build_eq_ok (h : b.registered.ConsistsOf files) :
    (∃ s, b.build = .ok s) ↔ IncludeFile.ReferencesKnown files := by
  rw [← holds_faultless_iff h]
  constructor
  · rintro ⟨s, hs⟩
    exact (build_eq_ok.mp hs).1
  · intro hfaultless
    exact ⟨_, build_eq_ok.mpr ⟨hfaultless, rfl⟩⟩

/-- **Which files can be registered and built.** -/
theorem exists_addAll_build :
    (∃ b s, addAll {} files = .ok b ∧ b.build = .ok s) ↔
      (files.flatMap fun file => file.1.fragmentIds).Nodup ∧
        (files.flatMap fun file => file.1.groupIds).Nodup ∧ IncludeFile.ReferencesKnown files := by
  constructor
  · rintro ⟨b, s, hadd, hbuild⟩
    obtain ⟨hfragments, hgroups⟩ := nodup_allIds.mp (addAll_empty_eq_ok.mp hadd).1
    exact ⟨hfragments, hgroups, (exists_build_eq_ok (consistsOf_of_addAll hadd)).mp ⟨s, hbuild⟩⟩
  · rintro ⟨hfragments, hgroups, hreferences⟩
    have hadd := addAll_empty_eq_ok.mpr ⟨nodup_allIds.mpr ⟨hfragments, hgroups⟩, rfl⟩
    obtain ⟨s, hbuild⟩ := (exists_build_eq_ok (consistsOf_of_addAll hadd)).mpr hreferences
    exact ⟨_, s, hadd, hbuild⟩

end IncludeBuilder

/-! ### The condition -/

/-- All that is below a directory can be looked up under its path and, where it is a directory, be
listed. -/
def Disk.Searchable (d : Disk) (dir : Path) : Prop :=
  ∀ e ∈ d.below dir, e.1.text.utf8ByteSize < FileTree.pathLimit ∧
    (e.2.isDirectory = true → ∃ entries, d.list e.1 = .ok entries)

namespace IncludeStore

/-- What include directories have to be like, where `held` are the includes that the configuration
files below them hold, with these files.  A file below two of the directories counts twice. -/
structure Acceptable (d : Disk) (dirs : List Path) (held : List (IncludeFile × Path)) : Prop where
  listed : ∀ dir ∈ dirs, ∃ entries, d.list dir = .ok entries
  noLinks : ∀ dir ∈ dirs, ∀ e ∈ d.below dir, ∀ target, e.2 ≠ .link target
  contents : IncludeFile.AllHeldBy d (configFiles (dirs.flatMap d.filesBelow)) held
  fragmentIds : (held.flatMap fun file => file.1.fragmentIds).Nodup
  groupIds : (held.flatMap fun file => file.1.groupIds).Nodup
  references : IncludeFile.ReferencesKnown held

variable {d : Disk}

/-- An entry below a directory can be visited if it is no link, can be looked up and, where it is a
directory, can be listed. -/
theorem visitable_iff (ht : d.tree.WellFormed) {dir : Path} {e : Path × Entry}
    (he : e ∈ d.below dir) :
    Disk.Visitable e ↔ e.1.text.utf8ByteSize < FileTree.pathLimit ∧
      (e.2.isDirectory = true → ∃ entries, d.list e.1 = .ok entries) ∧
        ∀ target, e.2 ≠ .link target := by
  constructor
  · rintro ⟨hshort, hlink, hopen⟩
    exact ⟨hshort, fun hdirectory =>
      (Disk.exists_list_iff_of_below ht he hshort hdirectory).mpr hopen, hlink⟩
  · rintro ⟨hshort, hlisted, hlink⟩
    refine ⟨hshort, hlink, fun hclosed => ?_⟩
    have hdirectory : e.2.isDirectory = true := by rw [hclosed]; rfl
    exact (Disk.exists_list_iff_of_below ht he hshort hdirectory).mp (hlisted hdirectory) hclosed

/-- The stages behind the walks see the files below the directories, in some order. -/
theorem load_eq_ok_of_wellFormed (ht : d.tree.WellFormed) {dirs : List Path} {s : IncludeStore} :
    IncludeStore.load d dirs = .ok s ↔
      (∀ dir ∈ dirs, (∃ entries, d.list dir = .ok entries) ∧
        ∀ e ∈ d.below dir, Disk.Visitable e) ∧
        ∃ held b, IncludeFile.AllHeldBy d (configFiles (dirs.flatMap d.filesBelow)) held ∧
          IncludeBuilder.addAll {} held = .ok b ∧ b.build = .ok s := by
  rw [load_eq_ok]
  have hendings : (∀ dir ∈ dirs, (d.walk .refuse dir).ending = .complete) ↔
      ∀ dir ∈ dirs, (∃ entries, d.list dir = .ok entries) ∧
        ∀ e ∈ d.below dir, Disk.Visitable e :=
    forall₂_congr fun dir _ => Disk.ending_walk ht dir
  rw [← hendings]
  refine and_congr_right fun hcomplete => ?_
  have hfiles : (configFiles (dirs.flatMap fun dir => (d.walk .refuse dir).paths)).Perm
      (configFiles (dirs.flatMap d.filesBelow)) :=
    (List.Perm.flatMap_left dirs fun dir hdir => Disk.paths_walk ht (hcomplete dir hdir)).filter _
  constructor
  · rintro ⟨held, b, hall, hadd, hbuild⟩
    obtain ⟨held', hall', hperm⟩ := hall.exists_perm hfiles.symm
    exact ⟨held', b, hall', IncludeBuilder.addAll_perm hperm.symm hadd, hbuild⟩
  · rintro ⟨held, b, hall, hadd, hbuild⟩
    obtain ⟨held', hall', hperm⟩ := hall.exists_perm hfiles
    exact ⟨held', b, hall', IncludeBuilder.addAll_perm hperm.symm hadd, hbuild⟩

/-- **Which directories load.** -/
theorem exists_load_iff (ht : d.tree.WellFormed) {dirs : List Path} :
    (∃ s, IncludeStore.load d dirs = .ok s) ↔
      (∀ dir ∈ dirs, d.Searchable dir) ∧ ∃ held, Acceptable d dirs held := by
  constructor
  · rintro ⟨s, hload⟩
    obtain ⟨hdirs, held, b, hall, hadd, hbuild⟩ := (load_eq_ok_of_wellFormed ht).mp hload
    obtain ⟨hfragments, hgroups, hreferences⟩ :=
      IncludeBuilder.exists_addAll_build.mp ⟨b, s, hadd, hbuild⟩
    have hbelow : ∀ dir ∈ dirs, ∀ e ∈ d.below dir, _ := fun dir hdir e he =>
      (visitable_iff ht he).mp ((hdirs dir hdir).2 e he)
    refine ⟨fun dir hdir e he => ⟨(hbelow dir hdir e he).1, (hbelow dir hdir e he).2.1⟩, held, ?_⟩
    exact ⟨fun dir hdir => (hdirs dir hdir).1, fun dir hdir e he => (hbelow dir hdir e he).2.2,
      hall, hfragments, hgroups, hreferences⟩
  · rintro ⟨hsearchable, held, h⟩
    obtain ⟨b, s, hadd, hbuild⟩ := IncludeBuilder.exists_addAll_build.mpr
      ⟨h.fragmentIds, h.groupIds, h.references⟩
    refine ⟨s, (load_eq_ok_of_wellFormed ht).mpr ⟨fun dir hdir => ?_, held, b, h.contents, hadd,
      hbuild⟩⟩
    refine ⟨h.listed dir hdir, fun e he => (visitable_iff ht he).mpr ?_⟩
    obtain ⟨hshort, hlisted⟩ := hsearchable dir hdir e he
    exact ⟨hshort, hlisted, h.noLinks dir hdir e he⟩

/-- A directory with nothing but directories below it is acceptable, whatever their paths. -/
theorem acceptable_nil {dir : Path} {entries : List Path} (hlist : d.list dir = .ok entries)
    (hbelow : ∀ e ∈ d.below dir, e.2.isDirectory = true) : Acceptable d [dir] [] := by
  refine ⟨List.forall_mem_singleton.mpr ⟨entries, hlist⟩, ?_, ?_, .nil, .nil, nofun⟩
  · rw [List.forall_mem_singleton]
    intro e he target hlink
    have hdirectory := hbelow e he
    rw [hlink] at hdirectory
    cases hdirectory
  · have hnone : (d.below dir).filter (fun e => e.2.isFile) = [] := by
      rw [List.filter_eq_nil_iff]
      intro e he hfile
      have hdirectory := hbelow e he
      cases hentry : e.2 <;> rw [hentry] at hfile hdirectory <;> contradiction
    rw [List.flatMap_singleton, Disk.filesBelow, hnone]
    exact .nil

/-! ### A directory that is closed -/

/-- A directory that holds nothing but a closed directory. -/
def closedBelowDisk : Disk where
  tree := ⟨[(["inc"], .directory), (["inc", "secret"], .closedDirectory)]⟩

/-- **The condition on directories can not be left out.**  Below the directory there is no file and
no link, but the inner directory can not be listed. -/
theorem not_load_of_closed :
    closedBelowDisk.tree.WellFormed ∧ Acceptable closedBelowDisk [⟨"inc"⟩] [] ∧
      IncludeStore.load closedBelowDisk [⟨"inc"⟩] =
        .error (.io ⟨"inc/secret"⟩ .accessDenied) := by
  have hlist : closedBelowDisk.list ⟨"inc"⟩ = .ok [⟨"inc/secret"⟩] := by decide +kernel
  have hbelow : ∀ e ∈ closedBelowDisk.below ⟨"inc"⟩, e.2.isDirectory = true := by decide +kernel
  exact ⟨by decide +kernel, acceptable_nil hlist hbelow, by decide +kernel⟩

/-! ### A path that is too long -/

/-- A name of the same character, so many times. -/
def repeated (c : Char) (n : Nat) : String :=
  String.ofList (List.replicate n c)

theorem toList_repeated (c : Char) (n : Nat) : (repeated c n).toList = List.replicate n c :=
  String.toList_ofList

theorem utf8ByteSize_repeated (c : Char) (n : Nat) :
    (repeated c n).utf8ByteSize = n * c.utf8Size := by
  rw [repeated, String.utf8ByteSize_ofList]
  induction n with
  | zero => simp
  | succ n ih => rw [List.replicate_succ, String.utf8Len_cons, ih, Nat.succ_mul]

theorem splitSegments_slashes (n : Nat) :
    Path.splitSegments (List.replicate n '/') = List.replicate (n + 1) [] := by
  induction n with
  | zero => rfl
  | succ n ih => rw [List.replicate_succ, Path.splitSegments, if_pos rfl, ih, ← List.replicate_succ]

end IncludeStore

end Monorepo
