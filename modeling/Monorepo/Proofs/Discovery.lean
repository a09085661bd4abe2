import Monorepo.Repository
import Monorepo.Proofs.Initialising
import Monorepo.Proofs.PathOrder

/-!
# What is found in the directory of a repository

Searching goes down from the root of the repository, into every directory and over links.  In the
directory of a repository there is one directory to go into, and there are no links, so what is
found can be told:

* `exists_mapM_eq_ok` — a traversal succeeds if all its steps do;
* `Repository.openAt_eq_ok` — what an opened repository is made of;
* `Disk.find_join_here`, `Disk.find_absolute_here` — the root of a repository as settings name it;
* `Init.Site.collect` — searching succeeds, to every depth, and finds only files of the name at the
  root or in the directory of include files;
* `Init.Site.appFilesIn` — the same for all names together.
-/

namespace Monorepo

/-- A traversal whose steps all succeed succeeds, and its results are like those of the steps. -/
theorem exists_mapM_eq_ok {ε α β : Type} {f : α → Except ε β} {P : β → Prop} {l : List α}
    (h : ∀ a ∈ l, ∃ b, f a = .ok b ∧ P b) : ∃ bs, l.mapM f = .ok bs ∧ ∀ b ∈ bs, P b := by
  induction l with
  | nil => exact ⟨[], rfl, nofun⟩
  | cons a rest ih =>
    rw [List.forall_mem_cons] at h
    obtain ⟨b, hb, hP⟩ := h.1
    obtain ⟨bs, hbs, hPs⟩ := ih h.2
    refine ⟨b :: bs, ?_, List.forall_mem_cons.mpr ⟨hP, hPs⟩⟩
    rw [List.mapM_cons, hb, hbs]
    rfl

theorem loaded_eq_ok {α : Type} {x : Except LoadError α} {a : α} :
    loaded x = .ok a ↔ x = .ok a := by
  cases x <;> simp [loaded]

theorem withContext_eq_ok {α : Type} {context : String} {x : Except Failure α} {a : α} :
    withContext context x = .ok a ↔ x = .ok a := by
  cases x <;> simp [withContext]

/-- **What an opened repository is made of.**  Its settings are valid, and its include directories
exist, load, and its apps are discovered. -/
theorem Repository.openAt_eq_ok {d : Disk} {root : Path} {s : Settings} {r : Repository} :
    openAt d root s = .ok r ↔
      s.validate = .ok () ∧ d.requireDirectories (s.includeDirsBelow root) = .ok () ∧
        ∃ store files, IncludeStore.load d (s.includeDirsBelow root) = .ok store ∧
          discoverApps d root s = .ok files ∧ r = ⟨root, s, store, files⟩ := by
  rw [openAt, Except.bind_eq_ok_iff]
  simp only [Except.bind_eq_ok_iff, withContext_eq_ok, loaded_eq_ok]
  constructor
  · intro h
    obtain ⟨⟨⟩, hvalid, ⟨⟩, hdirs, store, hstore, files, hfiles, hr⟩ := h
    exact ⟨hvalid, hdirs, store, files, hstore, hfiles, (Except.ok.inj hr).symm⟩
  · intro h
    obtain ⟨hvalid, hdirs, store, files, hstore, hfiles, rfl⟩ := h
    exact ⟨(), hvalid, (), hdirs, store, hstore, files, hfiles, rfl⟩

namespace Disk

open FileTree

variable {d : Disk} {p dir : Path} {top location : Location} {name : String}

/-- A path with a joined name leads to the entry of the name, if it leads anywhere. -/
theorem eq_of_locate_join (h : d.find dir = .ok (top, .directory)) (hname : ProperName name)
    (hlink : ∀ target, d.tree.entry? (top ++ [name]) ≠ some (.link target))
    (hlocate : d.locate (dir.join ⟨name⟩) false = .ok location) :
    location = top ++ [name] := by
  obtain ⟨-, -, hshort⟩ := checkText_eq_ok.mp (Disk.locate_eq_ok.mp hlocate).1
  have hjoin : d.locate (dir.join ⟨name⟩) false = .ok (top ++ [name]) :=
    locate_join h hname hshort (.inr hlink)
  exact Except.ok.inj (hlocate.symm.trans hjoin)

theorem requireDirectories_eq_ok_iff {dirs : List Path} :
    d.requireDirectories dirs = .ok () ↔ ∀ dir ∈ dirs, d.isDirectory dir = true := by
  induction dirs with
  | nil => exact ⟨fun _ => List.forall_mem_nil _, fun _ => rfl⟩
  | cons dir rest ih =>
    rw [List.forall_mem_cons, ← ih, requireDirectories, isDirectory]
    cases d.entry dir with
    | error fault =>
      constructor
      · intro h
        cases h
      · intro h
        cases h.1
    | ok entry =>
      by_cases hdirectory : entry.isDirectory = true
      · simp only [hdirectory, if_true, true_and]
      · exact ⟨fun h => absurd h (by simp [hdirectory]), fun h => absurd h.1 hdirectory⟩

/-- With `.` joined to it, a path to a directory leads to the same directory. -/
theorem find_join_here (h : d.find dir = .ok (top, .directory))
    (hshort : (dir.join ⟨"."⟩).text.utf8ByteSize < pathLimit) :
    d.find (dir.join ⟨"."⟩) = .ok (top, .directory) := by
  obtain ⟨hzero, hdir, -⟩ := checkText_eq_ok.mp (checkText_of_find h)
  have hchars : '\x00' ∉ (dir.join ⟨"."⟩).text.toList := by
    rw [Path.join_name hdir (by decide : '/' ∉ ".".toList)]
    split <;> simp [hzero]
  have htext : (dir.join ⟨"."⟩).text ≠ "" := Path.text_join_ne_empty hdir _
  exact find_of_names h (checkText_eq_ok.mpr ⟨hchars, htext, hshort⟩)
    (Path.isAbsolute_join hdir (by decide)) (Path.names_join_blank hdir (by decide) (.inr rfl))

/-- The absolute form of the path leads to the directory too, if it is not too long. -/
theorem find_absolute_here (ht : d.tree.WellFormed) (h : d.find dir = .ok (top, .directory))
    (hshort : (dir.join ⟨"."⟩).text.utf8ByteSize < pathLimit)
    (hlimit : ∀ a, d.absolute (dir.join ⟨"."⟩) = .ok a → a.text.utf8ByteSize < pathLimit) :
    ∃ a, d.absolute (dir.join ⟨"."⟩) = .ok a ∧ d.find a = .ok (top, .directory) := by
  have hdir := text_ne_empty_of_find h
  obtain ⟨a, ha⟩ := exists_absolute (d := d) (Path.text_join_ne_empty hdir _ :
    (dir.join ⟨"."⟩).text ≠ "")
  exact ⟨a, ha, find_absolute ht (find_join_here h hshort) ha (hlimit a ha)⟩

end Disk

namespace Init

open FileTree

variable {d : Disk} {root dir : Path} {top : Location}

/-- A file that a search found in a site: one of a name, at the root or in the directory of include
files. -/
def Site.Found (d : Disk) (top : Location) (name : String) (p : Path) : Prop :=
  ∃ above names bytes, p = Path.join above ⟨name⟩ ∧ (names = [] ∨ names = ["includes"]) ∧
    d.find p = .ok (top ++ names ++ [name], .file bytes)

/-- **Searching in a site succeeds**, whatever the depth. -/
theorem Site.collect (h : Site d root top) {name : String} (hname : ProperName name)
    {names : List String} (hdir : d.find dir = .ok (top ++ names, .directory)) (depth : Nat) :
    ∃ found, d.collect ⟨name⟩ depth dir = .ok found ∧
      ∀ p ∈ found, Site.Found d top name p := by
  have hlink : ∀ names more target, d.tree.entry? ((top ++ names) ++ more) ≠
      some (.link target) := by
    intro names more target
    rw [List.append_assoc]
    exact h.noLinks _ target
  have hhere : ∀ {dir : Path} {names : List String},
      d.find dir = .ok (top ++ names, .directory) →
      ∀ p ∈ (if d.isFile (dir.join ⟨name⟩) then [dir.join ⟨name⟩] else []),
        Site.Found d top name p := by
    intro dir names hdir p hp
    split at hp
    · rename_i hfile
      obtain rfl := List.mem_singleton.mp hp
      obtain ⟨location, entry, hfind, hisFile⟩ := Disk.isFile_eq_true.mp hfile
      obtain rfl := Disk.eq_of_locate_join hdir hname (hlink names [name])
        (Disk.find_eq_ok.mp hfind).1
      have hentry := (Disk.find_eq_ok.mp hfind).2
      rw [List.append_assoc] at hentry
      rcases h.files _ entry hentry with ⟨bytes, rfl⟩ | rfl
      · exact ⟨dir, names, bytes, rfl, h.directories names (Disk.find_eq_ok.mp hdir).2, hfind⟩
      · cases hisFile
    · cases hp
  induction depth generalizing dir names with
  | zero => exact ⟨_, rfl, hhere hdir⟩
  | succ depth ih =>
    have hlist : d.list dir = .ok ((d.tree.namesIn (top ++ names)).map fun name =>
        dir.join ⟨name⟩) := Disk.list_eq_ok.mpr ⟨_, hdir, rfl⟩
    obtain ⟨others, hothers, hfound⟩ : ∃ others,
        (((d.tree.namesIn (top ++ names)).map fun name => dir.join ⟨name⟩).filter
          d.isDirectory).mapM (d.collect ⟨name⟩ depth) = .ok others ∧
          ∀ found ∈ others, ∀ p ∈ found, Site.Found d top name p := by
      apply exists_mapM_eq_ok
      intro inner hinner
      obtain ⟨hmem, hdirectory⟩ := List.mem_filter.mp hinner
      obtain ⟨other, hother, rfl⟩ := List.mem_map.mp hmem
      obtain ⟨entry, hentry⟩ := h.wellFormed.mem_namesIn.mp hother
      obtain ⟨location, found, hfind, hisDirectory⟩ := Disk.isDirectory_eq_true.mp hdirectory
      obtain rfl := Disk.eq_of_locate_join hdir (h.wellFormed.properName_of_entry hentry)
        (hlink names [other]) (Disk.find_eq_ok.mp hfind).1
      rw [List.append_assoc] at hfind
      rcases h.files _ found (Disk.find_eq_ok.mp hfind).2 with ⟨bytes, rfl⟩ | rfl
      · cases hisDirectory
      · exact ih hfind
    refine ⟨(if d.isFile (dir.join ⟨name⟩) then [dir.join ⟨name⟩] else []) ++ others.flatten,
      ?_, ?_⟩
    · rw [Disk.collect, hlist]
      refine Except.bind_eq_ok_iff.mpr ⟨_, rfl, ?_⟩
      exact Except.bind_eq_ok_iff.mpr ⟨others, hothers, rfl⟩
    · intro p hp
      rcases List.mem_append.mp hp with hcandidate | hbelow
      · exact hhere hdir p hcandidate
      · obtain ⟨found, hfoundIn, hpIn⟩ := List.mem_flatten.mp hbelow
        exact hfound found hfoundIn p hpIn

theorem Site.short_here (h : Site d root top) :
    (root.join ⟨"."⟩).text.utf8ByteSize < pathLimit := by
  have hdir := Disk.text_ne_empty_of_find h.found
  have hshort := h.short
  have hlong : root.text.utf8ByteSize + 8 ≤
      (root.join Template.includeDir).text.utf8ByteSize :=
    Path.le_utf8ByteSize_join hdir (by decide : '/' ∉ "includes".toList)
  have hhere : (root.join ⟨"."⟩).text.utf8ByteSize ≤ root.text.utf8ByteSize + 1 + 1 :=
    Path.utf8ByteSize_join_le hdir (by decide : '/' ∉ ".".toList)
  omega

/-- **The app files of a site** are found, as its root is spelled in the settings, if the absolute
form of this path is not too long. -/
theorem Site.appFilesIn (h : Site d root top)
    (hlimit : ∀ a, d.absolute (root.join ⟨"."⟩) = .ok a → a.text.utf8ByteSize < pathLimit)
    {names : List String} (hnames : ∀ name ∈ names, ProperName name) (depth : Nat) :
    ∃ files, Repository.appFilesIn d [root.join ⟨"."⟩] names depth = .ok files ∧
      ∀ p ∈ files, ∃ name ∈ names, Site.Found d top name p := by
  obtain ⟨a, ha, hfind⟩ := Disk.find_absolute_here h.wellFormed h.found h.short_here hlimit
  have hdown : ∀ name ∈ names, ∃ found, d.findDown (root.join ⟨"."⟩) ⟨name⟩ depth = .ok found ∧
      ∀ p ∈ found, ∃ name ∈ names, Site.Found d top name p := by
    intro name hname
    rw [← List.append_nil top] at hfind
    obtain ⟨found, hcollect, hfound⟩ := h.collect (hnames name hname) hfind depth
    refine ⟨Path.sort found, ?_, fun p hp => ⟨name, hname, hfound p (Path.mem_sort.mp hp)⟩⟩
    rw [Disk.findDown, ha]
    exact Except.bind_eq_ok_iff.mpr ⟨found, hcollect, rfl⟩
  obtain ⟨found, hmapM, hfound⟩ := exists_mapM_eq_ok hdown
  refine ⟨_, Except.bind_eq_ok_iff.mpr ⟨[found], ?_, rfl⟩, ?_⟩
  · rw [List.mapM_cons, hmapM]
    rfl
  · intro p hp
    have hsorted := Path.mem_sort.mp (Path.mem_of_mem_dedup hp)
    rw [List.flatten_singleton] at hsorted
    obtain ⟨files, hfiles, hpIn⟩ := List.mem_flatten.mp hsorted
    exact hfound files hfiles p hpIn

end Init

end Monorepo
