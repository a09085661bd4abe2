import Mathlib.Logic.Function.Basic
import Monorepo.Proofs.Running

/-!
# Making a repository

A repository is made in three steps: the settings, the directory of include files, and a file in it.
In an empty directory, all three succeed if no path is too long, and there is nothing else
afterwards:

* `Disk.makeDirectoryPath_join` — making a directory in a directory;
* `Disk.Contains` — what is in a directory; each step adds one entry;
* `Init.Site` — the directory of a repository, with no directories and links but its own; writing
  files changes no site;
* `Init.Fresh` — a new repository, with all there is in its directory;
* `Init.exists_repository` — making a repository in an empty directory succeeds, if no path is too
  long, and `Init.fresh_of_repository` — whenever it does, the repository is a new one.
-/

namespace Monorepo

/-! ### Making a directory -/

namespace Disk

open FileTree

variable {d d' : Disk} {dir p : Path} {top location : Location} {name : String}

/-- The disk with a directory at a location. -/
def withDirectory (d : Disk) (location : Location) : Disk :=
  { d with tree := d.tree.put location .directory }

/-- A name in last place is the last segment, and no slash stands behind it. -/
theorem segmentsFromLast_of_segments {stem : List String} (h : p.segments = stem ++ [name])
    (hname : ProperName name) :
    segmentsFromLast p = p.segments.reverse ∧ endsInName p = true := by
  have hlast : segmentsFromLast p = name :: stem.reverse := by
    rw [segmentsFromLast, h, List.reverse_append, List.reverse_singleton,
      List.singleton_append, List.dropWhile_cons_of_neg (by simpa using hname.nonempty)]
  refine ⟨?_, ?_⟩
  · rw [hlast, h, List.reverse_append]
    rfl
  · rw [endsInName, hlast]
    simp [hname.not_here, hname.not_above]

/-- What becomes of making a directory depends on what stands where its path leads. -/
theorem makeDirectory_of_locate {stem : List String} (h : p.segments = stem ++ [name])
    (hname : ProperName name) (hlocate : d.locate p true = .ok location) :
    d.makeDirectory p = match d.tree.entry? location with
      | some _ => .error .alreadyExists
      | none => .ok (d.withDirectory location) := by
  obtain ⟨hsegments, hends⟩ := segmentsFromLast_of_segments h hname
  rw [makeDirectory, (Disk.locate_eq_ok.mp hlocate).1, hends, hsegments, List.reverse_reverse,
    Path.ofSegments_segments, hlocate]
  cases hentry : d.tree.entry? location with
  | some entry =>
    refine Except.bind_eq_error_iff.mpr (.inr ⟨(), rfl, ?_⟩)
    rw [if_neg (by decide)]
    refine Except.bind_eq_error_iff.mpr (.inr ⟨location, rfl, ?_⟩)
    simp only [hentry]
    rfl
  | none =>
    refine Except.bind_eq_ok_iff.mpr ⟨(), rfl, ?_⟩
    rw [if_neg (by decide)]
    refine Except.bind_eq_ok_iff.mpr ⟨location, rfl, ?_⟩
    simp only [hentry]
    rfl

theorem makeDirectory_join (h : d.find dir = .ok (top, .directory)) (hname : ProperName name)
    (hshort : (dir.join ⟨name⟩).text.utf8ByteSize < pathLimit)
    (hnone : d.tree.entry? (top ++ [name]) = none) :
    d.makeDirectory (dir.join ⟨name⟩) =
      .ok (d.withDirectory (top ++ [name])) := by
  obtain ⟨stem, hjoin, -⟩ := Path.segments_join (text_ne_empty_of_find h) hname.no_slash
  rw [makeDirectory_of_locate hjoin hname (locate_join h hname hshort (.inl rfl)), hnone]

/-- **A directory that is made in a directory** is put there; nothing above it has to be made. -/
theorem makeDirectoryPath_join (h : d.find dir = .ok (top, .directory)) (hname : ProperName name)
    (hshort : (dir.join ⟨name⟩).text.utf8ByteSize < pathLimit)
    (hnone : d.tree.entry? (top ++ [name]) = none) :
    d.makeDirectoryPath (dir.join ⟨name⟩) = (.ok (), d.withDirectory (top ++ [name])) := by
  have htext := Path.text_join_ne_empty (text_ne_empty_of_find h) ⟨name⟩
  rw [makeDirectoryPath, makeDirectoryPathWithin.eq_def]
  simp only [if_neg htext, makeDirectory_join h hname hshort hnone]

theorem pathExists_of_none (hlocate : d.locate p false = .ok location)
    (hnone : d.tree.entry? location = none) : d.pathExists p = false := by
  rw [pathExists, entry, find_of_none hlocate hnone]
  rfl

/-- A new file can be written where there is nothing. -/
theorem writeFile_of_none {mode : WriteMode} {bytes : List UInt8} (hcheck : checkText p = .ok ())
    (hends : p.endsInSlash = false) (hlocate : d.locate p (mode = .createNew) = .ok location)
    (hnone : d.tree.entry? location = none) :
    d.writeFile p mode bytes = .ok (d.withFile location bytes) := by
  rw [writeFile, hcheck, hends, Bool.false_and]
  refine Except.bind_eq_ok_iff.mpr ⟨(), rfl, Except.bind_eq_ok_iff.mpr ⟨location, hlocate, ?_⟩⟩
  simp only [hnone]
  rfl

/-- There is nothing below a directory without entries. -/
theorem entry?_below_of_list (ht : d.tree.WellFormed) (h : d.find dir = .ok (top, .directory))
    (hempty : d.list dir = .ok []) {names : List String} (hnames : names ≠ []) :
    d.tree.entry? (top ++ names) = none := by
  obtain ⟨found, hfind, hlist⟩ := list_eq_ok.mp hempty
  cases h.symm.trans hfind
  have hnone : d.tree.namesIn top = [] := List.map_eq_nil_iff.mp hlist.symm
  obtain ⟨name, rest, rfl⟩ := List.exists_cons_of_ne_nil hnames
  rw [Option.eq_none_iff_forall_not_mem]
  intro entry hentry
  have hname := ht.mem_namesIn_of_entry hentry
  rw [hnone] at hname
  cases hname

/-! ### What is in a directory -/

/-- What is in the directory that a path leads to: the entries below it are those of a function. -/
structure Contains (d : Disk) (root : Path) (top : Location)
    (content : List String → Option Entry) : Prop where
  wellFormed : d.tree.WellFormed
  linksProper : d.tree.LinksProper
  found : d.find root = .ok (top, .directory)
  below : ∀ names, names ≠ [] → d.tree.entry? (top ++ names) = content names

namespace Contains

variable {root : Path} {content : List String → Option Entry} {names : List String}

/-- An entry that is put below the directory. -/
theorem below_put (h : Contains d root top content) (hnames : names ≠ []) (entry : Entry)
    (other : List String) (hother : other ≠ []) :
    FileTree.entry? (d.tree.put (top ++ names) entry) (top ++ other) =
      Function.update content names (some entry) other := by
  have hroot : top ++ names ≠ [] := List.append_ne_nil_of_right_ne_nil _ hnames
  rw [lookup_put hroot, Function.update_apply, h.below other hother]
  simp only [List.append_cancel_left_eq]

/-- A new file in the directory, or below it. -/
theorem withFile (h : Contains d root top content) (hdir : d.find dir = .ok (location, .directory))
    (hname : ProperName name) (hshort : (dir.join ⟨name⟩).text.utf8ByteSize < pathLimit)
    (hlocation : location ++ [name] = top ++ names) (hnames : names ≠ [])
    (hnew : content names = none) (bytes : List UInt8) :
    Contains (d.withFile (top ++ names) bytes) root top
      (Function.update content names (some (.file bytes))) := by
  have hnone : d.tree.entry? (top ++ names) = none := (h.below names hnames).trans hnew
  have hfree : d.tree.Free (top ++ names) := .of_none hnone
  have hlocate : d.locate (dir.join ⟨name⟩) false = .ok (top ++ names) := by
    rw [← hlocation]
    exact locate_join hdir hname hshort (.inr fun target => hlocation ▸ hfree.not_link target)
  have hwritten := filesWritten_withFile hlocate hfree bytes
  exact ⟨hwritten.wellFormed h.wellFormed h.linksProper, hwritten.ways.linksProper h.linksProper,
    hwritten.find_directory.mpr h.found, h.below_put hnames _⟩

/-- A new directory in the directory. -/
theorem withDirectory (h : Contains d root top content) (hname : ProperName name)
    (hnew : content [name] = none) :
    Contains (d.withDirectory (top ++ [name])) root top
      (Function.update content [name] (some .directory)) := by
  have hnone : d.tree.entry? (top ++ [name]) = none :=
    (h.below [name] (List.cons_ne_nil _ _)).trans hnew
  have hways := keepsWays_put_directory hnone
  obtain ⟨hlocate, hdirectory⟩ := find_eq_ok.mp h.found
  obtain ⟨hcheck, hleads⟩ := Disk.locate_eq_ok.mp hlocate
  have hnot : ∀ target, d.tree.entry? top ≠ some (.link target) := by
    intro target htarget
    rw [hdirectory] at htarget
    cases htarget
  constructor
  · have hplace : d.tree.Placeable (top ++ [name]) := .inr ⟨top, name, rfl, hdirectory, hname⟩
    exact h.wellFormed.put hplace (by simp [hnone]) _
  · intro location target htarget
    exact h.linksProper location target ((hways.links _ _).mp htarget)
  · exact find_eq_ok.mpr ⟨Disk.locate_eq_ok.mpr ⟨hcheck, hleads.of_keepsWays hways hnot⟩,
      hways.directories _ hdirectory⟩
  · exact h.below_put (List.cons_ne_nil _ _) _

end Contains

end Disk

/-! ### The directory of a repository -/

namespace Init

open FileTree

variable {d d' : Disk} {root : Path} {top : Location}

/-- The path of the include file of a new repository. -/
def includeFileOf (root : Path) : Path :=
  (root.join Template.includeDir).join ⟨"example.toml"⟩

/-- The directory of a repository: the only directory in it is that of include files, and all else
are files that can be opened. -/
structure Site (d : Disk) (root : Path) (top : Location) : Prop where
  wellFormed : d.tree.WellFormed
  linksProper : d.tree.LinksProper
  found : d.find root = .ok (top, .directory)
  includes : d.tree.entry? (top ++ ["includes"]) = some .directory
  directories : ∀ names, d.tree.entry? (top ++ names) = some .directory →
    names = [] ∨ names = ["includes"]
  files : ∀ names entry, d.tree.entry? (top ++ names) = some entry →
    (∃ bytes, entry = .file bytes) ∨ entry = .directory
  short : (root.join Template.includeDir).text.utf8ByteSize < pathLimit

theorem Site.noLinks (h : Site d root top) (names : List String) (target : String) :
    d.tree.entry? (top ++ names) ≠ some (.link target) := by
  intro hentry
  rcases h.files names _ hentry with ⟨bytes, hlink⟩ | hlink <;> cases hlink

/-- Writing files changes no site. -/
theorem Site.filesWritten (h : Site d root top) (hwritten : d.FilesWritten d') :
    Site d' root top where
  wellFormed := hwritten.wellFormed h.wellFormed h.linksProper
  linksProper := hwritten.ways.linksProper h.linksProper
  found := hwritten.find_directory.mpr h.found
  includes := (hwritten.ways.directories _).mpr h.includes
  directories names hnames := h.directories names ((hwritten.ways.directories _).mp hnames)
  files names entry hentry := (hwritten.entries _ entry hentry).elim .inl (h.files names entry)
  short := h.short

/-- A new repository: its settings, the directory of include files and a file there. -/
structure Fresh (d : Disk) (root : Path) (top : Location) : Prop extends Site d root top where
  settingsShort : (root.join settingsFileName).text.utf8ByteSize < pathLimit
  settings : HoldsText d (top ++ [settingsFileName.text]) .yaml (toDocument Template.settings)
  includeFile : HoldsText d (top ++ ["includes", "example.toml"]) .toml
    (toDocument Template.includeFile)
  others : ∀ names entry, d.tree.entry? (top ++ names) = some entry →
    names = [] ∨ names = [settingsFileName.text] ∨ names = ["includes"] ∨
      names = ["includes", "example.toml"]

/-- The disk with the entries of a new repository in a directory, and these texts in its files. -/
def withRepository (d : Disk) (top : Location) (settings includeFile : String) : Disk :=
  ((d.withFile (top ++ [settingsFileName.text]) (Utf8.encode settings)).withDirectory
    (top ++ ["includes"])).withFile (top ++ ["includes", "example.toml"]) (Utf8.encode includeFile)

/-- A template can be written under a new name, if the path is not too long. -/
theorem writeTemplate_of_contains {α : Type} [OnDisk α] {value : α} {dir : Path}
    {location : Location} {name text : String} {content : List String → Option Entry}
    (force : Bool) (names : List String) (h : d.Contains root top content)
    (hdir : d.find dir = .ok (location, .directory)) (hname : ProperName name)
    (hshort : (dir.join ⟨name⟩).text.utf8ByteSize < pathLimit)
    (hlocation : location ++ [name] = top ++ names) (hnames : names ≠ [])
    (hnew : content names = none)
    (hrender : (FileFormat.ofPath ⟨name⟩).render (toDocument value) = .ok text) :
    writeTemplate d value (dir.join ⟨name⟩) force =
        (.ok (), d.withFile (top ++ names) (Utf8.encode text)) ∧
      (d.withFile (top ++ names) (Utf8.encode text)).Contains root top
        (Function.update content names (some (.file (Utf8.encode text)))) := by
  refine ⟨?_, h.withFile hdir hname hshort hlocation hnames hnew _⟩
  have hcheck := Disk.checkText_of_find hdir
  have hnone : d.tree.entry? (location ++ [name]) = none := by
    rw [hlocation, h.below names hnames, hnew]
  have hlink : ∀ target, d.tree.entry? (location ++ [name]) ≠ some (.link target) := by
    intro target
    rw [hnone]
    exact nofun
  have hlocate : ∀ keepLast, d.locate (dir.join ⟨name⟩) keepLast = .ok (location ++ [name]) :=
    fun _ => Disk.locate_join hdir hname hshort (.inr hlink)
  have hexists : d.pathExists (dir.join ⟨name⟩) = false :=
    Disk.pathExists_of_none (hlocate false) hnone
  have hends : (dir.join ⟨name⟩).endsInSlash = false :=
    Path.endsInSlash_join (Disk.text_ne_empty_of_find hdir) hname.no_slash hname.nonempty
  have hwrite : ∀ mode, d.writeFile (dir.join ⟨name⟩) mode (Utf8.encode text) =
      .ok (d.withFile (location ++ [name]) (Utf8.encode text)) := fun _ =>
    Disk.writeFile_of_none ((Disk.checkText_join hcheck hname).mpr hshort) hends (hlocate _) hnone
  have hencode : (FileFormat.ofPath (dir.join ⟨name⟩)).encode value = .ok text := by
    rw [FileFormat.encode, FileFormat.ofPath_join dir hname]
    exact hrender
  rw [writeTemplate, hexists, Bool.and_false, if_neg Bool.false_ne_true, ConfigFile.write, hencode]
  simp only [hwrite, hlocation]

/-- The directory of include files can be made, if its path is not too long. -/
theorem makeIncludeDir_of_contains {content : List String → Option Entry}
    (h : d.Contains root top content)
    (hshort : (root.join Template.includeDir).text.utf8ByteSize < pathLimit)
    (hnew : content ["includes"] = none) :
    makeIncludeDir d (root.join Template.includeDir) =
        (.ok (), d.withDirectory (top ++ ["includes"])) ∧
      (d.withDirectory (top ++ ["includes"])).Contains root top
        (Function.update content ["includes"] (some .directory)) := by
  have hname : ProperName "includes" := by decide
  refine ⟨?_, h.withDirectory hname hnew⟩
  have hmade := Disk.makeDirectoryPath_join h.found hname hshort
    ((h.below _ (List.cons_ne_nil _ _)).trans hnew)
  rw [makeIncludeDir, Template.includeDir, hmade]

/-- A path that a template was written to is not too long. -/
theorem short_of_writeTemplate {α : Type} [OnDisk α] {value : α} {file : Path} {force : Bool}
    (h : writeTemplate d value file force = (.ok (), d')) :
    file.text.utf8ByteSize < pathLimit := by
  obtain ⟨location, text, hlocate, -⟩ := exists_of_writeTemplate h
  exact (Disk.checkText_eq_ok.mp (Disk.locate_eq_ok.mp hlocate).1).2.2

theorem short_of_repository {force : Bool} {files : List Path}
    (h : repository d root force = (.ok files, d')) :
    (root.join settingsFileName).text.utf8ByteSize < pathLimit ∧
      (includeFileOf root).text.utf8ByteSize < pathLimit := by
  rw [repository] at h
  split at h
  · cases h
  rename_i hsettings
  split at h
  · cases h
  split at h
  · cases h
  rename_i hinclude
  exact ⟨short_of_writeTemplate hsettings, short_of_writeTemplate hinclude⟩

/-- What is in a new repository. -/
theorem fresh_of_contains {settings includeFile : String}
    (hsettings : FileFormat.render .yaml (toDocument Template.settings) = .ok settings)
    (hinclude : FileFormat.render .toml (toDocument Template.includeFile) = .ok includeFile)
    (hshort : (root.join Template.includeDir).text.utf8ByteSize < pathLimit)
    (hsettingsShort : (root.join settingsFileName).text.utf8ByteSize < pathLimit)
    (h : d.Contains root top (Function.update (Function.update (Function.update (fun _ => none)
      [settingsFileName.text] (some (.file (Utf8.encode settings)))) ["includes"] (some .directory))
        ["includes", "example.toml"] (some (.file (Utf8.encode includeFile))))) :
    Fresh d root top := by
  have hbelow := h.below
  simp only [Function.update_apply] at hbelow
  refine ⟨⟨h.wellFormed, h.linksProper, h.found, hbelow _ (by decide), ?_, ?_, hshort⟩,
    hsettingsShort, ⟨settings, hsettings, hbelow _ (by decide)⟩,
    ⟨includeFile, hinclude, hbelow _ (by decide)⟩, ?_⟩
  · intro names hdirectory
    by_cases hnames : names = []
    · exact .inl hnames
    · rw [hbelow names hnames] at hdirectory
      grind
  · intro names entry hentry
    by_cases hnames : names = []
    · rw [hnames, List.append_nil, (Disk.find_eq_ok.mp h.found).2] at hentry
      exact .inr (Option.some.inj hentry).symm
    · rw [hbelow names hnames] at hentry
      grind
  · intro names entry hfound
    by_cases hnames : names = []
    · exact .inl hnames
    · rw [hbelow names hnames] at hfound
      grind

/-- **A repository can be made in an empty directory**, if no path is too long, and it is a new
one. -/
theorem exists_repository (ht : d.tree.WellFormed) (hlinks : d.tree.LinksProper)
    (hroot : d.find root = .ok (top, .directory)) (hempty : d.list root = .ok []) (force : Bool)
    (hsettingsShort : (root.join settingsFileName).text.utf8ByteSize < pathLimit)
    (hincludeShort : (includeFileOf root).text.utf8ByteSize < pathLimit) :
    ∃ settings includeFile,
      FileFormat.render .yaml (toDocument Template.settings) = .ok settings ∧
      FileFormat.render .toml (toDocument Template.includeFile) = .ok includeFile ∧
      repository d root force = (.ok [root.join settingsFileName, includeFileOf root],
        withRepository d top settings includeFile) ∧
      Fresh (withRepository d top settings includeFile) root top := by
  have hshort : (root.join Template.includeDir).text.utf8ByteSize < pathLimit := by
    have htext := Path.text_join_ne_empty (Disk.text_ne_empty_of_find hroot) ⟨"includes"⟩
    have hle := Path.le_utf8ByteSize_join htext (by decide : '/' ∉ "example.toml".toList)
    exact Nat.lt_of_le_of_lt (Nat.le_of_add_right_le hle) hincludeShort
  obtain ⟨settings, hsettings⟩ :
      ∃ text, FileFormat.render .yaml (toDocument Template.settings) = .ok text :=
    FileFormat.exists_render_eq_ok.mpr nofun
  obtain ⟨includeFile, hinclude⟩ :
      ∃ text, FileFormat.render .toml (toDocument Template.includeFile) = .ok text :=
    FileFormat.exists_encode_eq_ok .toml Template.includeFile
  -- One step after the other, with what is in the directory after each.
  have h₀ : d.Contains root top fun _ => none :=
    ⟨ht, hlinks, hroot, fun _ hnames => Disk.entry?_below_of_list ht hroot hempty hnames⟩
  obtain ⟨hwrite₁, h₁⟩ := writeTemplate_of_contains force [".monobuild.yaml"] h₀ hroot
    (by decide) hsettingsShort rfl (List.cons_ne_nil _ _) rfl hsettings
  obtain ⟨hmake, h₂⟩ := makeIncludeDir_of_contains h₁ hshort
    (Function.update_of_ne (by decide) _ _)
  have hincludes : Disk.find _ (root.join Template.includeDir) =
      .ok (top ++ ["includes"], .directory) :=
    Disk.find_join h₂.found (by decide) hshort
      ((h₂.below _ (List.cons_ne_nil _ _)).trans (Function.update_self _ _ _)) nofun
  have hnew : Function.update (Function.update (fun _ => none) [".monobuild.yaml"]
      (some (Entry.file (Utf8.encode settings)))) ["includes"] (some .directory)
        ["includes", "example.toml"] = none := by
    rw [Function.update_of_ne (by decide), Function.update_of_ne (by decide)]
  obtain ⟨hwrite₂, h₃⟩ := writeTemplate_of_contains force ["includes", "example.toml"] h₂
    hincludes (by decide) hincludeShort (List.append_assoc _ _ _) (List.cons_ne_nil _ _) hnew
    hinclude
  refine ⟨settings, includeFile, hsettings, hinclude, ?_,
    fresh_of_contains hsettings hinclude hshort hsettingsShort h₃⟩
  rw [repository]
  simp only [settingsFileName, hwrite₁, hmake, hwrite₂]
  rfl

/-- **Making a repository in an empty directory** gives a new repository. -/
theorem fresh_of_repository {force : Bool} {files : List Path} (ht : d.tree.WellFormed)
    (hlinks : d.tree.LinksProper) (hroot : d.find root = .ok (top, .directory))
    (hempty : d.list root = .ok []) (h : repository d root force = (.ok files, d')) :
    Fresh d' root top := by
  obtain ⟨hsettings, hinclude⟩ := short_of_repository h
  obtain ⟨_, _, -, -, hmade, hfresh⟩ :=
    exists_repository ht hlinks hroot hempty force hsettings hinclude
  cases hmade.symm.trans h
  exact hfresh

end Init

end Monorepo
