import Monorepo.Proofs.Additions
import Monorepo.Proofs.Saving

/-!
# What a command that fails leaves behind

A command that makes one file fails before it has changed anything.  A repository is made in three
steps, and when one of them fails those before it are not undone:

* `Init.saves_of_writeTemplate` — a template that is written is there as a whole, and by
  `Init.unchanged_of_writeTemplate` one that is not has changed nothing;
* `Init.makeIncludeDir_beside` — beside settings that were written the directory of include files is
  made at once, is there already, or is not made at all;
* `Command.Unfinished` — what a command leaves of a disk, by the step that failed;
* `Command.unfinished_of_error` — a command that fails has failed in one of these steps.

So a failure need not leave the disk as it was: `Command.not_unchanged_of_error`.

A step that writes a file can fail as long as the file is not open.  As in `ConfigFile.save`, it is
assumed that bytes can be put into a file that is; where they can not, as on a disk that is full, a
part of the file can be left.
-/

namespace Monorepo

/-- The second disk is the first with a directory where a path leads, at a location where there was
nothing.  All other entries are the same. -/
structure Disk.AddsDirectory (d d' : Disk) (dir : Path) (location : Location) : Prop where
  workingDir : d'.workingDir = d.workingDir
  free : d.tree.entry? location = none
  found : d'.find dir = .ok (location, .directory)
  others : ∀ other, other ≠ location → d'.tree.entry? other = d.tree.entry? other

theorem Disk.addsDirectory_withDirectory {d : Disk} {dir : Path} {location : Location}
    {keepLast : Bool} (hlocate : d.locate dir keepLast = .ok location)
    (hnone : d.tree.entry? location = none) :
    d.AddsDirectory (d.withDirectory location) dir location where
  workingDir := rfl
  free := hnone
  found := find_put hlocate hnone (FileTree.keepsWays_put_directory hnone)
  others other hother := (lookup_put_of_none hnone .directory other).trans (if_neg hother)

/-- A path leads to a directory on the second disk, which is the first one if there was a directory
before, or has it in addition. -/
structure Disk.EnsuresDirectory (d d' : Disk) (dir : Path) : Prop where
  there : d'.isDirectory dir = true
  change : d' = d ∨ ∃ location, d.AddsDirectory d' dir location

theorem Disk.AddsDirectory.ensures {d d' : Disk} {dir : Path} {location : Location}
    (h : d.AddsDirectory d' dir location) : d.EnsuresDirectory d' dir where
  there := Disk.isDirectory_eq_true.mpr ⟨location, .directory, h.found, rfl⟩
  change := .inr ⟨location, h⟩

/-! ### The steps of a command -/

namespace Init

variable {d d' : Disk} {root file : Path} {force : Bool} {failure : Failure}

section Writing

variable {α : Type} [OnDisk α] {value : α}

theorem saves_of_writeTemplate (h : writeTemplate d value file force = (.ok (), d')) :
    ConfigFile.Saves d d' value file force := by
  obtain ⟨-, hwrite⟩ := writeTemplate_eq_ok.mp h
  exact ConfigFile.saves_of_save (by rw [ConfigFile.save_eq, hwrite])

end Writing

/-- Where settings are, the directory beside them is there after it was made, or it was not made and
nothing has changed. -/
theorem makeIncludeDir_beside {location : Location}
    (hlocate : d.locate (root.join settingsFileName) false = .ok location) :
    (∃ d', makeIncludeDir d (root.join Template.includeDir) = (.ok (), d') ∧
      d.EnsuresDirectory d' (root.join Template.includeDir)) ∨
      ∃ failure, makeIncludeDir d (root.join Template.includeDir) = (.error failure, d) := by
  have hincludes : FileTree.ProperName "includes" := by decide
  obtain ⟨stem, found, hsegments, hleads⟩ := exists_leads_beside (by decide) hincludes hlocate
  rcases makeIncludeDir_cases hsegments hincludes hleads with
    ⟨hmake, hfound, hnone⟩ | ⟨hmake, hdirectory⟩ | hfails
  · exact .inl ⟨_, hmake, (Disk.addsDirectory_withDirectory hfound hnone).ensures⟩
  · exact .inl ⟨d, hmake, hdirectory, .inl rfl⟩
  · exact .inr hfails

end Init

/-! ### What a command leaves behind -/

namespace Command

/-- What a command that fails leaves of a disk, by the step that failed. -/
inductive Unfinished (cwd : Path) (d : Disk) : Command → Failure → Disk → Prop where
  /-- The file of an app can not be written.  Nothing has changed. -/
  | app {name : String} {dir? : Option Path} {format : FileFormat} {force : Bool}
      {failure : Failure}
      (hfails : Init.writeTemplate d (Template.app name)
        ((Init.targetDir cwd dir?).join (Init.appFileName format)) force = (.error failure, d)) :
      Unfinished cwd d (.initApp name dir? format force) failure d
  /-- An include file can not be written.  Nothing has changed. -/
  | includeFile {file : Path} {force : Bool} {failure : Failure}
      (hfails : Init.writeTemplate d Template.includeFile (cwd.join file) force =
        (.error failure, d)) :
      Unfinished cwd d (.initInclude file force) failure d
  /-- The settings of a repository can not be written.  Nothing has changed. -/
  | settings {dir? : Option Path} {force : Bool} {failure : Failure}
      (hfails : Init.writeTemplate d Template.settings
        ((Init.targetDir cwd dir?).join settingsFileName) force = (.error failure, d)) :
      Unfinished cwd d (.initRepository dir? force) failure d
  /-- The directory for include files can not be made.  The repository has its settings, as a new
  file unless it was forced, and nothing else. -/
  | includeDir {dir? : Option Path} {force : Bool} {failure : Failure} {d₁ : Disk}
      (hsettings : ConfigFile.Saves d d₁ Template.settings
        ((Init.targetDir cwd dir?).join settingsFileName) force)
      (hfails : Init.makeIncludeDir d₁ ((Init.targetDir cwd dir?).join Template.includeDir) =
        (.error failure, d₁)) :
      Unfinished cwd d (.initRepository dir? force) failure d₁
  /-- The first include file can not be written.  The repository has its settings and the directory
  for include files, and nothing else. -/
  | firstInclude {dir? : Option Path} {force : Bool} {failure : Failure} {d₁ d₂ : Disk}
      (hsettings : ConfigFile.Saves d d₁ Template.settings
        ((Init.targetDir cwd dir?).join settingsFileName) force)
      (hdirectory : d₁.EnsuresDirectory d₂ ((Init.targetDir cwd dir?).join Template.includeDir))
      (hfails : Init.writeTemplate d₂ Template.includeFile
        (Init.includeFileOf (Init.targetDir cwd dir?)) force = (.error failure, d₂)) :
      Unfinished cwd d (.initRepository dir? force) failure d₂

variable {cwd : Path} {d d' : Disk} {failure : Failure}

/-- The steps of a repository before the one that fails are not undone. -/
theorem unfinished_of_repository {dir? : Option Path} {force : Bool}
    (h : Init.repository d (Init.targetDir cwd dir?) force = (.error failure, d')) :
    Unfinished cwd d (.initRepository dir? force) failure d' := by
  rw [Init.repository] at h
  rcases hwrite : Init.writeTemplate d Template.settings
    ((Init.targetDir cwd dir?).join settingsFileName) force with ⟨other | ⟨⟩, d₁⟩
  · simp only [hwrite] at h
    cases h
    obtain rfl := Init.unchanged_of_writeTemplate hwrite
    exact .settings hwrite
  simp only [hwrite] at h
  have hsettings := Init.saves_of_writeTemplate hwrite
  obtain ⟨location, hlocate⟩ : ∃ location,
      d₁.locate ((Init.targetDir cwd dir?).join settingsFileName) false = .ok location := by
    obtain ⟨location, text, -, hwrites, -⟩ := hsettings
    exact ⟨location, (Disk.find_eq_ok.mp hwrites.found).1⟩
  rcases Init.makeIncludeDir_beside hlocate with ⟨d₂, hmake, hdirectory⟩ | ⟨other, hmake⟩
  · simp only [hmake] at h
    split at h
    · rename_i htemplate
      cases h
      obtain rfl := Init.unchanged_of_writeTemplate htemplate
      exact .firstInclude hsettings hdirectory htemplate
    · cases h
  · simp only [hmake] at h
    cases h
    exact .includeDir hsettings hmake

theorem unchanged_of_oneFile {α : Type} [OnDisk α] {value : α} {file : Path} {force : Bool}
    (h : Init.oneFile d value file force = (.error failure, d')) :
    d' = d ∧ Init.writeTemplate d value file force = (.error failure, d) := by
  rw [Init.oneFile] at h
  split at h
  · cases h
  · rename_i hwrite
    cases h
    obtain rfl := Init.unchanged_of_writeTemplate hwrite
    exact ⟨rfl, hwrite⟩

/-- **A command that fails has changed nothing, or has begun a repository.**  Then the settings of
the repository are there as a whole, and if the directory of include files could be made, it is
there, too. -/
theorem unfinished_of_error {command : Command}
    (h : command.runInit d cwd = (.error failure, d')) :
    command.Unfinished cwd d failure d' := by
  cases command with
  | initRepository dir? force => exact unfinished_of_repository h
  | initApp name dir? format force =>
    obtain ⟨rfl, hfails⟩ := unchanged_of_oneFile h
    exact .app hfails
  | initInclude file force =>
    obtain ⟨rfl, hfails⟩ := unchanged_of_oneFile h
    exact .includeFile hfails
  | check format => cases h
  | showApp name format => cases h

/-- A directory that has include files, with the name of the example among them. -/
def exampleDisk : Disk where
  tree := ⟨[(["includes"], .directory), (["includes", "example.toml"], .file [])]⟩

/-- No repository is made there without force, and its settings are there afterwards. -/
theorem unfinished_of_error_example :
    let command : Command := .initRepository none false
    ∃ failure d', command.runInit exampleDisk ⟨"/"⟩ = (.error failure, d') ∧
      command.Unfinished ⟨"/"⟩ exampleDisk failure d' ∧
      failure.message =
        "/includes/example.toml already exists, use --force to overwrite it" ∧
      (d'.tree.entry? [".monobuild.yaml"]).isSome = true ∧
      d'.tree.entry? ["includes", "example.toml"] = some (.file []) := by
  intro command
  have hfails : (command.runInit exampleDisk ⟨"/"⟩).1 = .error (.ofMessage
      "/includes/example.toml already exists, use --force to overwrite it") := by decide +kernel
  have hsettings : ((command.runInit exampleDisk ⟨"/"⟩).2.tree.entry?
      [".monobuild.yaml"]).isSome = true := by decide +kernel
  have hexample : (command.runInit exampleDisk ⟨"/"⟩).2.tree.entry?
      ["includes", "example.toml"] = some (.file []) := by decide +kernel
  rcases hrun : command.runInit exampleDisk ⟨"/"⟩ with ⟨result, d'⟩
  rw [hrun] at hfails hsettings hexample
  obtain rfl : result = _ := hfails
  exact ⟨_, d', rfl, unfinished_of_error hrun, rfl, hsettings, hexample⟩

/-- So a command that fails need not leave the disk as it was. -/
theorem not_unchanged_of_error :
    ¬ ∀ (command : Command) (d : Disk) (cwd : Path) (failure : Failure) (d' : Disk),
      command.runInit d cwd = (.error failure, d') → d' = d := by
  intro hunchanged
  have hfails : ((Command.initRepository none false).runInit exampleDisk ⟨"/"⟩).1 =
      .error (.ofMessage
        "/includes/example.toml already exists, use --force to overwrite it") := by decide +kernel
  have hsettings : ((Command.initRepository none false).runInit exampleDisk ⟨"/"⟩).2.tree.entry?
      [".monobuild.yaml"] ≠ none := by decide +kernel
  rcases hrun : (Command.initRepository none false).runInit exampleDisk ⟨"/"⟩ with ⟨result, d'⟩
  rw [hrun] at hfails hsettings
  obtain rfl : result = _ := hfails
  rw [hunchanged _ _ _ _ _ hrun] at hsettings
  exact hsettings (by decide)

end Command

end Monorepo
