import Monorepo.Proofs.Opening

/-!
# Runs that leave a repository to be opened

A new repository can be opened, and after a run of commands it still can, unless the run has left a
file that does not go together with the others.  What counts for a file is the last command that
writes there:

* `Init.Fits` — what that command has to be, for an include file and for an app file;
* `Init.accepts_of_runAll` — after such a run the repository can be opened, and its apps load;
* `Init.not_accepts_of_runAll` — no part of the condition can be left out.
-/

namespace Monorepo.Init

open FileTree

variable {d d₁ d' : Disk} {root : Path} {top location : Location} {calls : List Call}

/-- A repository can be opened with the settings of a new one, and all its apps load. -/
def Accepts (d : Disk) (root : Path) : Prop :=
  ∃ repo apps, Repository.openAt d root Template.settings = .ok repo ∧
    repo.loadApps d = .ok apps ∧ ∀ a ∈ apps, ∃ app, a.result = .ok app

/-- What the last command that writes to a location has to be.  A configuration file among the
include files is the one that a new repository has, so that no id is given twice.  An app file at
the root is that of an app with a name. -/
structure Fits (top location : Location) (call : Call) : Prop where
  includes : ∀ name, location = top ++ ["includes", name] →
    (FileFormat.ofPath? ⟨name⟩).isSome = true →
    name = "example.toml" ∧ ∃ file force, call.command = .initInclude file force ∧
      FileFormat.ofPath (call.cwd.join file) = .toml
  apps : ∀ format, location = top ++ [(appFileName format).text] →
    ∃ name dir? force, call.command = .initApp name dir? format force ∧ name ≠ ""

theorem ofPath_appFileName (dir : Path) (format : FileFormat) :
    FileFormat.ofPath (dir.join (appFileName format)) = format := by
  cases format with
  | toml =>
    rw [appFileName, FileFormat.ofPath_join dir (by decide)]
    decide
  | yaml =>
    rw [appFileName, FileFormat.ofPath_join dir (by decide)]
    decide

/-- **After a run that fits, all configuration files are templates.** -/
theorem templated_of_runAll (hfresh : Fresh d₁ root top)
    (hcalls : ∀ call ∈ calls, ∀ dir? force, call.command ≠ .initRepository dir? force)
    (hrun : runAll d₁ calls = some d')
    (hfits : ∀ location call, lastAt d₁ location calls = some call → Fits top location call)
    (hfaithful : ∀ call ∈ calls, ∀ name dir? format force,
      call.command = .initApp name dir? format force →
        format.Faithful (OnDisk.schema App) (toDocument (Template.app name))) :
    Templated d' root top := by
  obtain ⟨hwritten, hholds⟩ := holdsLast_of_runAll hcalls hrun
  refine { hfresh.toSite.filesWritten hwritten with includeFile := ?_, noOther := ?_, apps := ?_ }
  · cases hlast : lastAt d₁ (top ++ ["includes", "example.toml"]) calls with
    | none =>
      obtain ⟨text, hrender, hentry⟩ := hfresh.includeFile
      exact ⟨text, hrender, ((hholds _).entry?_eq hlast).trans hentry⟩
    | some call =>
      obtain ⟨-, file, force, hcommand, hformat⟩ := (hfits _ call hlast).includes _ rfl (by decide)
      have hmade : call.made? = some (call.cwd.join file, toDocument Template.includeFile) := by
        rw [Call.made?, hcommand]
        rfl
      have htext := (hholds _).holdsText hlast hmade
      rwa [hformat] at htext
  · intro name bytes hfile hconfig
    cases hlast : lastAt d₁ (top ++ ["includes", name]) calls with
    | none =>
      rw [(hholds _).entry?_eq hlast] at hfile
      have hothers := hfresh.others _ _ hfile
      simpa using hothers
    | some call => exact ((hfits _ call hlast).includes name rfl hconfig).1
  · intro format bytes hfile
    cases hlast : lastAt d₁ (top ++ [(appFileName format).text]) calls with
    | none =>
      rw [(hholds _).entry?_eq hlast] at hfile
      have hothers := hfresh.others _ _ hfile
      exact absurd hothers (by cases format <;> decide)
    | some call =>
      obtain ⟨name, dir?, force, hcommand, hname⟩ := (hfits _ call hlast).apps format rfl
      have hmade : call.made? = some ((targetDir call.cwd dir?).join (appFileName format),
          toDocument (Template.app name)) := by
        rw [Call.made?, hcommand]
        rfl
      have htext := (hholds _).holdsText hlast hmade
      rw [ofPath_appFileName] at htext
      have hreads := hfaithful call (of_lastAt hlast).1 name dir? format force hcommand
      exact ⟨name, hname, htext, hreads (OnDisk.Shaped.accepts _)⟩

/-- The settings of a new repository are read back from their file. -/
theorem Site.read_settings (h : Site d root top)
    (hshort : (root.join settingsFileName).text.utf8ByteSize < pathLimit)
    (hsettings : HoldsText d (top ++ [settingsFileName.text]) .yaml
      (toDocument Template.settings)) :
    ConfigFile.read Settings d (root.join settingsFileName) = .ok Template.settings := by
  have hlocate : d.locate (root.join settingsFileName) false =
      .ok (top ++ [settingsFileName.text]) :=
    Disk.locate_join h.found (by decide) hshort (.inr fun target => h.noLinks _ target)
  have hformat : FileFormat.ofPath (root.join settingsFileName) = .yaml := by
    rw [settingsFileName, FileFormat.ofPath_join _ (by decide)]
    decide
  exact hsettings.read hlocate hformat settings_readsBack

/-- **What is initialised is accepted.**  A repository is made in an empty directory, and then
commands that make apps and include files are run, all with success.  The settings are read back,
before the run and also after it unless a command wrote over them; and with these settings the
repository can be opened and its apps load, if the last command for each file fits, the formats are
faithful to the templates of the apps and no path is too long. -/
theorem accepts_of_runAll {cwd : Path} {dir? : Option Path} {force : Bool} {files : List Path}
    (ht : d.tree.WellFormed) (hlinks : d.tree.LinksProper)
    (hroot : d.find (targetDir cwd dir?) = .ok (top, .directory))
    (hempty : d.list (targetDir cwd dir?) = .ok [])
    (hinit : (Command.initRepository dir? force).runInit d cwd = (.ok files, d₁))
    (hcalls : ∀ call ∈ calls, ∀ dir? force, call.command ≠ .initRepository dir? force)
    (hrun : runAll d₁ calls = some d')
    (hfits : ∀ location call, lastAt d₁ location calls = some call → Fits top location call)
    (hfaithful : ∀ call ∈ calls, ∀ name dir? format force,
      call.command = .initApp name dir? format force →
        format.Faithful (OnDisk.schema App) (toDocument (Template.app name)))
    (hshort : PathsShort d' (targetDir cwd dir?)) :
    ConfigFile.read Settings d₁ ((targetDir cwd dir?).join settingsFileName) =
        .ok Template.settings ∧
      (lastAt d₁ (top ++ [settingsFileName.text]) calls = none →
        ConfigFile.read Settings d' ((targetDir cwd dir?).join settingsFileName) =
          .ok Template.settings) ∧
      Accepts d' (targetDir cwd dir?) := by
  have hfresh : Fresh d₁ (targetDir cwd dir?) top :=
    fresh_of_repository ht hlinks hroot hempty hinit
  refine ⟨hfresh.toSite.read_settings hfresh.settingsShort hfresh.settings, fun hlast => ?_, ?_⟩
  · obtain ⟨hwritten, hholds⟩ := holdsLast_of_runAll hcalls hrun
    obtain ⟨text, hrender, hentry⟩ := hfresh.settings
    exact (hfresh.toSite.filesWritten hwritten).read_settings hfresh.settingsShort
      ⟨text, hrender, ((hholds _).entry?_eq hlast).trans hentry⟩
  · have htemplated := templated_of_runAll hfresh hcalls hrun hfits hfaithful
    obtain ⟨repo, apps, hopen, hload, happs⟩ := htemplated.exists_openAt hshort
    refine ⟨repo, apps, hopen, hload, fun a ha => ?_⟩
    obtain ⟨name, -, happ⟩ := happs a ha
    exact ⟨_, happ⟩

/-- An empty directory. -/
def emptyDirectory : Disk where
  tree := ⟨[(["r"], .directory)]⟩

/-- The disk with a new repository in the directory. -/
def newRepository : Disk :=
  ((Command.initRepository none false).runInit emptyDirectory ⟨"/r"⟩).2

theorem emptyDirectory_spec : emptyDirectory.tree.WellFormed ∧
    emptyDirectory.find ⟨"/r"⟩ = .ok (["r"], .directory) := by
  decide +kernel

theorem list_emptyDirectory (h : emptyDirectory.find root = .ok (["r"], .directory)) :
    emptyDirectory.list root = .ok [] :=
  Disk.list_eq_ok.mpr ⟨["r"], h, rfl⟩

theorem linksProper_emptyDirectory : emptyDirectory.tree.LinksProper :=
  linksProper_of_entries (List.forall_mem_singleton.mpr nofun)

/-- However the path of the directory is spelled, the repository that is made there is the new one,
if no path is too long. -/
theorem repository_emptyDirectory (hroot : emptyDirectory.find root = .ok (["r"], .directory))
    (hsettings : (root.join settingsFileName).text.utf8ByteSize < pathLimit)
    (hinclude : (includeFileOf root).text.utf8ByteSize < pathLimit) :
    repository emptyDirectory root false =
        (.ok [root.join settingsFileName, includeFileOf root], newRepository) ∧
      Fresh newRepository root ["r"] := by
  obtain ⟨ht, hfind⟩ := emptyDirectory_spec
  obtain ⟨settings, includeFile, hrender₁, hrender₂, hmade, hfresh⟩ :=
    exists_repository ht linksProper_emptyDirectory hroot (list_emptyDirectory hroot) false
      hsettings hinclude
  obtain ⟨settings', includeFile', hrender₁', hrender₂', hmade', -⟩ :=
    exists_repository ht linksProper_emptyDirectory hfind (list_emptyDirectory hfind) false
      (by decide) (by decide)
  cases hrender₁.symm.trans hrender₁'
  cases hrender₂.symm.trans hrender₂'
  have hnew : newRepository = withRepository emptyDirectory ["r"] settings includeFile :=
    congrArg Prod.snd hmade'
  rw [hnew]
  exact ⟨hmade, hfresh⟩

theorem fresh_newRepository : Fresh newRepository ⟨"/r"⟩ ["r"] :=
  (repository_emptyDirectory emptyDirectory_spec.2 (by decide) (by decide)).2

/-- The disk after calls in the new repository. -/
def afterCalls (calls : List Call) : Disk :=
  (runAll newRepository calls).getD {}

theorem runAll_afterCalls (h : (runAll newRepository calls).isSome = true) :
    runAll newRepository calls = some (afterCalls calls) := by
  obtain ⟨d, hd⟩ := Option.isSome_iff_exists.mp h
  rw [afterCalls, hd]
  rfl

/-- Calls that write files over, one of them a file that did not fit. -/
def sampleCalls : List Call := [
  ⟨⟨"/r"⟩, .initInclude ⟨".app.toml"⟩ false⟩,
  ⟨⟨"/r"⟩, .initApp "shop" none .toml true⟩,
  ⟨⟨"/r"⟩, .initInclude ⟨"includes/example.toml"⟩ true⟩,
  ⟨⟨"/r/includes"⟩, .initInclude ⟨"notes"⟩ false⟩]

theorem sampleCalls_spec :
    (runAll newRepository sampleCalls).isSome = true ∧
    sampleCalls.map (·.goal? newRepository) =
      [some ["r", ".app.toml"], some ["r", ".app.toml"], some ["r", "includes", "example.toml"],
        some ["r", "includes", "notes"]] ∧
    lastAt newRepository ["r", ".app.toml"] sampleCalls =
      some ⟨⟨"/r"⟩, .initApp "shop" none .toml true⟩ ∧
    lastAt newRepository ["r", "includes", "example.toml"] sampleCalls =
      some ⟨⟨"/r"⟩, .initInclude ⟨"includes/example.toml"⟩ true⟩ ∧
    lastAt newRepository ["r", settingsFileName.text] sampleCalls = none ∧
    (∀ e ∈ (afterCalls sampleCalls).below (Path.join ⟨"/r"⟩ Template.includeDir),
      e.1.text.utf8ByteSize < pathLimit) ∧
    (afterCalls sampleCalls).absolute (Path.join ⟨"/r"⟩ ⟨"."⟩) = .ok ⟨"/r"⟩ := by
  decide +kernel

theorem fits_sampleCalls {call : Call} (h : lastAt newRepository location sampleCalls = some call) :
    Fits ["r"] location call := by
  obtain ⟨hmem, hgoal⟩ := of_lastAt h
  obtain ⟨-, hgoals, happ, hinclude, -⟩ := sampleCalls_spec
  have hlocation : some location ∈ sampleCalls.map (·.goal? newRepository) :=
    List.mem_map.mpr ⟨call, hmem, hgoal⟩
  rw [hgoals] at hlocation
  simp only [List.mem_cons, Option.some.injEq, List.not_mem_nil, or_false] at hlocation
  have hshop : location = ["r", ".app.toml"] → Fits ["r"] location call := by
    rintro rfl
    cases happ.symm.trans h
    refine ⟨by simp, fun format hformat => ⟨"shop", none, true, ?_, by decide⟩⟩
    cases format with
    | toml => rfl
    | yaml => exact absurd hformat (by decide)
  rcases hlocation with hfirst | hfirst | rfl | rfl
  · exact hshop hfirst
  · exact hshop hfirst
  · cases hinclude.symm.trans h
    refine ⟨fun name hname _ => ⟨?_, _, _, rfl, by decide⟩, by simp⟩
    simpa using hname.symm
  · refine ⟨fun name hname hconfig => ?_, by simp⟩
    obtain rfl : name = "notes" := by simpa using hname.symm
    exact absurd hconfig (by decide)

/-- How the templates are read: apps as apps, and the files of one kind as those of the other. -/
theorem templates_read :
    FileFormat.ReadsBack .toml (OnDisk.schema App) (toDocument (Template.app "shop")) ∧
    FileFormat.ReadsBack .toml (OnDisk.schema App) (toDocument (Template.app "")) ∧
    FileFormat.ReadsAs .toml (OnDisk.schema App) (toDocument Template.includeFile) (.record []) ∧
    FileFormat.ReadsAs .toml (OnDisk.schema IncludeFile) (toDocument (Template.app "shop"))
      (.record []) := by
  decide +kernel

/-- The app file was first written as an include file, and the include file is written again. -/
theorem accepts_of_runAll_files_over :
    ConfigFile.read Settings newRepository ((targetDir ⟨"/r"⟩ none).join settingsFileName) =
        .ok Template.settings ∧
      ConfigFile.read Settings (afterCalls sampleCalls)
        ((targetDir ⟨"/r"⟩ none).join settingsFileName) = .ok Template.settings ∧
      Accepts (afterCalls sampleCalls) (targetDir ⟨"/r"⟩ none) := by
  obtain ⟨ht, hfind⟩ := emptyDirectory_spec
  have hroot : emptyDirectory.find (targetDir ⟨"/r"⟩ none) = .ok (["r"], .directory) := hfind
  obtain ⟨hsome, -, -, -, hsettings, hbelow, habsolute⟩ := sampleCalls_spec
  have hinit : (Command.initRepository none false).runInit emptyDirectory ⟨"/r"⟩ =
      (.ok _, newRepository) :=
    (repository_emptyDirectory hroot (by decide) (by decide)).1
  have hcalls : ∀ call ∈ sampleCalls, ∀ dir? force,
      call.command ≠ .initRepository dir? force := by
    simp [sampleCalls]
  have hfaithful : ∀ call ∈ sampleCalls, ∀ name dir? format force,
      call.command = .initApp name dir? format force →
        format.Faithful (OnDisk.schema App) (toDocument (Template.app name)) := by
    simp only [sampleCalls, List.forall_mem_cons]
    refine ⟨nofun, ?_, nofun, nofun, nofun⟩
    intro name dir? format force hcommand
    cases hcommand
    exact fun _ => templates_read.1
  have hshort : PathsShort (afterCalls sampleCalls) (targetDir ⟨"/r"⟩ none) := by
    refine ⟨hbelow, fun a ha => ?_⟩
    cases habsolute.symm.trans ha
    decide
  obtain ⟨hbefore, hafter, haccepts⟩ := accepts_of_runAll ht linksProper_emptyDirectory hroot
    (list_emptyDirectory hroot) hinit hcalls (runAll_afterCalls hsome) (fun _ _ => fits_sampleCalls)
    hfaithful hshort
  exact ⟨hbefore, hafter hsettings, haccepts⟩

/-! ### Runs that do not fit -/

/-- In a repository that can be opened, the includes have been loaded. -/
theorem Accepts.exists_load (h : Accepts d root) :
    ∃ store, IncludeStore.load d [root.join Template.includeDir] = .ok store := by
  obtain ⟨repo, -, hopen, -⟩ := h
  obtain ⟨-, -, hrest⟩ := Except.bind_eq_ok_iff.mp hopen
  obtain ⟨-, -, hrest⟩ := Except.bind_eq_ok_iff.mp hrest
  obtain ⟨store, hstore, -⟩ := Except.bind_eq_ok_iff.mp hrest
  have hloaded : loaded (IncludeStore.load d [root.join Template.includeDir]) = .ok store := hstore
  cases hload : IncludeStore.load d [root.join Template.includeDir] with
  | error e =>
    rw [hload] at hloaded
    cases hloaded
  | ok s => exact ⟨s, rfl⟩

/-- In a repository that can be opened, all configuration files among the include files hold
includes, and no id is given twice. -/
theorem Accepts.held (ht : d.tree.WellFormed) (h : Accepts d root) :
    ∃ held, IncludeFile.AllHeldBy d (configFiles (d.filesBelow (root.join Template.includeDir)))
      held ∧ (held.flatMap fun file => file.1.fragmentIds).Nodup := by
  obtain ⟨store, hload⟩ := h.exists_load
  obtain ⟨-, held, b, hheld, hadd, hbuild⟩ :=
    (IncludeStore.load_eq_ok_of_wellFormed ht).mp hload
  rw [List.flatMap_singleton] at hheld
  exact ⟨held, hheld, (IncludeBuilder.exists_addAll_build.mp ⟨b, store, hadd, hbuild⟩).1⟩

/-- In a repository that can be opened, every app file that is found holds an app with a name. -/
theorem Accepts.named (h : Accepts d root) {files : List Path} {file : Path} {app : App}
    (hfiles : Repository.discoverApps d root Template.settings = .ok files) (hfile : file ∈ files)
    (hread : ConfigFile.read App d file = .ok app) : app.name ≠ "" := by
  obtain ⟨repo, apps, hopen, hloaded, happs⟩ := h
  obtain ⟨-, -, hrest⟩ := Except.bind_eq_ok_iff.mp hopen
  obtain ⟨-, -, hrest⟩ := Except.bind_eq_ok_iff.mp hrest
  obtain ⟨store, -, hrest⟩ := Except.bind_eq_ok_iff.mp hrest
  obtain ⟨found, hfound, hrepo⟩ := Except.bind_eq_ok_iff.mp hrest
  cases hfiles.symm.trans hfound
  cases hrepo
  have hpermits : Template.settings.parallelism ≤ permitLimit := by decide
  cases hloaded.symm.trans (AppLoader.loadAllAtOnce_of_le _ d files hpermits)
  obtain ⟨loadedApp, hload⟩ := happs ⟨file, _⟩ (List.mem_map.mpr ⟨file, hfile, rfl⟩)
  have hcomplete := hload
  rw [AppLoader.load_eq_complete hread] at hcomplete
  obtain ⟨-, rfl, hvalid⟩ := AppLoader.complete_eq_ok.mp hcomplete
  exact hvalid.name

/-- An include file beside the one of a new repository. -/
def secondInclude : Call :=
  ⟨⟨"/r"⟩, .initInclude ⟨"includes/more.toml"⟩ false⟩

/-- An app without a name. -/
def unnamedApp : Call :=
  ⟨⟨"/r"⟩, .initApp "" none .toml false⟩

/-- An include file under the name of an app file. -/
def includeAsApp : Call :=
  ⟨⟨"/r"⟩, .initInclude ⟨".app.toml"⟩ false⟩

/-- An app file among the include files. -/
def appAsInclude : Call :=
  ⟨⟨"/r"⟩, .initApp "shop" (some ⟨"includes"⟩) .toml false⟩

/-- A file with a longer name than that of the include file. -/
def longerName : Call :=
  ⟨⟨"/r"⟩, .initInclude ⟨"includes/a-much-longer-example"⟩ false⟩

theorem misfits_spec :
    (∀ call ∈ [secondInclude, unnamedApp, includeAsApp, appAsInclude, longerName],
      (runAll newRepository [call]).isSome = true) ∧
    secondInclude.goal? newRepository = some ["r", "includes", "more.toml"] ∧
    unnamedApp.goal? newRepository = some ["r", ".app.toml"] ∧
    includeAsApp.goal? newRepository = some ["r", ".app.toml"] ∧
    appAsInclude.goal? newRepository = some ["r", "includes", ".app.toml"] ∧
    longerName.goal? newRepository = some ["r", "includes", "a-much-longer-example"] ∧
    configFiles ((afterCalls [secondInclude]).filesBelow ⟨"/r/includes"⟩) =
      [⟨"/r/includes/example.toml"⟩, ⟨"/r/includes/more.toml"⟩] ∧
    configFiles ((afterCalls [appAsInclude]).filesBelow ⟨"/r/includes"⟩) =
      [⟨"/r/includes/example.toml"⟩, ⟨"/r/includes/.app.toml"⟩] ∧
    ∀ call ∈ [unnamedApp, includeAsApp],
      Repository.discoverApps (afterCalls [call]) ⟨"/r"⟩ Template.settings =
        .ok [⟨"/r/.app.toml"⟩] := by
  decide +kernel

/-- One call in the new repository has written one file. -/
theorem after_one_call (call : Call) {file : Path} {document : Document}
    (hcommand : ∀ dir? force, call.command ≠ .initRepository dir? force)
    (hsome : (runAll newRepository [call]).isSome = true)
    (hmade : call.made? = some (file, document))
    (hgoal : call.goal? newRepository = some location) :
    newRepository.FilesWritten (afterCalls [call]) ∧
      (afterCalls [call]).locate file false = .ok location ∧
      HoldsText (afterCalls [call]) location (FileFormat.ofPath file) document ∧
      ∀ other, other ≠ location →
        (afterCalls [call]).tree.entry? other = newRepository.tree.entry? other := by
  obtain ⟨hwritten, hholds⟩ := holdsLast_of_runAll (List.forall_mem_singleton.mpr hcommand)
    (runAll_afterCalls hsome)
  refine ⟨hwritten, hwritten.locate_eq_ok.mpr ((Call.goal?_eq_some hmade).mp hgoal),
    (hholds location).holdsText ?_ hmade, fun other hother => (hholds other).entry?_eq ?_⟩
  · rw [lastAt, if_pos hgoal]
    rfl
  · rw [lastAt, hgoal, if_neg fun h => hother (Option.some.inj h).symm]
    rfl

/-- Two files that hold the include file of a new repository give every id twice. -/
theorem not_accepts_secondInclude : ¬ Accepts (afterCalls [secondInclude]) ⟨"/r"⟩ := by
  intro h
  obtain ⟨hsome, hgoal, -, -, -, -, hfiles, -⟩ := misfits_spec
  obtain ⟨hwritten, hlocate, hsecond, hothers⟩ :=
    after_one_call secondInclude nofun (hsome _ (by simp)) rfl hgoal
  have hsite := fresh_newRepository.toSite.filesWritten hwritten
  have hfirst : HoldsText (afterCalls [secondInclude]) ["r", "includes", "example.toml"] .toml
      (toDocument Template.includeFile) := by
    obtain ⟨text, hrender, hentry⟩ := fresh_newRepository.includeFile
    exact ⟨text, hrender, (hothers _ (by decide)).trans hentry⟩
  have hlocateFirst : (afterCalls [secondInclude]).locate (includeFileOf ⟨"/r"⟩) false =
      .ok ["r", "includes", "example.toml"] :=
    Disk.locate_join hsite.find_includes (by decide) (by decide)
      (.inr fun target => hsite.noLinks ["includes", "example.toml"] target)
  have hread₁ := hfirst.read hlocateFirst (by decide) includeFile_readsBack
  have hread₂ := hsecond.read hlocate rfl includeFile_readsBack
  obtain ⟨held, hheld, hnodup⟩ := h.held hsite.wellFormed
  have hall : IncludeFile.AllHeldBy (afterCalls [secondInclude])
      [⟨"/r/includes/example.toml"⟩, ⟨"/r/includes/more.toml"⟩] held := hfiles ▸ hheld
  obtain ⟨⟨f, _⟩, rest, ⟨⟨f', hf, rfl, -⟩, -⟩, hrest, rfl⟩ := List.forall₂_cons_left_iff.mp hall
  obtain ⟨⟨g, _⟩, rest, ⟨⟨g', hg, rfl, -⟩, -⟩, hnil, rfl⟩ := List.forall₂_cons_left_iff.mp hrest
  cases hread₁.symm.trans hf
  cases hread₂.symm.trans hg
  rw [List.flatMap_cons, List.flatMap_cons, List.nodup_append'] at hnodup
  have hid : "go_input" ∈ Template.includeFile.prune.fragmentIds := by decide
  exact hnodup.2.2 hid (List.mem_append_left _ hid)

theorem not_accepts_unnamedApp : ¬ Accepts (afterCalls [unnamedApp]) ⟨"/r"⟩ := by
  intro h
  obtain ⟨hsome, -, hgoal, -, -, -, -, -, hfound⟩ := misfits_spec
  obtain ⟨-, hlocate, hholds, -⟩ := after_one_call unnamedApp nofun (hsome _ (by simp)) rfl hgoal
  have hread : ConfigFile.read App (afterCalls [unnamedApp]) ⟨"/r/.app.toml"⟩ =
      .ok (Template.app "") :=
    hholds.read hlocate rfl templates_read.2.1
  exact h.named (hfound _ (by simp)) List.mem_cons_self hread rfl

theorem not_accepts_includeAsApp : ¬ Accepts (afterCalls [includeAsApp]) ⟨"/r"⟩ := by
  intro h
  obtain ⟨hsome, -, -, hgoal, -, -, -, -, hfound⟩ := misfits_spec
  obtain ⟨-, hlocate, hholds, -⟩ := after_one_call includeAsApp nofun (hsome _ (by simp)) rfl hgoal
  have hread : ConfigFile.read App (afterCalls [includeAsApp]) ⟨"/r/.app.toml"⟩ = .ok {} :=
    hholds.readAs hlocate rfl templates_read.2.2.1 rfl
  exact h.named (hfound _ (by simp)) List.mem_cons_self hread rfl

/-- As an include file, the app file defines nothing. -/
theorem not_accepts_appAsInclude : ¬ Accepts (afterCalls [appAsInclude]) ⟨"/r"⟩ := by
  intro h
  obtain ⟨hsome, -, -, -, hgoal, -, -, hfiles, -⟩ := misfits_spec
  obtain ⟨hwritten, hlocate, hholds, -⟩ := after_one_call appAsInclude nofun (hsome _ (by simp)) rfl hgoal
  have hread : ConfigFile.read IncludeFile (afterCalls [appAsInclude])
      ⟨"/r/includes/.app.toml"⟩ = .ok {} :=
    hholds.readAs hlocate rfl templates_read.2.2.2 rfl
  obtain ⟨held, hheld, -⟩ :=
    h.held (fresh_newRepository.toSite.filesWritten hwritten).wellFormed
  have hall : IncludeFile.AllHeldBy (afterCalls [appAsInclude])
      [⟨"/r/includes/example.toml"⟩, ⟨"/r/includes/.app.toml"⟩] held := hfiles ▸ hheld
  obtain ⟨_, rest, -, hrest, rfl⟩ := List.forall₂_cons_left_iff.mp hall
  obtain ⟨⟨f, _⟩, rest, ⟨⟨f', hf, rfl, hvalid⟩, -⟩, -, rfl⟩ :=
    List.forall₂_cons_left_iff.mp hrest
  cases hread.symm.trans hf
  exact hvalid.defined rfl

/-! ### A root whose path is long -/

/-- The path of the directory with so many slashes behind it. -/
def slashedRoot (slashes : Nat) : Path :=
  ⟨"/r" ++ IncludeStore.repeated '/' slashes⟩

theorem toList_slashedRoot (n : Nat) :
    (slashedRoot n).text.toList = ['/', 'r'] ++ List.replicate n '/' := by
  rw [slashedRoot, String.toList_append, IncludeStore.toList_repeated]
  rfl

theorem utf8ByteSize_slashedRoot (n : Nat) : (slashedRoot n).text.utf8ByteSize = n + 2 := by
  have hroot : "/r".utf8ByteSize = 2 := by decide
  have hslash : '/'.utf8Size = 1 := by decide
  rw [slashedRoot, String.utf8ByteSize_append, IncludeStore.utf8ByteSize_repeated, hroot, hslash]
  omega

theorem isAbsolute_slashedRoot (n : Nat) : (slashedRoot n).isAbsolute = true := by
  rw [Path.isAbsolute, toList_slashedRoot]
  rfl

theorem names_slashedRoot (n : Nat) : (slashedRoot (n + 1)).names = ["r"] := by
  have hsegments : (slashedRoot (n + 1)).segments = ["", "r"] ++ List.replicate (n + 1) "" := by
    rw [Path.segments, toList_slashedRoot, List.replicate_succ, Path.splitSegments_append_slash,
      IncludeStore.splitSegments_slashes, List.map_append, List.map_replicate]
    rfl
  rw [Path.names, hsegments, List.filter_append, List.filter_replicate]
  rfl

theorem find_slashedRoot {n : Nat} (h : n + 3 < pathLimit) :
    emptyDirectory.find (slashedRoot (n + 1)) = .ok (["r"], .directory) := by
  have hcheck : Disk.checkText (slashedRoot (n + 1)) = .ok () := by
    refine Disk.checkText_eq_ok.mpr ⟨?_, by simp [slashedRoot], ?_⟩
    · rw [toList_slashedRoot]
      simp
    · rw [utf8ByteSize_slashedRoot]
      exact h
  exact Disk.find_of_names emptyDirectory_spec.2 hcheck (isAbsolute_slashedRoot _)
    (names_slashedRoot n)

/-- The path of the file is too long, but that of the include file of the new repository is not. -/
theorem not_accepts_longerName :
    (∃ files, (Command.initRepository (some (slashedRoot 4068)) false).runInit emptyDirectory
        ⟨"/r"⟩ = (.ok files, newRepository)) ∧
      ¬ Accepts (afterCalls [longerName]) (slashedRoot 4068) := by
  have hsize := utf8ByteSize_slashedRoot 4068
  have hne : (slashedRoot 4068).text ≠ "" := by simp [slashedRoot]
  have hnames : "includes".utf8ByteSize = 8 ∧ "example.toml".utf8ByteSize = 12 ∧
      ".monobuild.yaml".utf8ByteSize = 15 ∧ "a-much-longer-example".utf8ByteSize = 21 := by decide
  have hincludes : '/' ∉ "includes".toList := by decide
  have hdir := Path.text_join_ne_empty hne ⟨"includes"⟩
  have hfind : emptyDirectory.find (slashedRoot 4068) = .ok (["r"], .directory) :=
    find_slashedRoot (by decide)
  have hsettingsShort := Path.utf8ByteSize_join_le hne (by decide : '/' ∉ ".monobuild.yaml".toList)
  have hdirShort := Path.utf8ByteSize_join_le hne hincludes
  have hfileShort := Path.utf8ByteSize_join_le hdir (by decide : '/' ∉ "example.toml".toList)
  have hlimit : pathLimit = 4096 := rfl
  obtain ⟨hmade, hfresh⟩ := repository_emptyDirectory hfind
    (by rw [settingsFileName]; omega) (by rw [includeFileOf, Template.includeDir]; omega)
  constructor
  · have htarget : targetDir ⟨"/r"⟩ (some (slashedRoot 4068)) = slashedRoot 4068 := by
      rw [targetDir, Path.join, if_pos (isAbsolute_slashedRoot _)]
    rw [Command.runInit, htarget]
    exact ⟨_, hmade⟩
  · intro h
    obtain ⟨hsome, -, -, -, -, hgoal, -⟩ := misfits_spec
    obtain ⟨hwritten, -, ⟨text, -, hentry⟩, -⟩ :=
      after_one_call longerName (by simp [longerName]) (hsome _ (by simp)) rfl hgoal
    have hsite := hfresh.toSite.filesWritten hwritten
    obtain ⟨store, hload⟩ := h.exists_load
    obtain ⟨hdirs, -⟩ := (IncludeStore.load_eq_ok_of_wellFormed hsite.wellFormed).mp hload
    have hvisitable := (hdirs _ List.mem_cons_self).2 _ (hsite.mem_below hentry)
    have hlongDir := Path.le_utf8ByteSize_join hne hincludes
    have hlong := Path.le_utf8ByteSize_join hdir
      (by decide : '/' ∉ "a-much-longer-example".toList)
    have hshort : (((slashedRoot 4068).join ⟨"includes"⟩).join
        ⟨"a-much-longer-example"⟩).text.utf8ByteSize < pathLimit := hvisitable.1
    omega

/-- **Not every run leaves a repository that can be opened.**  One call is enough.  The first four
calls each break another part of what a call has to fit, and the last makes a path too long. -/
theorem not_accepts_of_runAll :
    emptyDirectory.list ⟨"/r"⟩ = .ok [] ∧
      (∃ files, (Command.initRepository none false).runInit emptyDirectory ⟨"/r"⟩ =
        (.ok files, newRepository)) ∧
      (∀ call ∈ [secondInclude, unnamedApp, includeAsApp, appAsInclude],
        ∃ d', runAll newRepository [call] = some d' ∧ ¬ Accepts d' ⟨"/r"⟩) ∧
      (∃ files, (Command.initRepository (some (slashedRoot 4068)) false).runInit emptyDirectory
        ⟨"/r"⟩ = (.ok files, newRepository)) ∧
      ∃ d', runAll newRepository [longerName] = some d' ∧ ¬ Accepts d' (slashedRoot 4068) := by
  obtain ⟨-, hfind⟩ := emptyDirectory_spec
  have hmade := (repository_emptyDirectory hfind (by decide) (by decide)).1
  have hsome := misfits_spec.1
  obtain ⟨hlong, hrefused⟩ := not_accepts_longerName
  simp only [List.forall_mem_cons] at hsome ⊢
  obtain ⟨hsome₁, hsome₂, hsome₃, hsome₄, hsome₅, -⟩ := hsome
  exact ⟨list_emptyDirectory hfind, ⟨_, hmade⟩,
    ⟨⟨_, runAll_afterCalls hsome₁, not_accepts_secondInclude⟩,
      ⟨_, runAll_afterCalls hsome₂, not_accepts_unnamedApp⟩,
      ⟨_, runAll_afterCalls hsome₃, not_accepts_includeAsApp⟩,
      ⟨_, runAll_afterCalls hsome₄, not_accepts_appAsInclude⟩, nofun⟩,
    hlong, _, runAll_afterCalls hsome₅, hrefused⟩

end Monorepo.Init
