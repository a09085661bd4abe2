import Monorepo.Proofs.Acceptance
import Monorepo.Proofs.Stages

/-!
# Where errors come from

Whatever goes wrong when include directories are loaded, the error names the place:

* `Disk.mem_filesBelow_of_walk`, `Disk.cases_of_walk_failed` — all that a walk meets, and all that it
  fails at, is below the directory it starts in, whether the walk completes or not;
* `IncludeStore.Traced` — the errors that a tree accounts for, each with the entry, the file or the
  files it is about and what is wrong with them;
* `IncludeStore.traced_of_load_eq_error` — there are no others.
-/

namespace Monorepo

/-! ### What a walk that fails has met -/

namespace Disk

variable {d : Disk} {dir : Path}

/-- What a walk meets are files below its directory. -/
theorem mem_filesBelow_of_walk (ht : d.tree.WellFormed) {q : Path}
    (h : q ∈ (d.walk .refuse dir).paths) : q ∈ d.filesBelow dir := by
  rcases cases_of_walk ht dir with ⟨fault, -, hwalk⟩ | ⟨entries, paths, -, hperm, hwalk⟩
  · rw [hwalk] at h
    cases h
  · have hfiles : ∀ q ∈ Walk.filePaths entries, q ∈ d.filesBelow dir :=
      fun q hq => ((hperm.filter _).map _).mem_iff.mp hq
    rw [hwalk] at h
    rcases Walk.cases_of_along entries with ⟨-, halong⟩ | ⟨before, e, rest, error, rfl, -, halong, -⟩
    · rw [halong] at h
      exact hfiles q h
    · rw [halong] at h
      have hsublist : (Walk.filePaths before).Sublist (Walk.filePaths (before ++ e :: rest)) :=
        ((List.sublist_append_left before (e :: rest)).filter _).map _
      exact hfiles q (hsublist.subset h)

/-- Where a walk fails is its directory or an entry below, and a link if that is what it fails at. -/
theorem cases_of_walk_failed (ht : d.tree.WellFormed) {e : LoadError}
    (h : (d.walk .refuse dir).ending = .failed e) :
    (∃ path fault, (path = dir ∨ ∃ entry, (path, entry) ∈ d.below dir) ∧ e = .io path fault) ∨
      ∃ path target, (path, .link target) ∈ d.below dir ∧ e = .symlink path := by
  rcases cases_of_walk ht dir with ⟨fault, -, hwalk⟩ | ⟨entries, paths, -, hperm, hwalk⟩
  · rw [hwalk] at h
    cases h
    exact .inl ⟨dir, fault, .inl rfl, rfl⟩
  · rw [hwalk] at h
    rcases Walk.cases_of_along entries with
      ⟨-, halong⟩ | ⟨before, ⟨path, entry⟩, rest, error, rfl, -, halong, hcause⟩
    · rw [halong] at h
      cases h
    · rw [halong] at h
      cases h
      have hmem : (path, entry) ∈ d.below dir := hperm.mem_iff.mp (by simp)
      rcases hcause with ⟨fault, rfl⟩ | ⟨target, rfl, rfl⟩
      · exact .inl ⟨path, fault, .inr ⟨entry, hmem⟩, rfl⟩
      · exact .inr ⟨path, target, hmem, rfl⟩

/-- The configuration files below directories. -/
def configFilesBelow (d : Disk) (dirs : List Path) : List Path :=
  configFiles (dirs.flatMap d.filesBelow)

theorem mem_configFilesBelow {dirs : List Path} {file : Path} :
    file ∈ d.configFilesBelow dirs ↔
      ∃ dir ∈ dirs, file ∈ d.filesBelow dir ∧ (FileFormat.ofPath? file).isSome = true := by
  rw [configFilesBelow, configFiles, List.mem_filter, List.mem_flatMap]
  simp only [← exists_and_right, and_assoc]

/-- What walks meet of configuration files is found below their directories. -/
theorem mem_configFilesBelow_of_walk (ht : d.tree.WellFormed) {dirs : List Path} {file : Path}
    (hdir : dir ∈ dirs) (hmet : file ∈ (d.walk .refuse dir).paths)
    (hformat : (FileFormat.ofPath? file).isSome = true) : file ∈ d.configFilesBelow dirs :=
  mem_configFilesBelow.mpr ⟨dir, hdir, mem_filesBelow_of_walk ht hmet, hformat⟩

end Disk

/-! ### Files and what they hold -/

namespace IncludeFile

variable {d : Disk} {files : List Path} {held : List (IncludeFile × Path)}

theorem AllHeldBy.of_mem (h : AllHeldBy d files held) {f : IncludeFile} {file : Path}
    (hmem : (f, file) ∈ held) : file ∈ files ∧ f.HeldBy d file := by
  induction h with
  | nil => cases hmem
  | @cons path entry paths entries hhead htail ih =>
    obtain ⟨hheld, hpath⟩ := hhead
    rcases List.mem_cons.mp hmem with rfl | hrest
    · obtain rfl : file = path := hpath
      exact ⟨List.mem_cons_self, hheld⟩
    · obtain ⟨hfile, hheldFile⟩ := ih hrest
      exact ⟨List.mem_cons_of_mem _ hfile, hheldFile⟩

theorem AllHeldBy.exists_of_mem (h : AllHeldBy d files held) {file : Path} (hmem : file ∈ files) :
    ∃ f, (f, file) ∈ held := by
  induction h with
  | nil => cases hmem
  | @cons path entry paths entries hhead htail ih =>
    obtain ⟨-, hpath⟩ := hhead
    rcases List.mem_cons.mp hmem with rfl | hrest
    · exact ⟨entry.1, by rw [← hpath]; exact List.mem_cons_self⟩
    · obtain ⟨f, hf⟩ := ih hrest
      exact ⟨f, List.mem_cons_of_mem _ hf⟩

end IncludeFile

namespace IncludeStore

/-- The errors of loading directories that the file tree accounts for. -/
inductive Traced (d : Disk) (dirs : List Path) : LoadError → Prop where
  /-- A listed directory, or an entry below one, is not accessible. -/
  | io {dir path : Path} (fault : FileFault) (hdir : dir ∈ dirs)
    (hpath : path = dir ∨ ∃ entry, (path, entry) ∈ d.below dir) : Traced d dirs (.io path fault)
  /-- There is a link below a listed directory. -/
  | symlink {dir path : Path} {target : String} (hdir : dir ∈ dirs)
    (hlink : (path, .link target) ∈ d.below dir) : Traced d dirs (.symlink path)
  /-- A configuration file does not decode. -/
  | parse {file : Path} {bytes : List UInt8} {fault : CodecFault}
    (hfile : file ∈ d.configFilesBelow dirs) (hread : d.readFile file = .ok bytes)
    (hdecode : (FileFormat.ofPath file).decode IncludeFile bytes = .error fault) :
    Traced d dirs (.parse file fault)
  /-- What a configuration file holds breaks a rule. -/
  | invalid {file : Path} {written : IncludeFile} {v : Violation}
    (hfile : file ∈ d.configFilesBelow dirs)
    (hread : ConfigFile.read IncludeFile d file = .ok written)
    (hcheck : written.prune.validate = .error v) :
    Traced d dirs (.inFile "validating include file" file (.invalid v))
  /-- Two configuration files, or one and the same, define an id of one space. -/
  | duplicateId {first second : Path} {f g : IncludeFile} {space : IdSpace} {id : String}
    (hfirst : first ∈ d.configFilesBelow dirs) (hsecond : second ∈ d.configFilesBelow dirs)
    (hf : f.HeldBy d first) (hg : g.HeldBy d second)
    (hid : (space, id) ∈ f.ids) (hid' : (space, id) ∈ g.ids) :
    Traced d dirs (.duplicateId id space first second)
  /-- A task of a group names an id that no configuration file defines. -/
  | unresolved {origin : Path} {f : IncludeFile} {g : TaskGroup} {t : Task} {id : String}
    (horigin : origin ∈ d.configFilesBelow dirs) (hf : f.HeldBy d origin)
    (hgroup : g ∈ f.taskGroups) (htask : t ∈ g.tasks) (hid : id ∈ t.includes)
    (hmissing : ∀ file ∈ d.configFilesBelow dirs, ∀ other : IncludeFile,
      other.HeldBy d file → id ∉ other.fragmentIds) :
    Traced d dirs (.inFile "resolving task group includes of" origin
      (.reference id .inputOutput ("task '" ++ t.name ++ "'")))

variable {d : Disk} {dirs : List Path} {e : LoadError}

/-- A configuration file that fails has been read, or there is an entry that can not be. -/
theorem traced_of_read_eq_error {file : Path} (hfile : file ∈ d.configFilesBelow dirs)
    (h : ConfigFile.read IncludeFile d file = .error e) : Traced d dirs e := by
  rcases ConfigFile.read_eq_error.mp h with ⟨fault, -, rfl⟩ | ⟨bytes, fault, hread, hdecode, rfl⟩
  · obtain ⟨dir, hdir, hmem, -⟩ := Disk.mem_configFilesBelow.mp hfile
    obtain ⟨⟨path, entry⟩, hbelow, rfl⟩ := List.mem_map.mp hmem
    exact .io fault hdir (.inr ⟨entry, (List.mem_filter.mp hbelow).1⟩)
  · exact .parse hfile hread hdecode

/-- A file that fails after other files were registered is traced to itself and to those. -/
theorem traced_of_loadFile_eq_error {b : IncludeBuilder} {file : Path} {before : List Path}
    {held : List (IncludeFile × Path)} (hfile : file ∈ d.configFilesBelow dirs)
    (hbefore : ∀ other ∈ before, other ∈ d.configFilesBelow dirs)
    (hheld : IncludeFile.AllHeldBy d before held)
    (hadd : IncludeBuilder.addAll {} held = .ok b) (h : b.loadFile d file = .error e) :
    Traced d dirs e := by
  rcases IncludeBuilder.loadFile_eq_error.mp h with
    hread | ⟨written, v, hread, hcheck, rfl⟩ | ⟨f, hf, hrefused⟩
  · exact traced_of_read_eq_error hfile hread
  · exact .invalid hfile hread hcheck
  · obtain ⟨space, id, first, hid, hfirst, rfl⟩ :=
      IncludeBuilder.exists_of_add_eq_error hrefused
    rcases hfirst with hdefined | rfl
    · obtain ⟨g, hg, hid'⟩ :=
        (IncludeBuilder.consistsOf_of_addAll hadd).exists_of_definedIn? hdefined
      obtain ⟨hmem, hgHeld⟩ := hheld.of_mem hg
      exact .duplicateId (hbefore first hmem) hfile hgHeld hf hid' hid
    · exact .duplicateId hfile hfile hf hf hid hid

theorem traced_of_walk_failed (ht : d.tree.WellFormed) {dir : Path} (hdir : dir ∈ dirs)
    (h : (d.walk .refuse dir).ending = .failed e) : Traced d dirs e := by
  rcases Disk.cases_of_walk_failed ht h with ⟨path, fault, hpath, rfl⟩ | ⟨path, target, hlink, rfl⟩
  · exact .io fault hdir hpath
  · exact .symlink hdir hlink

/-- The directories are loaded in turn, so an error has all files behind it that were met before. -/
theorem traced_of_loadDirs_eq_error (ht : d.tree.WellFormed)
    (h : IncludeBuilder.loadDirs d {} dirs = .error e) : Traced d dirs e := by
  obtain ⟨before, dir, after, next, left, rfl, hbefore, hdir⟩ :=
    IncludeBuilder.exists_of_loadDirs_eq_error h
  have hmem : dir ∈ before ++ dir :: after := by simp
  rcases IncludeBuilder.cases_of_loadDir_eq_error hdir with
    ⟨passed, file, others, hpaths, hvisit, hformat, hfile⟩ | hfailed | rfl
  · obtain ⟨-, first, hfirst, haddFirst⟩ := IncludeBuilder.loadDirs_eq_ok.mp hbefore
    obtain ⟨second, hsecond, haddSecond⟩ := IncludeBuilder.visitPaths_eq_ok.mp hvisit
    have hadd : IncludeBuilder.addAll {} (first ++ second) = .ok left := by
      rw [IncludeBuilder.addAll_append, haddFirst]
      exact haddSecond
    have hmet : ∀ q ∈ passed ++ file :: others, (FileFormat.ofPath? q).isSome = true →
        q ∈ d.configFilesBelow (before ++ dir :: after) := by
      intro q hq
      rw [← hpaths] at hq
      exact Disk.mem_configFilesBelow_of_walk ht hmem hq
    refine traced_of_loadFile_eq_error (hmet file (by simp) hformat) (fun q hq => ?_)
      (IncludeFile.allHeldBy_append.mpr ⟨first, second, hfirst, hsecond, rfl⟩) hadd hfile
    rcases List.mem_append.mp hq with hearlier | hpassed
    · obtain ⟨hmetEarlier, hqFormat⟩ := List.mem_filter.mp hearlier
      obtain ⟨earlier, hearlierDir, hqMet⟩ := List.mem_flatMap.mp hmetEarlier
      exact Disk.mem_configFilesBelow_of_walk ht (List.mem_append_left _ hearlierDir) hqMet hqFormat
    · obtain ⟨hqPassed, hqFormat⟩ := List.mem_filter.mp hpassed
      exact hmet q (List.mem_append_left _ hqPassed) hqFormat
  · exact traced_of_walk_failed ht hmem hfailed
  · exact .io .tooManyLinks hmem (.inl rfl)

/-- **Every error of loading directories is accounted for by the tree.** -/
theorem traced_of_load_eq_error (ht : d.tree.WellFormed) (h : IncludeStore.load d dirs = .error e) :
    Traced d dirs e := by
  rcases Except.bind_eq_error_iff.mp h with hdirs | ⟨b, hdirs, hbuild⟩
  · exact traced_of_loadDirs_eq_error ht hdirs
  · obtain ⟨hcomplete, held, hheld, hadd⟩ := IncludeBuilder.loadDirs_eq_ok.mp hdirs
    have hfound : ∀ file, file ∈ configFiles (dirs.flatMap fun dir => (d.walk .refuse dir).paths) ↔
        file ∈ d.configFilesBelow dirs := by
      intro file
      simp only [Disk.configFilesBelow, configFiles, List.mem_filter, List.mem_flatMap]
      refine and_congr_left fun _ => exists_congr fun dir => and_congr_right fun hdir => ?_
      exact (Disk.paths_walk ht (hcomplete dir hdir)).mem_iff
    obtain ⟨⟨f, origin⟩, hfile, g, hg, t, htask, id, hid, hmissing, rfl⟩ :=
      IncludeBuilder.exists_of_build_eq_error (IncludeBuilder.consistsOf_of_addAll hadd) hbuild
    obtain ⟨horigin, hf⟩ := hheld.of_mem hfile
    refine .unresolved ((hfound origin).mp horigin) hf hg htask hid fun file hmem other hother => ?_
    obtain ⟨f', hf'⟩ := hheld.exists_of_mem ((hfound file).mpr hmem)
    rw [hother.unique (hheld.of_mem hf').2]
    exact hmissing _ hf'

end IncludeStore

/-- **Every error tells its stage and its file.**  An app file reports the first stage that fails, and
whatever stops the loading of include directories is traced to an entry below one of them or to the
configuration files that are at odds. -/
theorem errors_of_load :
    (∀ (loader : AppLoader) (d : Disk) (file : Path), loader.Staged d file) ∧
      ∀ (d : Disk) (dirs : List Path), d.tree.WellFormed →
        ∀ e, IncludeStore.load d dirs = .error e → IncludeStore.Traced d dirs e :=
  ⟨fun loader d file => loader.staged d file,
    fun _ _ ht _ he => IncludeStore.traced_of_load_eq_error ht he⟩

/-- A directory that is listed twice, so that its file is at odds with itself; and an app that names
two missing ids and also breaks the rule for single tasks. -/
theorem errors_of_load_directory_twice :
    let dirs : List Path := [⟨"inc"⟩, ⟨"inc"⟩]
    let loader : AppLoader := ⟨{}, .single⟩
    sampleDisk.tree.WellFormed ∧
      IncludeStore.load sampleDisk dirs =
        .error (.duplicateId "i" .inputOutput ⟨"inc/a.toml"⟩ ⟨"inc/a.toml"⟩) ∧
      IncludeStore.Traced sampleDisk dirs
        (.duplicateId "i" .inputOutput ⟨"inc/a.toml"⟩ ⟨"inc/a.toml"⟩) ∧
      ∃ e, AppLoader.sampleApp.Dangling loader.store e ∧
        loader.load sampleDisk ⟨"app.toml"⟩ =
          .error (.inFile "resolving includes of" ⟨"app.toml"⟩ e) := by
  intro dirs loader
  have ht : sampleDisk.tree.WellFormed := by decide +kernel
  have hload : IncludeStore.load sampleDisk dirs =
      .error (.duplicateId "i" .inputOutput ⟨"inc/a.toml"⟩ ⟨"inc/a.toml"⟩) := by decide +kernel
  have hread : ConfigFile.read App sampleDisk ⟨"app.toml"⟩ = .ok AppLoader.sampleApp := by
    decide +kernel
  obtain ⟨bytes, hbytes, hdecode⟩ := ConfigFile.read_eq_ok.mp hread
  have hdangling : AppLoader.sampleApp.Dangling loader.store (.reference "g" .taskGroup "app 'a'") :=
    .ofApp (a := AppLoader.sampleApp) (by decide) (by decide)
  exact ⟨ht, hload, errors_of_load.2 sampleDisk dirs ht _ hload,
    (errors_of_load.1 loader sampleDisk ⟨"app.toml"⟩).unresolved bytes _ hbytes hdecode
      ⟨_, hdangling⟩⟩

end Monorepo
