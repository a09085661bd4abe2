import Monorepo.Proofs.Acceptance
import Monorepo.Proofs.Discovery
import Monorepo.Proofs.SelfContained

/-!
# What was initialised can be opened

The templates go together: the settings and the includes are read back and are valid, and an app with
a name is valid too.  So a site that holds nothing else can be opened:

* `Init.HoldsText.read` — what is read from a file that holds the text of a value;
* `Init.Templated` — a site whose configuration files are templates;
* `Init.Templated.exists_load` — its includes load, and `Init.Templated.load_of_found` — so do its
  apps;
* `Init.Templated.exists_openAt` — it can be opened, with the settings of a new repository.
-/

namespace Monorepo

namespace Init

open FileTree

variable {d d₁ d' : Disk} {root : Path} {top : Location}

/-! ### Templates -/

theorem app_valid {name : String} (h : name ≠ "") : (Template.app name).Valid .multiple := by
  have htasks : Task.AllValid [Template.task] := Task.validateAll_eq_ok.mp (by decide)
  exact ⟨h, rfl, List.forall_mem_singleton.mpr rfl, htasks, nofun⟩

theorem includeFile_valid : Template.includeFile.Valid :=
  IncludeFile.validate_eq_ok.mp (by decide)

theorem includeFile_references (origin : Path) :
    IncludeFile.ReferencesKnown [(Template.includeFile, origin)] := by
  rw [IncludeFile.ReferencesKnown, List.forall_mem_singleton, List.flatMap_singleton]
  show ∀ g ∈ Template.includeFile.taskGroups, ∀ t ∈ g.tasks, ∀ id ∈ t.includes,
    id ∈ Template.includeFile.fragmentIds
  decide

theorem includeFile_readsBack : FileFormat.ReadsBack .toml (OnDisk.schema IncludeFile)
    (toDocument Template.includeFile) := by
  decide +kernel

theorem settings_readsBack : FileFormat.ReadsBack .yaml (OnDisk.schema Settings)
    (toDocument Template.settings) := by
  decide +kernel

/-- What a format reads the text of a document as is read from a file that holds it. -/
theorem HoldsText.readAs {α : Type} [OnDisk α] {location : Location} {format : FileFormat}
    {document found : Document} {value : α} {p : Path} (h : HoldsText d location format document)
    (hlocate : d.locate p false = .ok location) (hformat : FileFormat.ofPath p = format)
    (hreads : format.ReadsAs (OnDisk.schema α) document found)
    (hvalue : ofDocument? found = some value) : ConfigFile.read α d p = .ok value := by
  obtain ⟨text, hrender, hentry⟩ := h
  have hfile : d.readFile p = .ok (Utf8.encode text) :=
    Disk.readFile_eq_ok.mpr ⟨location, Disk.find_eq_ok.mpr ⟨hlocate, hentry⟩⟩
  have hdecode : format.decode α (Utf8.encode text) = .ok value := by
    rw [FileFormat.decode, Utf8.decode_encode]
    refine Except.bind_eq_ok_iff.mpr ⟨text, rfl, ?_⟩
    refine Except.bind_eq_ok_iff.mpr ⟨found, hreads text hrender, ?_⟩
    rw [hvalue]
    rfl
  rw [ConfigFile.read, hfile, hformat]
  simp only [hdecode]

/-- The text of a value is read back as the value. -/
theorem HoldsText.read {α : Type} [OnDisk α] [OnDisk.Lawful α] {location : Location}
    {format : FileFormat} {value : α} {p : Path}
    (h : HoldsText d location format (toDocument value))
    (hlocate : d.locate p false = .ok location) (hformat : FileFormat.ofPath p = format)
    (hreads : format.ReadsBack (OnDisk.schema α) (toDocument value)) :
    ConfigFile.read α d p = .ok value :=
  h.readAs hlocate hformat hreads (ofDocument?_toDocument value)

/-! ### Opening -/

/-- A site whose configuration files are templates: the only include file is the one of a new
repository, and the app files at the root are templates of apps with names, which are read back. -/
structure Templated (d : Disk) (root : Path) (top : Location) : Prop extends Site d root top where
  includeFile : HoldsText d (top ++ ["includes", "example.toml"]) .toml
    (toDocument Template.includeFile)
  noOther : ∀ name bytes, d.tree.entry? (top ++ ["includes", name]) = some (.file bytes) →
    (FileFormat.ofPath? ⟨name⟩).isSome = true → name = "example.toml"
  apps : ∀ format bytes,
    d.tree.entry? (top ++ [(appFileName format).text]) = some (.file bytes) →
    ∃ name, name ≠ "" ∧
      HoldsText d (top ++ [(appFileName format).text]) format (toDocument (Template.app name)) ∧
      format.ReadsBack (OnDisk.schema App) (toDocument (Template.app name))

/-- No path that opening a repository goes over is too long. -/
structure PathsShort (d : Disk) (root : Path) : Prop where
  below : ∀ e ∈ d.below (root.join Template.includeDir), e.1.text.utf8ByteSize < pathLimit
  absolute : ∀ a, d.absolute (root.join ⟨"."⟩) = .ok a → a.text.utf8ByteSize < pathLimit

theorem Site.find_includes (h : Site d root top) :
    d.find (root.join Template.includeDir) = .ok (top ++ ["includes"], .directory) :=
  Disk.find_join h.found (by decide) h.short h.includes nofun

/-- An entry in the directory of include files. -/
theorem Site.mem_below (h : Site d root top) {name : String} {entry : Entry}
    (hentry : d.tree.entry? (top ++ ["includes", name]) = some entry) :
    ((root.join Template.includeDir).join ⟨name⟩, entry) ∈
      d.below (root.join Template.includeDir) := by
  rw [Disk.below_eq h.find_includes]
  refine List.mem_map.mpr ⟨([name], entry), ?_, rfl⟩
  rw [h.wellFormed.mem_below, List.append_assoc]
  exact ⟨List.cons_ne_nil _ _, hentry⟩

/-- Below the directory of include files there are files and directories that can be opened. -/
theorem Site.of_mem_below (h : Site d root top) {e : Path × Entry}
    (he : e ∈ d.below (root.join Template.includeDir)) :
    (∃ bytes, e.2 = .file bytes) ∨ e.2 = .directory := by
  rw [Disk.below_eq h.find_includes] at he
  obtain ⟨found, hfound, rfl⟩ := List.mem_map.mp he
  obtain ⟨-, hentry⟩ := h.wellFormed.mem_below.mp hfound
  rw [List.append_assoc] at hentry
  exact h.files _ _ hentry

namespace Templated

/-- The only configuration file below the directory of include files. -/
theorem configFiles_eq (h : Templated d root top) :
    configFiles (d.filesBelow (root.join Template.includeDir)) = [includeFileOf root] := by
  obtain ⟨text, -, hentry⟩ := h.includeFile
  have hbelow : ((d.tree.below (top ++ ["includes"])).filter fun e => e.2.isFile).filter
      (fun e => (FileFormat.ofPath? ((root.join Template.includeDir).descend e.1)).isSome) =
        [(["example.toml"], .file (Utf8.encode text))] := by
    have hnodup := (h.wellFormed.nodup_below (top ++ ["includes"])).of_map
    rw [← List.perm_singleton,
      List.perm_ext_iff_of_nodup ((hnodup.filter _).filter _) (List.nodup_singleton _)]
    rintro ⟨names, entry⟩
    rw [List.mem_filter, List.mem_filter, h.wellFormed.mem_below, List.mem_singleton]
    constructor
    · rintro ⟨⟨⟨hnames, hfound⟩, hfile⟩, hconfig⟩
      obtain ⟨bytes, rfl⟩ : ∃ bytes, entry = .file bytes := by
        rw [List.append_assoc] at hfound
        refine (h.files _ entry hfound).resolve_right ?_
        rintro rfl
        cases hfile
      obtain ⟨name, rest, rfl⟩ := List.exists_cons_of_ne_nil hnames
      -- There is no directory to stand between the file and that of include files.
      have hrest : rest = [] := by
        by_contra hne
        have habove : (top ++ ["includes"]) ++ name :: rest =
            top ++ ["includes", name] ++ rest := by
          simp
        rw [habove] at hfound
        have hcases := h.directories _ (h.wellFormed.above_of_entry hne hfound)
        simp at hcases
      subst hrest
      have hname := h.wellFormed.properName_of_entry hfound
      have hisSome : (FileFormat.ofPath? ⟨name⟩).isSome = true := by
        rw [← FileFormat.ofPath?_join (root.join Template.includeDir) hname]
        exact hconfig
      rw [List.append_assoc] at hfound
      obtain rfl := h.noOther name bytes hfound hisSome
      rw [← Option.some.inj (hfound.symm.trans hentry)]
    · intro heq
      cases heq
      refine ⟨⟨⟨by decide, ?_⟩, rfl⟩, ?_⟩
      · rwa [List.append_assoc]
      · show (FileFormat.ofPath? ((root.join Template.includeDir).join ⟨"example.toml"⟩)).isSome = _
        rw [FileFormat.ofPath?_join _ (by decide)]
        decide
  have hfind := h.find_includes
  rw [configFiles, Disk.filesBelow, Disk.below_eq hfind, List.filter_map, List.filter_map,
    List.filter_map, List.map_map]
  show ((((d.tree.below (top ++ ["includes"])).filter fun e => e.2.isFile).filter
      (fun e => (FileFormat.ofPath? ((root.join Template.includeDir).descend e.1)).isSome)).map
        fun e => (root.join Template.includeDir).descend e.1) = _
  rw [hbelow]
  rfl

/-- The file of includes is read back. -/
theorem heldBy (h : Templated d root top) (hshort : PathsShort d root) :
    Template.includeFile.HeldBy d (includeFileOf root) := by
  have hlink : ∀ target, d.tree.entry? ((top ++ ["includes"]) ++ ["example.toml"]) ≠
      some (.link target) := by
    intro target
    rw [List.append_assoc]
    exact h.noLinks _ target
  have hlimit : (includeFileOf root).text.utf8ByteSize < pathLimit := by
    obtain ⟨text, -, hentry⟩ := h.includeFile
    exact hshort.below _ (h.mem_below hentry)
  have hlocate : d.locate (includeFileOf root) false =
      .ok ((top ++ ["includes"]) ++ ["example.toml"]) :=
    Disk.locate_join h.find_includes (by decide) hlimit (.inr hlink)
  rw [List.append_assoc] at hlocate
  have hformat : FileFormat.ofPath (includeFileOf root) = .toml := by
    rw [includeFileOf, FileFormat.ofPath_join _ (by decide)]
    decide
  exact ⟨Template.includeFile, h.includeFile.read hlocate hformat includeFile_readsBack,
    by decide, includeFile_valid⟩

/-- **The includes of the site load.** -/
theorem exists_load (h : Templated d root top) (hshort : PathsShort d root) :
    ∃ s, IncludeStore.load d [root.join Template.includeDir] = .ok s := by
  refine (IncludeStore.exists_load_iff h.wellFormed).mpr
    ⟨?_, [(Template.includeFile, includeFileOf root)], ?_⟩
  · rw [List.forall_mem_singleton]
    intro e he
    refine ⟨hshort.below e he, fun hdirectory => ?_⟩
    rw [Disk.exists_list_iff_of_below h.wellFormed he (hshort.below e he) hdirectory]
    rcases h.of_mem_below he with ⟨bytes, hfile⟩ | hopen
    · rw [hfile] at hdirectory
      cases hdirectory
    · rw [hopen]
      exact nofun
  · refine ⟨?_, ?_, ?_, ?_, ?_, ?_⟩
    · rw [List.forall_mem_singleton]
      exact ⟨_, Disk.list_eq_ok.mpr ⟨_, h.find_includes, rfl⟩⟩
    · rw [List.forall_mem_singleton]
      intro e he target htarget
      rcases h.of_mem_below he with ⟨bytes, hfile⟩ | hdirectory
      · cases htarget.symm.trans hfile
      · cases htarget.symm.trans hdirectory
    · rw [List.flatMap_singleton, h.configFiles_eq]
      exact .cons ⟨h.heldBy hshort, rfl⟩ .nil
    · show (Template.includeFile.fragmentIds ++ []).Nodup
      decide
    · show (Template.includeFile.groupIds ++ []).Nodup
      decide
    · exact includeFile_references _

/-- **The apps of the site load**, whatever the store. -/
theorem load_of_found (h : Templated d root top) {name : String}
    (hname : name ∈ Template.settings.appFileNames) {p : Path} (hfound : Site.Found d top name p)
    (store : IncludeStore) :
    ∃ name, name ≠ "" ∧ (AppLoader.mk store .multiple).load d p = .ok (Template.app name) := by
  obtain ⟨above, names, bytes, rfl, hnames, hfind⟩ := hfound
  obtain ⟨hlocate, hentry⟩ := Disk.find_eq_ok.mp hfind
  obtain ⟨format, hformatName, hformat, hproper⟩ : ∃ format,
      name = (appFileName format).text ∧ FileFormat.ofPath? ⟨name⟩ = some format ∧
        ProperName name := by
    have hnames : name ∈ [".app.toml", ".app.yaml"] := hname
    rcases List.mem_pair.mp hnames with rfl | rfl
    · exact ⟨.toml, rfl, by decide, by decide⟩
    · exact ⟨.yaml, rfl, by decide, by decide⟩
  rcases hnames with rfl | rfl
  · rw [List.append_nil] at hentry hlocate hfind
    rw [hformatName] at hentry
    obtain ⟨app, happ, ⟨text, hrender, htext⟩, hreads⟩ := h.apps format bytes hentry
    have hpath : FileFormat.ofPath (above.join ⟨name⟩) = format := by
      rw [FileFormat.ofPath_join above hproper, FileFormat.ofPath, hformat]
      rfl
    rw [← hformatName] at htext
    have hfile : d.readFile (above.join ⟨name⟩) = .ok (Utf8.encode text) :=
      Disk.readFile_eq_ok.mpr ⟨_, Disk.find_eq_ok.mpr ⟨hlocate, htext⟩⟩
    refine ⟨app, happ, AppLoader.load_of_readFile (app_valid happ) ?_ ?_ hfile⟩
    · rwa [hpath]
    · rwa [hpath]
  · -- The file would be an include file of another name than the only one.
    rw [List.append_assoc] at hentry
    have hother := h.noOther name bytes hentry (by rw [hformat]; rfl)
    rw [hother] at hname
    exact absurd hname (by decide)

/-- **A site of templates can be opened, and its apps load.** -/
theorem exists_openAt (h : Templated d root top) (hshort : PathsShort d root) :
    ∃ repo apps, Repository.openAt d root Template.settings = .ok repo ∧
      repo.loadApps d = .ok apps ∧
      ∀ a ∈ apps, ∃ name, name ≠ "" ∧ a.result = .ok (Template.app name) := by
  obtain ⟨store, hstore⟩ := h.exists_load hshort
  obtain ⟨files, hfiles, hfound⟩ := h.appFilesIn hshort.absolute
    (by decide : ∀ name ∈ Template.settings.appFileNames, ProperName name)
    Template.settings.searchDepth
  have hincludes : d.requireDirectories [root.join Template.includeDir] = .ok () :=
    Disk.requireDirectories_eq_ok_iff.mpr (List.forall_mem_singleton.mpr
      (Disk.isDirectory_eq_true.mpr ⟨_, _, h.find_includes, rfl⟩))
  have hdirs : d.requireDirectories [root.join ⟨"."⟩] = .ok () :=
    Disk.requireDirectories_eq_ok_iff.mpr (List.forall_mem_singleton.mpr
      (Disk.isDirectory_eq_true.mpr ⟨_, _, Disk.find_join_here h.found h.short_here, rfl⟩))
  have hdiscover : Repository.discoverApps d root Template.settings = .ok files :=
    Except.bind_eq_ok_iff.mpr ⟨(), withContext_eq_ok.mpr (loaded_eq_ok.mpr hdirs),
      loaded_eq_ok.mpr hfiles⟩
  let repo : Repository := ⟨root, Template.settings, store, files⟩
  refine ⟨repo, repo.loader.loadAll d files, ?_, ?_, ?_⟩
  · exact Repository.openAt_eq_ok.mpr
      ⟨by decide, hincludes, store, files, hstore, hdiscover, rfl⟩
  · have hpermits : Template.settings.parallelism ≤ permitLimit := by decide
    exact AppLoader.loadAllAtOnce_of_le _ d files hpermits
  · intro a ha
    obtain ⟨file, hfile, rfl⟩ := List.mem_map.mp ha
    obtain ⟨name, hname, hp⟩ := hfound file hfile
    exact h.load_of_found hname hp store

end Templated

end Init

end Monorepo
