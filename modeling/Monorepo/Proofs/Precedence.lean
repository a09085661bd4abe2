import Monorepo.Proofs.Check
import Monorepo.Proofs.SettingsTier

/-!
# Precedence of settings

The settings of a repository are chosen field by field.  A variable of the environment counts most,
then the last file that sets the field, then its default.  A file that sets a field to null does not
set it.

* `Environment.ReadsSettings` — every variable of settings that is set can be read;
* `Settings.ofFiles`, `Settings.overridden` — what files choose, and variables over it;
* `Settings.ofTiers_eq_ok_iff` — tiers that set what they say give these settings, if the variables
  can be read and the settings can work;
* `LoadedSettings.outcome_congr` — only the files that are listed are read;
* `LoadedSettings.ofSources_precedence` — the settings of known sources.
-/

namespace Monorepo

/-! ### Variables -/

namespace Environment

/-- What a variable tells, if it is set and can be read. -/
def value? {α : Type} (env : Environment) (name : String) (read? : String → Option α) : Option α :=
  (env.get? name).bind read?

/-- A variable can be read, if it is set. -/
def Reads {α : Type} (env : Environment) (name : String) (read? : String → Option α) : Prop :=
  ∀ text, env.get? name = some text → (read? text).isSome

/-- The count of a text, if it is one. -/
def count? (text : String) : Option Nat :=
  (Text.parseCount text).toOption

/-- The variables of settings can be read, as far as they are set. -/
structure ReadsSettings (env : Environment) : Prop where
  parallelism : env.Reads "MONOBUILD_PARALLELISM" count?
  taskMode : env.Reads "MONOBUILD_TASK_MODE" TaskMode.ofName?
  searchDepth : env.Reads "MONOBUILD_SEARCH_DEPTH" count?

end Environment

namespace Settings

open Environment SettingsTier

/-- What files choose: of each field what the last of them that sets it says, else its default. -/
def ofFiles (tiers : List SettingsTier) : Settings :=
  let default : Settings := {}
  { discoverDirs := (lastSet (·.discoverDirs?) tiers).getD default.discoverDirs
    searchDepth := (lastSet (·.searchDepth?) tiers).getD default.searchDepth
    appFileNames := (lastSet (·.appFileNames?) tiers).getD default.appFileNames
    includeDirs := (lastSet (·.includeDirs?) tiers).getD default.includeDirs
    taskMode := (lastSet (·.taskMode?) tiers).getD default.taskMode
    parallelism := (lastSet (·.parallelism?) tiers).getD default.parallelism }

/-- Settings with what the environment tells in the place of what they say. -/
def overridden (env : Environment) (s : Settings) : Settings :=
  { s with
    parallelism := (env.value? "MONOBUILD_PARALLELISM" count?).getD s.parallelism
    taskMode := (env.value? "MONOBUILD_TASK_MODE" TaskMode.ofName?).getD s.taskMode
    searchDepth := (env.value? "MONOBUILD_SEARCH_DEPTH" count?).getD s.searchDepth }

variable {env : Environment}

theorem countVariable_eq_ok_iff {name : String} {unset n : Nat} :
    countVariable env name unset = .ok n ↔
      env.Reads name count? ∧ n = (env.value? name count?).getD unset := by
  rw [countVariable, Reads, value?]
  cases env.get? name with
  | none => simpa using eq_comm
  | some text =>
    cases h : Text.parseCount text with
    | error fault => simp [count?, h, Except.toOption]
    | ok m => simpa [count?, h, Except.toOption] using eq_comm

theorem modeVariable_eq_ok_iff {unset mode : TaskMode} :
    modeVariable env unset = .ok mode ↔
      env.Reads "MONOBUILD_TASK_MODE" TaskMode.ofName? ∧
        mode = (env.value? "MONOBUILD_TASK_MODE" TaskMode.ofName?).getD unset := by
  rw [modeVariable, Reads, value?]
  cases env.get? "MONOBUILD_TASK_MODE" with
  | none => simpa using eq_comm
  | some text =>
    cases h : TaskMode.ofName? text with
    | none => simp [h]
    | some told => simpa [h] using eq_comm

theorem override_eq_ok_iff {s t : Settings} :
    s.override env = .ok t ↔ env.ReadsSettings ∧ t = s.overridden env := by
  simp only [override, Except.bind_eq_ok_iff, countVariable_eq_ok_iff, modeVariable_eq_ok_iff]
  constructor
  · rintro ⟨_, ⟨hparallelism, rfl⟩, _, ⟨hmode, rfl⟩, _, ⟨hdepth, rfl⟩, h⟩
    cases h
    exact ⟨⟨hparallelism, hmode, hdepth⟩, rfl⟩
  · rintro ⟨h, rfl⟩
    exact ⟨_, ⟨h.parallelism, rfl⟩, _, ⟨h.taskMode, rfl⟩, _, ⟨h.searchDepth, rfl⟩, rfl⟩

/-! ### Tiers -/

/-- Over the defaults, tiers set every field. -/
theorem foldl_orElse_default (tiers : List SettingsTier) :
    tiers.foldl (fun lower upper => upper.orElse lower) (ofSettings {}) =
      ofSettings (ofFiles tiers) := by
  have hor {α : Type} (set? : Option α) (default : α) :
      set?.or (some default) = some (set?.getD default) := by
    cases set? <;> rfl
  -- The same for each field.
  apply SettingsTier.ext <;> exact (foldl_orElse (fun _ _ => rfl) tiers _).trans (hor _ _)

/-- **The settings of tiers.** -/
theorem ofTiers_eq_ok_iff {tiers : List SettingsTier} {values : List Json}
    (hset : List.Forall₂ SettingsTier.SetBy tiers values)
    (hvalues : ∀ v ∈ values, v.WellFormed) {s : Settings} :
    ofTiers values env = .ok s ↔
      env.ReadsSettings ∧ ((ofFiles tiers).overridden env).validate = .ok () ∧
        s = (ofFiles tiers).overridden env := by
  have hdefault : (ofSettings {}).SetBy (Json.ofDocument (toDocument ({} : Settings))) :=
    setBy_toDocument (by decide) (by decide)
  have hmerged := hdefault.foldl hset hvalues
  rw [foldl_orElse_default] at hmerged
  have hjson : ofJson (Json.mergeAll (Json.ofDocument (toDocument ({} : Settings)) :: values)) =
      .ok (ofFiles tiers) := by
    rw [Json.mergeAll, List.foldl_cons, Json.null_merge]
    exact ofJson_eq_ok hmerged
  rw [ofTiers]
  simp only [hjson, Except.bind_eq_ok_iff, override_eq_ok_iff]
  constructor
  · rintro ⟨_, hfiles, _, ⟨hreads, rfl⟩, ⟨⟩, hvalid, hs⟩
    cases hfiles
    cases hs
    exact ⟨hreads, hvalid, rfl⟩
  · rintro ⟨hreads, hvalid, rfl⟩
    exact ⟨_, rfl, _, ⟨hreads, rfl⟩, (), hvalid, rfl⟩

end Settings

/-! ### Files -/

/-- A file is there, and sets what a tier says. -/
def SettingsTier.ReadFrom (d : Disk) (t : SettingsTier) (file : Path) : Prop :=
  ∃ v, Settings.readFile d file = .ok v ∧ t.SetBy v

namespace Settings

variable {d : Disk}

theorem wellFormed_of_readFile {file : Path} {v : Json} (h : readFile d file = .ok v) :
    v.WellFormed := by
  rw [readFile] at h
  split at h
  · cases h
  · split at h
    · cases h
    · split at h
      · rename_i hvalue
        cases h
        exact Yaml.wellFormed_decodeValue hvalue
      · cases h

/-- Files that are read set what the tiers say, one by one. -/
theorem exists_of_readFrom {tiers : List SettingsTier} {files : List Path}
    (h : List.Forall₂ (SettingsTier.ReadFrom d) tiers files) :
    ∃ values, files.mapM (readFile d) = .ok values ∧
      List.Forall₂ SettingsTier.SetBy tiers values ∧ ∀ v ∈ values, v.WellFormed := by
  induction h with
  | nil => exact ⟨[], rfl, .nil, nofun⟩
  | cons hfile _ ih =>
    obtain ⟨v, hread, hset⟩ := hfile
    obtain ⟨values, hreads, hsets, hvalues⟩ := ih
    refine ⟨v :: values, ?_, .cons hset hsets, ?_⟩
    · rw [List.mapM_cons, hread, hreads]
      rfl
    · exact List.forall_mem_cons.mpr ⟨wellFormed_of_readFile hread, hvalues⟩

end Settings

namespace LoadedSettings

variable {d : Disk} {env : Environment} {sources : SettingsSources}

/-- What loading settings comes to, but for the sources that it started from. -/
def outcome (d : Disk) (env : Environment) (sources : SettingsSources) :
    Except Failure (Settings × List Path) :=
  (ofSources d env sources).map fun loaded => (loaded.settings, loaded.files)

theorem outcome_eq : outcome d env sources = do
    let values ← (sources.files d).mapM (Settings.readFile d)
    let settings ← Settings.ofTiers values env
    return (settings, sources.files d) := by
  rw [outcome, ofSources]
  cases (sources.files d).mapM (Settings.readFile d) with
  | error failure => rfl
  | ok values =>
    show (Settings.ofTiers values env >>= _).map _ = (Settings.ofTiers values env >>= _)
    cases Settings.ofTiers values env <;> rfl

/-- Only the files that are listed are read. -/
theorem outcome_congr {d' : Disk} {others : SettingsSources}
    (hfiles : others.files d' = sources.files d)
    (hread : ∀ file ∈ sources.files d, Settings.readFile d' file = Settings.readFile d file) :
    outcome d' env others = outcome d env sources := by
  have hvalues : (sources.files d).mapM (Settings.readFile d') =
      (sources.files d).mapM (Settings.readFile d) := by
    generalize sources.files d = files at hread
    induction files with
    | nil => rfl
    | cons file rest ih =>
      obtain ⟨hfile, hrest⟩ := List.forall_mem_cons.mp hread
      rw [List.mapM_cons, List.mapM_cons, hfile, ih hrest]
  rw [outcome_eq, outcome_eq, hfiles, hvalues]

theorem files_of_explicit {file : Path} (h : sources.explicitFile? = some file) :
    sources.files d = [file] := by
  rw [SettingsSources.files, h]

theorem files_of_not_explicit (h : sources.explicitFile? = none) :
    sources.files d =
      sources.repositoryFile?.toList ++ (sources.userFile?.filter d.pathExists).toList := by
  rw [SettingsSources.files, h]

theorem ofSources_eq_ok_iff {tiers : List SettingsTier}
    (hread : List.Forall₂ (SettingsTier.ReadFrom d) tiers (sources.files d))
    {loaded : LoadedSettings} :
    ofSources d env sources = .ok loaded ↔
      env.ReadsSettings ∧ ((Settings.ofFiles tiers).overridden env).validate = .ok () ∧
        loaded = ⟨sources, (Settings.ofFiles tiers).overridden env, sources.files d⟩ := by
  obtain ⟨values, hvalues, hset, hwell⟩ := Settings.exists_of_readFrom hread
  simp only [ofSources, Except.bind_eq_ok_iff, hvalues]
  constructor
  · rintro ⟨_, hfiles, settings, hsettings, hloaded⟩
    cases hfiles
    cases hloaded
    obtain ⟨hreads, hvalid, rfl⟩ := (Settings.ofTiers_eq_ok_iff hset hwell).mp hsettings
    exact ⟨hreads, hvalid, rfl⟩
  · rintro ⟨hreads, hvalid, rfl⟩
    exact ⟨values, rfl, _, (Settings.ofTiers_eq_ok_iff hset hwell).mpr ⟨hreads, hvalid, rfl⟩, rfl⟩

/-- **Precedence of settings.**  Where the files that are read set what some tiers say, settings are
found exactly if the variables can be read and the settings can work that the tiers and variables
choose, and these are the ones that are found.  The files that are listed are all that is read.  An
explicit file is the only one of them; otherwise they are the file of the repository, if there is
one, and then the user's, if it exists. -/
theorem ofSources_precedence (d : Disk) (env : Environment) (sources : SettingsSources)
    (tiers : List SettingsTier)
    (hread : List.Forall₂ (SettingsTier.ReadFrom d) tiers (sources.files d)) :
    ((∃ loaded, ofSources d env sources = .ok loaded) ↔
      env.ReadsSettings ∧ ((Settings.ofFiles tiers).overridden env).validate = .ok ()) ∧
    (∀ loaded, ofSources d env sources = .ok loaded →
      loaded.settings = (Settings.ofFiles tiers).overridden env ∧
      loaded.files = sources.files d) ∧
    (∀ (d' : Disk) (others : SettingsSources), others.files d' = sources.files d →
      (∀ file ∈ sources.files d, Settings.readFile d' file = Settings.readFile d file) →
        outcome d' env others = outcome d env sources) ∧
    (∀ file, sources.explicitFile? = some file →
      sources.files d = [file] ∧
      ∀ (d' : Disk) (others : SettingsSources), others.explicitFile? = some file →
        Settings.readFile d' file = Settings.readFile d file →
        outcome d' env others = outcome d env sources) ∧
    (sources.explicitFile? = none →
      sources.files d =
        sources.repositoryFile?.toList ++ (sources.userFile?.filter d.pathExists).toList) := by
  refine ⟨?_, ?_, fun _ _ => outcome_congr, ?_, files_of_not_explicit⟩
  · simp only [ofSources_eq_ok_iff hread]
    constructor
    · rintro ⟨loaded, hreads, hvalid, -⟩
      exact ⟨hreads, hvalid⟩
    · rintro ⟨hreads, hvalid⟩
      exact ⟨_, hreads, hvalid, rfl⟩
  · intro loaded h
    obtain ⟨-, -, rfl⟩ := (ofSources_eq_ok_iff hread).mp h
    exact ⟨rfl, rfl⟩
  · intro file hfile
    have hfiles : sources.files d = [file] := files_of_explicit hfile
    refine ⟨hfiles, ?_⟩
    intro d' others hothers hsame
    refine outcome_congr ((files_of_explicit hothers).trans hfiles.symm) ?_
    rw [hfiles]
    simpa using hsame

/-! ### Two files and a variable -/

/-- A settings file that sets two fields, and has one that settings do not know. -/
def lowerText : String :=
  "discover:\n  search_depth: 3\nloader:\n  parallelism: 4\nother: [1]\n"

/-- A settings file that sets one field, and another to null. -/
def upperText : String :=
  "loader:\n  parallelism: null\ntasks:\n  mode: single\n"

/-- A disk with the settings files of a repository and of a user. -/
def twoFiles : Disk where
  tree := ⟨[(["r"], .directory), (["r", ".monobuild.yaml"], .file (Utf8.encode lowerText)),
    (["u"], .directory), (["u", "config.yaml"], .file (Utf8.encode upperText))]⟩

/-- The sources of settings on the disk. -/
def twoSources : SettingsSources where
  repositoryFile? := some ⟨"/r/.monobuild.yaml"⟩
  userDir? := some ⟨"/u"⟩

/-- An environment that sets one field. -/
def depthVariable : Environment where
  bindings := [("MONOBUILD_SEARCH_DEPTH", "+5")]

/-- What the two files set, the lower one first. -/
def twoTiers : List SettingsTier :=
  [{ searchDepth? := some 3, parallelism? := some 4 }, { taskMode? := some .single }]

theorem readFrom_lowerText :
    SettingsTier.ReadFrom twoFiles { searchDepth? := some 3, parallelism? := some 4 }
      ⟨"/r/.monobuild.yaml"⟩ := by
  refine ⟨.object [("discover", .object [("search_depth", .integer 3)]),
    ("loader", .object [("parallelism", .integer 4)]), ("other", .list [.integer 1])],
    by decide +kernel, ?_⟩
  exact {
    isSection := .inr ⟨_, rfl⟩
    sections := by
      simp only [Settings.sectionNames, List.forall_mem_cons]
      exact ⟨.inr ⟨_, rfl⟩, .inl rfl, .inl rfl, .inr ⟨_, rfl⟩, List.forall_mem_nil _⟩
    discoverDirs := rfl
    searchDepth := rfl
    appFileNames := rfl
    includeDirs := rfl
    taskMode := rfl
    parallelism := rfl
    searchDepth_le := by simp [Schema.countLimit]
    parallelism_le := by simp [Schema.countLimit] }

theorem readFrom_upperText :
    SettingsTier.ReadFrom twoFiles { taskMode? := some .single } ⟨"/u/config.yaml"⟩ := by
  refine ⟨.object [("loader", .object [("parallelism", .null)]),
    ("tasks", .object [("mode", .text "single")])], by decide +kernel, ?_⟩
  exact {
    isSection := .inr ⟨_, rfl⟩
    sections := by
      simp only [Settings.sectionNames, List.forall_mem_cons]
      exact ⟨.inl rfl, .inl rfl, .inr ⟨_, rfl⟩, .inr ⟨_, rfl⟩, List.forall_mem_nil _⟩
    discoverDirs := rfl
    searchDepth := rfl
    appFileNames := rfl
    includeDirs := rfl
    taskMode := rfl
    parallelism := rfl
    searchDepth_le := nofun
    parallelism_le := nofun }

/-- The number of the lower file stays, where the upper one has null. -/
theorem ofSources_precedence_two_files :
    List.Forall₂ (SettingsTier.ReadFrom twoFiles) twoTiers (twoSources.files twoFiles) ∧
      ∃ loaded, ofSources twoFiles depthVariable twoSources = .ok loaded ∧
        loaded.settings = { searchDepth := 5, taskMode := .single, parallelism := 4 } ∧
        loaded.files = [⟨"/r/.monobuild.yaml"⟩, ⟨"/u/config.yaml"⟩] := by
  have hfiles : twoSources.files twoFiles = [⟨"/r/.monobuild.yaml"⟩, ⟨"/u/config.yaml"⟩] := by
    decide +kernel
  have hread : List.Forall₂ (SettingsTier.ReadFrom twoFiles) twoTiers
      (twoSources.files twoFiles) := by
    rw [hfiles]
    exact .cons readFrom_lowerText (.cons readFrom_upperText .nil)
  have hreads : depthVariable.ReadsSettings := by
    refine ⟨nofun, nofun, ?_⟩
    intro text htext
    cases htext
    decide +kernel
  obtain ⟨hloads, hloaded, -, -, -⟩ :=
    ofSources_precedence twoFiles depthVariable twoSources twoTiers hread
  obtain ⟨loaded, h⟩ := hloads.mpr ⟨hreads, by decide +kernel⟩
  obtain ⟨hsettings, hlisted⟩ := hloaded loaded h
  exact ⟨hread, loaded, h, hsettings.trans (by decide +kernel), hlisted.trans hfiles⟩

end LoadedSettings

end Monorepo
