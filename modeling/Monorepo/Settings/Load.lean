import Monorepo.Settings.Sources
import Monorepo.Text.Count

/-!
# Loading settings

Settings are put together in tiers: defaults, the files in their order, and variables of the
environment. A field that a tier does not set, or sets to null, keeps the value of the tiers below.
The result is checked as a whole.
-/

namespace Monorepo

/-- Settings with where they come from. -/
structure LoadedSettings where
  sources : SettingsSources
  settings : Settings
  /-- The files that were read. -/
  files : List Path
  deriving DecidableEq, Repr, Inhabited

namespace Settings

/-- The content of a settings file. -/
def readFile (d : Disk) (file : Path) : Except Failure Json :=
  let refuse (fault : FileFault) : Except Failure Json :=
    .error ⟨["Failed to read settings file " ++ file.text], .file fault⟩
  match d.readFile file with
  | .error fault => refuse fault
  | .ok bytes =>
    match Utf8.decode bytes with
    | .error _ => refuse .notText
    | .ok text =>
      match Yaml.decodeValue text with
      | .ok value => .ok value
      | .error _ =>
        .error ⟨["Failed to parse settings file " ++ file.text], .codec (.malformed .yaml)⟩

/-- The settings that a value stands for. -/
def ofJson (value : Json) : Except Failure Settings :=
  match (Json.fit? (OnDisk.schema Settings) value).bind ofDocument? with
  | some settings => .ok settings
  | none => .error ⟨["Invalid settings"], .message unreadablePhrase⟩

/-- The count that a variable is set to, if it is set. -/
def countVariable (env : Environment) (name : String) (unset : Nat) : Except Failure Nat :=
  match env.get? name with
  | none => .ok unset
  | some text =>
    match Text.parseCount text with
    | .ok count => .ok count
    | .error fault =>
      .error ⟨["Invalid " ++ name ++ " '" ++ text ++ "'"], .message fault.message⟩

/-- The mode that the environment sets, if it does. -/
def modeVariable (env : Environment) (unset : TaskMode) : Except Failure TaskMode :=
  match env.get? "MONOBUILD_TASK_MODE" with
  | none => .ok unset
  | some text =>
    match TaskMode.ofName? text with
    | some mode => .ok mode
    | none => .error ⟨["Invalid MONOBUILD_TASK_MODE"], .message (TaskMode.invalidName text)⟩

/-- Puts the variables of the environment over settings. -/
def override (env : Environment) (s : Settings) : Except Failure Settings := do
  let parallelism ← countVariable env "MONOBUILD_PARALLELISM" s.parallelism
  let taskMode ← modeVariable env s.taskMode
  let searchDepth ← countVariable env "MONOBUILD_SEARCH_DEPTH" s.searchDepth
  return { s with parallelism, taskMode, searchDepth }

/-- The settings of the tiers. -/
def ofTiers (tiers : List Json) (env : Environment) : Except Failure Settings := do
  let merged := Json.mergeAll (Json.ofDocument (toDocument ({} : Settings)) :: tiers)
  let settings ← (← ofJson merged).override env
  settings.validate
  return settings

end Settings

namespace LoadedSettings

/-- The settings of known sources. -/
def ofSources (d : Disk) (env : Environment) (sources : SettingsSources) :
    Except Failure LoadedSettings := do
  let files := sources.files d
  let tiers ← files.mapM (Settings.readFile d)
  return { sources, settings := ← Settings.ofTiers tiers env, files }

/-- The settings for a program that works in `start`. -/
def find (d : Disk) (env : Environment) (start : Path) : Except Failure LoadedSettings := do
  ofSources d env (← loaded (SettingsSources.discover d env start))

/-- The directory that holds the repository's settings file. -/
def repositoryRoot? (s : LoadedSettings) : Option Path :=
  s.sources.repositoryRoot?

end LoadedSettings

end Monorepo
