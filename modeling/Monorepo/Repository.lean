import Monorepo.AppLoader
import Monorepo.IncludeStore.Builder
import Monorepo.Settings.Load

/-!
# Repositories

A repository is a directory with settings. Opening it loads all include files and finds the app
files; apps are loaded when they are asked for, as many at a time as the settings say. Opening accepts
settings that ask for more permits than there can be, so it is then that the program ends.
-/

namespace Monorepo

/-- An opened repository. -/
structure Repository where
  root : Path
  settings : Settings
  store : IncludeStore
  /-- The app files, in the order of paths. -/
  appFiles : List Path
  deriving Repr, Inhabited

namespace Repository

/-- The files of any of these names in any of these directories, in the order of paths. -/
def appFilesIn (d : Disk) (dirs : List Path) (names : List String) (depth : Nat) :
    Except LoadError (List Path) := do
  let found ← dirs.mapM fun dir => names.mapM fun name => d.findDown dir ⟨name⟩ depth
  return Path.dedup (Path.sort found.flatten.flatten)

/-- The app files of a repository. -/
def discoverApps (d : Disk) (root : Path) (settings : Settings) :
    Except Failure (List Path) := do
  let dirs := settings.discoverDirsBelow root
  withContext "Invalid discover.dirs setting" (loaded (d.requireDirectories dirs))
  loaded (appFilesIn d dirs settings.appFileNames settings.searchDepth)

/-- Opens the repository at a root. -/
def openAt (d : Disk) (root : Path) (settings : Settings) : Except Failure Repository := do
  settings.validate
  let includeDirs := settings.includeDirsBelow root
  withContext "Invalid includes.dirs setting" (loaded (d.requireDirectories includeDirs))
  let store ← loaded (IncludeStore.load d includeDirs)
  return { root, settings, store, appFiles := ← discoverApps d root settings }

/-- What is said where there is no repository. -/
def missing : Failure :=
  .ofMessage (settingsFileName.text
    ++ " not found in the current directory or any parent, run 'monobuild init repo' first")

/-- Opens the repository of known sources of settings. -/
def ofSources (d : Disk) (env : Environment) (sources : SettingsSources) :
    Except Failure Repository := do
  let loaded ← LoadedSettings.ofSources d env sources
  match loaded.repositoryRoot? with
  | some root => openAt d root loaded.settings
  | none => throw missing

/-- Opens the repository that contains `start`. -/
def find (d : Disk) (env : Environment) (start : Path) : Except Failure Repository := do
  ofSources d env (← loaded (SettingsSources.discover d env start))

/-- What the apps of a repository are loaded with. -/
def loader (r : Repository) : AppLoader :=
  ⟨r.store, r.settings.taskMode⟩

/-- All apps of a repository, each with its own outcome. -/
def loadApps (r : Repository) (d : Disk) : Except Panic (List LoadedApp) :=
  r.loader.loadAllAtOnce d r.appFiles r.settings.parallelism

/-- How many apps could not be loaded. -/
def failureCount (apps : List LoadedApp) : Nat :=
  apps.countP fun loaded => !loaded.result.toBool

/-- What is said where no app has a name and so many could not be loaded. -/
def notNamed (name : String) (failed : Nat) : Failure :=
  let hint := if failed = 0 then "" else
    ", " ++ toString failed ++ " app config(s) failed to load"
  .ofMessage ("app '" ++ name ++ "' not found" ++ hint)

/-- The first app of a name. Those that could not be loaded are passed over and counted; `failed` of
them were met before. -/
def searchNamed (name : String) : Nat → List LoadedApp → Except Failure App
  | failed, [] => .error (notNamed name failed)
  | failed, loaded :: rest =>
    match loaded.result with
    | .ok app => if app.name = name then .ok app else searchNamed name failed rest
    | .error _ => searchNamed name (failed + 1) rest

/-- The first app of a name, whatever becomes of the others. -/
def appByName (r : Repository) (d : Disk) (name : String) :
    Except Panic (Except Failure App) := do
  return searchNamed name 0 (← r.loadApps d)

end Repository

end Monorepo
