import Monorepo.Disk.Search
import Monorepo.Settings

/-!
# Where settings come from

Settings files of the repository and of the user, or one explicit file in their place. The file of
the repository is the nearest one above the working directory; the others are told by the
environment.
-/

namespace Monorepo

/-- The variables that a program is started with. -/
structure Environment where
  bindings : List (String × String) := []
  deriving Repr, Inhabited

/-- The value of a variable that is set. -/
def Environment.get? (env : Environment) (name : String) : Option String :=
  env.bindings.lookup name

/-- The files and directories that settings are read from. -/
structure SettingsSources where
  repositoryFile? : Option Path := none
  /-- The directory of the user's settings file. -/
  userDir? : Option Path := none
  /-- The file that takes the place of all others. -/
  explicitFile? : Option Path := none
  deriving DecidableEq, Repr, Inhabited

namespace SettingsSources

/-- The sources for a program that works in `start`. -/
def discover (d : Disk) (env : Environment) (start : Path) :
    Except LoadError SettingsSources := do
  let repositoryFile? ← d.findUp start settingsFileName
  let homeDir? := (env.get? "HOME").map fun home => (Path.mk home).join ⟨".monobuild"⟩
  return {
    repositoryFile?
    userDir? := ((env.get? "MONOBUILD_USER_DIR").map Path.mk).or homeDir?
    explicitFile? := (env.get? "MONOBUILD_CONFIG_PATH").map Path.mk }

/-- The directory that holds the repository's settings file. -/
def repositoryRoot? (s : SettingsSources) : Option Path :=
  s.repositoryFile?.bind Path.parent?

/-- The user's settings file, which need not exist. -/
def userFile? (s : SettingsSources) : Option Path :=
  s.userDir?.map fun dir => dir.join ⟨"config.yaml"⟩

/-- The files that are read, in the order in which they take precedence, the last one most. -/
def files (s : SettingsSources) (d : Disk) : List Path :=
  match s.explicitFile? with
  | some file => [file]
  | none => s.repositoryFile?.toList ++ (s.userFile?.filter d.pathExists).toList

end SettingsSources

end Monorepo
