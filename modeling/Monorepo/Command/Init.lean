import Monorepo.ConfigFile
import Monorepo.Command
import Monorepo.Template

/-!
# Making configuration files

The `init` commands write template files. What exists is only overwritten by force. Making a
repository takes several steps, and the steps before one that fails are not undone; so every
command gives the disk that it leaves behind.
-/

namespace Monorepo.Init

/-- The outcome of a command that changes the disk, with the disk that it leaves behind. -/
abbrev Outcome (α : Type) := Except Failure α × Disk

/-- Writes a template file. -/
def writeTemplate {α : Type} [OnDisk α] (d : Disk) (value : α) (file : Path) (force : Bool) :
    Outcome Unit :=
  if !force && d.pathExists file then
    (.error (.ofMessage (file.text ++ " already exists, use --force to overwrite it")), d)
  else
    match ConfigFile.write d value file force with
    | .ok written => (.ok (), written)
    | .error error => (.error (.ofLoadError error), d)

/-- The directory to write to. -/
def targetDir (cwd : Path) (dir? : Option Path) : Path :=
  match dir? with
  | some dir => cwd.join dir
  | none => cwd

/-- Makes the directory of include files. -/
def makeIncludeDir (d : Disk) (dir : Path) : Outcome Unit :=
  match d.makeDirectoryPath dir with
  | (.ok (), d) => (.ok (), d)
  | (.error fault, d) => (.error ⟨["Failed to create " ++ dir.text], .file fault⟩, d)

/-- Makes a repository in a directory: its settings, a directory of include files and a file in
it. Gives the files. -/
def repository (d : Disk) (root : Path) (force : Bool) : Outcome (List Path) :=
  let settingsFile := root.join settingsFileName
  let includeDir := root.join Template.includeDir
  let includeFile := includeDir.join ⟨"example.toml"⟩
  match writeTemplate d Template.settings settingsFile force with
  | (.error failure, d) => (.error failure, d)
  | (.ok (), d) =>
    match makeIncludeDir d includeDir with
    | (.error failure, d) => (.error failure, d)
    | (.ok (), d) =>
      match writeTemplate d Template.includeFile includeFile force with
      | (.error failure, d) => (.error failure, d)
      | (.ok (), d) => (.ok [settingsFile, includeFile], d)

/-- Writes one template file and gives it. -/
def oneFile {α : Type} [OnDisk α] (d : Disk) (value : α) (file : Path) (force : Bool) :
    Outcome (List Path) :=
  match writeTemplate d value file force with
  | (.ok (), d) => (.ok [file], d)
  | (.error failure, d) => (.error failure, d)

/-- The name of an app file of a format. -/
def appFileName : FileFormat → Path
  | .toml => ⟨".app.toml"⟩
  | .yaml => ⟨".app.yaml"⟩

end Monorepo.Init

namespace Monorepo.Command

/-- Runs a command that makes files, from a directory. Gives the files; commands of other kinds
make none. -/
def runInit (command : Command) (d : Disk) (cwd : Path) : Init.Outcome (List Path) :=
  match command with
  | .initRepository dir? force => Init.repository d (Init.targetDir cwd dir?) force
  | .initApp name dir? format force =>
    Init.oneFile d (Template.app name) ((Init.targetDir cwd dir?).join (Init.appFileName format))
      force
  | .initInclude file force => Init.oneFile d Template.includeFile (cwd.join file) force
  | .check _ => (.ok [], d)
  | .showApp .. => (.ok [], d)

end Monorepo.Command
