import Monorepo.Disk.Write
import Monorepo.LoadError

/-!
# Configuration files

Reading a value from a file and writing one to a file, in the format that the file's extension
names.
-/

namespace Monorepo.ConfigFile

/-- The value that a file holds. -/
def read (α : Type) [OnDisk α] (d : Disk) (file : Path) : Except LoadError α :=
  match d.readFile file with
  | .error fault => .error (.io file fault)
  | .ok bytes =>
    match (FileFormat.ofPath file).decode α bytes with
    | .ok value => .ok value
    | .error fault => .error (.parse file fault)

/-- Writes a value to a file. The text is made before the file is opened. -/
def write {α : Type} [OnDisk α] (d : Disk) (value : α) (file : Path) (overwrite : Bool) :
    Except LoadError Disk :=
  match (FileFormat.ofPath file).encode value with
  | .error fault => .error (.parse file fault)
  | .ok text =>
    match d.writeFile file (if overwrite then .replace else .createNew) (Utf8.encode text) with
    | .ok written => .ok written
    | .error fault => .error (.io file fault)

end Monorepo.ConfigFile
