import Monorepo.Disk
import Monorepo.LoadError

/-!
# Searching for files

Files of a known name are found upwards, in the nearest of the directories that contain the start,
or downwards, in every directory up to a depth.
-/

namespace Monorepo

namespace Path

/-- A path, the path without its last component, and so on, as far as `steps` go. -/
def ancestorsWithin : Nat → Path → List Path
  | 0, p => [p]
  | steps + 1, p =>
    p :: match p.parent? with
      | none => []
      | some above => ancestorsWithin steps above

/-- A path and every path that contains it, nearest first. -/
def ancestors (p : Path) : List Path :=
  ancestorsWithin p.text.length p

end Path

namespace Disk

/-- The first of these directories' entries of a name. -/
def firstWith (d : Disk) (name : Path) : List Path → Except LoadError (Option Path)
  | [] => .ok none
  | dir :: rest =>
    let candidate := dir.join name
    match d.entry candidate with
    | .ok _ => .ok (some candidate)
    | .error .notFound => firstWith d name rest
    | .error fault => .error (.io candidate fault)

/-- The entry of a name in the nearest directory that contains `start`. -/
def findUp (d : Disk) (start name : Path) : Except LoadError (Option Path) :=
  match d.absolute start with
  | .error fault => .error (.io start fault)
  | .ok dir => d.firstWith name dir.ancestors

/-- The files of a name in a directory and, up to a depth, in the directories below it. -/
def collect (d : Disk) (name : Path) : Nat → Path → Except LoadError (List Path)
  | depth, dir => do
    let candidate := dir.join name
    let here := if d.isFile candidate then [candidate] else []
    match depth with
    | 0 => return here
    | depth + 1 =>
      let entries ← match d.list dir with
        | .ok entries => .ok (entries.filter d.isDirectory)
        | .error fault => .error (.io dir fault)
      return here ++ (← entries.mapM (d.collect name depth)).flatten

/-- The files of a name in a directory and, up to a depth, below it, in the order of paths. -/
def findDown (d : Disk) (dir name : Path) (depth : Nat) : Except LoadError (List Path) :=
  match d.absolute dir with
  | .error fault => .error (.io dir fault)
  | .ok dir => do return Path.sort (← d.collect name depth dir)

/-- Holds paths to leading to directories. -/
def requireDirectories (d : Disk) : List Path → Except LoadError Unit
  | [] => .ok ()
  | path :: rest =>
    match d.entry path with
    | .error fault => .error (.io path fault)
    | .ok entry =>
      if entry.isDirectory then requireDirectories d rest else .error (.io path .wantsDirectory)

end Disk

end Monorepo
