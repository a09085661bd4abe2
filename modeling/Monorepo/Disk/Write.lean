import Monorepo.Disk

/-!
# Changing the file tree

Writing a file and making directories. `writeFile` and `makeDirectory` either fail or give the
changed disk; `makeDirectoryPath` makes several directories in turn and so gives the disk it
leaves behind in both cases.
-/

namespace Monorepo.Disk

/-- How a file is opened to be written. -/
inductive WriteMode where
  /-- There must be no entry at the path, not even a link. -/
  | createNew
  /-- An existing file loses its bytes. -/
  | replace
  /-- An existing file keeps its bytes, and more are put behind them. -/
  | extend
  deriving DecidableEq, Repr

/-- The segments of a path without the slashes it ends in, from the last on. -/
def segmentsFromLast (p : Path) : List String :=
  p.segments.reverse.dropWhile (· = "")

/-- Whether a path ends in the name of an entry, and not in a directory that is already there. -/
def endsInName (p : Path) : Bool :=
  match segmentsFromLast p with
  | [] => false
  | last :: _ => last ≠ "." && last ≠ ".."

/-- The directory in which the last name of a path is looked up. -/
def enclosing (p : Path) : Path :=
  match (segmentsFromLast p).drop 1 with
  | [] => ⟨"."⟩
  | [""] => ⟨"/"⟩
  | before => Path.ofSegments before.reverse

/-- Writes the bytes of the file at a path, which is made if it does not exist. -/
def writeFile (d : Disk) (p : Path) (mode : WriteMode) (bytes : List UInt8) :
    Except FileFault Disk := do
  checkText p
  if p.endsInSlash && endsInName p then
    d.tree.enter (← d.locate (enclosing p) false)
    throw .isDirectory
  let location ← d.locate p (mode = .createNew)
  let written (bytes : List UInt8) : Disk :=
    { d with tree := d.tree.put location (.file bytes) }
  match d.tree.entry? location, mode with
  | some _, .createNew => throw .alreadyExists
  | some .directory, _ | some .closedDirectory, _ => throw .isDirectory
  | some (.link _), _ => throw .tooManyLinks
  | some .closedFile, _ => throw .accessDenied
  | some (.file old), .extend => return written (old ++ bytes)
  | some (.file _), .replace => return written bytes
  | none, _ => return written bytes

/-- Makes a directory in an existing one. -/
def makeDirectory (d : Disk) (p : Path) : Except FileFault Disk := do
  checkText p
  if !endsInName p then
    let _ ← d.find p
    throw .alreadyExists
  let location ← d.locate (Path.ofSegments (segmentsFromLast p).reverse) true
  match d.tree.entry? location with
  | some _ => throw .alreadyExists
  | none => return { d with tree := d.tree.put location .directory }

/-- The outcome of making a directory that could not be made: none is needed if it is there. -/
def settleDirectory (d : Disk) (p : Path) (fault : FileFault) : Except FileFault Unit :=
  if d.isDirectory p then .ok () else .error fault

/-- Makes a directory and those above it that do not exist; `steps` bounds how many. The empty
path needs none. -/
def makeDirectoryPathWithin (d : Disk) : Nat → Path → Except FileFault Unit × Disk
  | steps, p =>
    if p.text = "" then (.ok (), d)
    else
      match d.makeDirectory p with
      | .ok made => (.ok (), made)
      | .error .notFound =>
        match steps, p.parent? with
        | steps + 1, some above =>
          match d.makeDirectoryPathWithin steps above with
          | (.ok (), d) =>
            match d.makeDirectory p with
            | .ok made => (.ok (), made)
            | .error fault => (d.settleDirectory p fault, d)
          | failed => failed
        | _, _ => (.error (.other "failed to create whole tree"), d)
      | .error fault => (d.settleDirectory p fault, d)

/-- Makes a directory and those above it that do not exist. -/
def makeDirectoryPath (d : Disk) (p : Path) : Except FileFault Unit × Disk :=
  d.makeDirectoryPathWithin (p.components.length + 1) p

end Monorepo.Disk
