import Monorepo.FileTree
import Monorepo.Path

/-!
# Following paths

A program sees a file tree through paths. A `Disk` is a file tree with the directory the program
works in, and `Disk.locate` follows a path from there: `..` leads to the containing directory, a
link leads on to its target, and every segment needs a directory to be looked up in. All other
operations first locate their path.
-/

namespace Monorepo

/-- Why the file system refuses an operation. -/
inductive FileFault where
  | notFound
  | alreadyExists
  | accessDenied
  | notDirectory
  | isDirectory
  | nameTooLong
  | tooManyLinks
  /-- A path can not hold the character of code zero. -/
  | zeroCharacter
  /-- The empty path has no absolute form. -/
  | emptyPath
  /-- A directory is wanted where something else stands. -/
  | wantsDirectory
  /-- A file is to be read as text but is none. -/
  | notText
  | other (message : String)
  deriving DecidableEq, Repr

/-- A fault as a sentence. -/
def FileFault.message : FileFault → String
  | .notFound => "No such file or directory (os error 2)"
  | .alreadyExists => "File exists (os error 17)"
  | .accessDenied => "Permission denied (os error 13)"
  | .notDirectory => "Not a directory (os error 20)"
  | .isDirectory => "Is a directory (os error 21)"
  | .nameTooLong => "File name too long (os error 36)"
  | .tooManyLinks => "Too many levels of symbolic links (os error 40)"
  | .zeroCharacter => "file name contained an unexpected NUL byte"
  | .emptyPath => "cannot make an empty path absolute"
  | .wantsDirectory => "not a directory"
  | .notText => "stream did not contain valid UTF-8"
  | .other message => message

/-- A file tree and the directory that relative paths start from. -/
structure Disk where
  tree : FileTree := {}
  workingDir : Location := []
  deriving DecidableEq, Repr, Inhabited

namespace FileTree

/-- The greatest length of a name, in bytes. -/
def nameLimit : Nat :=
  255

/-- The length that a path has to stay below, in bytes. -/
def pathLimit : Nat :=
  4096

/-- How many links are followed on one path. -/
def linkLimit : Nat :=
  40

/-- The directory that a segment is looked up in. -/
def enter (t : FileTree) (here : Location) : Except FileFault Unit :=
  match t.entry? here with
  | some .directory => .ok ()
  | some .closedDirectory => .error .accessDenied
  | none => .error .notFound
  | some _ => .error .notDirectory

/-- Follows segments from `here` on. A link is handed to `onLink` with its directory, its target
and the segments behind it, but for a link in last place when `keepLast` holds. The entry in last
place need not exist. -/
def followSegments (t : FileTree) (keepLast : Bool)
    (onLink : Location → String → List String → Except FileFault Location) :
    Location → List String → Except FileFault Location
  | here, [] => .ok here
  | here, segment :: rest => do
    t.enter here
    if segment = "" || segment = "." then followSegments t keepLast onLink here rest
    else if segment = ".." then followSegments t keepLast onLink here.dropLast rest
    else if nameLimit < segment.utf8ByteSize then throw .nameTooLong
    else
      let next := here ++ [segment]
      match t.entry? next with
      | some (.link target) =>
        if keepLast && rest.isEmpty then return next else onLink here target rest
      | _ => followSegments t keepLast onLink next rest

/-- Follows segments from `here` on, over as many links as are left. -/
def follow (t : FileTree) (keepLast : Bool) :
    Nat → Location → List String → Except FileFault Location
  | 0, here, segments =>
    t.followSegments keepLast (fun _ _ _ => .error .tooManyLinks) here segments
  | links + 1, here, segments =>
    let onLink (dir : Location) (target : String) (rest : List String) :=
      let path : Path := ⟨target⟩
      t.follow keepLast links (if path.isAbsolute then [] else dir) (path.segments ++ rest)
    t.followSegments keepLast onLink here segments

end FileTree

namespace Disk

/-- What the file system asks of the text of a path, wherever it leads. -/
def checkText (p : Path) : Except FileFault Unit :=
  if p.text.toList.contains '\x00' then .error .zeroCharacter
  else if p.text = "" then .error .notFound
  else if FileTree.pathLimit ≤ p.text.utf8ByteSize then .error .nameTooLong
  else .ok ()

/-- The location that a path leads to. A link in last place is followed unless `keepLast`. -/
def locate (d : Disk) (p : Path) (keepLast : Bool) : Except FileFault Location := do
  checkText p
  d.tree.follow keepLast FileTree.linkLimit (if p.isAbsolute then [] else d.workingDir) p.segments

/-- The location and the entry that a path leads to, over links. -/
def find (d : Disk) (p : Path) : Except FileFault (Location × Entry) := do
  let location ← d.locate p false
  match d.tree.entry? location with
  | some entry => return (location, entry)
  | none => throw .notFound

/-- The entry that a path leads to, over links. -/
def entry (d : Disk) (p : Path) : Except FileFault Entry := do
  return (← d.find p).2

/-- The entry that a path names, which may be a link. -/
def linkEntry (d : Disk) (p : Path) : Except FileFault Entry := do
  match d.tree.entry? (← d.locate p true) with
  | some entry => return entry
  | none => throw .notFound

/-- Whether a path leads to an entry. -/
def pathExists (d : Disk) (p : Path) : Bool :=
  (d.entry p).toOption.isSome

/-- Whether a path leads to a directory. -/
def isDirectory (d : Disk) (p : Path) : Bool :=
  match d.entry p with
  | .ok entry => entry.isDirectory
  | .error _ => false

/-- Whether a path leads to a file. -/
def isFile (d : Disk) (p : Path) : Bool :=
  match d.entry p with
  | .ok entry => entry.isFile
  | .error _ => false

/-- The paths of the entries of a directory, in no particular order. -/
def list (d : Disk) (dir : Path) : Except FileFault (List Path) := do
  match ← d.find dir with
  | (location, .directory) => return (d.tree.namesIn location).map fun name => dir.join ⟨name⟩
  | (_, .closedDirectory) => throw .accessDenied
  | _ => throw .notDirectory

/-- The bytes of a file. -/
def readFile (d : Disk) (p : Path) : Except FileFault (List UInt8) := do
  match ← d.entry p with
  | .file bytes => return bytes
  | .directory => throw .isDirectory
  | .link _ => throw .tooManyLinks
  | .closedFile | .closedDirectory => throw .accessDenied

/-- The path from the root to a location. -/
def pathOf (location : Location) : Path :=
  ⟨"/" ++ "/".intercalate location⟩

/-- The path of the working directory. -/
def workingPath (d : Disk) : Path :=
  pathOf d.workingDir

/-- The path without links that leads to the entry of a path. -/
def canonical (d : Disk) (p : Path) : Except FileFault Path := do
  return pathOf (← d.find p).1

/-- The path from the root that a path denotes, as far as its text tells. -/
def absolute (d : Disk) (p : Path) : Except FileFault Path :=
  match Path.absolute? d.workingPath p with
  | some path => .ok path
  | none => .error .emptyPath

end Disk

end Monorepo
