/-!
# File trees

A `FileTree` says which entry stands at which location. A location is the list of names that leads
to it from the root; the root itself is always a directory. Nothing here follows links: that is
the work of `Disk`.

What the program has no permission to open is closed. Of a closed directory it sees only that it is
one, so nothing stands below it.
-/

namespace Monorepo

/-- The names that lead from the root to an entry. -/
abbrev Location := List String

/-- What stands at a location. -/
inductive Entry where
  | file (bytes : List UInt8)
  | directory
  /-- A symbolic link, with its target as written. -/
  | link (target : String)
  /-- A file that the program may neither read nor write. -/
  | closedFile
  /-- A directory that the program may neither list nor look into. -/
  | closedDirectory
  deriving DecidableEq, Repr, Inhabited

/-- Whether an entry is a file. -/
def Entry.isFile : Entry → Bool
  | .file _ | .closedFile => true
  | _ => false

/-- Whether an entry is a directory. -/
def Entry.isDirectory : Entry → Bool
  | .directory | .closedDirectory => true
  | _ => false

/-- The entries of a file system below its root, each at its location. -/
structure FileTree where
  entries : List (Location × Entry) := []
  deriving DecidableEq, Repr, Inhabited

namespace FileTree

/-- The entry at a location. -/
def entry? (t : FileTree) (at_ : Location) : Option Entry :=
  if at_ = [] then some .directory else t.entries.lookup at_

/-- The names of the entries of a directory. -/
def namesIn (t : FileTree) (dir : Location) : List String :=
  t.entries.filterMap fun (location, _) =>
    if location.dropLast = dir then location.getLast? else none

/-- Puts an entry at a location, in the place of the one that is there. -/
def putEntry (at_ : Location) (entry : Entry) : List (Location × Entry) → List (Location × Entry)
  | [] => [(at_, entry)]
  | (location, old) :: rest =>
    if location = at_ then (at_, entry) :: rest else (location, old) :: putEntry at_ entry rest

/-- The tree with an entry at a location. -/
def put (t : FileTree) (at_ : Location) (entry : Entry) : FileTree :=
  ⟨putEntry at_ entry t.entries⟩

/-- The tree without the entry at a location and what is below it. -/
def erase (t : FileTree) (at_ : Location) : FileTree :=
  ⟨t.entries.filter fun (location, _) => !at_.isPrefixOf location⟩

/-- The tree with directories at `above` and at each of `names` below it in turn, where no entry
is there yet. -/
def makeDirectories (t : FileTree) (above : Location) : List String → FileTree
  | [] => t
  | name :: names =>
    let here := above ++ [name]
    let made := if (t.entry? here).isNone then t.put here .directory else t
    made.makeDirectories here names

/-- The tree with an entry at a location and directories above it. -/
def plant (t : FileTree) (at_ : Location) (entry : Entry) : FileTree :=
  (t.makeDirectories [] at_.dropLast).put at_ entry

end FileTree

end Monorepo
