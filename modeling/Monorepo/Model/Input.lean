import Monorepo.Violation

/-!
# Inputs of a task

Inputs decide whether a task has to run again. They are lists of paths and patterns; turning them
into files is not the work of this library.
-/

namespace Monorepo

/-- Relative paths to source files, with glob patterns. -/
structure Files where
  paths : List String := []
  deriving DecidableEq, Repr, Inhabited

/-- Paths and patterns that match only files under version control. -/
structure GitFiles where
  paths : List String := []
  deriving DecidableEq, Repr, Inhabited

/-- Directories of Go programs, whose sources are discovered. -/
structure GolangSources where
  /-- Variables set for the discovery. -/
  environment : List String := []
  paths : List String := []
  deriving DecidableEq, Repr, Inhabited

/-- The inputs of a task. -/
structure Input where
  files : Files := {}
  gitFiles : GitFiles := {}
  golangSources : GolangSources := {}
  deriving DecidableEq, Repr, Inhabited

/-- The violation of an empty path in a list of paths. -/
def Violation.emptyPath : Violation :=
  .ofField "paths" "a path can not be empty"

/-- How many separate `**` a pattern holds, counted from its start. -/
def wildcardCount : List Char → Nat
  | [] => 0
  | [_] => 0
  | a :: b :: rest =>
    if a = '*' ∧ b = '*' then wildcardCount rest + 1 else wildcardCount (b :: rest)

namespace Files

def isEmpty (f : Files) : Bool :=
  f.paths.isEmpty

/-- A pattern is not empty and holds `**` at most once. -/
def checkPattern (pattern : String) : Check := do
  Check.require (pattern ≠ "") .emptyPath
  Check.require (wildcardCount pattern.toList ≤ 1)
    (.ofField "paths"
      ("invalid path '" ++ pattern ++ "': '**' can only appear one time in a path"))

def validate (f : Files) : Check :=
  Check.each checkPattern f.paths

/-- The patterns of both, in order. -/
def append (f g : Files) : Files :=
  ⟨f.paths ++ g.paths⟩

instance : Append Files := ⟨append⟩

end Files

namespace GitFiles

def isEmpty (f : GitFiles) : Bool :=
  f.paths.isEmpty

def validate (f : GitFiles) : Check :=
  Check.require (f.paths.all (· ≠ "")) .emptyPath

/-- The patterns of both, in order. -/
def append (f g : GitFiles) : GitFiles :=
  ⟨f.paths ++ g.paths⟩

instance : Append GitFiles := ⟨append⟩

end GitFiles

namespace GolangSources

def isEmpty (s : GolangSources) : Bool :=
  s.environment.isEmpty && s.paths.isEmpty

/-- An environment is only set for a discovery, and a discovery needs paths. -/
def validate (s : GolangSources) : Check := do
  Check.require (s.environment.isEmpty || !s.paths.isEmpty)
    (.ofField "paths" "must be set if environment is set")
  Check.require (s.paths.all (· ≠ "")) .emptyPath

/-- The variables and the paths of both, in order. -/
def append (s t : GolangSources) : GolangSources :=
  ⟨s.environment ++ t.environment, s.paths ++ t.paths⟩

instance : Append GolangSources := ⟨append⟩

end GolangSources

namespace Input

def isEmpty (i : Input) : Bool :=
  i.files.isEmpty && i.gitFiles.isEmpty && i.golangSources.isEmpty

def validate (i : Input) : Check := do
  Check.within "Files" i.files.validate
  Check.within "GitFiles" i.gitFiles.validate
  Check.within "GolangSources" i.golangSources.validate

/-- Section by section, the entries of both in order. -/
def append (i j : Input) : Input :=
  ⟨i.files ++ j.files, i.gitFiles ++ j.gitFiles, i.golangSources ++ j.golangSources⟩

instance : Append Input := ⟨append⟩

end Input

end Monorepo
