import Monorepo.Document.Layout
import Monorepo.Failure

/-!
# Settings

What a repository can set: where apps are searched and under which file names, where include files
are, how many tasks an app may have, and how many apps are loaded at a time. On disk the settings
stand in sections; every field is written, and a field that is absent has its default.
-/

namespace Monorepo

/-- The name of the settings file in the root of a repository. -/
def settingsFileName : Path :=
  ⟨".monobuild.yaml"⟩

/-- The settings of a repository. -/
structure Settings where
  /-- Where apps are searched. -/
  discoverDirs : List Path := [⟨"."⟩]
  /-- How deep below each of these directories. -/
  searchDepth : Nat := 10
  /-- The names of app files. -/
  appFileNames : List String := [".app.toml", ".app.yaml"]
  /-- Where include files are. -/
  includeDirs : List Path := []
  taskMode : TaskMode := .multiple
  /-- How many apps are loaded at a time. -/
  parallelism : Nat := 16
  deriving DecidableEq, Repr, Inhabited

namespace Settings

/-- Refuses settings that can not work. -/
def validate (s : Settings) : Except Failure Unit :=
  if s.discoverDirs.isEmpty then .error (.ofMessage "discover.dirs can not be empty")
  else if s.appFileNames.contains "" then
    .error (.ofMessage "discover.app_file_names can not contain empty names")
  else if s.parallelism = 0 then
    .error (.ofMessage "loader.parallelism must be greater than 0")
  else .ok ()

/-- The directories searched for apps, below a root. -/
def discoverDirsBelow (s : Settings) (root : Path) : List Path :=
  s.discoverDirs.map root.join

/-- The directories of include files, below a root. -/
def includeDirsBelow (s : Settings) (root : Path) : List Path :=
  s.includeDirs.map root.join

open Document

/-- Paths as a document. -/
def ofPaths (paths : List Path) : Document :=
  texts (paths.map Path.text)

/-- The paths of a document. -/
def toPaths? (d : Document) : Option (List Path) :=
  (texts? d).map fun texts => texts.map Path.mk

/-- The mode that a document names. -/
def toMode? (d : Document) : Option TaskMode :=
  d.text?.bind TaskMode.ofName?

instance : OnDisk Settings where
  schema := .record [
    ("discover", .record [("dirs", .texts), ("search_depth", .count),
      ("app_file_names", .texts)]),
    ("includes", .record [("dirs", .texts)]),
    ("tasks", .record [("mode", .choice [TaskMode.single.name, TaskMode.multiple.name])]),
    ("loader", .record [("parallelism", .count)])]
  toDocument s := .record [
    ("discover", .record [("dirs", ofPaths s.discoverDirs), ("search_depth", .count s.searchDepth),
      ("app_file_names", texts s.appFileNames)]),
    ("includes", .record [("dirs", ofPaths s.includeDirs)]),
    ("tasks", .record [("mode", .text s.taskMode.name)]),
    ("loader", .record [("parallelism", .count s.parallelism)])]
  ofDocument? d := do
    let sections ← d.fields?
    let discover ← read sections "discover" fields? []
    let includes ← read sections "includes" fields? []
    let tasks ← read sections "tasks" fields? []
    let loader ← read sections "loader" fields? []
    let default : Settings := {}
    return {
      discoverDirs := ← read discover "dirs" toPaths? default.discoverDirs
      searchDepth := ← read discover "search_depth" count? default.searchDepth
      appFileNames := ← read discover "app_file_names" texts? default.appFileNames
      includeDirs := ← read includes "dirs" toPaths? default.includeDirs
      taskMode := ← read tasks "mode" toMode? default.taskMode
      parallelism := ← read loader "parallelism" count? default.parallelism }

end Settings

end Monorepo
