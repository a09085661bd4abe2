import Monorepo.ConfigFile
import Monorepo.Settings

/-!
# Settings as a program holds them

To the system a path is bytes, and these need not be text. A document holds only texts: settings
that were read from one have no other paths, but a program can hold settings that do, and no format
has text for them.
-/

namespace Monorepo

/-- A path as the system has it. -/
inductive RawPath where
  | text (path : Path)
  /-- Bytes that are no text. -/
  | bytes (bytes : List UInt8) (notText : ∀ text, Utf8.decode bytes ≠ .ok text)

namespace RawPath

/-- The path of these bytes. -/
def ofBytes (bytes : List UInt8) : RawPath :=
  match h : Utf8.decode bytes with
  | .ok decoded => .text ⟨decoded⟩
  | .error _ => .bytes bytes fun _ hdecoded => nomatch h.symm.trans hdecoded

/-- The path, if it is text. -/
def text? : RawPath → Option Path
  | .text path => some path
  | .bytes .. => none

end RawPath

/-- The settings of a repository, with paths as the system has them. -/
structure RawSettings where
  discoverDirs : List RawPath
  searchDepth : Nat
  appFileNames : List String
  includeDirs : List RawPath
  taskMode : TaskMode
  parallelism : Nat

/-- Settings whose paths are text, among all settings. -/
def Settings.raw (s : Settings) : RawSettings where
  discoverDirs := s.discoverDirs.map .text
  searchDepth := s.searchDepth
  appFileNames := s.appFileNames
  includeDirs := s.includeDirs.map .text
  taskMode := s.taskMode
  parallelism := s.parallelism

namespace RawSettings

/-- The settings, if every path is text. -/
def settings? (r : RawSettings) : Option Settings := do
  let discoverDirs ← r.discoverDirs.mapM RawPath.text?
  let includeDirs ← r.includeDirs.mapM RawPath.text?
  return {
    discoverDirs, includeDirs
    searchDepth := r.searchDepth
    appFileNames := r.appFileNames
    taskMode := r.taskMode
    parallelism := r.parallelism }

/-- The text of settings. A path that is no text has none in any format. -/
def encode (r : RawSettings) (format : FileFormat) : Except CodecFault String :=
  match r.settings? with
  | some s => format.encode s
  | none => .error (.unwritable format)

/-- Writes settings to a file, which is not opened if they have no text. -/
def write (r : RawSettings) (d : Disk) (file : Path) (overwrite : Bool) : Except LoadError Disk :=
  match r.settings? with
  | some s => ConfigFile.write d s file overwrite
  | none => .error (.parse file (.unwritable (FileFormat.ofPath file)))

end RawSettings

end Monorepo
