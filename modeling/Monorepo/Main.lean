import Monorepo.Program

/-!
# The command line program

`Program.run` works on a disk that it is given. Here that disk is filled with what the run can
look at: the files above the working directory that hold settings, the directories that the
settings name, and the files that the command line names. After the run, what it changed is
written to the file system.

Links are shown with the path that they lead to. A link that leads nowhere is shown as one that
leads to itself, so nothing is ever written through it.
-/

namespace Monorepo.Main

/-- The location of a path from the root without links. -/
def locationOf (path : String) : Location :=
  (path.splitOn "/").filter (· ≠ "")

/-- The path without links that a path leads to. -/
def realPath? (path : String) : IO (Option String) := do
  try
    return some (← IO.FS.realPath path).toString
  catch _ =>
    return none

/-- The file at a path, which is closed if it can not be read. -/
def readFileEntry (path : String) : IO Entry := do
  try
    return .file (← IO.FS.readBinFile path).toList
  catch _ =>
    return .closedFile

/-- The entry that a path names. The bytes of a file are only read if they are wanted. -/
def readEntry? (path : String) (wanted : Bool) : IO (Option Entry) := do
  try
    let data ← ((← IO.currentDir) / path).symlinkMetadata
    match data.type with
    | .dir => return some .directory
    | .symlink => return some (.link ((← realPath? path).getD path))
    | _ => return some (← if wanted then readFileEntry path else pure (.file []))
  catch _ =>
    return none

/-- Adds the entry that a name has in a directory. -/
def addEntry (tree : FileTree) (dir name : String) (wanted : Bool) : IO FileTree := do
  match ← realPath? dir, ← readEntry? (dir ++ "/" ++ name) wanted with
  | some real, some entry =>
    let location := locationOf real ++ [name]
    return if (tree.entry? location).isSome then tree else tree.plant location entry
  | _, _ => return tree

/-- Adds the entries that a path from the root passes. -/
def addPath (tree : FileTree) (path : Path) : IO FileTree := do
  let mut tree := tree
  let mut dir := ""
  for name in path.segments.filter (· ≠ "") do
    if name ≠ "." && name ≠ ".." then
      tree ← addEntry tree (if dir = "" then "/" else dir) name true
    dir := dir ++ "/" ++ name
  return tree

/-- Closes a directory in which nothing has been looked at. -/
def closeDirectory (tree : FileTree) (dir : String) : IO FileTree := do
  match ← realPath? dir with
  | some real =>
    let location := locationOf real
    return if tree.entry? location = some .directory && location ≠ [] && tree.namesIn location = []
      then tree.put location .closedDirectory else tree
  | none => return tree

/-- The entries of a directory, if it can be listed. -/
def listEntries? (dir : String) : IO (Option (Array IO.FS.DirEntry)) := do
  try
    return some (← ((← IO.currentDir) / dir).readDir)
  catch _ =>
    return none

/-- Adds the entries below a directory, down to a depth. Bytes are read of configuration files. -/
partial def addBelow (wanted : String → Bool) (depth : Nat) (dir : String) (tree : FileTree) :
    IO FileTree := do
  let some entries ← listEntries? dir | closeDirectory tree dir
  let mut tree := tree
  for entry in entries do
    let path := dir ++ "/" ++ entry.fileName
    tree ← addEntry tree dir entry.fileName (wanted entry.fileName)
    match ← realPath? path with
    | some real =>
      if real ≠ path then tree ← addPath tree ⟨real⟩
      if 0 < depth then tree ← addBelow wanted (depth - 1) real tree
    | none => pure ()
  return tree

/-- The variables that the program looks at. -/
def readEnvironment : IO Environment := do
  let names := ["HOME", "MONOBUILD_USER_DIR", "MONOBUILD_CONFIG_PATH", "MONOBUILD_PARALLELISM",
    "MONOBUILD_TASK_MODE", "MONOBUILD_SEARCH_DEPTH"]
  let bindings ← names.filterMapM fun name => do
    return (← IO.getEnv name).map fun value => (name, value)
  return ⟨bindings⟩

/-- The paths that a command writes to. -/
def targets (cwd : Path) : Command → List Path
  | .initRepository dir? _ =>
    let root := Init.targetDir cwd dir?
    [root.join settingsFileName, (root.join Template.includeDir).join ⟨"example.toml"⟩]
  | .initApp _ dir? format _ => [(Init.targetDir cwd dir?).join (Init.appFileName format)]
  | .initInclude file _ => [cwd.join file]
  | .check _ => []
  | .showApp .. => []

/-- Adds the directories of include files and of apps, as far as settings can be read. -/
def addRepository (d : Disk) (env : Environment) (config? : Option String) : IO FileTree := do
  let sources := (SettingsSources.discover d env d.workingPath).toOption.getD {}
  let explicit? := (config?.map fun c => d.workingPath.join ⟨c⟩).or sources.explicitFile?
  let mut tree := d.tree
  for file in explicit?.toList ++ sources.userFile?.toList do
    tree ← addPath tree (d.workingPath.join file)
  let found := LoadedSettings.ofSources { d with tree } env
    { sources with explicitFile? := explicit? }
  match found.toOption, sources.repositoryRoot? with
  | some loaded, some root =>
    let s := loaded.settings
    let wanted (name : String) : Bool :=
      (FileFormat.ofPath? ⟨name⟩).isSome || s.appFileNames.contains name
    for dir in s.includeDirsBelow root do
      tree ← addPath tree dir
      tree ← addBelow wanted 64 dir.text tree
    for dir in s.discoverDirsBelow root do
      tree ← addPath tree dir
      tree ← addBelow wanted (s.searchDepth + 1) dir.text tree
    return tree
  | _, _ => return tree

/-- The disk that a run looks at. -/
def readDisk (env : Environment) (i : Invocation) : IO Disk := do
  let cwd : Path := ⟨(← IO.currentDir).toString⟩
  let mut tree ← addPath {} cwd
  for dir in cwd.ancestors do
    tree ← addPath tree (dir.join settingsFileName)
  for target in targets cwd i.command do
    tree ← addPath tree target
  if let .file name := LogTarget.ofText i.log then
    tree ← addPath tree (cwd.join ⟨name⟩)
  let d : Disk := { tree, workingDir := locationOf cwd.text }
  return { d with tree := ← addRepository d env i.config? }

/-- Writes what changed. -/
def writeChanges (before after : FileTree) : IO Unit := do
  for (location, entry) in after.entries do
    if before.entry? location ≠ some entry then
      let path := (Disk.pathOf location).text
      match entry with
      | .directory => IO.FS.createDirAll path
      | .file bytes => IO.FS.writeBinFile path ⟨bytes.toArray⟩
      | .link _ | .closedFile | .closedDirectory => pure ()

/-- Tells what the program can be told to do. -/
def tellUsage (fault : CommandLine.Fault) : IO Unit := do
  match fault with
  | .helpWanted => IO.print Program.usageText
  | .versionWanted => pure ()
  | _ => IO.eprint Program.usageText

/-- Runs the program on the file system. -/
def run (words : List String) : IO UInt32 := do
  let env ← readEnvironment
  let before ← match Invocation.parse words with
    | .ok invocation => readDisk env invocation
    | .error fault => do
      tellUsage fault
      pure {}
  let outcome := Program.run before env words
  writeChanges before.tree outcome.disk.tree
  IO.print outcome.output
  if let some failure := outcome.failure? then
    IO.eprint failure.report
  if let some panic := outcome.panic? then
    IO.eprintln panic.message
  return outcome.exitStatus.toUInt32

end Monorepo.Main

def main (words : List String) : IO UInt32 :=
  Monorepo.Main.run words
