import Monorepo.ConfigFile
import Monorepo.Disk.Walk
import Monorepo.Resolve

/-!
# Building the include store

Include files are registered one by one, in any order: a group may include a fragment that is
registered after it. `IncludeBuilder.build` then resolves the tasks of all groups, so the groups
of a store are complete. A file whose ids are taken is not registered at all.
-/

namespace Monorepo

namespace IncludeFile

/-- The ids that a file defines, with their spaces: of inputs, then outputs, then groups. -/
def ids (f : IncludeFile) : List (IdSpace × String) :=
  f.inputs.map (fun i => (.inputOutput, i.id))
    ++ f.outputs.map (fun o => (.inputOutput, o.id))
    ++ f.taskGroups.map (fun g => (.taskGroup, g.id))

end IncludeFile

/-- What is registered so far; the groups are not resolved yet. -/
structure IncludeBuilder where
  registered : IncludeStore := {}
  deriving DecidableEq, Repr, Inhabited

namespace IncludeBuilder

/-- The first of the ids that is taken, with the file that took it. An id is taken when it is
registered or was among those `before` it in the same file, `origin`. -/
def taken? (b : IncludeBuilder) (origin : Path) (before : List (IdSpace × String)) :
    List (IdSpace × String) → Option (IdSpace × String × Path)
  | [] => none
  | (space, id) :: rest =>
    match b.registered.definedIn? space id with
    | some first => some (space, id, first)
    | none =>
      if before.contains (space, id) then some (space, id, origin)
      else taken? b origin ((space, id) :: before) rest

/-- Registers every fragment of a file. -/
def register (b : IncludeBuilder) (f : IncludeFile) (origin : Path) : IncludeBuilder :=
  { registered := {
      inputs := b.registered.inputs.insertAll InputFragment.id origin f.inputs
      outputs := b.registered.outputs.insertAll OutputFragment.id origin f.outputs
      taskGroups := b.registered.taskGroups.insertAll TaskGroup.id origin f.taskGroups } }

/-- Registers a file, unless one of its ids is taken. -/
def add (b : IncludeBuilder) (f : IncludeFile) (origin : Path) :
    Except LoadError IncludeBuilder :=
  match b.taken? origin [] f.ids with
  | some (space, id, first) => .error (.duplicateId id space first origin)
  | none => .ok (b.register f origin)

/-- Registers a file in place. A file that is refused leaves the builder as it is. -/
def tryAdd (b : IncludeBuilder) (f : IncludeFile) (origin : Path) : Attempt IncludeBuilder :=
  match b.add f origin with
  | .ok next => ⟨.ok (), next⟩
  | .error error => ⟨.error error, b⟩

/-- Reads, checks and registers a file. -/
def loadFile (d : Disk) (b : IncludeBuilder) (file : Path) : Except LoadError IncludeBuilder := do
  let content := (← ConfigFile.read IncludeFile d file).prune
  match content.validate with
  | .ok () => b.add content file
  | .error violation => throw (.inFile "validating include file" file (.invalid violation))

/-- Registers a file that a walk meets, if it is a configuration file. -/
def visitFile (d : Disk) (b : IncludeBuilder) (file : Path) : Except LoadError IncludeBuilder :=
  if (FileFormat.ofPath? file).isNone then .ok b else b.loadFile d file

/-- Registers all configuration files below a directory, in the order of their paths. Files that
were registered before an error stay so. -/
def loadDir (d : Disk) (b : IncludeBuilder) (dir : Path) :
    IncludeBuilder × Except LoadError Unit :=
  match (d.walk .refuse dir).visit (visitFile d) b with
  | (b, .complete) => (b, .ok ())
  | (b, .failed error) => (b, .error error)
  | (b, .endless) => (b, .error (.io dir .tooManyLinks))

/-- Resolves the tasks of a group. -/
def resolveGroup (store : IncludeStore) (group : Registered TaskGroup) :
    Except LoadError (Registered TaskGroup) :=
  match (Task.resolveAll store group.fragment.tasks).value with
  | .ok tasks => .ok { group with fragment := { group.fragment with tasks := tasks } }
  | .error error =>
    .error (.inFile "resolving task group includes of" group.origin error)

/-- Resolves the groups of entries, in the order of their ids. -/
def resolveGroups (store : IncludeStore) :
    List (String × Registered TaskGroup) → Except LoadError (List (String × Registered TaskGroup))
  | [] => .ok []
  | (id, group) :: rest => do
    let resolved ← resolveGroup store group
    return (id, resolved) :: (← resolveGroups store rest)

/-- The store of what is registered, with all groups resolved. -/
def build (b : IncludeBuilder) : Except LoadError IncludeStore := do
  let groups ← resolveGroups { b.registered with taskGroups := {} } b.registered.taskGroups.entries
  return { b.registered with taskGroups := ⟨groups⟩ }

/-- Registers all configuration files below directories. -/
def loadDirs (d : Disk) : IncludeBuilder → List Path → Except LoadError IncludeBuilder
  | b, [] => .ok b
  | b, dir :: rest => do
    let (next, result) := b.loadDir d dir
    result
    loadDirs d next rest

end IncludeBuilder

/-- The store of all include files below directories. -/
def IncludeStore.load (d : Disk) (dirs : List Path) : Except LoadError IncludeStore := do
  (← IncludeBuilder.loadDirs d {} dirs).build

end Monorepo
