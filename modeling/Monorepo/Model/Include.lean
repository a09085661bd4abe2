import Monorepo.Model.App

/-!
# Include files

An include file defines fragments: inputs, outputs and groups of tasks, each under an id. Tasks
include input and output fragments, apps include groups.
-/

namespace Monorepo

/-- Inputs under an id. -/
structure InputFragment where
  id : String := ""
  input : Input := {}
  deriving DecidableEq, Repr, Inhabited

/-- Outputs under an id. -/
structure OutputFragment where
  id : String := ""
  output : Output := {}
  deriving DecidableEq, Repr, Inhabited

/-- Tasks under an id. -/
structure TaskGroup where
  id : String := ""
  tasks : List Task := []
  deriving DecidableEq, Repr, Inhabited

/-- The content of an include file. -/
structure IncludeFile where
  inputs : List InputFragment := []
  outputs : List OutputFragment := []
  taskGroups : List TaskGroup := []
  deriving DecidableEq, Repr, Inhabited

/-- A fragment needs an id. -/
def Check.hasId (id : String) : Check :=
  Check.require (id ≠ "") (.ofField "id" "can not be empty")

namespace InputFragment

/-- The segment that names the fragment in an element path. -/
def segment (f : InputFragment) : String :=
  namedSegment "Input" "id" f.id

def validate (f : InputFragment) : Check := do
  Check.hasId f.id
  Check.require (!f.input.isEmpty) (.ofField "Input" "no input is defined")
  f.input.validate

end InputFragment

namespace OutputFragment

/-- The segment that names the fragment in an element path. -/
def segment (f : OutputFragment) : String :=
  namedSegment "Output" "id" f.id

/-- Drops the blank entries. -/
def prune (f : OutputFragment) : OutputFragment :=
  { f with output := f.output.prune }

def validate (f : OutputFragment) : Check := do
  Check.hasId f.id
  Check.require (!f.output.isEmpty) (.ofField "Output" "no output is defined")
  f.output.validate

end OutputFragment

namespace TaskGroup

/-- The segment that names the group in an element path. -/
def segment (g : TaskGroup) : String :=
  namedSegment "TaskGroup" "id" g.id

/-- Drops the blank outputs of every task. -/
def prune (g : TaskGroup) : TaskGroup :=
  { g with tasks := g.tasks.map Task.prune }

def validate (g : TaskGroup) : Check := do
  Check.hasId g.id
  Check.require (!g.tasks.isEmpty) (.ofField "Task" "no task is defined")
  Task.validateAll g.tasks

end TaskGroup

namespace IncludeFile

def isEmpty (f : IncludeFile) : Bool :=
  f.inputs.isEmpty && f.outputs.isEmpty && f.taskGroups.isEmpty

/-- Drops the blank outputs of every fragment. -/
def prune (f : IncludeFile) : IncludeFile :=
  { f with
    outputs := f.outputs.map OutputFragment.prune
    taskGroups := f.taskGroups.map TaskGroup.prune }

def validate (f : IncludeFile) : Check := do
  Check.require (!f.isEmpty)
    (.whole ("the include does not contain any definition, "
      ++ "either an Input, Output or TaskGroup must be defined"))
  Check.each (fun i => Check.within i.segment i.validate) f.inputs
  Check.each (fun o => Check.within o.segment o.validate) f.outputs
  Check.each (fun g => Check.within g.segment g.validate) f.taskGroups

end IncludeFile

end Monorepo
