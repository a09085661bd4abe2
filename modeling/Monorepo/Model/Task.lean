import Monorepo.Model.Input
import Monorepo.Model.Output

/-!
# Tasks

A task is a named command with its inputs and outputs. Its `includes` name fragments that are
merged into it before it is used.
-/

namespace Monorepo

/-- A unit of work of an app. -/
structure Task where
  name : String := ""
  command : String := ""
  /-- Ids of the fragments to merge into the task. -/
  includes : List String := []
  input : Input := {}
  output : Output := {}
  deriving DecidableEq, Repr, Inhabited

namespace Task

/-- The segment that names a task in an element path. -/
def segment (t : Task) : String :=
  namedSegment "Task" "name" t.name

/-- Drops the blank outputs. -/
def prune (t : Task) : Task :=
  { t with output := t.output.prune }

/-- A task needs a name and a command; its inputs and outputs may be empty. -/
def validate (t : Task) : Check := do
  Check.require (t.name ≠ "") (.ofField "name" "can not be empty")
  Check.require (t.command ≠ "") (.ofField "command" "can not be empty")
  Check.within "Input" t.input.validate
  Check.within "Output" t.output.validate

/-- Checks tasks in order, where `seen` are the names of the tasks before them. -/
def validateAfter (seen : List String) : List Task → Check
  | [] => .ok ()
  | t :: rest => do
    Check.require (t.name = "" || !seen.contains t.name)
      (.ofField t.segment
        ("multiple tasks with the name '" ++ t.name
          ++ "' are defined, task names must be unique"))
    Check.within t.segment t.validate
    validateAfter (t.name :: seen) rest

/-- Checks a list of tasks: each is valid and no two have one name. -/
def validateAll (tasks : List Task) : Check :=
  validateAfter [] tasks

end Task

end Monorepo
