import Monorepo.Model.Task

/-!
# Apps

An app is a named list of tasks. Its `includes` name groups of tasks that are appended to its own.
An app is checked after its includes were resolved, so a reference that is left is a violation.
-/

namespace Monorepo

/-- How many tasks an app may have. -/
inductive TaskMode where
  /-- Exactly one task, with a fixed name. -/
  | single
  /-- Any number of tasks with distinct names. -/
  | multiple
  deriving DecidableEq, Repr, Inhabited

namespace TaskMode

def name : TaskMode → String
  | .single => "single"
  | .multiple => "multiple"

def ofName? (text : String) : Option TaskMode :=
  if text = "single" then some .single
  else if text = "multiple" then some .multiple
  else none

/-- What is said about a text that names no mode. -/
def invalidName (text : String) : String :=
  "invalid task mode '" ++ text ++ "', expected 'single' or 'multiple'"

end TaskMode

/-- The name of the only task in single mode. -/
def singleTaskName : String :=
  "build"

/-- The configuration of an app. -/
structure App where
  name : String := ""
  /-- Ids of the groups whose tasks are appended. -/
  includes : List String := []
  tasks : List Task := []
  deriving DecidableEq, Repr, Inhabited

/-- The violation of references that were not resolved. -/
def Violation.unresolved (includes : List String) : Violation :=
  .ofField "includes" ("unresolved include references: " ++ ", ".intercalate includes)

namespace App

/-- Drops the blank outputs of every task. -/
def prune (a : App) : App :=
  { a with tasks := a.tasks.map Task.prune }

/-- No reference is left in a task. -/
def checkTaskIncludes (t : Task) : Check :=
  Check.require t.includes.isEmpty ((Violation.unresolved t.includes).within t.segment)

/-- In single mode the only task has the fixed name. -/
def checkSingle : List Task → Check
  | [t] =>
    Check.require (t.name = singleTaskName)
      (.ofField "Task"
        ("invalid task name '" ++ t.name ++ "', task name must be '" ++ singleTaskName ++ "'"))
  | tasks =>
    .error (.ofField "Task"
      ("exactly 1 task must be defined, found " ++ toString tasks.length))

/-- The number of tasks fits the mode. -/
def checkMode : TaskMode → List Task → Check
  | .single, tasks => checkSingle tasks
  | .multiple, _ => .ok ()

def validate (mode : TaskMode) (a : App) : Check := do
  Check.require (a.name ≠ "") (.ofField "name" "can not be empty")
  Check.require a.includes.isEmpty (.unresolved a.includes)
  Check.each checkTaskIncludes a.tasks
  checkMode mode a.tasks
  Task.validateAll a.tasks

end App

end Monorepo
