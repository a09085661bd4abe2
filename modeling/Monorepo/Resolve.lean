import Monorepo.IncludeStore

/-!
# Resolving includes

A task includes inputs and outputs by id, an app includes groups of tasks. Resolving appends what
the ids stand for, in the order of the ids, and leaves no ids behind. It stops at the first id
that the store does not have; what was done so far then shows in the value that is left behind.
-/

namespace Monorepo

/-- The outcome of an operation that changes a value: how it ended, and the value as it is then. -/
structure Attempt (α : Type) where
  result : Except LoadError Unit
  after : α

namespace Task

/-- Appends the fragment of an id. An id of inputs is looked up before one of outputs. -/
def includeFragment (store : IncludeStore) (t : Task) (id : String) : Except LoadError Task :=
  match store.inputs.fragment? id, store.outputs.fragment? id with
  | some fragment, _ => .ok { t with input := t.input ++ fragment.input }
  | none, some fragment => .ok { t with output := t.output ++ fragment.output }
  | none, none => .error (.reference id .inputOutput ("task '" ++ t.name ++ "'"))

/-- Appends the fragments of ids, in order. -/
def includeAll (store : IncludeStore) : Task → List String → Attempt Task
  | t, [] => ⟨.ok (), t⟩
  | t, id :: rest =>
    match t.includeFragment store id with
    | .ok merged => includeAll store merged rest
    | .error error => ⟨.error error, t⟩

/-- Appends all included fragments. The ids are taken out first. -/
def resolve (store : IncludeStore) (t : Task) : Attempt Task :=
  includeAll store { t with includes := [] } t.includes

/-- Resolves tasks in order, up to the first that can not be resolved. -/
def resolveAll (store : IncludeStore) : List Task → Attempt (List Task)
  | [] => ⟨.ok (), []⟩
  | t :: rest =>
    match t.resolve store with
    | ⟨.ok (), resolved⟩ =>
      let others := resolveAll store rest
      ⟨others.result, resolved :: others.after⟩
    | ⟨.error error, left⟩ => ⟨.error error, left :: rest⟩

end Task

namespace App

/-- Appends the tasks of the groups of ids, in order. -/
def includeGroups (store : IncludeStore) : App → List String → Attempt App
  | a, [] => ⟨.ok (), a⟩
  | a, id :: rest =>
    match store.taskGroups.fragment? id with
    | some group => includeGroups store { a with tasks := a.tasks ++ group.tasks } rest
    | none => ⟨.error (.reference id .taskGroup ("app '" ++ a.name ++ "'")), a⟩

/-- Resolves the app's own tasks and then appends all included groups, whose ids are taken out
first. -/
def resolve (store : IncludeStore) (a : App) : Attempt App :=
  let own := Task.resolveAll store a.tasks
  match own.result with
  | .ok () => includeGroups store { a with includes := [], tasks := own.after } a.includes
  | .error error => ⟨.error error, { a with tasks := own.after }⟩

end App

namespace Attempt

/-- The changed value, or why there is none. -/
def value {α : Type} (attempt : Attempt α) : Except LoadError α :=
  match attempt.result with
  | .ok () => .ok attempt.after
  | .error error => .error error

end Attempt

end Monorepo
