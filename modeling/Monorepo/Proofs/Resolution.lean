import Monorepo.IncludeStore.Builder
import Monorepo.Proofs.Catalog
import Monorepo.Proofs.Check

/-!
# What resolving gives

Resolving goes through ids one by one and appends a fragment at a time.  Here its outcome is given in
one step:

* `Task.completed`, `App.completed` — the task or app with all that its ids stand for appended;
* `Task.fault?`, `App.fault?` — the first id that stands for nothing, as an error;
* `Task.resolve_value`, `App.resolve_value` — resolving gives the completed value, or the error where
  there is a fault;
* `IncludeBuilder.build_eq_ok` — a builder gives a store exactly when no task of a group has a fault,
  and the store then has the groups with all their tasks completed.
-/

namespace Monorepo

/-! ### Appending sections -/

namespace Input

theorem append_assoc (i j k : Input) : i ++ j ++ k = i ++ (j ++ k) := by
  show Input.mk _ _ _ = Input.mk _ _ _
  simp only [Input.mk.injEq]
  exact ⟨congrArg Files.mk (List.append_assoc ..), congrArg GitFiles.mk (List.append_assoc ..),
    congrArg₂ GolangSources.mk (List.append_assoc ..) (List.append_assoc ..)⟩

theorem append_empty (i : Input) : i ++ {} = i := by
  show Input.mk _ _ _ = i
  obtain ⟨⟨files⟩, ⟨gitFiles⟩, ⟨environment, paths⟩⟩ := i
  simp only [Input.mk.injEq]
  exact ⟨congrArg Files.mk (List.append_nil _), congrArg GitFiles.mk (List.append_nil _),
    congrArg₂ GolangSources.mk (List.append_nil _) (List.append_nil _)⟩

end Input

namespace Output

theorem append_assoc (o p q : Output) : o ++ p ++ q = o ++ (p ++ q) :=
  congrArg₂ Output.mk (List.append_assoc ..) (List.append_assoc ..)

theorem append_empty (o : Output) : o ++ {} = o :=
  congrArg₂ Output.mk (List.append_nil _) (List.append_nil _)

end Output

/-! ### What ids stand for -/

namespace IncludeStore

variable (s : IncludeStore)

/-- Whether tasks may include an id. -/
def knows (id : String) : Bool :=
  s.inputs.contains id || s.outputs.contains id

/-- The inputs that an id stands for. -/
def inputOf (id : String) : Input :=
  (s.inputs.fragment? id).elim {} InputFragment.input

/-- The outputs that an id stands for: none, if it stands for inputs. -/
def outputOf (id : String) : Output :=
  if s.inputs.contains id then {} else (s.outputs.fragment? id).elim {} OutputFragment.output

/-- The inputs that ids stand for, in order. -/
def inputsOf (ids : List String) : Input :=
  ids.foldr (fun id others => s.inputOf id ++ others) {}

/-- The outputs that ids stand for, in order. -/
def outputsOf (ids : List String) : Output :=
  ids.foldr (fun id others => s.outputOf id ++ others) {}

/-- The tasks of the groups that ids stand for, in order. -/
def tasksOf (ids : List String) : List Task :=
  ids.flatMap fun id => (s.taskGroups.fragment? id).elim [] TaskGroup.tasks

end IncludeStore

theorem IncludeStore.mem_tasksOf {s : IncludeStore} {ids : List String} {t : Task} :
    t ∈ s.tasksOf ids ↔
      ∃ id ∈ ids, ∃ g, s.taskGroups.fragment? id = some g ∧ t ∈ g.tasks := by
  rw [tasksOf, List.mem_flatMap]
  refine exists_congr fun id => and_congr_right fun _ => ?_
  cases s.taskGroups.fragment? id with
  | none => simp
  | some g => simp

theorem Catalog.contains_eq_isSome {α : Type} (c : Catalog α) (id : String) :
    c.contains id = (c.fragment? id).isSome := by
  rw [contains, fragment?, Option.isSome_map]

/-! ### Tasks -/

namespace Attempt

theorem value_error {α : Type} (e : LoadError) (a : α) :
    (Attempt.mk (.error e) a).value = .error e := rfl

end Attempt

namespace Task

variable (s : IncludeStore)

/-- The error of an id that a task includes but the store does not have. -/
def missing (t : Task) (id : String) : LoadError :=
  .reference id .inputOutput ("task '" ++ t.name ++ "'")

/-- The error of the first included id that the store does not have. -/
def fault? (t : Task) : Option LoadError :=
  (t.includes.find? fun id => !s.knows id).map t.missing

/-- The task with all that its ids stand for. -/
def completed (t : Task) : Task :=
  { t with
    includes := []
    input := t.input ++ s.inputsOf t.includes
    output := t.output ++ s.outputsOf t.includes }

theorem includeFragment_eq (t : Task) (id : String) :
    t.includeFragment s id =
      if s.knows id then
        .ok { t with input := t.input ++ s.inputOf id, output := t.output ++ s.outputOf id }
      else .error (t.missing id) := by
  unfold includeFragment IncludeStore.knows IncludeStore.inputOf IncludeStore.outputOf missing
  rw [Catalog.contains_eq_isSome, Catalog.contains_eq_isSome]
  cases s.inputs.fragment? id with
  | some fragment => simp [Output.append_empty]
  | none =>
    cases s.outputs.fragment? id with
    | some fragment => simp [Input.append_empty]
    | none => simp

/-- The task that resolving works on grows from step to step; its name, which the error tells, stays
as it is. -/
theorem includeAll_value (t : Task) (ids : List String) :
    (includeAll s t ids).value =
      ((ids.find? fun id => !s.knows id).map t.missing).elim
        (.ok { t with input := t.input ++ s.inputsOf ids, output := t.output ++ s.outputsOf ids })
        .error := by
  induction ids generalizing t with
  | nil =>
    simp only [IncludeStore.inputsOf, IncludeStore.outputsOf, List.foldr_nil,
      Input.append_empty, Output.append_empty]
    rfl
  | cons id rest ih =>
    rw [includeAll, includeFragment_eq]
    cases hknown : s.knows id with
    | false => simp [hknown, Attempt.value_error]
    | true =>
      have hfind : (id :: rest).find? (fun id => !s.knows id) = rest.find? fun id => !s.knows id :=
        List.find?_cons_of_neg (by simp [hknown])
      rw [hfind, if_pos rfl]
      simp only [ih, IncludeStore.inputsOf, IncludeStore.outputsOf, List.foldr_cons,
        Input.append_assoc, Output.append_assoc]
      rfl

/-- **Resolving a task appends all that its ids stand for, or fails at the first that stands for
nothing.** -/
theorem resolve_value (t : Task) :
    (t.resolve s).value = (t.fault? s).elim (.ok (t.completed s)) .error :=
  includeAll_value s { t with includes := [] } t.includes

theorem resolveAll_cons_value (t : Task) (rest : List Task) :
    (resolveAll s (t :: rest)).value = do
      let first ← (t.resolve s).value
      let others ← (resolveAll s rest).value
      return first :: others := by
  rw [resolveAll]
  rcases t.resolve s with ⟨e | u, left⟩
  · rfl
  · rcases resolveAll s rest with ⟨e | u, others⟩
    · rfl
    · rfl

theorem resolveAll_value (tasks : List Task) :
    (resolveAll s tasks).value =
      (tasks.findSome? (fault? s)).elim (.ok (tasks.map (completed s))) .error := by
  induction tasks with
  | nil => rfl
  | cons t rest ih =>
    rw [resolveAll_cons_value, resolve_value, ih, List.findSome?_cons]
    cases t.fault? s with
    | some e => rfl
    | none =>
      cases rest.findSome? (fault? s) with
      | some e => rfl
      | none => rfl

theorem fault?_eq_none {t : Task} : t.fault? s = none ↔ ∀ id ∈ t.includes, s.knows id = true := by
  simp [fault?]

end Task

/-! ### Apps -/

namespace App

variable (s : IncludeStore)

/-- The error of a group that an app includes but the store does not have. -/
def missing (a : App) (id : String) : LoadError :=
  .reference id .taskGroup ("app '" ++ a.name ++ "'")

/-- The error of the first id that the store does not have: of the tasks, then of the app. -/
def fault? (a : App) : Option LoadError :=
  (a.tasks.findSome? (Task.fault? s)).or
    ((a.includes.find? fun id => !s.taskGroups.contains id).map a.missing)

/-- The app with its own tasks completed, followed by the tasks of all groups. -/
def completed (a : App) : App :=
  { a with
    includes := []
    tasks := a.tasks.map (Task.completed s) ++ s.tasksOf a.includes }

theorem includeGroups_value (a : App) (ids : List String) :
    (includeGroups s a ids).value =
      ((ids.find? fun id => !s.taskGroups.contains id).map a.missing).elim
        (.ok { a with tasks := a.tasks ++ s.tasksOf ids }) .error := by
  induction ids generalizing a with
  | nil =>
    simp only [IncludeStore.tasksOf, List.flatMap_nil, List.append_nil]
    rfl
  | cons id rest ih =>
    rw [includeGroups, List.find?_cons, Catalog.contains_eq_isSome]
    cases hgroup : s.taskGroups.fragment? id with
    | none => rfl
    | some group =>
      simp only [ih, Option.isSome_some, Bool.not_true, IncludeStore.tasksOf, List.flatMap_cons,
        hgroup, Option.elim_some, List.append_assoc]
      rfl

theorem resolve_value_eq_bind (a : App) :
    (a.resolve s).value = (Task.resolveAll s a.tasks).value >>= fun own =>
      (includeGroups s { a with includes := [], tasks := own } a.includes).value := by
  rw [resolve]
  rcases Task.resolveAll s a.tasks with ⟨e | u, own⟩
  · rfl
  · rfl

/-- **Resolving an app completes it, or fails at the first id that stands for nothing.** -/
theorem resolve_value (a : App) :
    (a.resolve s).value = (a.fault? s).elim (.ok (a.completed s)) .error := by
  rw [resolve_value_eq_bind, Task.resolveAll_value, fault?]
  cases a.tasks.findSome? (Task.fault? s) with
  | some e => rfl
  | none => exact includeGroups_value s _ a.includes

theorem fault?_eq_none {a : App} : a.fault? s = none ↔
    (∀ t ∈ a.tasks, ∀ id ∈ t.includes, s.knows id = true) ∧
      ∀ id ∈ a.includes, s.taskGroups.contains id = true := by
  simp [fault?, Task.fault?_eq_none]

/-- Whatever resolving stumbles over is an id that stands for nothing. -/
theorem exists_reference_of_fault? {a : App} {e : LoadError} (h : a.fault? s = some e) :
    ∃ id space referrer, e = .reference id space referrer := by
  rcases Option.or_eq_some_iff.mp h with htask | ⟨-, happ⟩
  · obtain ⟨before, t, after, -, hfault, -⟩ := List.findSome?_eq_some_iff.mp htask
    obtain ⟨id, -, rfl⟩ := Option.map_eq_some_iff.mp hfault
    exact ⟨id, _, _, rfl⟩
  · obtain ⟨id, -, rfl⟩ := Option.map_eq_some_iff.mp happ
    exact ⟨id, _, _, rfl⟩

end App

/-! ### Stores -/

/-- The group with its tasks completed. -/
def TaskGroup.completed (s : IncludeStore) (g : TaskGroup) : TaskGroup :=
  { g with tasks := g.tasks.map (Task.completed s) }

/-- The error of the first task of a group that includes an id the store does not have. -/
def TaskGroup.fault? (s : IncludeStore) (g : TaskGroup) : Option LoadError :=
  g.tasks.findSome? (Task.fault? s)

namespace IncludeBuilder

theorem resolveGroup_eq_ok {s : IncludeStore} {group group' : Registered TaskGroup} :
    resolveGroup s group = .ok group' ↔ group.fragment.fault? s = none ∧
      group' = ⟨group.fragment.completed s, group.origin⟩ := by
  rw [resolveGroup, Task.resolveAll_value, TaskGroup.fault?]
  cases group.fragment.tasks.findSome? (Task.fault? s) with
  | some e => simp
  | none => simp [TaskGroup.completed, eq_comm]

theorem resolveGroups_eq_ok {s : IncludeStore}
    {entries entries' : List (String × Registered TaskGroup)} :
    resolveGroups s entries = .ok entries' ↔
      (∀ e ∈ entries, e.2.fragment.fault? s = none) ∧
        entries' = entries.map fun e => (e.1, ⟨e.2.fragment.completed s, e.2.origin⟩) := by
  induction entries generalizing entries' with
  | nil => simp [resolveGroups, eq_comm]
  | cons entry rest ih =>
    obtain ⟨id, group⟩ := entry
    rw [resolveGroups, Except.bind_eq_ok_iff, List.forall_mem_cons, List.map_cons]
    constructor
    · intro h
      obtain ⟨resolved, hgroup, hrest⟩ := h
      obtain ⟨hfault, rfl⟩ := resolveGroup_eq_ok.mp hgroup
      obtain ⟨others, hothers, hentries⟩ := Except.bind_eq_ok_iff.mp hrest
      obtain ⟨hfaults, rfl⟩ := ih.mp hothers
      cases hentries
      exact ⟨⟨hfault, hfaults⟩, rfl⟩
    · intro h
      obtain ⟨⟨hfault, hfaults⟩, rfl⟩ := h
      exact ⟨_, resolveGroup_eq_ok.mpr ⟨hfault, rfl⟩,
        Except.bind_eq_ok_iff.mpr ⟨_, ih.mpr ⟨hfaults, rfl⟩, rfl⟩⟩

/-- **A builder gives a store exactly when no group has a fault.**  The store is what was registered,
with the groups completed. -/
theorem build_eq_ok {b : IncludeBuilder} {s : IncludeStore} :
    b.build = .ok s ↔
      b.registered.taskGroups.Holds (fun g => g.fault? b.registered = none) ∧
        s = { b.registered with
          taskGroups := b.registered.taskGroups.mapFragments (TaskGroup.completed b.registered) } := by
  -- Completing and faults only look inputs and outputs up, so it does not matter to them that
  -- building takes the groups out of the store.
  rw [build, Except.bind_eq_ok_iff]
  constructor
  · intro h
    obtain ⟨groups, hresolved, hs⟩ := h
    obtain ⟨hfault, rfl⟩ := resolveGroups_eq_ok.mp hresolved
    cases hs
    exact ⟨hfault, rfl⟩
  · intro h
    obtain ⟨hfault, rfl⟩ := h
    exact ⟨_, resolveGroups_eq_ok.mpr ⟨hfault, rfl⟩, rfl⟩

end IncludeBuilder

end Monorepo
