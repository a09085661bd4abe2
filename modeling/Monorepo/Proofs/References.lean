import Monorepo.Proofs.Appending
import Monorepo.Proofs.ElementPaths
import Monorepo.Proofs.Inlining

/-!
# The references of an app

Resolving an app follows its references one after another: those of its tasks, in the order of the
tasks, and then its own.  It fails at the first that leads nowhere; where all lead somewhere, none is
left.

* `App.references` — all references of an app, in the order in which they are followed;
* `Reference.FoundIn` — a reference leads to a fragment of its space;
* `App.fault?_eq_find?` — the fault of an app is its first reference that leads nowhere;
* `App.Resolved` — an app without references, which no store changes and no check faults for them;
* `App.resolve_assembles` — with a store that was built, resolving gives such an app, or it tells the
  first reference that leads nowhere.
-/

namespace Monorepo

/-! ### References -/

/-- A reference: an id, the space that it belongs to, and who refers to it. -/
structure Reference where
  id : String
  space : IdSpace
  referrer : String
  deriving DecidableEq, Repr

namespace Reference

/-- The store has a fragment of the id in the space. -/
def FoundIn (s : IncludeStore) (r : Reference) : Prop :=
  match r.space with
  | .inputOutput => r.id ∈ s.ids .input ∨ r.id ∈ s.ids .output
  | .taskGroup => r.id ∈ s.ids .taskGroup

instance (s : IncludeStore) (r : Reference) : Decidable (r.FoundIn s) :=
  match r with
  | ⟨_, .inputOutput, _⟩ => inferInstanceAs (Decidable (_ ∨ _))
  | ⟨_, .taskGroup, _⟩ => inferInstanceAs (Decidable (_ ∈ _))

/-- The error of a reference that leads nowhere. -/
def missing (r : Reference) : LoadError :=
  .reference r.id r.space r.referrer

end Reference

/-- The reference of a task to an input or output. -/
def Task.referTo (t : Task) (id : String) : Reference :=
  ⟨id, .inputOutput, "task '" ++ t.name ++ "'"⟩

/-- The references of a task, in order. -/
def Task.references (t : Task) : List Reference :=
  t.includes.map t.referTo

/-- The reference of an app to a group. -/
def App.referTo (a : App) (id : String) : Reference :=
  ⟨id, .taskGroup, "app '" ++ a.name ++ "'"⟩

/-- The references of an app to groups, in order. -/
def App.groupReferences (a : App) : List Reference :=
  a.includes.map a.referTo

/-- All references of an app, in the order in which they are followed. -/
def App.references (a : App) : List Reference :=
  a.tasks.flatMap Task.references ++ a.groupReferences

section Faults

variable (s : IncludeStore)

@[simp] theorem Task.foundIn_referTo (t : Task) (id : String) :
    (t.referTo id).FoundIn s ↔ s.knows id = true :=
  s.knows_eq_true.symm

@[simp] theorem App.foundIn_referTo (a : App) (id : String) :
    (a.referTo id).FoundIn s ↔ s.taskGroups.contains id = true :=
  Catalog.contains_eq_true.symm

/-- The first of references that leads nowhere. -/
def firstMissing? (references : List Reference) : Option Reference :=
  references.find? fun r => ¬ r.FoundIn s

theorem firstMissing?_eq_none {references : List Reference} :
    firstMissing? s references = none ↔ ∀ r ∈ references, r.FoundIn s := by
  simp [firstMissing?]

theorem firstMissing?_eq_some {references : List Reference} {r : Reference} :
    firstMissing? s references = some r ↔
      ∃ before after, references = before ++ r :: after ∧
        (∀ found ∈ before, found.FoundIn s) ∧ ¬ r.FoundIn s := by
  rw [firstMissing?, List.find?_eq_some_iff_append]
  simp only [decide_eq_true_eq, Bool.not_eq_true', decide_eq_false_iff_not, Classical.not_not]
  constructor
  · rintro ⟨hmissing, before, after, hreferences, hbefore⟩
    exact ⟨before, after, hreferences, hbefore, hmissing⟩
  · rintro ⟨before, after, hreferences, hbefore, hmissing⟩
    exact ⟨hmissing, before, after, hreferences, hbefore⟩

/-- Looking ids up and following the references to them comes to the same. -/
theorem find?_map_missing (known : String → Bool) (referTo : String → Reference)
    (h : ∀ id, (referTo id).FoundIn s ↔ known id = true) (ids : List String) :
    ((ids.find? fun id => !known id).map fun id => (referTo id).missing) =
      (firstMissing? s (ids.map referTo)).map Reference.missing := by
  have hknown : (fun id => !known id) = (fun r => decide (¬ r.FoundIn s)) ∘ referTo := by
    funext id
    simp [h id]
  rw [firstMissing?, List.find?_map, Option.map_map, hknown]
  rfl

theorem Task.fault?_eq_find? (t : Task) :
    t.fault? s = (firstMissing? s t.references).map Reference.missing :=
  find?_map_missing s s.knows t.referTo (t.foundIn_referTo s) t.includes

/-- **An app stumbles over its first reference that leads nowhere.** -/
theorem App.fault?_eq_find? (a : App) :
    a.fault? s = (firstMissing? s a.references).map Reference.missing := by
  have htasks : a.tasks.findSome? (Task.fault? s) =
      (firstMissing? s (a.tasks.flatMap Task.references)).map Reference.missing := by
    rw [firstMissing?, List.find?_flatMap, List.map_findSome?]
    exact congrArg (a.tasks.findSome? ·) (funext fun t => Task.fault?_eq_find? s t)
  have hgroups : (a.includes.find? fun id => !s.taskGroups.contains id).map a.missing =
      (firstMissing? s a.groupReferences).map Reference.missing :=
    find?_map_missing s s.taskGroups.contains a.referTo (a.foundIn_referTo s) a.includes
  rw [fault?, htasks, hgroups, ← Option.map_or, firstMissing?, firstMissing?, ← List.find?_append]
  rfl

end Faults

/-! ### Apps without references -/

/-- No reference is left in an app. -/
structure App.Resolved (a : App) : Prop where
  includes : a.includes = []
  taskIncludes : ∀ t ∈ a.tasks, t.includes = []

theorem App.Valid.resolved {mode : TaskMode} {a : App} (h : a.Valid mode) : a.Resolved where
  includes := h.includes
  taskIncludes := h.taskIncludes

theorem App.references_eq_nil {a : App} : a.references = [] ↔ a.Resolved := by
  simp only [references, groupReferences, Task.references, List.append_eq_nil_iff,
    List.flatMap_eq_nil_iff, List.map_eq_nil_iff]
  exact ⟨fun h => ⟨h.2, h.1⟩, fun h => ⟨h.taskIncludes, h.includes⟩⟩

theorem Task.completed_of_includes_eq_nil (s : IncludeStore) {t : Task} (h : t.includes = []) :
    t.completed s = t := by
  rw [Task.completed, h]
  show Task.mk t.name t.command [] (t.input ++ {}) (t.output ++ {}) = t
  rw [Input.append_empty, Output.append_empty, ← h]

theorem Task.segment_ne_includes (t : Task) : t.segment ≠ "includes" := by
  rw [segment, namedSegment]
  split
  · decide
  · intro h
    have hchars := congrArg String.toList h
    simp at hchars

theorem Task.PathAmong.getLast?_ne_includes {tasks : List Task} {path : List String}
    (h : PathAmong tasks path) : path.getLast? ≠ some "includes" := by
  cases h with
  | @taken t _ =>
    intro hlast
    exact t.segment_ne_includes (Option.some.inj hlast)
  | name | command => simp
  | input _ hp =>
    simp only [Input.paths, List.mem_cons, List.not_mem_nil, or_false] at hp
    rcases hp with rfl | rfl | rfl <;> simp
  | output _ hp =>
    simp only [Output.paths, List.mem_cons, List.not_mem_nil, or_false] at hp
    rcases hp with rfl | rfl | rfl | rfl | rfl | rfl <;> simp

namespace App

theorem mem_violations {mode : TaskMode} {a : App} {v : Violation}
    (h : a.validate mode = .error v) : v ∈ a.violations mode := by
  have hfirst : Check.first (a.violations mode) = .error v := (a.under_validate mode).symm.trans h
  exact List.mem_of_mem_head? (Check.first_eq_error.mp hfirst)

namespace Resolved

variable {a : App}

theorem fault?_eq_none (h : a.Resolved) (s : IncludeStore) : a.fault? s = none := by
  apply (App.fault?_eq_none s).mpr
  rw [h.includes]
  refine ⟨?_, nofun⟩
  intro t ht
  rw [h.taskIncludes t ht]
  exact nofun

theorem completed_eq (h : a.Resolved) (s : IncludeStore) : a.completed s = a := by
  have htasks : a.tasks.map (Task.completed s) = a.tasks := by
    calc a.tasks.map (Task.completed s) = a.tasks.map id :=
          List.map_congr_left fun t ht =>
            Task.completed_of_includes_eq_nil s (h.taskIncludes t ht)
      _ = a.tasks := List.map_id _
  rw [App.completed, htasks, h.includes]
  show App.mk a.name [] (a.tasks ++ []) = a
  rw [List.append_nil, ← h.includes]

/-- Nothing is left to resolve, whatever the store. -/
theorem resolve_eq (h : a.Resolved) (s : IncludeStore) : a.resolve s = ⟨.ok (), a⟩ := by
  have hvalue : (a.resolve s).value = .ok a := by
    rw [resolve_value, h.fault?_eq_none, h.completed_eq]
    rfl
  obtain ⟨hresult, hafter⟩ := Attempt.value_eq_ok.mp hvalue
  exact congrArg₂ Attempt.mk hresult hafter

/-- Nothing is found at a list of references. -/
theorem foundAt (h : a.Resolved) (mode : TaskMode) :
    FoundAt [] (fun path => path.getLast? ≠ some "includes") (a.findings mode) := by
  have hnone (levels : List Step) : includesFindings levels [] = [] := rfl
  apply FoundAt.append
  · apply FoundAt.append
    · apply FoundAt.append
      · rw [h.includes, hnone, List.append_nil]
        exact .expect (by decide)
      · refine .flatMap fun t ht => ?_
        rw [h.taskIncludes t ht, hnone]
        exact nofun
    · cases mode with
      | multiple => exact nofun
      | single => exact .append (.expect (by decide)) (.flatMap fun _ _ => .expect (by decide))
  · exact (Task.foundAt_all [] a.tasks).mono fun _ hpath => hpath.getLast?_ne_includes

theorem getLast?_ne_includes (h : a.Resolved) {mode : TaskMode} {v : Violation}
    (hv : a.validate mode = .error v) : v.elementPath.getLast? ≠ some "includes" := by
  obtain ⟨f, hf, rfl⟩ := List.mem_map.mp (mem_violations hv)
  obtain ⟨path, hpath, heq⟩ := h.foundAt mode f hf
  show f.path.getLast? ≠ _
  rw [heq]
  exact hpath

end Resolved

/-! ### Resolving with a store that was built -/

section Building

variable {b : IncludeBuilder} {s : IncludeStore}

/-- The tasks of a built store's groups have no references left, so neither has an app that takes
them in. -/
theorem resolved_completed (hs : b.build = .ok s) (a : App) : (a.completed s).Resolved where
  includes := rfl
  taskIncludes := by
    intro t ht
    rcases List.mem_append.mp ht with hown | hgroup
    · obtain ⟨u, -, rfl⟩ := List.mem_map.mp hown
      rfl
    · rw [IncludeBuilder.tasksOf_build hs] at hgroup
      obtain ⟨u, -, rfl⟩ := List.mem_map.mp hgroup
      rfl

/-- What resolving makes of an app: its own tasks, each resolved, and behind them the tasks of its
groups.  No reference is left: no check faults the app for one, and no store changes it again. -/
structure Assembled (s : IncludeStore) (a u : App) : Prop where
  name : u.name = a.name
  tasks : u.tasks = a.tasks.map (fun t => (t.resolve s).after) ++ s.tasksOf a.includes
  includes : u.includes = []
  taskIncludes : ∀ t ∈ u.tasks, t.includes = []
  checked : ∀ mode v, u.validate mode = .error v → v.elementPath.getLast? ≠ some "includes"
  settled : ∀ other : IncludeStore, u.resolve other = ⟨.ok (), u⟩

theorem assembled_completed (hs : b.build = .ok s) {a : App} (h : a.fault? s = none) :
    a.Assembled s (a.completed s) := by
  have hresolved := resolved_completed hs a
  have hown : a.tasks.map (fun t => (t.resolve s).after) = a.tasks.map (Task.completed s) := by
    apply List.map_congr_left
    intro t ht
    have hfault : t.fault? s = none :=
      (Task.fault?_eq_none s).mpr (((App.fault?_eq_none s).mp h).1 t ht)
    rw [Task.resolve_of_fault?_eq_none s hfault]
  exact {
    name := rfl
    tasks := congrArg (· ++ s.tasksOf a.includes) hown.symm
    includes := hresolved.includes
    taskIncludes := hresolved.taskIncludes
    checked := fun _ _ hv => hresolved.getLast?_ne_includes hv
    settled := hresolved.resolve_eq }

theorem resolve_of_fault?_eq_none {a : App} (h : a.fault? s = none) :
    a.resolve s = ⟨.ok (), a.completed s⟩ :=
  Attempt.eq_of_fault?_eq_none (resolve_value s a) h

theorem resolve_result_eq_error {a : App} {e : LoadError} :
    (a.resolve s).result = .error e ↔ a.fault? s = some e :=
  Attempt.result_eq_error (resolve_value s a)

theorem resolve_result_eq_ok {a : App} : (a.resolve s).result = .ok () ↔ a.fault? s = none :=
  Attempt.result_eq_ok (resolve_value s a)

/-- **What resolving an app does**, with a store that was built.  It succeeds exactly if every task
of the app resolves and every id that the app includes is one of a group.  It then assembles the app.
Otherwise it tells the first reference that leads nowhere, of the tasks and then of the app. -/
theorem resolve_assembles (hs : b.build = .ok s) (a : App) :
    ((a.resolve s).result = .ok () ↔
      (∀ t ∈ a.tasks, (t.resolve s).result = .ok ()) ∧
        ∀ id ∈ a.includes, id ∈ s.ids .taskGroup) ∧
    ((a.resolve s).result = .ok () → a.Assembled s (a.resolve s).after) ∧
    ∀ e, (a.resolve s).result = .error e →
      ∃ before r after, a.references = before ++ r :: after ∧
        (∀ found ∈ before, found.FoundIn s) ∧ ¬ r.FoundIn s ∧
        e = .reference r.id r.space r.referrer := by
  refine ⟨?_, ?_, ?_⟩
  · simp only [resolve_result_eq_ok, Task.resolve_result_eq_ok, App.fault?_eq_none,
      Task.fault?_eq_none, Catalog.contains_eq_true]
    rfl
  · intro hok
    have hnone := resolve_result_eq_ok.mp hok
    rw [resolve_of_fault?_eq_none hnone]
    exact assembled_completed hs hnone
  · intro e herror
    have hfault := resolve_result_eq_error.mp herror
    rw [fault?_eq_find?, Option.map_eq_some_iff] at hfault
    obtain ⟨r, hfirst, rfl⟩ := hfault
    obtain ⟨before, after, hreferences, hbefore, hmissing⟩ := (firstMissing?_eq_some s).mp hfirst
    exact ⟨before, r, after, hreferences, hbefore, hmissing, rfl⟩

/-- The first app takes a group in twice, whose task includes an input.  The second includes the
group in a task and, behind it, a group that is missing. -/
theorem resolve_assembles_group_twice :
    let registered : IncludeStore :=
      { inputs := ⟨[("go", ⟨{ id := "go", input := { files := ⟨["*.go"]⟩ } }, ⟨"b.toml"⟩⟩)]⟩
        taskGroups := ⟨[("ci", ⟨{ id := "ci", tasks :=
          [{ name := "check", command := "make", includes := ["go"] }] }, ⟨"a.toml"⟩⟩)]⟩ }
    let check : Task := { name := "check", command := "make", input := { files := ⟨["*.go"]⟩ } }
    let a : App :=
      { name := "shop"
        includes := ["ci", "ci"]
        tasks := [{ name := "build", command := "make", includes := ["go"] }] }
    let broken : App :=
      { name := "shop"
        includes := ["ci", "cd"]
        tasks := [{ name := "build", command := "make", includes := ["go", "ci"] }] }
    ∃ s, (IncludeBuilder.mk registered).build = .ok s ∧
      a.Assembled s (a.resolve s).after ∧
      (a.resolve s).after =
        { name := "shop", tasks := [{ check with name := "build" }, check, check] } ∧
      ∃ before r after, broken.references = before ++ r :: after ∧
        (∀ found ∈ before, found.FoundIn s) ∧ ¬ r.FoundIn s ∧
        LoadError.reference "ci" .inputOutput "task 'build'" =
          .reference r.id r.space r.referrer := by
  intro registered check a broken
  have hs : (IncludeBuilder.mk registered).build = .ok _ := rfl
  exact ⟨_, hs, (resolve_assembles hs a).2.1 rfl, by decide,
    (resolve_assembles hs broken).2.2 _ rfl⟩

end Building

end App

end Monorepo
