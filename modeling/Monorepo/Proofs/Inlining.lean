import Monorepo.Proofs.Resolution

/-!
# Groups written out

The tasks of a group come into an app complete: they were resolved when the store was built, while
the groups were set aside.  The app's own tasks are resolved with the app.  It makes no difference
which way a task takes:

* `App.writtenOut` — the app with the tasks of its groups in place of their ids, as they were
  registered;
* `IncludeBuilder.tasksOf_build` — what groups bring into an app is what was registered, completed;
* `App.completed_writtenOut`, `App.fault?_writtenOut` — so the app and its written-out form complete
  to the same app, and stumble over the same id.
-/

namespace Monorepo

/-- The app with the registered tasks of its groups behind its own, and no group left to include. -/
def App.writtenOut (registered : IncludeStore) (a : App) : App :=
  { a with includes := [], tasks := a.tasks ++ registered.tasksOf a.includes }

section Building

variable {b : IncludeBuilder} {s : IncludeStore}

namespace IncludeBuilder

/-- Building leaves inputs and outputs alone, so tasks may be completed before it or after. -/
theorem fault?_build (hs : b.build = .ok s) (t : Task) : t.fault? s = t.fault? b.registered := by
  obtain ⟨-, rfl⟩ := build_eq_ok.mp hs
  rfl

theorem completed_build (hs : b.build = .ok s) (t : Task) :
    t.completed s = t.completed b.registered := by
  obtain ⟨-, rfl⟩ := build_eq_ok.mp hs
  rfl

theorem contains_group_build (hs : b.build = .ok s) (id : String) :
    s.taskGroups.contains id = b.registered.taskGroups.contains id := by
  obtain ⟨-, rfl⟩ := build_eq_ok.mp hs
  rw [Catalog.contains_eq_isSome, Catalog.contains_eq_isSome, Catalog.fragment?_mapFragments,
    Option.isSome_map]

/-- **The groups of a store bring in what was registered, completed.** -/
theorem tasksOf_build (hs : b.build = .ok s) (ids : List String) :
    s.tasksOf ids = (b.registered.tasksOf ids).map (Task.completed s) := by
  have hcompleted : Task.completed s = Task.completed b.registered :=
    funext (completed_build hs)
  rw [hcompleted, IncludeStore.tasksOf, IncludeStore.tasksOf, List.map_flatMap]
  obtain ⟨-, rfl⟩ := build_eq_ok.mp hs
  refine List.flatMap_congr fun id _ => ?_
  rw [Catalog.fragment?_mapFragments]
  cases b.registered.taskGroups.fragment? id with
  | none => rfl
  | some g => rfl

/-- No task that a group brings in stumbles: building would have stumbled over it. -/
theorem findSome?_fault?_tasksOf (hs : b.build = .ok s) (ids : List String) :
    (b.registered.tasksOf ids).findSome? (Task.fault? s) = none := by
  obtain ⟨hfaultless, -⟩ := build_eq_ok.mp hs
  rw [List.findSome?_eq_none_iff]
  intro t ht
  obtain ⟨id, -, g, hg, htg⟩ := IncludeStore.mem_tasksOf.mp ht
  rw [fault?_build hs]
  exact List.findSome?_eq_none_iff.mp (hfaultless.fragment? hg) t htg

end IncludeBuilder

namespace App

theorem completed_writtenOut (hs : b.build = .ok s) (a : App) :
    (a.writtenOut b.registered).completed s = a.completed s := by
  have hown : (a.writtenOut b.registered).tasks.map (Task.completed s) ++ s.tasksOf [] =
      a.tasks.map (Task.completed s) ++ s.tasksOf a.includes := by
    calc (a.tasks ++ b.registered.tasksOf a.includes).map (Task.completed s) ++ s.tasksOf []
        = (a.tasks ++ b.registered.tasksOf a.includes).map (Task.completed s) :=
          List.append_nil _
      _ = a.tasks.map (Task.completed s) ++
            (b.registered.tasksOf a.includes).map (Task.completed s) := List.map_append
      _ = a.tasks.map (Task.completed s) ++ s.tasksOf a.includes := by
          rw [IncludeBuilder.tasksOf_build hs]
  exact congrArg (App.mk a.name []) hown

theorem fault?_writtenOut (hs : b.build = .ok s) {a : App}
    (ha : ∀ id ∈ a.includes, b.registered.taskGroups.contains id = true) :
    (a.writtenOut b.registered).fault? s = a.fault? s := by
  have hgroups : (a.includes.find? fun id => !s.taskGroups.contains id) = none := by
    rw [List.find?_eq_none]
    intro id hid
    simp [IncludeBuilder.contains_group_build hs, ha id hid]
  have htasks : (a.tasks ++ b.registered.tasksOf a.includes).findSome? (Task.fault? s) =
      a.tasks.findSome? (Task.fault? s) := by
    rw [List.findSome?_append, IncludeBuilder.findSome?_fault?_tasksOf hs, Option.or_none]
  rw [fault?, fault?, hgroups]
  exact congrArg (Option.or · none) htasks

/-- **Including a group is the same as writing its tasks out.**  With a store that was built, an app
whose groups are all registered and the app with their tasks written out resolve to the same app, or
neither resolves, for the same missing id. -/
theorem resolve_writtenOut (hs : b.build = .ok s) {a : App}
    (ha : ∀ id ∈ a.includes, b.registered.taskGroups.contains id = true) :
    (∃ app, (a.resolve s).value = .ok app ∧
        ((a.writtenOut b.registered).resolve s).value = .ok app) ∨
      ∃ id space referrer, (a.resolve s).value = .error (.reference id space referrer) ∧
        ((a.writtenOut b.registered).resolve s).value = .error (.reference id space referrer) := by
  rw [resolve_value, resolve_value, fault?_writtenOut hs ha, completed_writtenOut hs]
  cases hfault : a.fault? s with
  | none =>
    left
    exact ⟨a.completed s, rfl, rfl⟩
  | some e =>
    right
    obtain ⟨id, space, referrer, rfl⟩ := exists_reference_of_fault? s hfault
    exact ⟨id, space, referrer, rfl, rfl⟩

/-- A group that includes an input, taken in twice by an app whose own task includes it too. -/
theorem resolve_writtenOut_group_twice :
    let registered : IncludeStore :=
      { inputs := ⟨[("go", ⟨{ id := "go", input := { files := ⟨["*.go"]⟩ } }, ⟨"b.toml"⟩⟩)]⟩
        taskGroups := ⟨[("ci", ⟨{ id := "ci", tasks :=
          [{ name := "check", command := "make", includes := ["go"] }] }, ⟨"a.toml"⟩⟩)]⟩ }
    let a : App :=
      { name := "shop"
        includes := ["ci", "ci"]
        tasks := [{ name := "build", command := "make", includes := ["go"] }] }
    ∃ s, (IncludeBuilder.mk registered).build = .ok s ∧
      (∀ id ∈ a.includes, registered.taskGroups.contains id = true) ∧
      ((∃ app, (a.resolve s).value = .ok app ∧
          ((a.writtenOut registered).resolve s).value = .ok app) ∨
        ∃ id space referrer, (a.resolve s).value = .error (.reference id space referrer) ∧
          ((a.writtenOut registered).resolve s).value =
            .error (.reference id space referrer)) := by
  intro registered a
  have ha : ∀ id ∈ a.includes, registered.taskGroups.contains id = true := by decide
  exact ⟨_, rfl, ha, resolve_writtenOut (b := ⟨registered⟩) rfl ha⟩

end App

end Building

end Monorepo
