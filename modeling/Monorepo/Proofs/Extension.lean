import Mathlib.Data.List.Basic
import Monorepo.Proofs.AppLoading

/-!
# Adding include files

More include files give an app more to include, but they do not change what its ids stand for:

* `IncludeStore.ExtendedBy` — what a store has, another store has too, and under the same ids;
* `Task.completed_eq`, `App.completed_eq` — what resolves with a store resolves to the same with a
  store that extends it;
* `IncludeBuilder.extendedBy_addAll` — registering files extends what was registered before;
* `IncludeBuilder.extendedBy_build` — and building keeps it so, although the groups are resolved
  anew.

The main statement is `AppLoader.load_eq_of_more_files`: an app loads as before, or fails as before,
unless an id was missing.
-/

namespace Monorepo

namespace IncludeStore

variable {s t u : IncludeStore}

/-- Whatever has an id in a store has it in another, and is the same there.  An id of an output must
not become that of an input as well: inputs are looked up first, and would hide it. -/
structure ExtendedBy (s t : IncludeStore) : Prop where
  inputs : ∀ id, s.knows id = true → t.inputs.fragment? id = s.inputs.fragment? id
  outputs : ∀ id, s.knows id = true → t.outputs.fragment? id = s.outputs.fragment? id
  taskGroups : ∀ id, s.taskGroups.contains id = true →
    t.taskGroups.fragment? id = s.taskGroups.fragment? id

namespace ExtendedBy

theorem refl (s : IncludeStore) : s.ExtendedBy s :=
  ⟨fun _ _ => rfl, fun _ _ => rfl, fun _ _ => rfl⟩

theorem knows (h : s.ExtendedBy t) {id : String} (hid : s.knows id = true) :
    t.knows id = true := by
  have heq : t.knows id = s.knows id := by
    simp only [IncludeStore.knows, Catalog.contains_eq_isSome, h.inputs id hid, h.outputs id hid]
  rw [heq, hid]

theorem contains_group (h : s.ExtendedBy t) {id : String}
    (hid : s.taskGroups.contains id = true) : t.taskGroups.contains id = true := by
  rw [Catalog.contains_eq_isSome, h.taskGroups id hid, ← Catalog.contains_eq_isSome]
  exact hid

theorem trans (h : s.ExtendedBy t) (h' : t.ExtendedBy u) : s.ExtendedBy u where
  inputs id hid := (h'.inputs id (h.knows hid)).trans (h.inputs id hid)
  outputs id hid := (h'.outputs id (h.knows hid)).trans (h.outputs id hid)
  taskGroups id hid := (h'.taskGroups id (h.contains_group hid)).trans (h.taskGroups id hid)

/-! ### What ids stand for -/

theorem inputOf_eq (h : s.ExtendedBy t) {id : String} (hid : s.knows id = true) :
    t.inputOf id = s.inputOf id := by
  rw [inputOf, inputOf, h.inputs id hid]

theorem outputOf_eq (h : s.ExtendedBy t) {id : String} (hid : s.knows id = true) :
    t.outputOf id = s.outputOf id := by
  rw [outputOf, outputOf, Catalog.contains_eq_isSome, Catalog.contains_eq_isSome,
    h.inputs id hid, h.outputs id hid]

theorem inputsOf_eq (h : s.ExtendedBy t) {ids : List String}
    (hids : ∀ id ∈ ids, s.knows id = true) : t.inputsOf ids = s.inputsOf ids := by
  apply List.foldr_ext
  intro id hid others
  rw [h.inputOf_eq (hids id hid)]

theorem outputsOf_eq (h : s.ExtendedBy t) {ids : List String}
    (hids : ∀ id ∈ ids, s.knows id = true) : t.outputsOf ids = s.outputsOf ids := by
  apply List.foldr_ext
  intro id hid others
  rw [h.outputOf_eq (hids id hid)]

theorem tasksOf_eq (h : s.ExtendedBy t) {ids : List String}
    (hids : ∀ id ∈ ids, s.taskGroups.contains id = true) : t.tasksOf ids = s.tasksOf ids := by
  apply List.flatMap_congr
  intro id hid
  rw [h.taskGroups id (hids id hid)]

end ExtendedBy

end IncludeStore

/-! ### What resolves resolves to the same -/

section Resolving

variable {s t : IncludeStore}

theorem Task.completed_eq (h : s.ExtendedBy t) {task : Task}
    (hnone : task.fault? s = none) : task.completed t = task.completed s := by
  have hids := (Task.fault?_eq_none s).mp hnone
  rw [Task.completed, Task.completed, h.inputsOf_eq hids, h.outputsOf_eq hids]

theorem Task.map_completed_eq (h : s.ExtendedBy t) {tasks : List Task}
    (hnone : ∀ task ∈ tasks, task.fault? s = none) :
    tasks.map (Task.completed t) = tasks.map (Task.completed s) :=
  List.map_congr_left fun task htask => Task.completed_eq h (hnone task htask)

theorem TaskGroup.completed_eq (h : s.ExtendedBy t) {g : TaskGroup}
    (hnone : g.fault? s = none) : g.completed t = g.completed s := by
  rw [TaskGroup.completed, TaskGroup.completed,
    Task.map_completed_eq h (List.findSome?_eq_none_iff.mp hnone)]

theorem App.fault?_extendedBy (h : s.ExtendedBy t) {a : App} (hnone : a.fault? s = none) :
    a.fault? t = none := by
  obtain ⟨htasks, hgroups⟩ := (App.fault?_eq_none s).mp hnone
  exact (App.fault?_eq_none t).mpr ⟨fun task htask id hid => h.knows (htasks task htask id hid),
    fun id hid => h.contains_group (hgroups id hid)⟩

theorem App.completed_eq (h : s.ExtendedBy t) {a : App} (hnone : a.fault? s = none) :
    a.completed t = a.completed s := by
  obtain ⟨htasks, hgroups⟩ := (App.fault?_eq_none s).mp hnone
  have hown : a.tasks.map (Task.completed t) = a.tasks.map (Task.completed s) :=
    Task.map_completed_eq h fun task htask => (Task.fault?_eq_none s).mpr (htasks task htask)
  rw [App.completed, App.completed, hown, h.tasksOf_eq hgroups]

end Resolving

/-! ### More files, more fragments -/

namespace IncludeBuilder

/-- A file whose ids are new leaves what other ids stand for as it is. -/
theorem extendedBy_register {b : IncludeBuilder} {f : IncludeFile} (hfresh : b.Fresh f.ids)
    (origin : Path) : b.registered.ExtendedBy (b.register f origin).registered := by
  have hnew : ∀ id, b.registered.knows id = true → (IdSpace.inputOutput, id) ∉ f.ids := by
    intro id hknown hid
    obtain ⟨hinput, houtput⟩ :=
      IncludeStore.definedIn?_inputOutput_eq_none.mp (hfresh _ hid)
    simp [IncludeStore.knows, Catalog.contains, hinput, houtput] at hknown
  refine ⟨fun id hknown => ?_, fun id hknown => ?_, fun id hknown => ?_⟩
  · have hid : id ∉ f.inputs.map InputFragment.id := fun hmem =>
      hnew id hknown (IncludeFile.mem_ids_inputOutput.mpr (Or.inl hmem))
    exact congrArg _ (Catalog.find?_insertAll_of_notMem _ origin _ hid)
  · have hid : id ∉ f.outputs.map OutputFragment.id := fun hmem =>
      hnew id hknown (IncludeFile.mem_ids_inputOutput.mpr (Or.inr hmem))
    exact congrArg _ (Catalog.find?_insertAll_of_notMem _ origin _ hid)
  · have hid : id ∉ f.taskGroups.map TaskGroup.id := by
      intro hmem
      have hnone := IncludeStore.definedIn?_taskGroup_eq_none.mp
        (hfresh _ (IncludeFile.mem_ids_taskGroup.mpr hmem))
      simp [Catalog.contains, hnone] at hknown
    exact congrArg _ (Catalog.find?_insertAll_of_notMem _ origin _ hid)

theorem extendedBy_addAll {b b' : IncludeBuilder} {files : List (IncludeFile × Path)}
    (h : addAll b files = .ok b') : b.registered.ExtendedBy b'.registered := by
  induction files generalizing b with
  | nil =>
    cases h
    exact .refl _
  | cons file rest ih =>
    obtain ⟨f, origin⟩ := file
    rw [addAll, Except.bind_eq_ok_iff] at h
    obtain ⟨next, hadd, hrest⟩ := h
    obtain ⟨-, hfresh, rfl⟩ := add_eq_ok.mp hadd
    exact (extendedBy_register hfresh origin).trans (ih hrest)

/-- **Stores are extended as what was registered for them is.**  Their groups are completed with
different fragments at hand, but each is free of faults in the smaller store. -/
theorem extendedBy_build {b b' : IncludeBuilder} (h : b.registered.ExtendedBy b'.registered)
    {s s' : IncludeStore} (hs : b.build = .ok s) (hs' : b'.build = .ok s') : s.ExtendedBy s' := by
  obtain ⟨hfaultless, rfl⟩ := build_eq_ok.mp hs
  obtain ⟨-, rfl⟩ := build_eq_ok.mp hs'
  refine ⟨h.inputs, h.outputs, fun id hid => ?_⟩
  simp only [Catalog.contains_eq_isSome, Catalog.fragment?_mapFragments, Option.isSome_map] at hid ⊢
  rw [h.taskGroups id (by rwa [Catalog.contains_eq_isSome])]
  obtain ⟨g, hg⟩ := Option.isSome_iff_exists.mp hid
  rw [hg, Option.map_some, Option.map_some,
    TaskGroup.completed_eq h (hfaultless.fragment? hg)]

end IncludeBuilder

namespace AppLoader

/-- With a store that extends another, an app loads as with that, unless an id was missing. -/
theorem load_eq_of_extendedBy {s s' : IncludeStore} (h : s.ExtendedBy s') (mode : TaskMode)
    (d : Disk) (file : Path) :
    (AppLoader.mk s' mode).load d file = (AppLoader.mk s mode).load d file ∨
      ∃ e id space referrer, (AppLoader.mk s mode).load d file = .error e ∧
        e.root = .reference id space referrer := by
  cases hread : ConfigFile.read App d file with
  | error e =>
    left
    rw [load, load, hread]
    rfl
  | ok written =>
    rw [load_eq_complete hread, load_eq_complete hread, complete_eq, complete_eq]
    cases hfault : written.prune.fault? s with
    | none =>
      left
      rw [App.fault?_extendedBy h hfault, App.completed_eq h hfault]
    | some e =>
      right
      obtain ⟨id, space, referrer, rfl⟩ := App.exists_reference_of_fault? s hfault
      exact ⟨_, id, space, referrer, rfl, rfl⟩

/-- **Adding include files does not change an app that loads.**  Let files register and build to a
store, and so do the same files and further ones, in any order.  Then every app file has the same
outcome with both stores, unless that with the first store was that an id is missing. -/
theorem load_eq_of_more_files {files extra files' : List (IncludeFile × Path)}
    (hmore : files'.Perm (files ++ extra)) {b b' : IncludeBuilder} {s s' : IncludeStore}
    (hb : IncludeBuilder.addAll {} files = .ok b) (hs : b.build = .ok s)
    (hb' : IncludeBuilder.addAll {} files' = .ok b') (hs' : b'.build = .ok s')
    (mode : TaskMode) (d : Disk) (file : Path) :
    (AppLoader.mk s' mode).load d file = (AppLoader.mk s mode).load d file ∨
      ∃ e id space referrer, (AppLoader.mk s mode).load d file = .error e ∧
        e.root = .reference id space referrer := by
  have hall : IncludeBuilder.addAll {} (files ++ extra) = .ok b' :=
    IncludeBuilder.addAll_perm hmore hb'
  have hextra : IncludeBuilder.addAll b extra = .ok b' := by
    rw [IncludeBuilder.addAll_append, hb] at hall
    exact hall
  exact load_eq_of_extendedBy
    (IncludeBuilder.extendedBy_build (IncludeBuilder.extendedBy_addAll hextra) hs hs') mode d file

/-- The include file of the sample disk, and one in front of it with an output and a group. -/
theorem load_eq_of_more_files_sample :
    let file : IncludeFile × Path :=
      ({ inputs := [{ id := "i", input := { golangSources := { paths := ["p"] } } }]
         outputs := [{ id := "o", output := { files := [{ path := "f" }] } }]
         taskGroups := [{ id := "g", tasks :=
          [{ name := "t", command := "c", includes := ["o", "i"] }] }] }, ⟨"inc/a.toml"⟩)
    let further : IncludeFile × Path :=
      ({ outputs := [{ id := "q", output := { files := [{ path := "q" }] } }]
         taskGroups := [{ id := "h", tasks :=
          [{ name := "u", command := "c", includes := ["i", "q"] }] }] }, ⟨"inc/b.toml"⟩)
    [further, file].Perm ([file] ++ [further]) ∧
      ∃ b b' s s', IncludeBuilder.addAll {} [file] = .ok b ∧ b.build = .ok s ∧
        IncludeBuilder.addAll {} [further, file] = .ok b' ∧ b'.build = .ok s' ∧
        ((AppLoader.mk s' .multiple).load sampleDisk ⟨"app.toml"⟩ =
            (AppLoader.mk s .multiple).load sampleDisk ⟨"app.toml"⟩ ∨
          ∃ e id space referrer,
            (AppLoader.mk s .multiple).load sampleDisk ⟨"app.toml"⟩ = .error e ∧
              e.root = .reference id space referrer) := by
  intro file further
  have hmore : [further, file].Perm ([file] ++ [further]) := .swap _ _ _
  exact ⟨hmore, _, _, _, _, rfl, rfl, rfl, rfl,
    load_eq_of_more_files hmore rfl rfl rfl rfl .multiple sampleDisk ⟨"app.toml"⟩⟩

end AppLoader

end Monorepo
