import Monorepo.AppLoader
import Monorepo.Proofs.Soundness

/-!
# Which apps load

An app is loaded in stages: its blank outputs are dropped, its ids are resolved, the result is
checked.  Here the stages are one condition on what was written:

* `AppLoader.complete_eq` — the outcome of all stages, with the error of the first that fails;
* `IncludeStore.Sound.valid_completed_app` — with a sound store, an app is valid once it is complete
  exactly when its own tasks are and all names are distinct;
* `App.LoadableWith` — the condition, and `AppLoader.exists_load_eq_ok_iff`, that it is the right
  one.

No fragment of a loaded store appears in the condition but by its id, by the names of a group's
tasks, and by the paths for the discovery of Go programs that an input brings along.
-/

namespace Monorepo

namespace AppLoader

/-- The outcome of all stages after reading. -/
theorem complete_eq (loader : AppLoader) (file : Path) (written : App) :
    loader.complete file written =
      (written.prune.fault? loader.store).elim
        (match (written.prune.completed loader.store).validate loader.taskMode with
          | .ok () => .ok (written.prune.completed loader.store)
          | .error violation => .error (.inFile "validating app config" file (.invalid violation)))
        (fun error => .error (.inFile "resolving includes of" file error)) := by
  rw [complete, App.resolve_value]
  cases written.prune.fault? loader.store with
  | some error => rfl
  | none => rfl

theorem complete_eq_ok {loader : AppLoader} {file : Path} {written app : App} :
    loader.complete file written = .ok app ↔
      written.prune.fault? loader.store = none ∧
        app = written.prune.completed loader.store ∧ app.Valid loader.taskMode := by
  rw [complete_eq]
  cases written.prune.fault? loader.store with
  | some error => simp
  | none =>
    rw [Option.elim_none]
    have hvalid : (written.prune.completed loader.store).validate loader.taskMode = .ok () ↔
        (written.prune.completed loader.store).Valid loader.taskMode := App.validate_eq_ok
    cases hcheck : (written.prune.completed loader.store).validate loader.taskMode with
    | error violation =>
      have hnot : ¬ (written.prune.completed loader.store).Valid loader.taskMode := by
        rw [← hvalid, hcheck]
        simp
      constructor
      · intro h
        cases h
      · rintro ⟨-, rfl, hcompleted⟩
        exact absurd hcompleted hnot
    | ok u =>
      constructor
      · intro h
        cases h
        exact ⟨rfl, rfl, hvalid.mp hcheck⟩
      · rintro ⟨-, rfl, -⟩
        rfl

theorem load_eq_complete {loader : AppLoader} {d : Disk} {file : Path} {written : App}
    (hread : ConfigFile.read App d file = .ok written) :
    loader.load d file = loader.complete file written := by
  rw [load, hread]
  rfl

end AppLoader

/-- **With a sound store an app is as valid as its own tasks are**, as far as names go together. -/
theorem IncludeStore.Sound.valid_completed_app {s : IncludeStore} (h : s.Sound)
    (hresolved : s.taskGroups.Holds fun g => ∀ t ∈ g.tasks, t.includes = [])
    (mode : TaskMode) (a : App) :
    (a.completed s).Valid mode ↔
      a.name ≠ "" ∧ (∀ t ∈ a.tasks, t.ValidIn s) ∧
        ((a.tasks ++ s.tasksOf a.includes).map Task.name).Nodup ∧
        (mode = .single → ∃ t, a.tasks ++ s.tasksOf a.includes = [t] ∧ t.name = "build") := by
  have htasks : (a.completed s).tasks =
      a.tasks.map (Task.completed s) ++ s.tasksOf a.includes := rfl
  have hnames : (a.completed s).tasks.map Task.name =
      (a.tasks ++ s.tasksOf a.includes).map Task.name := by
    rw [htasks, List.map_append, List.map_append, List.map_map]
    rfl
  -- Whether a list is one task of a name can be told from the names alone.
  have hsingle : (∃ t, (a.completed s).tasks = [t] ∧ t.name = "build") ↔
      ∃ t, a.tasks ++ s.tasksOf a.includes = [t] ∧ t.name = "build" := by
    rw [← List.map_eq_singleton_iff, ← List.map_eq_singleton_iff, hnames]
  constructor
  · intro hvalid
    obtain ⟨hname, -, -, ⟨heach, hnodup⟩, hmode⟩ := hvalid
    rw [htasks, List.forall_mem_append] at heach
    refine ⟨hname, fun t ht => ?_, hnames ▸ hnodup, fun hm => hsingle.mp (hmode hm)⟩
    exact h.valid_completed.mp (heach.1 _ (List.mem_map_of_mem ht))
  · intro hrules
    obtain ⟨hname, heach, hnodup, hmode⟩ := hrules
    refine ⟨hname, rfl, ?_, ⟨?_, hnames.symm ▸ hnodup⟩, fun hm => hsingle.mpr (hmode hm)⟩
    · rw [htasks, List.forall_mem_append]
      constructor
      · intro t ht
        obtain ⟨u, -, rfl⟩ := List.mem_map.mp ht
        rfl
      · intro t ht
        obtain ⟨id, -, g, hg, htg⟩ := IncludeStore.mem_tasksOf.mp ht
        exact hresolved.fragment? hg t htg
    · rw [htasks, List.forall_mem_append]
      constructor
      · intro t ht
        obtain ⟨u, hu, rfl⟩ := List.mem_map.mp ht
        exact h.valid_completed.mpr (heach u hu)
      · intro t ht
        obtain ⟨id, -, g, hg, htg⟩ := IncludeStore.mem_tasksOf.mp ht
        exact (h.taskGroups.fragment? hg).tasks.each t htg

/-- What an app has to keep to be loaded with a store. -/
structure App.LoadableWith (s : IncludeStore) (mode : TaskMode) (a : App) : Prop where
  name : a.name ≠ ""
  taskIncludes : ∀ t ∈ a.tasks, ∀ id ∈ t.includes,
    s.inputs.contains id = true ∨ s.outputs.contains id = true
  includes : ∀ id ∈ a.includes, s.taskGroups.contains id = true
  tasks : ∀ t ∈ a.tasks, t.ValidIn s
  names : ((a.tasks ++ s.tasksOf a.includes).map Task.name).Nodup
  single : mode = .single → ∃ t, a.tasks ++ s.tasksOf a.includes = [t] ∧ t.name = "build"

namespace AppLoader

/-- **The apps that load.**  With a loaded store, an app file loads exactly when what is written in
it, without blank outputs, is loadable with the store. -/
theorem exists_load_eq_ok_iff {d : Disk} {dirs : List Path} {s : IncludeStore}
    (hs : IncludeStore.load d dirs = .ok s) (mode : TaskMode) {appDisk : Disk} {file : Path}
    {written : App} (hread : ConfigFile.read App appDisk file = .ok written) :
    (∃ app, (AppLoader.mk s mode).load appDisk file = .ok app) ↔
      written.prune.LoadableWith s mode := by
  obtain ⟨hsound, hresolved⟩ := IncludeStore.sound_of_load hs
  have hfault := App.fault?_eq_none s (a := written.prune)
  have hvalid := hsound.valid_completed_app hresolved mode written.prune
  simp only [IncludeStore.knows, Bool.or_eq_true] at hfault
  rw [load_eq_complete hread]
  constructor
  · intro hloads
    obtain ⟨app, happ⟩ := hloads
    obtain ⟨hnone, rfl, happValid⟩ := complete_eq_ok.mp happ
    obtain ⟨htaskIncludes, hincludes⟩ := hfault.mp hnone
    obtain ⟨hname, htasks, hnames, hsingle⟩ := hvalid.mp happValid
    exact ⟨hname, htaskIncludes, hincludes, htasks, hnames, hsingle⟩
  · intro hloadable
    obtain ⟨hname, htaskIncludes, hincludes, htasks, hnames, hsingle⟩ := hloadable
    exact ⟨_, complete_eq_ok.mpr ⟨hfault.mpr ⟨htaskIncludes, hincludes⟩, rfl,
      hvalid.mpr ⟨hname, htasks, hnames, hsingle⟩⟩⟩

/-- What the app file of the sample disk holds. -/
def sampleApp : App where
  name := "a"
  includes := ["g"]
  tasks := [{
    name := "b"
    command := "c"
    includes := ["i"]
    input := { golangSources := { environment := ["E"] } } }]

/-- The task of the sample app sets an environment but no path: its include brings one along. -/
theorem exists_load_eq_ok_iff_sample :
    IncludeStore.load sampleDisk [⟨"inc"⟩] = .ok sampleStore ∧
      ConfigFile.read App sampleDisk ⟨"app.toml"⟩ = .ok sampleApp ∧
      (∃ app, (AppLoader.mk sampleStore .multiple).load sampleDisk ⟨"app.toml"⟩ = .ok app) ∧
      sampleApp.prune.LoadableWith sampleStore .multiple := by
  have hread : ConfigFile.read App sampleDisk ⟨"app.toml"⟩ = .ok sampleApp := by decide +kernel
  have hload : ∃ app,
      (AppLoader.mk sampleStore .multiple).load sampleDisk ⟨"app.toml"⟩ = .ok app := by
    rw [load_eq_complete hread]
    exact ⟨_, rfl⟩
  exact ⟨load_sampleDisk, hread, hload,
    (exists_load_eq_ok_iff load_sampleDisk .multiple hread).mp hload⟩

end AppLoader

end Monorepo
