import Monorepo.Proofs.Loading
import Monorepo.Proofs.Resolution

/-!
# Soundness of loaded stores

Include files are checked before their groups are resolved, and the groups are not checked again.
That the groups of a store are valid nevertheless rests on three facts:

* validity is kept by appending: `Input.Valid.append`, `Output.valid_append`;
* `IncludeStore.Sound` — every registered fragment is valid — is kept by registering a valid file
  (`IncludeBuilder.sound_register`), so it holds after any number of them
  (`IncludeBuilder.sound_registerAll`);
* completing a task appends fragments of a sound store only, so a valid task stays valid;
  `Sound.valid_completed` says exactly which tasks become so.

The main statement is about all stores that loading gives, `IncludeStore.load_all_valid`.
-/

namespace Monorepo

/-! ### Validity and appending -/

theorem append_ne_nil_iff {α : Type} {l l' : List α} : l ++ l' ≠ [] ↔ l ≠ [] ∨ l' ≠ [] := by
  rw [Ne, List.append_eq_nil_iff, not_and_or]

theorem Files.valid_append {f g : Files} : (f ++ g).Valid ↔ f.Valid ∧ g.Valid := by
  have hpaths : (f ++ g).paths = f.paths ++ g.paths := rfl
  constructor
  · intro h
    obtain ⟨hnonempty, hwildcards⟩ := h
    rw [hpaths, List.forall_mem_append] at hnonempty hwildcards
    exact ⟨⟨hnonempty.1, hwildcards.1⟩, ⟨hnonempty.2, hwildcards.2⟩⟩
  · intro h
    obtain ⟨hf, hg⟩ := h
    constructor
    · rw [hpaths, List.forall_mem_append]
      exact ⟨hf.nonempty, hg.nonempty⟩
    · rw [hpaths, List.forall_mem_append]
      exact ⟨hf.wildcards, hg.wildcards⟩

theorem GitFiles.valid_append {f g : GitFiles} : (f ++ g).Valid ↔ f.Valid ∧ g.Valid :=
  List.forall_mem_append

/-- What is appended brings its own paths along, so its environment asks for nothing; the paths may
serve an environment in front of it that has none. -/
theorem GolangSources.valid_append {s t : GolangSources} (ht : t.Valid) :
    (s ++ t).Valid ↔ (∀ path ∈ s.paths, path ≠ "") ∧
      (s.environment ≠ [] → s.paths ≠ [] ∨ t.paths ≠ []) := by
  have hpaths : (s ++ t).paths = s.paths ++ t.paths := rfl
  have henvironment : (s ++ t).environment = s.environment ++ t.environment := rfl
  constructor
  · intro hvalid
    obtain ⟨hnonempty, hdiscovery⟩ := hvalid
    rw [hpaths, List.forall_mem_append] at hnonempty
    refine ⟨hnonempty.1, fun hset => ?_⟩
    rw [← append_ne_nil_iff, ← hpaths]
    apply hdiscovery
    rw [henvironment, append_ne_nil_iff]
    exact Or.inl hset
  · intro hrules
    obtain ⟨hnonempty, hdiscovery⟩ := hrules
    constructor
    · rw [hpaths, List.forall_mem_append]
      exact ⟨hnonempty, ht.nonempty⟩
    · rw [hpaths, henvironment, append_ne_nil_iff, append_ne_nil_iff]
      rintro (hset | hset)
      · exact hdiscovery hset
      · exact Or.inr (ht.discovery hset)

theorem Input.valid_append {i j : Input} (hj : j.Valid) :
    (i ++ j).Valid ↔ i.files.Valid ∧ i.gitFiles.Valid ∧
      (∀ path ∈ i.golangSources.paths, path ≠ "") ∧
      (i.golangSources.environment ≠ [] →
        i.golangSources.paths ≠ [] ∨ j.golangSources.paths ≠ []) := by
  rw [← GolangSources.valid_append hj.golangSources]
  constructor
  · intro hvalid
    obtain ⟨hfiles, hgitFiles, hgolangSources⟩ := hvalid
    exact ⟨(Files.valid_append.mp hfiles).1, (GitFiles.valid_append.mp hgitFiles).1,
      hgolangSources⟩
  · intro hrules
    obtain ⟨hfiles, hgitFiles, hgolangSources⟩ := hrules
    exact ⟨Files.valid_append.mpr ⟨hfiles, hj.files⟩,
      GitFiles.valid_append.mpr ⟨hgitFiles, hj.gitFiles⟩, hgolangSources⟩

theorem Input.Valid.append {i j : Input} (hi : i.Valid) (hj : j.Valid) : (i ++ j).Valid :=
  (Input.valid_append hj).mpr ⟨hi.files, hi.gitFiles, hi.golangSources.nonempty,
    fun hset => Or.inl (hi.golangSources.discovery hset)⟩

theorem Input.valid_empty : Input.Valid {} :=
  Input.validate_eq_ok.mp rfl

theorem Output.valid_append {o p : Output} : (o ++ p).Valid ↔ o.Valid ∧ p.Valid := by
  have hfiles : (o ++ p).files = o.files ++ p.files := rfl
  have hdockerImages : (o ++ p).dockerImages = o.dockerImages ++ p.dockerImages := rfl
  constructor
  · intro h
    obtain ⟨hf, hd⟩ := h
    rw [hfiles, List.forall_mem_append] at hf
    rw [hdockerImages, List.forall_mem_append] at hd
    exact ⟨⟨hf.1, hd.1⟩, ⟨hf.2, hd.2⟩⟩
  · intro h
    obtain ⟨ho, hp⟩ := h
    constructor
    · rw [hfiles, List.forall_mem_append]
      exact ⟨ho.files, hp.files⟩
    · rw [hdockerImages, List.forall_mem_append]
      exact ⟨ho.dockerImages, hp.dockerImages⟩

theorem Output.valid_empty : Output.Valid {} :=
  Output.validate_eq_ok.mp rfl

/-! ### Sound stores -/

namespace IncludeStore

/-- Every fragment is valid. -/
structure Sound (s : IncludeStore) : Prop where
  inputs : s.inputs.Holds InputFragment.Valid
  outputs : s.outputs.Holds OutputFragment.Valid
  taskGroups : s.taskGroups.Holds TaskGroup.Valid

variable {s : IncludeStore}

theorem Sound.empty : Sound {} :=
  ⟨Catalog.Holds.empty _, Catalog.Holds.empty _, Catalog.Holds.empty _⟩

theorem Sound.inputOf_valid (h : s.Sound) (id : String) : (s.inputOf id).Valid := by
  rw [inputOf]
  cases hid : s.inputs.fragment? id with
  | none => exact Input.valid_empty
  | some f => exact (h.inputs.fragment? hid).input

theorem Sound.outputOf_valid (h : s.Sound) (id : String) : (s.outputOf id).Valid := by
  rw [outputOf]
  split_ifs with hinput
  · exact Output.valid_empty
  · cases hid : s.outputs.fragment? id with
    | none => exact Output.valid_empty
    | some f => exact (h.outputs.fragment? hid).output

theorem Sound.inputsOf_valid (h : s.Sound) (ids : List String) : (s.inputsOf ids).Valid := by
  induction ids with
  | nil => exact Input.valid_empty
  | cons id rest ih => exact (h.inputOf_valid id).append ih

theorem Sound.outputsOf_valid (h : s.Sound) (ids : List String) : (s.outputsOf ids).Valid := by
  induction ids with
  | nil => exact Output.valid_empty
  | cons id rest ih => exact Output.valid_append.mpr ⟨h.outputOf_valid id, ih⟩

/-- Ids bring a path for the discovery of Go programs along exactly when one of them does. -/
theorem inputsOf_golangPaths_ne_nil {ids : List String} :
    (s.inputsOf ids).golangSources.paths ≠ [] ↔
      ∃ id ∈ ids, ∃ f, s.inputs.fragment? id = some f ∧ f.input.golangSources.paths ≠ [] := by
  have hone : ∀ id, (s.inputOf id).golangSources.paths ≠ [] ↔
      ∃ f, s.inputs.fragment? id = some f ∧ f.input.golangSources.paths ≠ [] := by
    intro id
    rw [inputOf]
    cases s.inputs.fragment? id with
    | none => simp
    | some f => simp
  induction ids with
  | nil => simp [inputsOf]
  | cons id rest ih =>
    have hpaths : (s.inputsOf (id :: rest)).golangSources.paths =
      (s.inputOf id).golangSources.paths ++ (s.inputsOf rest).golangSources.paths := rfl
    rw [hpaths, append_ne_nil_iff, List.exists_mem_cons_iff]
    exact or_congr (hone id) ih

end IncludeStore

/-- The rules of a task that is still to be completed.  They are those of its own sections, but for
the paths that an environment asks for: they may come from an input that it includes. -/
structure Task.ValidIn (s : IncludeStore) (t : Task) : Prop where
  name : t.name ≠ ""
  command : t.command ≠ ""
  files : t.input.files.Valid
  gitFiles : t.input.gitFiles.Valid
  golangPaths : ∀ path ∈ t.input.golangSources.paths, path ≠ ""
  discovery : t.input.golangSources.environment ≠ [] →
    t.input.golangSources.paths ≠ [] ∨
      ∃ id ∈ t.includes, ∃ f, s.inputs.fragment? id = some f ∧ f.input.golangSources.paths ≠ []
  output : t.output.Valid

namespace IncludeStore.Sound

variable {s : IncludeStore}

/-- **What a sound store appends can not break a task.**  It is valid once it is complete exactly
when it keeps the rules of a task to be completed. -/
theorem valid_completed (h : s.Sound) {t : Task} : (t.completed s).Valid ↔ t.ValidIn s := by
  have hinput := Input.valid_append (i := t.input) (h.inputsOf_valid t.includes)
  rw [IncludeStore.inputsOf_golangPaths_ne_nil] at hinput
  constructor
  · intro hvalid
    obtain ⟨hname, hcommand, hin, hout⟩ := hvalid
    obtain ⟨hfiles, hgitFiles, hgolangPaths, hdiscovery⟩ := hinput.mp hin
    exact ⟨hname, hcommand, hfiles, hgitFiles, hgolangPaths, hdiscovery,
      (Output.valid_append.mp hout).1⟩
  · intro hrules
    obtain ⟨hname, hcommand, hfiles, hgitFiles, hgolangPaths, hdiscovery, hout⟩ := hrules
    exact ⟨hname, hcommand, hinput.mpr ⟨hfiles, hgitFiles, hgolangPaths, hdiscovery⟩,
      Output.valid_append.mpr ⟨hout, h.outputsOf_valid t.includes⟩⟩

theorem completed_task (h : s.Sound) {t : Task} (ht : t.Valid) : (t.completed s).Valid :=
  h.valid_completed.mpr ⟨ht.name, ht.command, ht.input.files, ht.input.gitFiles,
    ht.input.golangSources.nonempty, fun hset => Or.inl (ht.input.golangSources.discovery hset),
    ht.output⟩

theorem completed_group (h : s.Sound) {g : TaskGroup} (hg : g.Valid) :
    (g.completed s).Valid := by
  refine ⟨hg.id, ?_, ?_, ?_⟩
  · simpa [TaskGroup.completed] using hg.defined
  · intro t ht
    obtain ⟨u, hu, rfl⟩ := List.mem_map.mp ht
    exact h.completed_task (hg.tasks.each u hu)
  · have hnames : (g.completed s).tasks.map Task.name = g.tasks.map Task.name := by
      simp only [TaskGroup.completed, List.map_map]
      rfl
    rw [hnames]
    exact hg.tasks.names

end IncludeStore.Sound

/-! ### From files to stores -/

namespace IncludeBuilder

/-- Registering a valid file keeps a store sound. -/
theorem sound_register {b : IncludeBuilder} (h : b.registered.Sound) {f : IncludeFile}
    (hf : f.Valid) (origin : Path) : (b.register f origin).registered.Sound :=
  ⟨h.inputs.insertAll _ _ hf.inputs, h.outputs.insertAll _ _ hf.outputs,
    h.taskGroups.insertAll _ _ hf.taskGroups⟩

theorem sound_registerAll {b : IncludeBuilder} (h : b.registered.Sound)
    {files : List (IncludeFile × Path)} (hfiles : ∀ file ∈ files, file.1.Valid) :
    (b.registerAll files).registered.Sound := by
  induction files generalizing b with
  | nil => exact h
  | cons file rest ih =>
    rw [List.forall_mem_cons] at hfiles
    exact ih (sound_register h hfiles.1 file.2) hfiles.2

/-- Building keeps a store sound and leaves no id in its groups to be resolved. -/
theorem sound_build {b : IncludeBuilder} (h : b.registered.Sound) {s : IncludeStore}
    (hs : b.build = .ok s) :
    s.Sound ∧ s.taskGroups.Holds fun g => ∀ t ∈ g.tasks, t.includes = [] := by
  obtain ⟨-, rfl⟩ := build_eq_ok.mp hs
  refine ⟨⟨h.inputs, h.outputs, h.taskGroups.mapFragments fun g hg => h.completed_group hg⟩, ?_⟩
  refine h.taskGroups.mapFragments fun g _ t ht => ?_
  obtain ⟨u, -, rfl⟩ := List.mem_map.mp ht
  rfl

end IncludeBuilder

namespace IncludeStore

theorem sound_of_load {d : Disk} {dirs : List Path} {s : IncludeStore}
    (hs : IncludeStore.load d dirs = .ok s) :
    s.Sound ∧ s.taskGroups.Holds fun g => ∀ t ∈ g.tasks, t.includes = [] := by
  obtain ⟨-, held, b, hheld, hadd, hbuild⟩ := load_eq_ok.mp hs
  obtain ⟨-, rfl⟩ := IncludeBuilder.addAll_empty_eq_ok.mp hadd
  exact IncludeBuilder.sound_build (IncludeBuilder.sound_registerAll Sound.empty hheld.valid) hbuild

/-- **All that a loaded store holds is valid**, also the groups, which were checked before their
tasks were completed: no task of a group has an id left to resolve, and no output is blank. -/
theorem load_all_valid {d : Disk} {dirs : List Path} {s : IncludeStore}
    (hs : IncludeStore.load d dirs = .ok s) :
    s.taskGroups.Holds (fun g => (∀ t ∈ g.tasks, t.includes = []) ∧ g.validate = .ok ()) ∧
      s.inputs.Holds (fun f => f.validate = .ok ()) ∧
      s.outputs.Holds (fun f => f.validate = .ok () ∧
        (∀ o ∈ f.output.files, o.isEmpty = false) ∧
        ∀ i ∈ f.output.dockerImages, i.isEmpty = false) := by
  obtain ⟨hsound, hresolved⟩ := sound_of_load hs
  refine ⟨fun e he => ⟨hresolved e he, ?_⟩, fun e he => ?_, fun e he => ⟨?_, ?_, ?_⟩⟩
  · exact TaskGroup.validate_eq_ok.mpr (hsound.taskGroups e he)
  · exact InputFragment.validate_eq_ok.mpr (hsound.inputs e he)
  · exact OutputFragment.validate_eq_ok.mpr (hsound.outputs e he)
  · exact fun o ho => ((hsound.outputs e he).output.files o ho).not_isEmpty
  · exact fun i hi => ((hsound.outputs e he).output.dockerImages i hi).not_isEmpty

theorem load_all_valid_sample : IncludeStore.load sampleDisk [⟨"inc"⟩] = .ok sampleStore ∧
    sampleStore.taskGroups.Holds (fun g => (∀ t ∈ g.tasks, t.includes = []) ∧
      g.validate = .ok ()) ∧
    sampleStore.inputs.Holds (fun f => f.validate = .ok ()) ∧
    sampleStore.outputs.Holds (fun f => f.validate = .ok () ∧
      (∀ o ∈ f.output.files, o.isEmpty = false) ∧
      ∀ i ∈ f.output.dockerImages, i.isEmpty = false) :=
  ⟨load_sampleDisk, load_all_valid load_sampleDisk⟩

end IncludeStore

end Monorepo
