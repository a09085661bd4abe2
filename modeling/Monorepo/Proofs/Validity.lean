import Mathlib.Data.List.Nodup
import Monorepo.Model.Include
import Monorepo.Proofs.Check

/-!
# What a valid configuration is

The checks of the model stop at the first violation, one nested in another.  This module says without
any order what they hold a value to:

* `Input.isEmpty_iff`, `Output.isEmpty_iff` — a section is blank exactly when it is the default;
* `Input.Valid`, `Output.Valid`, `Task.Valid` — the rules of one task, section by section;
* `Task.AllValid` — the rules of a list of tasks: each is valid and no two share a name;
* `InputFragment.Valid`, `OutputFragment.Valid`, `TaskGroup.Valid`, `IncludeFile.Valid`,
  `App.Valid` — the rules of what stands in a file.

Each comes with a lemma `validate_eq_ok`: the check succeeds exactly on the valid values, and
`accepted_iff_rules` spells out what that means for a whole file.  The only rule that is not read
off its check is the one on `**`: the check counts occurrences from the start of a pattern, and
`two_le_wildcardCount` says that the count reaches two exactly when two occurrences stand apart
anywhere in the pattern.
-/

namespace Monorepo

/-! ### Patterns with separate wildcards -/

/-- Two occurrences of `**` that share no character. -/
def TwoWildcards (pattern : List Char) : Prop :=
  ∃ before between after, pattern = before ++ ['*', '*'] ++ between ++ ['*', '*'] ++ after

theorem wildcardCount_wildcard (cs : List Char) :
    wildcardCount ('*' :: '*' :: cs) = wildcardCount cs + 1 := by
  simp [wildcardCount]

/-- One more character in front changes the count by at most one, and never lowers it.  The two
bounds are proved together: a wildcard that the new character completes may break up the one that
was counted first. -/
theorem wildcardCount_cons_bounds (c : Char) (cs : List Char) :
    wildcardCount cs ≤ wildcardCount (c :: cs) ∧
      wildcardCount (c :: cs) ≤ wildcardCount cs + 1 := by
  induction cs generalizing c with
  | nil => simp [wildcardCount]
  | cons b rest ih =>
    have hb := ih b
    by_cases h : c = '*' ∧ b = '*'
    · rw [wildcardCount, if_pos h]
      omega
    · rw [wildcardCount, if_neg h]
      omega

theorem wildcardCount_le_append (before cs : List Char) :
    wildcardCount cs ≤ wildcardCount (before ++ cs) := by
  induction before with
  | nil => simp
  | cons c rest ih => exact Nat.le_trans ih (wildcardCount_cons_bounds c (rest ++ cs)).1

theorem exists_wildcard_of_pos {cs : List Char} (h : 1 ≤ wildcardCount cs) :
    ∃ before after, cs = before ++ ['*', '*'] ++ after := by
  fun_induction wildcardCount cs with
  | case1 => omega
  | case2 => omega
  | case3 a b rest hab ih =>
    obtain ⟨rfl, rfl⟩ := hab
    exact ⟨[], rest, rfl⟩
  | case4 a b rest hab ih =>
    obtain ⟨before, after, hsplit⟩ := ih h
    exact ⟨a :: before, after, by simp [hsplit]⟩

theorem twoWildcards_of_count {cs : List Char} (h : 2 ≤ wildcardCount cs) : TwoWildcards cs := by
  fun_induction wildcardCount cs with
  | case1 => omega
  | case2 => omega
  | case3 a b rest hab ih =>
    obtain ⟨rfl, rfl⟩ := hab
    have hrest : 1 ≤ wildcardCount rest := by omega
    obtain ⟨between, after, hsplit⟩ := exists_wildcard_of_pos hrest
    exact ⟨[], between, after, by simp [hsplit]⟩
  | case4 a b rest hab ih =>
    obtain ⟨before, between, after, hsplit⟩ := ih h
    exact ⟨a :: before, between, after, by simp [hsplit]⟩

/-- **Counting from the start misses nothing.**  The count of a pattern reaches two exactly when two
separate wildcards stand in it. -/
theorem two_le_wildcardCount {cs : List Char} : 2 ≤ wildcardCount cs ↔ TwoWildcards cs := by
  refine ⟨twoWildcards_of_count, ?_⟩
  intro h
  obtain ⟨before, between, after, rfl⟩ := h
  have hlast : 1 ≤ wildcardCount (['*', '*'] ++ after) := by
    simp [wildcardCount_wildcard]
  have hboth : 2 ≤ wildcardCount (['*', '*'] ++ (between ++ (['*', '*'] ++ after))) := by
    have hskip := wildcardCount_le_append between (['*', '*'] ++ after)
    simp only [List.cons_append, List.nil_append, wildcardCount_wildcard] at hskip hlast ⊢
    omega
  calc 2 ≤ wildcardCount (['*', '*'] ++ (between ++ (['*', '*'] ++ after))) := hboth
    _ ≤ wildcardCount (before ++ (['*', '*'] ++ (between ++ (['*', '*'] ++ after)))) :=
      wildcardCount_le_append before _
    _ = wildcardCount (before ++ ['*', '*'] ++ between ++ ['*', '*'] ++ after) := by
      simp only [List.append_assoc]

/-! ### Blank sections -/

theorem Files.isEmpty_iff {f : Files} : f.isEmpty = true ↔ f = {} := by
  obtain ⟨paths⟩ := f
  simp [isEmpty]

theorem GitFiles.isEmpty_iff {f : GitFiles} : f.isEmpty = true ↔ f = {} := by
  obtain ⟨paths⟩ := f
  simp [isEmpty]

theorem GolangSources.isEmpty_iff {s : GolangSources} : s.isEmpty = true ↔ s = {} := by
  obtain ⟨environment, paths⟩ := s
  simp [isEmpty]

theorem Input.isEmpty_iff {i : Input} : i.isEmpty = true ↔ i = {} := by
  obtain ⟨files, gitFiles, golangSources⟩ := i
  simp [isEmpty, Files.isEmpty_iff, GitFiles.isEmpty_iff, GolangSources.isEmpty_iff, and_assoc]

theorem FileCopy.isEmpty_iff {c : FileCopy} : c.isEmpty = true ↔ c = {} := by
  obtain ⟨path⟩ := c
  simp [isEmpty]

theorem S3Upload.isEmpty_iff {u : S3Upload} : u.isEmpty = true ↔ u = {} := by
  obtain ⟨bucket, destFile⟩ := u
  simp [isEmpty]

theorem RegistryUpload.isEmpty_iff {u : RegistryUpload} : u.isEmpty = true ↔ u = {} := by
  obtain ⟨repository, tag⟩ := u
  simp [isEmpty]

theorem Output.isEmpty_iff {o : Output} : o.isEmpty = true ↔ o = {} := by
  obtain ⟨dockerImages, files⟩ := o
  simp [isEmpty]

/-! ### Inputs -/

/-- Every pattern says something and holds no two separate wildcards. -/
structure Files.Valid (f : Files) : Prop where
  nonempty : ∀ pattern ∈ f.paths, pattern ≠ ""
  wildcards : ∀ pattern ∈ f.paths, ¬ TwoWildcards pattern.toList

/-- Every pattern says something. -/
def GitFiles.Valid (f : GitFiles) : Prop :=
  ∀ pattern ∈ f.paths, pattern ≠ ""

/-- Every path says something, and there is one where an environment is set. -/
structure GolangSources.Valid (s : GolangSources) : Prop where
  nonempty : ∀ path ∈ s.paths, path ≠ ""
  discovery : s.environment ≠ [] → s.paths ≠ []

structure Input.Valid (i : Input) : Prop where
  files : i.files.Valid
  gitFiles : i.gitFiles.Valid
  golangSources : i.golangSources.Valid

theorem Files.validate_eq_ok {f : Files} : f.validate = .ok () ↔ f.Valid := by
  have hpattern : ∀ pattern, checkPattern pattern = .ok () ↔
      pattern ≠ "" ∧ ¬ TwoWildcards pattern.toList := by
    intro pattern
    have hcount : wildcardCount pattern.toList ≤ 1 ↔ ¬ TwoWildcards pattern.toList := by
      rw [← two_le_wildcardCount]
      omega
    simp only [checkPattern, Check.bind_eq_ok, Check.require_eq_ok, decide_eq_true_eq, hcount]
  simp only [validate, Check.each_eq_ok, hpattern]
  exact ⟨fun h => ⟨fun p hp => (h p hp).1, fun p hp => (h p hp).2⟩,
    fun h p hp => ⟨h.nonempty p hp, h.wildcards p hp⟩⟩

theorem GitFiles.validate_eq_ok {f : GitFiles} : f.validate = .ok () ↔ f.Valid := by
  simp [validate, Valid]

theorem GolangSources.validate_eq_ok {s : GolangSources} : s.validate = .ok () ↔ s.Valid := by
  have hdiscovery : (s.environment.isEmpty || !s.paths.isEmpty) = true ↔
      (s.environment ≠ [] → s.paths ≠ []) := by
    cases s.environment <;> cases s.paths <;> simp
  have hnonempty : s.paths.all (· ≠ "") = true ↔ ∀ path ∈ s.paths, path ≠ "" := by
    simp
  simp only [validate, Check.bind_eq_ok, Check.require_eq_ok, hdiscovery, hnonempty]
  exact ⟨fun h => ⟨h.2, h.1⟩, fun h => ⟨h.discovery, h.nonempty⟩⟩

theorem Input.validate_eq_ok {i : Input} : i.validate = .ok () ↔ i.Valid := by
  simp only [validate, Check.bind_eq_ok, Check.within_eq_ok, Files.validate_eq_ok,
    GitFiles.validate_eq_ok, GolangSources.validate_eq_ok]
  exact ⟨fun h => ⟨h.1, h.2.1, h.2.2⟩, fun h => ⟨h.files, h.gitFiles, h.golangSources⟩⟩

/-! ### Outputs -/

/-- Both fields are set or none is. -/
def S3Upload.Valid (u : S3Upload) : Prop :=
  u.bucket = "" ↔ u.destFile = ""

/-- Both fields are set or none is. -/
def RegistryUpload.Valid (u : RegistryUpload) : Prop :=
  u.repository = "" ↔ u.tag = ""

structure FileOutput.Valid (f : FileOutput) : Prop where
  path : f.path ≠ ""
  s3Upload : f.s3Upload.Valid

structure DockerImage.Valid (d : DockerImage) : Prop where
  idfile : d.idfile ≠ ""
  registryUpload : d.registryUpload.Valid

structure Output.Valid (o : Output) : Prop where
  files : ∀ f ∈ o.files, f.Valid
  dockerImages : ∀ d ∈ o.dockerImages, d.Valid

theorem S3Upload.validate_eq_ok {u : S3Upload} : u.validate = .ok () ↔ u.Valid := by
  by_cases hb : u.bucket = "" <;> by_cases hd : u.destFile = "" <;>
    simp [validate, isEmpty, Check.isSet, Valid, hb, hd]

theorem RegistryUpload.validate_eq_ok {u : RegistryUpload} : u.validate = .ok () ↔ u.Valid := by
  by_cases hr : u.repository = "" <;> by_cases ht : u.tag = "" <;>
    simp [validate, isEmpty, Check.isSet, Valid, hr, ht]

theorem FileOutput.validate_eq_ok {f : FileOutput} : f.validate = .ok () ↔ f.Valid := by
  simp only [validate, Check.isSet, Check.bind_eq_ok, Check.require_eq_ok, Check.within_eq_ok,
    S3Upload.validate_eq_ok, decide_eq_true_eq]
  exact ⟨fun h => ⟨h.1, h.2⟩, fun h => ⟨h.path, h.s3Upload⟩⟩

theorem DockerImage.validate_eq_ok {d : DockerImage} : d.validate = .ok () ↔ d.Valid := by
  simp only [validate, Check.isSet, Check.bind_eq_ok, Check.require_eq_ok, Check.within_eq_ok,
    RegistryUpload.validate_eq_ok, decide_eq_true_eq]
  exact ⟨fun h => ⟨h.1, h.2⟩, fun h => ⟨h.idfile, h.registryUpload⟩⟩

theorem Output.validate_eq_ok {o : Output} : o.validate = .ok () ↔ o.Valid := by
  simp only [validate, Check.bind_eq_ok, Check.each_eq_ok, Check.within_eq_ok,
    FileOutput.validate_eq_ok, DockerImage.validate_eq_ok]
  exact ⟨fun h => ⟨h.1, h.2⟩, fun h => ⟨h.files, h.dockerImages⟩⟩

/-- A valid entry says where it comes from, so it is not blank. -/
theorem FileOutput.Valid.not_isEmpty {f : FileOutput} (h : f.Valid) : f.isEmpty = false := by
  simp [isEmpty, h.path]

theorem DockerImage.Valid.not_isEmpty {d : DockerImage} (h : d.Valid) : d.isEmpty = false := by
  simp [isEmpty, h.idfile]

/-- Nothing is left to drop from valid outputs. -/
theorem Output.Valid.prune_eq {o : Output} (h : o.Valid) : o.prune = o := by
  have hd : o.dockerImages.filter (!·.isEmpty) = o.dockerImages :=
    List.filter_eq_self.mpr fun d hd => by simp [(h.dockerImages d hd).not_isEmpty]
  have hf : o.files.filter (!·.isEmpty) = o.files :=
    List.filter_eq_self.mpr fun f hf => by simp [(h.files f hf).not_isEmpty]
  rw [prune, hd, hf]

/-! ### Tasks -/

structure Task.Valid (t : Task) : Prop where
  name : t.name ≠ ""
  command : t.command ≠ ""
  input : t.input.Valid
  output : t.output.Valid

theorem Task.validate_eq_ok {t : Task} : t.validate = .ok () ↔ t.Valid := by
  simp only [validate, Check.bind_eq_ok, Check.require_eq_ok, Check.within_eq_ok,
    Input.validate_eq_ok, Output.validate_eq_ok, decide_eq_true_eq]
  exact ⟨fun h => ⟨h.1, h.2.1, h.2.2.1, h.2.2.2⟩, fun h => ⟨h.name, h.command, h.input, h.output⟩⟩

/-- Each task is valid and no two have one name. -/
structure Task.AllValid (tasks : List Task) : Prop where
  each : ∀ t ∈ tasks, t.Valid
  names : (tasks.map Task.name).Nodup

/-- The names seen before count as if their tasks stood in front of the list.  A task without a name
passes the test for duplicates, but not its own check, so it makes no exception. -/
theorem Task.validateAfter_eq_ok {seen : List String} {tasks : List Task} :
    validateAfter seen tasks = .ok () ↔
      AllValid tasks ∧ ∀ t ∈ tasks, t.name ∉ seen := by
  induction tasks generalizing seen with
  | nil =>
    simp only [validateAfter, true_iff]
    exact ⟨⟨by simp, by simp⟩, by simp⟩
  | cons t rest ih =>
    simp only [validateAfter, Check.bind_eq_ok, Check.require_eq_ok, Check.within_eq_ok,
      Task.validate_eq_ok, ih, Bool.or_eq_true, decide_eq_true_eq, Bool.not_eq_true',
      List.contains_eq_mem, decide_eq_false_iff_not, List.mem_cons, not_or]
    constructor
    · intro h
      obtain ⟨hseen, ht, ⟨heach, hnames⟩, hrest⟩ := h
      refine ⟨⟨?_, ?_⟩, ?_⟩
      · intro u hu
        rcases List.mem_cons.mp hu with rfl | hu
        · exact ht
        · exact heach u hu
      · rw [List.map_cons, List.nodup_cons]
        refine ⟨?_, hnames⟩
        intro hmem
        obtain ⟨u, hu, hname⟩ := List.mem_map.mp hmem
        exact (hrest u hu).1 hname
      · rintro u (rfl | hu)
        · exact hseen.resolve_left ht.name
        · exact (hrest u hu).2
    · intro h
      obtain ⟨⟨heach, hnames⟩, hseen⟩ := h
      rw [List.map_cons, List.nodup_cons] at hnames
      refine ⟨Or.inr (hseen t (Or.inl rfl)), heach t List.mem_cons_self,
        ⟨fun u hu => heach u (List.mem_cons_of_mem t hu), hnames.2⟩, ?_⟩
      intro u hu
      refine ⟨?_, hseen u (Or.inr hu)⟩
      intro hname
      exact hnames.1 (List.mem_map.mpr ⟨u, hu, hname⟩)

theorem Task.validateAll_eq_ok {tasks : List Task} :
    validateAll tasks = .ok () ↔ AllValid tasks := by
  simp [validateAll, validateAfter_eq_ok]

/-! ### Fragments and include files -/

structure InputFragment.Valid (f : InputFragment) : Prop where
  id : f.id ≠ ""
  defined : f.input ≠ {}
  input : f.input.Valid

structure OutputFragment.Valid (f : OutputFragment) : Prop where
  id : f.id ≠ ""
  defined : f.output ≠ {}
  output : f.output.Valid

structure TaskGroup.Valid (g : TaskGroup) : Prop where
  id : g.id ≠ ""
  defined : g.tasks ≠ []
  tasks : Task.AllValid g.tasks

structure IncludeFile.Valid (f : IncludeFile) : Prop where
  defined : f ≠ {}
  inputs : ∀ i ∈ f.inputs, i.Valid
  outputs : ∀ o ∈ f.outputs, o.Valid
  taskGroups : ∀ g ∈ f.taskGroups, g.Valid

theorem Check.hasId_eq_ok {id : String} : hasId id = .ok () ↔ id ≠ "" := by
  simp [hasId]

theorem Input.isEmpty_eq_false {i : Input} : i.isEmpty = false ↔ i ≠ {} := by
  rw [← Bool.not_eq_true, isEmpty_iff]

theorem Output.isEmpty_eq_false {o : Output} : o.isEmpty = false ↔ o ≠ {} := by
  rw [← Bool.not_eq_true, isEmpty_iff]

theorem IncludeFile.isEmpty_eq_false {f : IncludeFile} : f.isEmpty = false ↔ f ≠ {} := by
  obtain ⟨inputs, outputs, taskGroups⟩ := f
  cases inputs <;> cases outputs <;> cases taskGroups <;> simp [isEmpty]

theorem InputFragment.validate_eq_ok {f : InputFragment} : f.validate = .ok () ↔ f.Valid := by
  simp only [validate, Check.bind_eq_ok, Check.hasId_eq_ok, Check.require_eq_ok,
    Input.validate_eq_ok, Bool.not_eq_true', Input.isEmpty_eq_false]
  exact ⟨fun h => ⟨h.1, h.2.1, h.2.2⟩, fun h => ⟨h.id, h.defined, h.input⟩⟩

theorem OutputFragment.validate_eq_ok {f : OutputFragment} : f.validate = .ok () ↔ f.Valid := by
  simp only [validate, Check.bind_eq_ok, Check.hasId_eq_ok, Check.require_eq_ok,
    Output.validate_eq_ok, Bool.not_eq_true', Output.isEmpty_eq_false]
  exact ⟨fun h => ⟨h.1, h.2.1, h.2.2⟩, fun h => ⟨h.id, h.defined, h.output⟩⟩

theorem TaskGroup.validate_eq_ok {g : TaskGroup} : g.validate = .ok () ↔ g.Valid := by
  simp only [validate, Check.bind_eq_ok, Check.hasId_eq_ok, Check.require_eq_ok,
    Task.validateAll_eq_ok, Bool.not_eq_true', List.isEmpty_eq_false_iff]
  exact ⟨fun h => ⟨h.1, h.2.1, h.2.2⟩, fun h => ⟨h.id, h.defined, h.tasks⟩⟩

theorem IncludeFile.validate_eq_ok {f : IncludeFile} : f.validate = .ok () ↔ f.Valid := by
  simp only [validate, Check.bind_eq_ok, Check.require_eq_ok, Check.each_eq_ok,
    Check.within_eq_ok, InputFragment.validate_eq_ok, OutputFragment.validate_eq_ok,
    TaskGroup.validate_eq_ok, Bool.not_eq_true', IncludeFile.isEmpty_eq_false]
  exact ⟨fun h => ⟨h.1, h.2.1, h.2.2.1, h.2.2.2⟩,
    fun h => ⟨h.defined, h.inputs, h.outputs, h.taskGroups⟩⟩

/-! ### Apps -/

/-- The rules of an app whose includes were resolved. -/
structure App.Valid (mode : TaskMode) (a : App) : Prop where
  name : a.name ≠ ""
  includes : a.includes = []
  taskIncludes : ∀ t ∈ a.tasks, t.includes = []
  tasks : Task.AllValid a.tasks
  single : mode = .single → ∃ t, a.tasks = [t] ∧ t.name = "build"

theorem App.checkMode_eq_ok {mode : TaskMode} {tasks : List Task} :
    checkMode mode tasks = .ok () ↔
      (mode = .single → ∃ t, tasks = [t] ∧ t.name = "build") := by
  have hname : "build" = singleTaskName := rfl
  match mode, tasks with
  | .multiple, _ => simp [checkMode]
  | .single, [] => simp [checkMode, checkSingle]
  | .single, [t] => simp [checkMode, checkSingle, hname]
  | .single, t :: u :: rest => simp [checkMode, checkSingle]

theorem App.validate_eq_ok {mode : TaskMode} {a : App} :
    a.validate mode = .ok () ↔ a.Valid mode := by
  simp only [validate, checkTaskIncludes, Check.bind_eq_ok, Check.require_eq_ok,
    Check.each_eq_ok, checkMode_eq_ok, Task.validateAll_eq_ok, decide_eq_true_eq,
    List.isEmpty_iff]
  exact ⟨fun h => ⟨h.1, h.2.1, h.2.2.1, h.2.2.2.2, h.2.2.2.1⟩,
    fun h => ⟨h.name, h.includes, h.taskIncludes, h.single, h.tasks⟩⟩

/-! ### What the checks accept -/

theorem IncludeFile.ne_empty_iff {f : IncludeFile} :
    f ≠ {} ↔ f.inputs ≠ [] ∨ f.outputs ≠ [] ∨ f.taskGroups ≠ [] := by
  obtain ⟨inputs, outputs, taskGroups⟩ := f
  simp only [ne_eq, IncludeFile.mk.injEq, not_and_or]

theorem InputFragment.valid_iff {f : InputFragment} :
    f.Valid ↔ f.id ≠ "" ∧ f.input ≠ {} ∧ f.input.Valid :=
  ⟨fun h => ⟨h.id, h.defined, h.input⟩, fun h => ⟨h.1, h.2.1, h.2.2⟩⟩

theorem OutputFragment.valid_iff {f : OutputFragment} :
    f.Valid ↔ f.id ≠ "" ∧ (f.output.files ≠ [] ∨ f.output.dockerImages ≠ []) ∧ f.output.Valid := by
  have hdefined : f.output ≠ {} ↔ f.output.files ≠ [] ∨ f.output.dockerImages ≠ [] := by
    obtain ⟨dockerImages, files⟩ := f.output
    simp only [ne_eq, Output.mk.injEq, not_and_or, or_comm]
  rw [← hdefined]
  exact ⟨fun h => ⟨h.id, h.defined, h.output⟩, fun h => ⟨h.1, h.2.1, h.2.2⟩⟩

theorem TaskGroup.valid_iff {g : TaskGroup} :
    g.Valid ↔ g.id ≠ "" ∧ g.tasks ≠ [] ∧ Task.AllValid g.tasks :=
  ⟨fun h => ⟨h.id, h.defined, h.tasks⟩, fun h => ⟨h.1, h.2.1, h.2.2⟩⟩

/-- **What the checks accept.**  An app is accepted exactly when it is named, nothing is left to
include, its tasks are valid under distinct names, and in single mode there is one, with the fixed
name.  An include file is accepted exactly when it has a fragment and each fragment has an id, holds
something, and is valid; what the tasks of a group include is not looked at. -/
theorem accepted_iff_rules :
    (∀ (mode : TaskMode) (a : App), a.validate mode = .ok () ↔
      a.name ≠ "" ∧ a.includes = [] ∧ (∀ t ∈ a.tasks, t.includes = []) ∧
        Task.AllValid a.tasks ∧
        (mode = .single → ∃ t, a.tasks = [t] ∧ t.name = "build")) ∧
    (∀ f : IncludeFile, f.validate = .ok () ↔
      (f.inputs ≠ [] ∨ f.outputs ≠ [] ∨ f.taskGroups ≠ []) ∧
        (∀ i ∈ f.inputs, i.id ≠ "" ∧ i.input ≠ {} ∧ i.input.Valid) ∧
        (∀ o ∈ f.outputs, o.id ≠ "" ∧
          (o.output.files ≠ [] ∨ o.output.dockerImages ≠ []) ∧ o.output.Valid) ∧
        (∀ g ∈ f.taskGroups, g.id ≠ "" ∧ g.tasks ≠ [] ∧ Task.AllValid g.tasks)) := by
  constructor
  · intro mode a
    rw [App.validate_eq_ok]
    constructor
    · intro h
      exact ⟨h.name, h.includes, h.taskIncludes, h.tasks, h.single⟩
    · rintro ⟨hname, hincludes, htaskIncludes, htasks, hsingle⟩
      exact ⟨hname, hincludes, htaskIncludes, htasks, hsingle⟩
  · intro f
    simp only [IncludeFile.validate_eq_ok, ← IncludeFile.ne_empty_iff,
      ← InputFragment.valid_iff, ← OutputFragment.valid_iff, ← TaskGroup.valid_iff]
    constructor
    · intro h
      exact ⟨h.defined, h.inputs, h.outputs, h.taskGroups⟩
    · rintro ⟨hdefined, hinputs, houtputs, htaskGroups⟩
      exact ⟨hdefined, hinputs, houtputs, htaskGroups⟩

end Monorepo
