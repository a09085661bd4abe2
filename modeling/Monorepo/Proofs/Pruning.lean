import Monorepo.Proofs.SelfContained

/-!
# Dropping blank outputs

Blank outputs are dropped from an app before it is resolved, and from an include file before it is
registered.  They might as well be dropped last:

* `Prunes` — a list without its blank entries, told entry by entry; `App.PrunedTo` and
  `IncludeFile.PrunedTo` — the same of all outputs of a configuration.  The lemma `prunedTo_iff` of
  each type says that dropping gives this and nothing else;
* `IncludeStore.Pruned` — no fragment of a store brings a blank output along, and
  `IncludeStore.Sound.pruned`, that this is so for every store that loads;
* `App.resolve_prune` — with such a store, dropping and resolving may change places, and where
  resolving fails it fails alike and leaves the same behind;
* `prune_laws` — this, and the laws of dropping alone.
-/

namespace Monorepo

/-! ### Lists without their blank entries -/

/-- The second list is the first without its blank entries.  The others are all there, in their
order. -/
inductive Prunes {α : Type} (blank : α → Prop) : List α → List α → Prop where
  | nil : Prunes blank [] []
  | drop {a : α} {l kept : List α} : blank a → Prunes blank l kept → Prunes blank (a :: l) kept
  | keep {a : α} {l kept : List α} : ¬ blank a → Prunes blank l kept →
      Prunes blank (a :: l) (a :: kept)

theorem prunes_iff {α : Type} {blank : α → Prop} {isBlank : α → Bool}
    (hblank : ∀ a, isBlank a = true ↔ blank a) {l kept : List α} :
    Prunes blank l kept ↔ kept = l.filter (!isBlank ·) := by
  have hdrop : ∀ {a : α}, blank a → ¬ (!isBlank a) = true := by
    intro a ha
    simpa using (hblank a).mpr ha
  have hkeep : ∀ {a : α}, ¬ blank a → (!isBlank a) = true := by
    intro a ha
    simpa using mt (hblank a).mp ha
  constructor
  · intro h
    induction h with
    | nil => rfl
    | drop ha _ ih => rw [List.filter_cons, if_neg (hdrop ha), ih]
    | keep ha _ ih => rw [List.filter_cons, if_pos (hkeep ha), ← ih]
  · rintro rfl
    induction l with
    | nil => exact .nil
    | cons a rest ih =>
      by_cases ha : blank a
      · rw [List.filter_cons, if_neg (hdrop ha)]
        exact .drop ha ih
      · rw [List.filter_cons, if_pos (hkeep ha)]
        exact .keep ha ih

/-- A relation that tells the value of a function, entry by entry. -/
theorem forall₂_iff_map {α : Type} {R : α → α → Prop} {f : α → α} (h : ∀ a b, R a b ↔ b = f a)
    {l m : List α} : List.Forall₂ R l m ↔ m = l.map f := by
  constructor
  · intro hall
    induction hall with
    | nil => rfl
    | cons hab _ ih => rw [List.map_cons, ← ih, (h _ _).mp hab]
  · rintro rfl
    exact List.forall₂_map_right_iff.mpr (List.forall₂_same.mpr fun a _ => (h a (f a)).mpr rfl)

theorem map_map_of_idempotent {α : Type} {f : α → α} (h : ∀ a, f (f a) = f a) (l : List α) :
    (l.map f).map f = l.map f := by
  rw [List.map_map]
  exact List.map_congr_left fun a _ => h a

/-! ### Outputs -/

/-- The texts of a file output, at every depth. -/
def FileOutput.leaves (f : FileOutput) : List String :=
  [f.path, f.fileCopy.path, f.s3Upload.bucket, f.s3Upload.destFile]

/-- The texts of an image output, at every depth. -/
def DockerImage.leaves (i : DockerImage) : List String :=
  [i.idfile, i.registryUpload.repository, i.registryUpload.tag]

/-- Every text of a file output is empty. -/
def FileOutput.Blank (f : FileOutput) : Prop :=
  ∀ leaf ∈ f.leaves, leaf = ""

/-- Every text of an image output is empty. -/
def DockerImage.Blank (i : DockerImage) : Prop :=
  ∀ leaf ∈ i.leaves, leaf = ""

theorem FileOutput.isEmpty_iff_blank (f : FileOutput) : f.isEmpty = true ↔ f.Blank := by
  simp [isEmpty, FileCopy.isEmpty, S3Upload.isEmpty, Blank, leaves, and_assoc]

theorem DockerImage.isEmpty_iff_blank (i : DockerImage) : i.isEmpty = true ↔ i.Blank := by
  simp [isEmpty, RegistryUpload.isEmpty, Blank, leaves]

namespace Output

/-- The second outputs are the first without the blank ones. -/
structure PrunedTo (o p : Output) : Prop where
  files : Prunes FileOutput.Blank o.files p.files
  dockerImages : Prunes DockerImage.Blank o.dockerImages p.dockerImages

theorem prunedTo_iff {o p : Output} : o.PrunedTo p ↔ p = o.prune := by
  obtain ⟨images, files⟩ := p
  rw [prune, Output.mk.injEq, ← prunes_iff FileOutput.isEmpty_iff_blank,
    ← prunes_iff DockerImage.isEmpty_iff_blank]
  exact ⟨fun h => ⟨h.dockerImages, h.files⟩, fun h => ⟨h.2, h.1⟩⟩

theorem prune_prune (o : Output) : o.prune.prune = o.prune := by
  simp [prune]

theorem prune_append (o p : Output) : (o ++ p).prune = o.prune ++ p.prune :=
  congrArg₂ Output.mk (List.filter_append ..) (List.filter_append ..)

end Output

/-! ### Tasks, apps and include files -/

namespace Task

/-- The second task is the first without its blank outputs. -/
structure PrunedTo (t u : Task) : Prop where
  name : u.name = t.name
  command : u.command = t.command
  includes : u.includes = t.includes
  input : u.input = t.input
  output : t.output.PrunedTo u.output

theorem prunedTo_iff (t u : Task) : t.PrunedTo u ↔ u = t.prune := by
  obtain ⟨name, command, includes, input, output⟩ := u
  rw [prune, Task.mk.injEq, ← Output.prunedTo_iff]
  exact ⟨fun h => ⟨h.name, h.command, h.includes, h.input, h.output⟩,
    fun h => ⟨h.1, h.2.1, h.2.2.1, h.2.2.2.1, h.2.2.2.2⟩⟩

theorem prune_prune (t : Task) : t.prune.prune = t.prune := by
  rw [prune, prune, Output.prune_prune]

end Task

/-- There is nothing to drop from valid tasks. -/
theorem Task.AllValid.map_prune {tasks : List Task} (h : AllValid tasks) :
    tasks.map Task.prune = tasks := by
  calc tasks.map Task.prune = tasks.map id :=
        List.map_congr_left fun t ht => (h.each t ht).prune_eq
    _ = tasks := List.map_id _

namespace App

/-- The second app is the first without the blank outputs of its tasks. -/
structure PrunedTo (a b : App) : Prop where
  name : b.name = a.name
  includes : b.includes = a.includes
  tasks : List.Forall₂ Task.PrunedTo a.tasks b.tasks

theorem prunedTo_iff {a b : App} : a.PrunedTo b ↔ b = a.prune := by
  obtain ⟨name, includes, tasks⟩ := b
  rw [prune, App.mk.injEq, ← forall₂_iff_map Task.prunedTo_iff]
  exact ⟨fun h => ⟨h.name, h.includes, h.tasks⟩, fun h => ⟨h.1, h.2.1, h.2.2⟩⟩

theorem prune_prune (a : App) : a.prune.prune = a.prune := by
  rw [prune, prune, map_map_of_idempotent Task.prune_prune]

end App

namespace OutputFragment

/-- The second fragment is the first without its blank outputs. -/
structure PrunedTo (f g : OutputFragment) : Prop where
  id : g.id = f.id
  output : f.output.PrunedTo g.output

theorem prunedTo_iff (f g : OutputFragment) : f.PrunedTo g ↔ g = f.prune := by
  obtain ⟨id, output⟩ := g
  rw [prune, OutputFragment.mk.injEq, ← Output.prunedTo_iff]
  exact ⟨fun h => ⟨h.id, h.output⟩, fun h => ⟨h.1, h.2⟩⟩

theorem prune_prune (f : OutputFragment) : f.prune.prune = f.prune := by
  rw [prune, prune, Output.prune_prune]

theorem Valid.prune_eq {f : OutputFragment} (h : f.Valid) : f.prune = f := by
  rw [prune, h.output.prune_eq]

end OutputFragment

namespace TaskGroup

/-- The second group is the first without the blank outputs of its tasks. -/
structure PrunedTo (g h : TaskGroup) : Prop where
  id : h.id = g.id
  tasks : List.Forall₂ Task.PrunedTo g.tasks h.tasks

theorem prunedTo_iff (g h : TaskGroup) : g.PrunedTo h ↔ h = g.prune := by
  obtain ⟨id, tasks⟩ := h
  rw [prune, TaskGroup.mk.injEq, ← forall₂_iff_map Task.prunedTo_iff]
  exact ⟨fun h => ⟨h.id, h.tasks⟩, fun h => ⟨h.1, h.2⟩⟩

theorem prune_prune (g : TaskGroup) : g.prune.prune = g.prune := by
  rw [prune, prune, map_map_of_idempotent Task.prune_prune]

theorem Valid.prune_eq {g : TaskGroup} (h : g.Valid) : g.prune = g := by
  rw [prune, h.tasks.map_prune]

end TaskGroup

namespace IncludeFile

/-- The second include file is the first without the blank outputs of its fragments. -/
structure PrunedTo (f g : IncludeFile) : Prop where
  inputs : g.inputs = f.inputs
  outputs : List.Forall₂ OutputFragment.PrunedTo f.outputs g.outputs
  taskGroups : List.Forall₂ TaskGroup.PrunedTo f.taskGroups g.taskGroups

theorem prunedTo_iff {f g : IncludeFile} : f.PrunedTo g ↔ g = f.prune := by
  obtain ⟨inputs, outputs, taskGroups⟩ := g
  rw [prune, IncludeFile.mk.injEq, ← forall₂_iff_map OutputFragment.prunedTo_iff,
    ← forall₂_iff_map TaskGroup.prunedTo_iff]
  exact ⟨fun h => ⟨h.inputs, h.outputs, h.taskGroups⟩, fun h => ⟨h.1, h.2.1, h.2.2⟩⟩

theorem prune_prune (f : IncludeFile) : f.prune.prune = f.prune := by
  rw [prune, prune, map_map_of_idempotent OutputFragment.prune_prune,
    map_map_of_idempotent TaskGroup.prune_prune]

theorem Valid.prune_eq {f : IncludeFile} (h : f.Valid) : f.prune = f := by
  have houtputs : f.outputs.map OutputFragment.prune = f.outputs.map id :=
    List.map_congr_left fun o ho => (h.outputs o ho).prune_eq
  have hgroups : f.taskGroups.map TaskGroup.prune = f.taskGroups.map id :=
    List.map_congr_left fun g hg => (h.taskGroups g hg).prune_eq
  rw [prune, houtputs, hgroups, List.map_id, List.map_id]

end IncludeFile

/-! ### Stores without blank outputs -/

namespace IncludeStore

/-- No fragment has a blank output. -/
structure Pruned (s : IncludeStore) : Prop where
  outputs : s.outputs.Holds fun f => f.prune = f
  taskGroups : s.taskGroups.Holds fun g => g.prune = g

theorem Sound.pruned {s : IncludeStore} (h : s.Sound) : s.Pruned where
  outputs e he := (h.outputs e he).prune_eq
  taskGroups e he := (h.taskGroups e he).prune_eq

end IncludeStore

/-! ### Resolving -/

namespace Attempt

/-- The same attempt, seen through a function of the changed value. -/
def map {α β : Type} (f : α → β) (attempt : Attempt α) : Attempt β :=
  ⟨attempt.result, f attempt.after⟩

theorem value_map {α β : Type} (f : α → β) (attempt : Attempt α) :
    (attempt.map f).value = attempt.value.map f := by
  obtain ⟨e | u, after⟩ := attempt
  · rfl
  · rfl

end Attempt

section Resolving

variable {s : IncludeStore} (hs : s.Pruned)
include hs

namespace Task

/-- One id: what it stands for has no blank outputs, so none come in. -/
theorem includeFragment_prune (t : Task) (id : String) :
    t.prune.includeFragment s id = (t.includeFragment s id).map Task.prune := by
  rw [includeFragment, includeFragment]
  cases s.inputs.fragment? id with
  | some fragment => rfl
  | none =>
    cases houtput : s.outputs.fragment? id with
    | none => rfl
    | some fragment =>
      have hfragment : fragment.output.prune = fragment.output :=
        congrArg OutputFragment.output (hs.outputs.fragment? houtput)
      have happend : t.output.prune ++ fragment.output = (t.output ++ fragment.output).prune := by
        rw [Output.prune_append, hfragment]
      exact congrArg (fun output => Except.ok { t with output := output }) happend

theorem includeAll_prune (t : Task) (ids : List String) :
    includeAll s t.prune ids = (includeAll s t ids).map Task.prune := by
  induction ids generalizing t with
  | nil => rfl
  | cons id rest ih =>
    rw [includeAll, includeAll, includeFragment_prune hs]
    cases t.includeFragment s id with
    | ok merged => exact ih merged
    | error e => rfl

theorem resolve_prune (t : Task) : t.prune.resolve s = (t.resolve s).map Task.prune :=
  includeAll_prune hs { t with includes := [] } t.includes

theorem resolveAll_prune (tasks : List Task) :
    resolveAll s (tasks.map Task.prune) = (resolveAll s tasks).map (List.map Task.prune) := by
  induction tasks with
  | nil => rfl
  | cons t rest ih =>
    rw [List.map_cons, resolveAll, resolveAll, resolve_prune hs]
    rcases t.resolve s with ⟨e | u, after⟩
    · rfl
    · simp only [Attempt.map, ih, List.map_cons]

end Task

namespace App

theorem includeGroups_prune (a : App) (ids : List String) :
    includeGroups s a.prune ids = (includeGroups s a ids).map App.prune := by
  induction ids generalizing a with
  | nil => rfl
  | cons id rest ih =>
    rw [includeGroups, includeGroups]
    cases hgroup : s.taskGroups.fragment? id with
    | none => rfl
    | some group =>
      have htasks : group.tasks.map Task.prune = group.tasks :=
        congrArg TaskGroup.tasks (hs.taskGroups.fragment? hgroup)
      have happend : { a.prune with tasks := a.prune.tasks ++ group.tasks } =
          ({ a with tasks := a.tasks ++ group.tasks } : App).prune := by
        rw [prune, prune, List.map_append, htasks]
      simp only [happend]
      exact ih _

/-- **Dropping blank outputs and resolving may change places.**  Whether it succeeds or fails, the
resolution of what is left is what is left of the resolution. -/
theorem resolve_prune (a : App) : a.prune.resolve s = (a.resolve s).map App.prune := by
  have hown : Task.resolveAll s a.prune.tasks =
      (Task.resolveAll s a.tasks).map (List.map Task.prune) := Task.resolveAll_prune hs a.tasks
  rw [resolve, resolve, hown]
  rcases Task.resolveAll s a.tasks with ⟨e | u, own⟩
  · rfl
  · exact includeGroups_prune hs { a with includes := [], tasks := own } a.includes

end App

end Resolving

/-- **The laws of dropping blank outputs.**  With a store that was loaded, an app is resolved alike
whether its blank outputs are dropped before or after: to the same app or with the same error.
Dropping takes exactly the entries whose every text is empty, and of these there are none after it,
nor in what passes its check. -/
theorem prune_laws :
    (∀ (d : Disk) (dirs : List Path) (s : IncludeStore), IncludeStore.load d dirs = .ok s →
      ∀ a : App, (a.prune.resolve s).value = (a.resolve s).value.map App.prune ∧
        (a.prune.resolve s).after = (a.resolve s).after.prune) ∧
    (∀ a : App, (∀ b, a.PrunedTo b ↔ b = a.prune) ∧ a.prune.prune = a.prune ∧
      ∀ mode, a.validate mode = .ok () → a.prune = a) ∧
    (∀ f : IncludeFile, (∀ g, f.PrunedTo g ↔ g = f.prune) ∧ f.prune.prune = f.prune ∧
      (f.validate = .ok () → f.prune = f)) := by
  refine ⟨fun d dirs s hload a => ?_, fun a => ⟨fun b => App.prunedTo_iff, a.prune_prune, ?_⟩,
    fun f => ⟨fun g => IncludeFile.prunedTo_iff, f.prune_prune, ?_⟩⟩
  · have hpruned : s.Pruned := (IncludeStore.sound_of_load hload).1.pruned
    rw [App.resolve_prune hpruned]
    exact ⟨Attempt.value_map _ _, rfl⟩
  · intro mode hvalid
    exact (App.validate_eq_ok.mp hvalid).prune_eq
  · intro hvalid
    exact (IncludeFile.validate_eq_ok.mp hvalid).prune_eq

/-- A disk with an include file that has blank outputs in a fragment and in a task of a group. -/
def blanksDisk : Disk where
  tree := ⟨[
    (["inc"], .directory),
    (["inc", "a.toml"], .file (asciiLines [
      "[[Output]]",
      "id='o'",
      "[[Output.File]]",
      "[[Output.File]]",
      "path='f'",
      "[[TaskGroup]]",
      "id='g'",
      "[[TaskGroup.Task]]",
      "name='t'",
      "command='c'",
      "[[TaskGroup.Task.Output.DockerImage]]"]))]⟩

/-- The store of the include file. -/
def blanksStore : IncludeStore where
  outputs := ⟨[("o", ⟨{ id := "o", output := { files := [{ path := "f" }] } }, ⟨"inc/a.toml"⟩⟩)]⟩
  taskGroups := ⟨[("g", ⟨{ id := "g", tasks := [{ name := "t", command := "c" }] },
    ⟨"inc/a.toml"⟩⟩)]⟩

/-- An app with blank outputs around another one, which includes the fragment and the group.  It is
resolved to the same app on both ways. -/
theorem prune_laws_blanks :
    let a : App :=
      { name := "a"
        includes := ["g"]
        tasks := [
          { name := "b"
            includes := ["o"]
            output := { dockerImages := [{}], files := [{}, { path := "x" }, {}] } }] }
    let resolved : App :=
      { name := "a"
        tasks := [
          { name := "b", output := { files := [{ path := "x" }, { path := "f" }] } },
          { name := "t", command := "c" }] }
    IncludeStore.load blanksDisk [⟨"inc"⟩] = .ok blanksStore ∧
      (a.prune.resolve blanksStore).value = .ok resolved ∧
      (a.resolve blanksStore).value ≠ .ok resolved ∧
      (a.resolve blanksStore).value.map App.prune = .ok resolved ∧
      a.PrunedTo a.prune := by
  intro a resolved
  have hload : IncludeStore.load blanksDisk [⟨"inc"⟩] = .ok blanksStore := by decide +kernel
  have hfirst : (a.prune.resolve blanksStore).value = .ok resolved := rfl
  obtain ⟨hresolve, happ, -⟩ := prune_laws
  exact ⟨hload, hfirst, by decide, (hresolve _ _ _ hload a).1.symm.trans hfirst,
    ((happ a).1 a.prune).mpr rfl⟩

end Monorepo
