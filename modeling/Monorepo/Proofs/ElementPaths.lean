import Monorepo.Proofs.Findings

/-!
# Element paths

The path of a violation names the levels around the broken field, from the outside to the inside,
and then the field.

* `App.PathIn`, `IncludeFile.PathIn` — the paths that violations can have, by the sections and
  entries that there are;
* `FoundAt` — all that is found stands at such a path, below the levels that are put in front;
* `validate_eq_error_iff_head` — a check tells the first of all violations, at the path of its
  levels.
-/

namespace Monorepo

/-! ### The paths of violations -/

/-- The paths of what can be wrong with inputs. -/
def Input.paths : List (List String) :=
  [["Files", "paths"], ["GitFiles", "paths"], ["GolangSources", "paths"]]

/-- The paths of what can be wrong with outputs. -/
def Output.paths : List (List String) :=
  [["File", "path"], ["File", "S3Upload", "bucket"], ["File", "S3Upload", "dest_file"],
    ["DockerImage", "idfile"], ["DockerImage", "RegistryUpload", "repository"],
    ["DockerImage", "RegistryUpload", "tag"]]

/-- The paths of what can be wrong with one of several tasks. -/
inductive Task.PathAmong (tasks : List Task) : List String → Prop
  /-- Its name is taken by a task in front of it. -/
  | taken {t : Task} : t ∈ tasks → PathAmong tasks [t.segment]
  | name {t : Task} : t ∈ tasks → PathAmong tasks [t.segment, "name"]
  | command {t : Task} : t ∈ tasks → PathAmong tasks [t.segment, "command"]
  | input {t : Task} {p : List String} :
      t ∈ tasks → p ∈ Input.paths → PathAmong tasks (t.segment :: "Input" :: p)
  | output {t : Task} {p : List String} :
      t ∈ tasks → p ∈ Output.paths → PathAmong tasks (t.segment :: "Output" :: p)

/-- The paths of what can be wrong with an app. -/
inductive App.PathIn (a : App) : List String → Prop
  | name : PathIn a ["name"]
  | includes : PathIn a ["includes"]
  | taskIncludes {t : Task} : t ∈ a.tasks → PathIn a [t.segment, "includes"]
  /-- The tasks do not fit the mode. -/
  | tasks : PathIn a ["Task"]
  | task {p : List String} : Task.PathAmong a.tasks p → PathIn a p

/-- The paths of what can be wrong with the fragments of an include file. -/
inductive IncludeFile.PathIn (f : IncludeFile) : List String → Prop
  | input {i : InputFragment} {p : List String} : i ∈ f.inputs →
      p ∈ ["id"] :: ["Input"] :: Input.paths → PathIn f (i.segment :: p)
  | output {o : OutputFragment} {p : List String} : o ∈ f.outputs →
      p ∈ ["id"] :: ["Output"] :: Output.paths → PathIn f (o.segment :: p)
  | group {g : TaskGroup} {field : String} : g ∈ f.taskGroups →
      field ∈ ["id", "Task"] → PathIn f [g.segment, field]
  | groupTask {g : TaskGroup} {p : List String} : g ∈ f.taskGroups →
      Task.PathAmong g.tasks p → PathIn f (g.segment :: p)

/-- All that is found stands at certain paths, below certain levels. -/
def FoundAt (levels : List Step) (at_ : List String → Prop) (fs : List Finding) : Prop :=
  ∀ f ∈ fs, ∃ p, at_ p ∧ f.path = levels.map Step.segment ++ p

namespace FoundAt

variable {levels : List Step} {at_ below : List String → Prop} {fs gs : List Finding}

theorem append (hf : FoundAt levels at_ fs) (hg : FoundAt levels at_ gs) :
    FoundAt levels at_ (fs ++ gs) :=
  List.forall_mem_append.mpr ⟨hf, hg⟩

theorem flatMap {α : Type} {found : α → List Finding} {l : List α}
    (h : ∀ a ∈ l, FoundAt levels at_ (found a)) : FoundAt levels at_ (l.flatMap found) := by
  intro f hf
  obtain ⟨a, ha, hfound⟩ := List.mem_flatMap.mp hf
  exact h a ha f hfound

theorem expect {field : Step} {rule : Prop} [Decidable rule] {message : String}
    (h : at_ [field.segment]) : FoundAt levels at_ (expect levels field rule message) := by
  by_cases hrule : rule
  · rw [Monorepo.expect, if_pos hrule]
    exact List.forall_mem_nil _
  · rw [Monorepo.expect, if_neg hrule]
    intro f hf
    obtain rfl := List.mem_singleton.mp hf
    exact ⟨_, h, rfl⟩

/-- What stands one level further in has the segment of the level in front. -/
theorem inside (step : Step) (h : FoundAt (levels ++ [step]) below fs)
    (hpaths : ∀ p, below p → at_ (step.segment :: p)) : FoundAt levels at_ fs := by
  intro f hf
  obtain ⟨p, hp, hpath⟩ := h f hf
  refine ⟨step.segment :: p, hpaths p hp, ?_⟩
  rw [hpath, List.map_append, List.append_assoc]
  rfl

theorem mono (h : FoundAt levels below fs) (hpaths : ∀ p, below p → at_ p) :
    FoundAt levels at_ fs := by
  intro f hf
  obtain ⟨p, hp, hpath⟩ := h f hf
  exact ⟨p, hpaths p hp, hpath⟩

end FoundAt

section Places

variable (levels : List Step)

theorem foundAt_paths (paths : List String) :
    FoundAt levels (· = ["paths"]) (pathFindings levels paths) :=
  .flatMap fun _ _ => .expect rfl

theorem Files.foundAt (f : Files) : FoundAt levels (· = ["paths"]) (f.findings levels) :=
  .flatMap fun _ _ => .append (.expect rfl) (.expect rfl)

theorem GolangSources.foundAt (s : GolangSources) :
    FoundAt levels (· = ["paths"]) (s.findings levels) :=
  .append (.expect rfl) (foundAt_paths levels s.paths)

theorem Input.foundAt (i : Input) : FoundAt levels (· ∈ Input.paths) (i.findings levels) := by
  apply FoundAt.append
  · apply FoundAt.append
    · exact .inside (.plain "Files") (i.files.foundAt _) (by rintro _ rfl; decide)
    · exact .inside (.plain "GitFiles") (foundAt_paths _ i.gitFiles.paths)
        (by rintro _ rfl; decide)
  · exact .inside (.plain "GolangSources") (i.golangSources.foundAt _) (by rintro _ rfl; decide)

theorem S3Upload.foundAt (u : S3Upload) :
    FoundAt levels (· ∈ [["bucket"], ["dest_file"]]) (u.findings levels) :=
  .append (.expect (by decide)) (.expect (by decide))

theorem RegistryUpload.foundAt (u : RegistryUpload) :
    FoundAt levels (· ∈ [["repository"], ["tag"]]) (u.findings levels) :=
  .append (.expect (by decide)) (.expect (by decide))

theorem FileOutput.foundAt (f : FileOutput) :
    FoundAt levels (· ∈ [["path"], ["S3Upload", "bucket"], ["S3Upload", "dest_file"]])
      (f.findings levels) :=
  .append (.expect (by decide))
    (.inside (.plain "S3Upload") (f.s3Upload.foundAt _) (by decide))

theorem DockerImage.foundAt (d : DockerImage) :
    FoundAt levels (· ∈ [["idfile"], ["RegistryUpload", "repository"], ["RegistryUpload", "tag"]])
      (d.findings levels) :=
  .append (.expect (by decide))
    (.inside (.plain "RegistryUpload") (d.registryUpload.foundAt _) (by decide))

theorem Output.foundAt (o : Output) : FoundAt levels (· ∈ Output.paths) (o.findings levels) := by
  apply FoundAt.append
  · exact .flatMap fun f _ => .inside (.plain "File") (f.foundAt _) (by decide)
  · exact .flatMap fun d _ => .inside (.plain "DockerImage") (d.foundAt _) (by decide)

/-- One task has the paths of a task among any in which it stands. -/
theorem Task.foundAt {t : Task} {tasks : List Task} (ht : t ∈ tasks) :
    FoundAt (levels ++ [t.step]) (fun p => PathAmong tasks (t.segment :: p))
      (t.findings (levels ++ [t.step])) := by
  apply FoundAt.append
  · apply FoundAt.append
    · exact .append (.expect (.name ht)) (.expect (.command ht))
    · exact .inside (.plain "Input") (t.input.foundAt _) fun _ hp => .input ht hp
  · exact .inside (.plain "Output") (t.output.foundAt _) fun _ hp => .output ht hp

theorem Task.foundAt_findingsAfter (tasks : List Task) (before : List String) (rest : List Task)
    (hrest : rest ⊆ tasks) :
    FoundAt levels (PathAmong tasks) (findingsAfter levels before rest) := by
  induction rest generalizing before with
  | nil => exact nofun
  | cons t rest ih =>
    have ht : t ∈ tasks := hrest List.mem_cons_self
    apply FoundAt.append
    · apply FoundAt.append
      · exact .expect (.taken ht)
      · exact .inside t.step (foundAt levels ht) fun _ hp => hp
    · exact ih _ fun u hu => hrest (List.mem_cons_of_mem t hu)

theorem foundAt_includes (includes : List String) :
    FoundAt levels (· = ["includes"]) (includesFindings levels includes) :=
  .expect rfl

theorem Task.foundAt_all (tasks : List Task) :
    FoundAt levels (PathAmong tasks) (findingsAfter levels [] tasks) :=
  foundAt_findingsAfter levels tasks [] tasks fun _ ht => ht

theorem InputFragment.foundAt (f : InputFragment) :
    FoundAt levels (· ∈ ["id"] :: ["Input"] :: Input.paths) (f.findings levels) := by
  apply FoundAt.append
  · exact .append (.expect (by decide)) (.expect (by decide))
  · exact (f.input.foundAt levels).mono fun _ hp => .tail _ (.tail _ hp)

theorem OutputFragment.foundAt (f : OutputFragment) :
    FoundAt levels (· ∈ ["id"] :: ["Output"] :: Output.paths) (f.findings levels) := by
  apply FoundAt.append
  · exact .append (.expect (by decide)) (.expect (by decide))
  · exact (f.output.foundAt levels).mono fun _ hp => .tail _ (.tail _ hp)

end Places

theorem App.foundAt (mode : TaskMode) (a : App) : FoundAt [] a.PathIn (a.findings mode) := by
  have hmode : FoundAt [] a.PathIn (mode.findings a.tasks) := by
    cases mode with
    | multiple => exact nofun
    | single => exact .append (.expect .tasks) (.flatMap fun _ _ => .expect .tasks)
  apply FoundAt.append
  · apply FoundAt.append
    · apply FoundAt.append
      · exact .append (.expect .name) (.expect .includes)
      · exact .flatMap fun t ht => .inside t.step (foundAt_includes _ t.includes)
          (by rintro _ rfl; exact .taskIncludes ht)
    · exact hmode
  · exact (Task.foundAt_all [] a.tasks).mono fun _ hp => .task hp

theorem IncludeFile.foundAt (f : IncludeFile) : FoundAt [] f.PathIn f.findings := by
  apply FoundAt.append
  · apply FoundAt.append
    · exact .flatMap fun i hi =>
        .inside (.entry "Input" "id" i.id) (i.foundAt _) fun _ hp => .input hi hp
    · exact .flatMap fun o ho =>
        .inside (.entry "Output" "id" o.id) (o.foundAt _) fun _ hp => .output ho hp
  · refine .flatMap fun g hg => .inside (.entry "TaskGroup" "id" g.id) ?_ fun _ hp => hp
    apply FoundAt.append
    · exact .append (.expect (.group hg (by decide))) (.expect (.group hg (by decide)))
    · exact (Task.foundAt_all _ g.tasks).mono fun _ hp => .groupTask hg hp

theorem App.PathIn.ne_nil {a : App} {p : List String} (h : a.PathIn p) : p ≠ [] := by
  cases h with
  | task hp => cases hp <;> simp
  | _ => simp

theorem IncludeFile.PathIn.ne_nil {f : IncludeFile} {p : List String} (h : f.PathIn p) :
    p ≠ [] := by
  cases h <;> simp

/-! ### The first of all violations -/

theorem Check.first_eq_error {vs : List Violation} {v : Violation} :
    first vs = .error v ↔ vs.head? = some v := by
  cases vs with
  | nil => exact ⟨nofun, nofun⟩
  | cons w rest => simp [first]

theorem App.pathIn_of_mem {mode : TaskMode} {a : App} {v : Violation}
    (h : v ∈ a.violations mode) : a.PathIn v.elementPath := by
  obtain ⟨f, hf, rfl⟩ := List.mem_map.mp h
  obtain ⟨p, hp, hpath⟩ := a.foundAt mode f hf
  show a.PathIn f.path
  rw [hpath]
  exact hp

theorem IncludeFile.pathIn_of_mem {f : IncludeFile} (hdefined : f ≠ {}) {v : Violation}
    (h : v ∈ f.violations) : f.PathIn v.elementPath := by
  rw [violations, if_neg hdefined] at h
  obtain ⟨found, hfound, rfl⟩ := List.mem_map.mp h
  obtain ⟨p, hp, hpath⟩ := f.foundAt found hfound
  show f.PathIn found.path
  rw [hpath]
  exact hp

/-- **A check tells the first of all violations.**  Of everything that is wrong with an app or an
include file, in the order of its rules, the check tells what comes first.  Each violation has the
path of the levels around its field, one segment a level, and only an include file without fragments
has one with an empty path. -/
theorem validate_eq_error_iff_head :
    (∀ (mode : TaskMode) (a : App) (v : Violation),
      a.validate mode = .error v ↔ (a.violations mode).head? = some v) ∧
    (∀ (f : IncludeFile) (v : Violation),
      f.validate = .error v ↔ f.violations.head? = some v) ∧
    (∀ (mode : TaskMode) (a : App), ∀ v ∈ a.violations mode,
      a.PathIn v.elementPath ∧ v.elementPath ≠ []) ∧
    (∀ f : IncludeFile, ∀ v ∈ f.violations,
      (f ≠ {} → f.PathIn v.elementPath) ∧ (v.elementPath = [] ↔ f = {})) := by
  refine ⟨?_, ?_, ?_, ?_⟩
  · intro mode a v
    rw [← Check.first_eq_error]
    exact Eq.congr_left (a.under_validate mode)
  · intro f v
    rw [← Check.first_eq_error, f.validate_eq_first]
  · intro mode a v hv
    have hpath := App.pathIn_of_mem hv
    exact ⟨hpath, hpath.ne_nil⟩
  · intro f v hv
    refine ⟨fun hdefined => IncludeFile.pathIn_of_mem hdefined hv, ?_, ?_⟩
    · intro hnil
      by_contra hdefined
      exact (IncludeFile.pathIn_of_mem hdefined hv).ne_nil hnil
    · rintro rfl
      obtain rfl := List.mem_singleton.mp hv
      rfl

/-- The second task takes the name of the first and has no command, but the upload of the first task
comes before both. -/
theorem validate_eq_error_iff_head_upload :
    let a : App :=
      { name := "shop"
        tasks := [
          { name := "build"
            command := "make"
            output := { files := [{ path := "dist", s3Upload := { destFile := "d" } }] } },
          { name := "build" }] }
    let v : Violation :=
      ⟨["Task(name: build)", "Output", "File", "S3Upload", "bucket"], "can not be unset or empty"⟩
    (a.violations .multiple).map Violation.elementPath =
        [["Task(name: build)", "Output", "File", "S3Upload", "bucket"], ["Task(name: build)"],
          ["Task(name: build)", "command"]] ∧
      a.validate .multiple = .error v ∧ v ∈ a.violations .multiple ∧ a.PathIn v.elementPath := by
  intro a v
  have hmem : v ∈ a.violations .multiple := by decide
  obtain ⟨hfirst, -, hpath, -⟩ := validate_eq_error_iff_head
  exact ⟨by decide, (hfirst .multiple a v).mpr (by decide), hmem, (hpath .multiple a v hmem).1⟩

end Monorepo
