import Monorepo.Proofs.Validity

/-!
# Everything that is wrong with a configuration

A check stops at the first broken rule, and puts the segments of the enclosing levels in front of
its element path on the way out.  This module looks at every rule of a configuration, broken or not,
and takes the enclosing levels along on the way in:

* `Finding` — a field that breaks a rule, with the levels around it, each a `Step` from the outside;
* `App.findings`, `IncludeFile.findings` — the findings of a configuration, in the order in which
  its rules are looked at: what an entity says itself before what stands in it, and lists in their
  order;
* `Check.under` — a check as it is seen from outside of several levels;
* `under_validate` of each type — seen from outside, its check tells the first of its findings.
-/

namespace Monorepo

/-! ### Findings and their places -/

/-- A step of an element path: a section or field by its name, or an entry of a section by its
key. -/
inductive Step where
  | plain (name : String)
  | entry (kind key value : String)
  deriving DecidableEq, Repr

/-- An entry without a value for its key goes by the name of its section alone. -/
def Step.segment : Step → String
  | .plain name => name
  | .entry kind key value =>
    if value = "" then kind else kind ++ "(" ++ key ++ ": " ++ value ++ ")"

/-- A broken rule: the field that breaks it, the levels around the field, outermost first, and what
is said of it. -/
structure Finding where
  levels : List Step
  field : Step
  message : String
  deriving DecidableEq, Repr

/-- The path of a finding: one segment for each level and one for the field. -/
def Finding.path (f : Finding) : List String :=
  f.levels.map Step.segment ++ [f.field.segment]

/-- A finding as it is told. -/
def Finding.violation (f : Finding) : Violation :=
  ⟨f.path, f.message⟩

/-- Looks at one rule for a field. -/
def expect (levels : List Step) (field : Step) (rule : Prop) [Decidable rule] (message : String) :
    List Finding :=
  if rule then [] else [⟨levels, field, message⟩]

/-- What is said of an empty path in a list of paths. -/
def emptyPathMessage : String :=
  "a path can not be empty"

/-- What is said of a field that needs a text. -/
def emptyMessage : String :=
  "can not be empty"

/-- What is said of a field of an output that needs a text. -/
def unsetMessage : String :=
  "can not be unset or empty"

instance (cs : List Char) : Decidable (TwoWildcards cs) :=
  decidable_of_iff _ two_le_wildcardCount

/-! ### What is found in each type -/

section Collecting

variable (levels : List Step)

/-- Every entry of a list of paths says something. -/
def pathFindings (paths : List String) : List Finding :=
  paths.flatMap fun path => expect levels (.plain "paths") (path ≠ "") emptyPathMessage

def Files.findings (f : Files) : List Finding :=
  f.paths.flatMap fun pattern =>
    expect levels (.plain "paths") (pattern ≠ "") emptyPathMessage
      ++ expect levels (.plain "paths") (¬ TwoWildcards pattern.toList)
        ("invalid path '" ++ pattern ++ "': '**' can only appear one time in a path")

def GitFiles.findings (f : GitFiles) : List Finding :=
  pathFindings levels f.paths

def GolangSources.findings (s : GolangSources) : List Finding :=
  expect levels (.plain "paths") (s.environment = [] ∨ s.paths ≠ [])
      "must be set if environment is set"
    ++ pathFindings levels s.paths

def Input.findings (i : Input) : List Finding :=
  i.files.findings (levels ++ [.plain "Files"])
    ++ i.gitFiles.findings (levels ++ [.plain "GitFiles"])
    ++ i.golangSources.findings (levels ++ [.plain "GolangSources"])

def S3Upload.findings (u : S3Upload) : List Finding :=
  expect levels (.plain "bucket") (u.bucket ≠ "" ∨ u.destFile = "") unsetMessage
    ++ expect levels (.plain "dest_file") (u.destFile ≠ "" ∨ u.bucket = "") unsetMessage

def FileOutput.findings (f : FileOutput) : List Finding :=
  expect levels (.plain "path") (f.path ≠ "") unsetMessage
    ++ f.s3Upload.findings (levels ++ [.plain "S3Upload"])

def RegistryUpload.findings (u : RegistryUpload) : List Finding :=
  expect levels (.plain "repository") (u.repository ≠ "" ∨ u.tag = "") unsetMessage
    ++ expect levels (.plain "tag") (u.tag ≠ "" ∨ u.repository = "") unsetMessage

def DockerImage.findings (d : DockerImage) : List Finding :=
  expect levels (.plain "idfile") (d.idfile ≠ "") unsetMessage
    ++ d.registryUpload.findings (levels ++ [.plain "RegistryUpload"])

def Output.findings (o : Output) : List Finding :=
  o.files.flatMap (FileOutput.findings (levels ++ [.plain "File"]))
    ++ o.dockerImages.flatMap (DockerImage.findings (levels ++ [.plain "DockerImage"]))

/-- The step to a task in the list that it stands in. -/
def Task.step (t : Task) : Step :=
  .entry "Task" "name" t.name

def Task.findings (t : Task) : List Finding :=
  expect levels (.plain "name") (t.name ≠ "") emptyMessage
    ++ expect levels (.plain "command") (t.command ≠ "") emptyMessage
    ++ t.input.findings (levels ++ [.plain "Input"])
    ++ t.output.findings (levels ++ [.plain "Output"])

/-- What is found in tasks that stand behind tasks of the names `before`.  A name that is taken is
found at the entry that takes it again. -/
def Task.findingsAfter (before : List String) : List Task → List Finding
  | [] => []
  | t :: rest =>
    expect levels t.step (t.name = "" ∨ t.name ∉ before)
        ("multiple tasks with the name '" ++ t.name
          ++ "' are defined, task names must be unique")
      ++ t.findings (levels ++ [t.step])
      ++ findingsAfter (before ++ [t.name]) rest

def InputFragment.findings (f : InputFragment) : List Finding :=
  expect levels (.plain "id") (f.id ≠ "") emptyMessage
    ++ expect levels (.plain "Input") (f.input ≠ {}) "no input is defined"
    ++ f.input.findings levels

def OutputFragment.findings (f : OutputFragment) : List Finding :=
  expect levels (.plain "id") (f.id ≠ "") emptyMessage
    ++ expect levels (.plain "Output") (f.output ≠ {}) "no output is defined"
    ++ f.output.findings levels

def TaskGroup.findings (g : TaskGroup) : List Finding :=
  expect levels (.plain "id") (g.id ≠ "") emptyMessage
    ++ expect levels (.plain "Task") (g.tasks ≠ []) "no task is defined"
    ++ Task.findingsAfter levels [] g.tasks

end Collecting

/-- References that are left are found at the list that holds them. -/
def includesFindings (levels : List Step) (includes : List String) : List Finding :=
  expect levels (.plain "includes") (includes = [])
    ("unresolved include references: " ++ ", ".intercalate includes)

/-- In single mode there is one task, and no task has another name than the fixed one. -/
def TaskMode.findings (tasks : List Task) : TaskMode → List Finding
  | .multiple => []
  | .single =>
    expect [] (.plain "Task") (tasks.length = 1)
        ("exactly 1 task must be defined, found " ++ toString tasks.length)
      ++ tasks.flatMap fun t => expect [] (.plain "Task") (t.name = "build")
        ("invalid task name '" ++ t.name ++ "', task name must be '" ++ singleTaskName ++ "'")

/-- All that is found in an app. -/
def App.findings (mode : TaskMode) (a : App) : List Finding :=
  expect [] (.plain "name") (a.name ≠ "") emptyMessage
    ++ includesFindings [] a.includes
    ++ a.tasks.flatMap (fun t => includesFindings [t.step] t.includes)
    ++ mode.findings a.tasks
    ++ Task.findingsAfter [] [] a.tasks

/-- All violations of an app. -/
def App.violations (mode : TaskMode) (a : App) : List Violation :=
  (a.findings mode).map Finding.violation

/-- All that is found in the fragments of an include file. -/
def IncludeFile.findings (f : IncludeFile) : List Finding :=
  f.inputs.flatMap (fun i => i.findings [.entry "Input" "id" i.id])
    ++ f.outputs.flatMap (fun o => o.findings [.entry "Output" "id" o.id])
    ++ f.taskGroups.flatMap (fun g => g.findings [.entry "TaskGroup" "id" g.id])

/-- All violations of an include file.  A file without fragments has no field to name. -/
def IncludeFile.violations (f : IncludeFile) : List Violation :=
  (if f = {} then
    [⟨[], "the include does not contain any definition, "
      ++ "either an Input, Output or TaskGroup must be defined"⟩]
  else []) ++ f.findings.map Finding.violation

/-! ### Checks that tell the first of several violations -/

namespace Check

/-- Tells the first of violations, if there is one. -/
def first : List Violation → Check
  | [] => .ok ()
  | v :: _ => .error v

theorem first_append (vs ws : List Violation) :
    first (vs ++ ws) = (first vs >>= fun _ => first ws) := by
  cases vs with
  | nil => rfl
  | cons v rest => rfl

/-- Tells the first of findings. -/
def report (fs : List Finding) : Check :=
  first (fs.map Finding.violation)

theorem report_append (fs gs : List Finding) :
    report (fs ++ gs) = (report fs >>= fun _ => report gs) := by
  rw [report, List.map_append, first_append]
  rfl

/-- A check as it is seen from outside of the levels around its value. -/
def under (levels : List Step) (c : Check) : Check :=
  levels.foldr (fun step inner => within step.segment inner) c

theorem under_ok (levels : List Step) : under levels (.ok ()) = .ok () := by
  induction levels with
  | nil => rfl
  | cons step rest ih =>
    show within step.segment (under rest (.ok ())) = .ok ()
    rw [ih]
    rfl

theorem under_error (levels : List Step) (v : Violation) :
    under levels (.error v) = .error ⟨levels.map Step.segment ++ v.elementPath, v.message⟩ := by
  induction levels with
  | nil => rfl
  | cons step rest ih =>
    show within step.segment (under rest (.error v)) = _
    rw [ih]
    rfl

/-! Each of the four ways to put checks together has its counterpart on the lists of findings. -/

/-- A rule that a check holds a field to is a rule that is looked at there. -/
theorem under_require (levels : List Step) (field : Step) {rule : Prop} [Decidable rule]
    {holds : Bool} (message : String) (h : holds = true ↔ rule) :
    under levels (require holds (.ofField field.segment message)) =
      report (expect levels field rule message) := by
  by_cases hrule : rule
  · rw [expect, if_pos hrule, h.mpr hrule]
    exact under_ok levels
  · rw [expect, if_neg hrule, Bool.eq_false_iff.mpr fun hholds => hrule (h.mp hholds)]
    exact under_error levels _

section Composing

variable {levels : List Step} {c next : Check} {fs gs : List Finding}

theorem under_then (h : under levels c = report fs) (hnext : under levels next = report gs) :
    under levels (c >>= fun _ => next) = report (fs ++ gs) := by
  rw [report_append, ← h, ← hnext]
  cases c with
  | ok u =>
    rw [under_ok]
    rfl
  | error v =>
    rw [under_error]
    exact under_error levels v

/-- One more level is the innermost one. -/
theorem under_within (step : Step) (h : under (levels ++ [step]) c = report fs) :
    under levels (within step.segment c) = report fs := by
  rw [← h, under, under, List.foldr_append]
  rfl

theorem under_each {α : Type} {check : α → Check} {found : α → List Finding} (l : List α)
    (h : ∀ a, under levels (check a) = report (found a)) :
    under levels (each check l) = report (l.flatMap found) := by
  induction l with
  | nil => exact under_ok levels
  | cons a rest ih => exact under_then (h a) ih

end Composing

/-- A test of all entries together tells what the first bad entry breaks. -/
theorem require_all {α : Type} (holds : α → Bool) (otherwise : Violation) (l : List α) :
    require (l.all holds) otherwise = each (fun a => require (holds a) otherwise) l := by
  induction l with
  | nil => rfl
  | cons a rest ih =>
    rw [List.all_cons, each, ← ih]
    cases holds a <;> rfl

end Check

/-! ### The check of each type -/

open Check

section Types

variable (levels : List Step)

theorem under_paths (paths : List String) :
    under levels (require (paths.all (· ≠ "")) .emptyPath) =
      report (pathFindings levels paths) := by
  rw [require_all]
  exact under_each paths fun path =>
    under_require levels (.plain "paths") emptyPathMessage decide_eq_true_iff

theorem Files.under_validate (f : Files) :
    under levels f.validate = report (f.findings levels) := by
  apply under_each
  intro pattern
  have hcount : decide (wildcardCount pattern.toList ≤ 1) = true ↔
      ¬ TwoWildcards pattern.toList := by
    rw [decide_eq_true_iff, ← two_le_wildcardCount]
    omega
  exact under_then (under_require levels (.plain "paths") emptyPathMessage decide_eq_true_iff)
    (under_require levels (.plain "paths") _ hcount)

theorem GitFiles.under_validate (f : GitFiles) :
    under levels f.validate = report (f.findings levels) :=
  under_paths levels f.paths

theorem GolangSources.under_validate (s : GolangSources) :
    under levels s.validate = report (s.findings levels) := by
  have hdiscovery : (s.environment.isEmpty || !s.paths.isEmpty) = true ↔
      s.environment = [] ∨ s.paths ≠ [] := by
    simp
  exact under_then (under_require levels (.plain "paths") _ hdiscovery)
    (under_paths levels s.paths)

theorem Input.under_validate (i : Input) :
    under levels i.validate = report (i.findings levels) := by
  rw [findings, List.append_assoc]
  apply under_then
  · exact under_within (.plain "Files") (i.files.under_validate _)
  apply under_then
  · exact under_within (.plain "GitFiles") (i.gitFiles.under_validate _)
  · exact under_within (.plain "GolangSources") (i.golangSources.under_validate _)

/-- Two fields that are set together or not at all: the rule of both is a rule of each. -/
theorem bothOrNone_eq (one other a b : String) :
    (if (decide (a = "") && decide (b = "")) = true then .ok () else do
        Check.isSet one a
        Check.isSet other b) =
      (require (decide (a ≠ "" ∨ b = "")) (.ofField one unsetMessage) >>= fun _ =>
        require (decide (b ≠ "" ∨ a = "")) (.ofField other unsetMessage)) := by
  by_cases ha : a = "" <;> by_cases hb : b = ""
  · simp [ha, hb, require]
    rfl
  · simp [ha, hb, Check.isSet, require, unsetMessage]
  · simp [ha, hb, Check.isSet, require, unsetMessage]
  · simp [ha, hb, Check.isSet, require]

theorem S3Upload.under_validate (u : S3Upload) :
    under levels u.validate = report (u.findings levels) := by
  rw [validate, isEmpty, bothOrNone_eq]
  exact under_then (under_require levels (.plain "bucket") _ decide_eq_true_iff)
    (under_require levels (.plain "dest_file") _ decide_eq_true_iff)

theorem RegistryUpload.under_validate (u : RegistryUpload) :
    under levels u.validate = report (u.findings levels) := by
  rw [validate, isEmpty, bothOrNone_eq]
  exact under_then (under_require levels (.plain "repository") _ decide_eq_true_iff)
    (under_require levels (.plain "tag") _ decide_eq_true_iff)

theorem FileOutput.under_validate (f : FileOutput) :
    under levels f.validate = report (f.findings levels) := by
  apply under_then
  · exact under_require levels (.plain "path") _ decide_eq_true_iff
  · exact under_within (.plain "S3Upload") (f.s3Upload.under_validate _)

theorem DockerImage.under_validate (d : DockerImage) :
    under levels d.validate = report (d.findings levels) := by
  apply under_then
  · exact under_require levels (.plain "idfile") _ decide_eq_true_iff
  · exact under_within (.plain "RegistryUpload") (d.registryUpload.under_validate _)

theorem Output.under_validate (o : Output) :
    under levels o.validate = report (o.findings levels) := by
  apply under_then
  · exact under_each o.files fun f => under_within (.plain "File") (f.under_validate _)
  · exact under_each o.dockerImages fun d =>
      under_within (.plain "DockerImage") (d.under_validate _)

theorem Task.under_validate (t : Task) :
    under levels t.validate = report (t.findings levels) := by
  rw [findings, List.append_assoc, List.append_assoc]
  apply under_then
  · exact under_require levels (.plain "name") _ decide_eq_true_iff
  apply under_then
  · exact under_require levels (.plain "command") _ decide_eq_true_iff
  apply under_then
  · exact under_within (.plain "Input") (t.input.under_validate _)
  · exact under_within (.plain "Output") (t.output.under_validate _)

/-- The check keeps the names that it has seen in another order, which does not matter. -/
theorem Task.under_validateAfter {seen before : List String} (tasks : List Task)
    (h : ∀ name, name ∈ seen ↔ name ∈ before) :
    under levels (validateAfter seen tasks) = report (findingsAfter levels before tasks) := by
  induction tasks generalizing seen before with
  | nil => exact under_ok levels
  | cons t rest ih =>
    have hfree : (decide (t.name = "") || !seen.contains t.name) = true ↔
        t.name = "" ∨ t.name ∉ before := by
      simp [h]
    have hnext : ∀ name, name ∈ t.name :: seen ↔ name ∈ before ++ [t.name] := by
      intro name
      rw [List.mem_cons, List.mem_append, List.mem_singleton, h, or_comm]
    rw [validateAfter, findingsAfter, List.append_assoc]
    apply under_then
    · exact under_require levels t.step _ hfree
    apply under_then
    · exact under_within t.step (t.under_validate _)
    · exact ih hnext

theorem Task.under_validateAll (tasks : List Task) :
    under levels (validateAll tasks) = report (findingsAfter levels [] tasks) :=
  under_validateAfter levels tasks fun _ => Iff.rfl

theorem under_hasId (id : String) :
    under levels (hasId id) = report (expect levels (.plain "id") (id ≠ "") emptyMessage) :=
  under_require levels (.plain "id") _ decide_eq_true_iff

theorem InputFragment.under_validate (f : InputFragment) :
    under levels f.validate = report (f.findings levels) := by
  have hdefined : (!f.input.isEmpty) = true ↔ f.input ≠ {} := by
    rw [Bool.not_eq_true', Input.isEmpty_eq_false]
  rw [findings, List.append_assoc]
  apply under_then
  · exact under_hasId levels f.id
  apply under_then
  · exact under_require levels (.plain "Input") _ hdefined
  · exact f.input.under_validate levels

theorem OutputFragment.under_validate (f : OutputFragment) :
    under levels f.validate = report (f.findings levels) := by
  have hdefined : (!f.output.isEmpty) = true ↔ f.output ≠ {} := by
    rw [Bool.not_eq_true', Output.isEmpty_eq_false]
  rw [findings, List.append_assoc]
  apply under_then
  · exact under_hasId levels f.id
  apply under_then
  · exact under_require levels (.plain "Output") _ hdefined
  · exact f.output.under_validate levels

theorem TaskGroup.under_validate (g : TaskGroup) :
    under levels g.validate = report (g.findings levels) := by
  have hdefined : (!g.tasks.isEmpty) = true ↔ g.tasks ≠ [] := by
    rw [Bool.not_eq_true', List.isEmpty_eq_false_iff]
  rw [findings, List.append_assoc]
  apply under_then
  · exact under_hasId levels g.id
  apply under_then
  · exact under_require levels (.plain "Task") _ hdefined
  · exact Task.under_validateAll levels g.tasks

end Types

/-! ### Apps and include files -/

namespace App

theorem under_checkTaskIncludes (t : Task) :
    under [] (checkTaskIncludes t) = report (includesFindings [t.step] t.includes) := by
  have hwithin : checkTaskIncludes t =
      within t.step.segment (require t.includes.isEmpty (.unresolved t.includes)) := by
    rw [checkTaskIncludes]
    cases t.includes.isEmpty <;> rfl
  rw [hwithin]
  exact under_within t.step (under_require [t.step] (.plain "includes") _ List.isEmpty_iff)

theorem under_checkMode (mode : TaskMode) (tasks : List Task) :
    under [] (checkMode mode tasks) = report (mode.findings tasks) := by
  match mode, tasks with
  | .multiple, _ => rfl
  | .single, [] => rfl
  | .single, [t] =>
    have hfindings : TaskMode.findings [t] .single =
        expect [] (.plain "Task") (t.name = "build")
          ("invalid task name '" ++ t.name ++ "', task name must be '" ++ singleTaskName ++ "'") := by
      simp [TaskMode.findings, expect]
    rw [hfindings]
    exact under_require [] (.plain "Task") _ decide_eq_true_iff
  | .single, t :: u :: rest =>
    simp [checkMode, checkSingle, TaskMode.findings, expect]
    rfl

theorem under_validate (mode : TaskMode) (a : App) :
    under [] (a.validate mode) = report (a.findings mode) := by
  rw [findings, List.append_assoc, List.append_assoc, List.append_assoc]
  apply under_then
  · exact under_require [] (.plain "name") _ decide_eq_true_iff
  apply under_then
  · exact under_require [] (.plain "includes") _ List.isEmpty_iff
  apply under_then
  · exact under_each a.tasks under_checkTaskIncludes
  apply under_then
  · exact under_checkMode mode a.tasks
  · exact Task.under_validateAll [] a.tasks

end App

namespace IncludeFile

theorem under_validate (f : IncludeFile) (h : f ≠ {}) :
    under [] f.validate = report f.findings := by
  rw [validate, isEmpty_eq_false.mpr h, findings, List.append_assoc]
  show under [] (each _ f.inputs >>= _) = _
  apply under_then
  · exact under_each f.inputs fun i =>
      under_within (.entry "Input" "id" i.id) (i.under_validate _)
  apply under_then
  · exact under_each f.outputs fun o =>
      under_within (.entry "Output" "id" o.id) (o.under_validate _)
  · exact under_each f.taskGroups fun g =>
      under_within (.entry "TaskGroup" "id" g.id) (g.under_validate _)

theorem validate_eq_first (f : IncludeFile) : f.validate = first f.violations := by
  by_cases h : f = {}
  · subst h
    rfl
  · rw [violations, if_neg h]
    exact f.under_validate h

end IncludeFile

end Monorepo
