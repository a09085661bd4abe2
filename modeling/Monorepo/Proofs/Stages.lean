import Monorepo.Proofs.AppLoading
import Monorepo.Proofs.Collisions
import Monorepo.Proofs.References

/-!
# Which stage fails

Loading is a chain of stages, and an error tells which of them failed.  For each stage this says
where the error comes from, the counterpart of when it succeeds:

* `ConfigFile.read_eq_error`, `AppLoader.load_eq_error` — an app file is not read, does not decode,
  names an id that nothing has, or breaks a rule, in this order;
* `App.Dangling` — the references of an app that lead nowhere, whatever comes first;
* `AppLoader.Staged` — the four stages of an app file and what each reports;
* `Walk.visitPaths_eq_error`, `IncludeBuilder.exists_of_loadDirs_eq_error` — what was done before
  the file that fails, and that file's own stages, `IncludeBuilder.loadFile_eq_error`;
* `IncludeBuilder.exists_of_build_eq_error` — the group that a builder stumbles over.
-/

namespace Monorepo

/-! ### Reading -/

/-- A file is not read, or it does not decode. -/
theorem ConfigFile.read_eq_error {α : Type} [OnDisk α] {d : Disk} {file : Path} {e : LoadError} :
    ConfigFile.read α d file = .error e ↔
      (∃ fault, d.readFile file = .error fault ∧ e = .io file fault) ∨
        ∃ bytes fault, d.readFile file = .ok bytes ∧
          (FileFormat.ofPath file).decode α bytes = .error fault ∧ e = .parse file fault := by
  rw [read]
  cases d.readFile file with
  | error fault => simp [eq_comm]
  | ok bytes =>
    cases hdecode : (FileFormat.ofPath file).decode α bytes with
    | error fault => simp [hdecode, eq_comm]
    | ok value => simp [hdecode]

theorem ConfigFile.read_eq_ok {α : Type} [OnDisk α] {d : Disk} {file : Path} {value : α} :
    ConfigFile.read α d file = .ok value ↔
      ∃ bytes, d.readFile file = .ok bytes ∧
        (FileFormat.ofPath file).decode α bytes = .ok value := by
  rw [read]
  cases d.readFile file with
  | error fault => simp
  | ok bytes =>
    cases hdecode : (FileFormat.ofPath file).decode α bytes with
    | error fault => simp [hdecode]
    | ok value => simp [hdecode]

/-! ### Apps -/

namespace App

/-- A reference of an app that leads nowhere, as an error: a task's to an id of no input and no
output, or the app's to an id of no group. -/
inductive Dangling (s : IncludeStore) (a : App) : LoadError → Prop where
  | ofTask {t : Task} {id : String} (htask : t ∈ a.tasks) (hid : id ∈ t.includes)
    (hinput : id ∉ s.ids .input) (houtput : id ∉ s.ids .output) :
    Dangling s a (.reference id .inputOutput ("task '" ++ t.name ++ "'"))
  | ofApp {id : String} (hid : id ∈ a.includes) (hgroup : id ∉ s.ids .taskGroup) :
    Dangling s a (.reference id .taskGroup ("app '" ++ a.name ++ "'"))

variable {s : IncludeStore} {a : App} {e : LoadError}

/-- Dropping blank outputs leaves all references as they are. -/
theorem dangling_prune : a.prune.Dangling s e ↔ a.Dangling s e := by
  constructor
  · intro h
    cases h with
    | ofTask htask hid hinput houtput =>
      obtain ⟨t, ht, rfl⟩ := List.mem_map.mp htask
      exact .ofTask (t := t) ht hid hinput houtput
    | ofApp hid hgroup => exact .ofApp (a := a) hid hgroup
  · intro h
    cases h with
    | @ofTask t id htask hid hinput houtput =>
      have hpruned : t.prune ∈ a.prune.tasks := List.mem_map_of_mem htask
      exact .ofTask (t := t.prune) hpruned hid hinput houtput
    | ofApp hid hgroup => exact .ofApp (a := a.prune) hid hgroup

theorem dangling_iff : a.Dangling s e ↔ ∃ r ∈ a.references, ¬ r.FoundIn s ∧ e = r.missing := by
  constructor
  · intro h
    cases h with
    | @ofTask t id htask hid hinput houtput =>
      have href : t.referTo id ∈ t.references := List.mem_map_of_mem hid
      have hmem : t.referTo id ∈ a.references :=
        List.mem_append_left _ (List.mem_flatMap.mpr ⟨t, htask, href⟩)
      exact ⟨_, hmem, fun hfound => hfound.elim hinput houtput, rfl⟩
    | @ofApp id hid hgroup =>
      have href : a.referTo id ∈ a.groupReferences := List.mem_map_of_mem hid
      exact ⟨_, List.mem_append_right _ href, hgroup, rfl⟩
  · rintro ⟨r, hr, hmissing, rfl⟩
    rcases List.mem_append.mp hr with htask | hgroup
    · obtain ⟨t, ht, href⟩ := List.mem_flatMap.mp htask
      obtain ⟨id, hid, rfl⟩ := List.mem_map.mp href
      exact .ofTask ht hid (fun h => hmissing (.inl h)) (fun h => hmissing (.inr h))
    · obtain ⟨id, hid, rfl⟩ := List.mem_map.mp hgroup
      exact .ofApp hid hmissing

theorem dangling_of_fault? (h : a.fault? s = some e) : a.Dangling s e := by
  rw [fault?_eq_find?, Option.map_eq_some_iff] at h
  obtain ⟨r, hfirst, rfl⟩ := h
  obtain ⟨before, after, hreferences, -, hmissing⟩ := (firstMissing?_eq_some s).mp hfirst
  exact dangling_iff.mpr ⟨r, by simp [hreferences], hmissing, rfl⟩

/-- There is no fault exactly when no reference leads nowhere. -/
theorem fault?_eq_none_iff_forall_not_dangling :
    a.fault? s = none ↔ ∀ e, ¬ a.Dangling s e := by
  rw [fault?_eq_find?, Option.map_eq_none_iff, firstMissing?_eq_none]
  constructor
  · intro hfound e hdangling
    obtain ⟨r, hr, hmissing, -⟩ := dangling_iff.mp hdangling
    exact hmissing (hfound r hr)
  · intro hnone r hr
    by_contra hmissing
    exact hnone _ (dangling_iff.mpr ⟨r, hr, hmissing, rfl⟩)

end App

/-- How many activities an error is wrapped in. -/
def LoadError.layers : LoadError → Nat
  | .inFile _ _ inner => inner.layers + 1
  | _ => 0

namespace AppLoader

theorem load_eq_error {loader : AppLoader} {d : Disk} {file : Path} {e : LoadError} :
    loader.load d file = .error e ↔
      ConfigFile.read App d file = .error e ∨
        ∃ written, ConfigFile.read App d file = .ok written ∧
          loader.complete file written = .error e := by
  rw [load, Except.bind_eq_error_iff]

/-- What was read fails at a reference or, if there is none to fail at, at a rule. -/
theorem complete_eq_error {loader : AppLoader} {file : Path} {written : App} {e : LoadError} :
    loader.complete file written = .error e ↔
      (∃ fault, written.prune.fault? loader.store = some fault ∧
          e = .inFile "resolving includes of" file fault) ∨
        written.prune.fault? loader.store = none ∧
          ∃ v, (written.prune.completed loader.store).validate loader.taskMode = .error v ∧
            e = .inFile "validating app config" file (.invalid v) := by
  rw [complete_eq]
  cases written.prune.fault? loader.store with
  | some fault => simp [eq_comm]
  | none =>
    rw [Option.elim_none]
    cases (written.prune.completed loader.store).validate loader.taskMode with
    | error v => simp [eq_comm]
    | ok u => simp

/-- The four errors of an app file. -/
theorem cases_of_load_eq_error {loader : AppLoader} {d : Disk} {file : Path} {e : LoadError}
    (h : loader.load d file = .error e) :
    (∃ fault, e = .io file fault) ∨ (∃ fault, e = .parse file fault) ∨
      (∃ id space referrer,
        e = .inFile "resolving includes of" file (.reference id space referrer)) ∨
      ∃ v, e = .inFile "validating app config" file (.invalid v) := by
  rcases load_eq_error.mp h with hread | ⟨written, -, hcomplete⟩
  · rcases ConfigFile.read_eq_error.mp hread with ⟨fault, -, he⟩ | ⟨bytes, fault, -, -, he⟩
    · exact .inl ⟨fault, he⟩
    · exact .inr (.inl ⟨fault, he⟩)
  · rcases complete_eq_error.mp hcomplete with ⟨fault, hfault, he⟩ | ⟨-, v, -, he⟩
    · obtain ⟨id, space, referrer, rfl⟩ := App.exists_reference_of_fault? _ hfault
      exact .inr (.inr (.inl ⟨id, space, referrer, he⟩))
    · exact .inr (.inr (.inr ⟨v, he⟩))

/-- The stages that an app file passes, and what the first that fails reports: reading, decoding,
resolving and checking.  No error is wrapped twice, and only that of a broken rule tells an element. -/
structure Staged (loader : AppLoader) (d : Disk) (file : Path) : Prop where
  unreadable : ∀ fault, d.readFile file = .error fault →
    loader.load d file = .error (.io file fault)
  undecodable : ∀ bytes fault, d.readFile file = .ok bytes →
    (FileFormat.ofPath file).decode App bytes = .error fault →
      loader.load d file = .error (.parse file fault)
  unresolved : ∀ bytes written, d.readFile file = .ok bytes →
    (FileFormat.ofPath file).decode App bytes = .ok written →
      (∃ e, written.Dangling loader.store e) →
        ∃ e, written.Dangling loader.store e ∧
          loader.load d file = .error (.inFile "resolving includes of" file e)
  resolved : ∀ bytes written, d.readFile file = .ok bytes →
    (FileFormat.ofPath file).decode App bytes = .ok written →
      (∀ e, ¬ written.Dangling loader.store e) →
        ∃ app, (written.prune.resolve loader.store).value = .ok app ∧
          (∀ v, app.validate loader.taskMode = .error v →
            loader.load d file = .error (.inFile "validating app config" file (.invalid v))) ∧
          (app.validate loader.taskMode = .ok () → loader.load d file = .ok app)
  layers : ∀ e, loader.load d file = .error e → e.layers ≤ 1
  element : ∀ e, loader.load d file = .error e →
    ((ErrorReport.ofError e).elementPath?.isSome = true ↔
      ∃ v, e = .inFile "validating app config" file (.invalid v))

/-- **The first stage that fails is the one that is told.** -/
theorem staged (loader : AppLoader) (d : Disk) (file : Path) : loader.Staged d file where
  unreadable fault hread :=
    load_eq_error.mpr (.inl (ConfigFile.read_eq_error.mpr (.inl ⟨fault, hread, rfl⟩)))
  undecodable bytes fault hread hdecode :=
    load_eq_error.mpr
      (.inl (ConfigFile.read_eq_error.mpr (.inr ⟨bytes, fault, hread, hdecode, rfl⟩)))
  unresolved bytes written hread hdecode hdangling := by
    have hwritten := ConfigFile.read_eq_ok.mpr ⟨bytes, hread, hdecode⟩
    cases hfault : written.prune.fault? loader.store with
    | none =>
      obtain ⟨e, he⟩ := hdangling
      exact absurd (App.dangling_prune.mpr he)
        (App.fault?_eq_none_iff_forall_not_dangling.mp hfault e)
    | some e =>
      exact ⟨e, App.dangling_prune.mp (App.dangling_of_fault? hfault), load_eq_error.mpr
        (.inr ⟨written, hwritten, complete_eq_error.mpr (.inl ⟨e, hfault, rfl⟩)⟩)⟩
  resolved bytes written hread hdecode hall := by
    have hwritten := ConfigFile.read_eq_ok.mpr ⟨bytes, hread, hdecode⟩
    have hfault : written.prune.fault? loader.store = none :=
      App.fault?_eq_none_iff_forall_not_dangling.mpr fun e he =>
        hall e (App.dangling_prune.mp he)
    refine ⟨written.prune.completed loader.store, ?_, ?_, ?_⟩
    · rw [App.resolve_value, hfault]
      rfl
    · intro v hv
      exact load_eq_error.mpr
        (.inr ⟨written, hwritten, complete_eq_error.mpr (.inr ⟨hfault, v, hv, rfl⟩)⟩)
    · intro hvalid
      rw [load_eq_complete hwritten]
      exact complete_eq_ok.mpr ⟨hfault, rfl, App.validate_eq_ok.mp hvalid⟩
  layers e he := by
    rcases cases_of_load_eq_error he with
      ⟨fault, rfl⟩ | ⟨fault, rfl⟩ | ⟨id, space, referrer, rfl⟩ | ⟨v, rfl⟩
    · exact Nat.zero_le 1
    · exact Nat.zero_le 1
    · exact Nat.le_refl 1
    · exact Nat.le_refl 1
  element e he := by
    rcases cases_of_load_eq_error he with
      ⟨fault, rfl⟩ | ⟨fault, rfl⟩ | ⟨id, space, referrer, rfl⟩ | ⟨v, rfl⟩
    · simp [ErrorReport.ofError, LoadError.violation?, LoadError.root]
    · simp [ErrorReport.ofError, LoadError.violation?, LoadError.root]
    · simp [ErrorReport.ofError, LoadError.violation?, LoadError.root]
    · simp [ErrorReport.ofError, LoadError.violation?, LoadError.root]

end AppLoader

/-! ### Include files -/

/-- A visit that fails has passed over the paths before the one that is rejected. -/
theorem Walk.visitPaths_eq_error {σ : Type} {visitor : σ → Path → Except LoadError σ}
    {paths : List Path} {state left : σ} {e : LoadError} :
    visitPaths visitor paths state = (left, .error e) ↔
      ∃ before path after, paths = before ++ path :: after ∧
        visitPaths visitor before state = (left, .ok ()) ∧ visitor left path = .error e := by
  induction paths generalizing state with
  | nil => simp [visitPaths]
  | cons path rest ih =>
    rw [visitPaths]
    cases hvisit : visitor state path with
    | error e' =>
      constructor
      · intro h
        cases h
        exact ⟨[], path, rest, rfl, rfl, hvisit⟩
      · intro h
        obtain ⟨before, path', after, hpaths, hbefore, he⟩ := h
        cases before with
        | nil =>
          cases hpaths
          cases hbefore
          rw [hvisit] at he
          cases he
          rfl
        | cons first others =>
          cases hpaths
          rw [visitPaths, hvisit] at hbefore
          cases hbefore
    | ok next =>
      rw [ih]
      constructor
      · intro h
        obtain ⟨before, path', after, rfl, hbefore, he⟩ := h
        refine ⟨path :: before, path', after, rfl, ?_, he⟩
        rw [visitPaths, hvisit]
        exact hbefore
      · intro h
        obtain ⟨before, path', after, hpaths, hbefore, he⟩ := h
        cases before with
        | nil =>
          cases hpaths
          cases hbefore
          rw [hvisit] at he
          cases he
        | cons first others =>
          cases hpaths
          rw [visitPaths, hvisit] at hbefore
          exact ⟨others, path', after, rfl, hbefore, he⟩

namespace IncludeBuilder

variable {d : Disk} {b : IncludeBuilder} {e : LoadError}

/-- A file is refused for an id of its own that is registered or that it repeats. -/
theorem exists_of_add_eq_error {f : IncludeFile} {origin : Path} (h : b.add f origin = .error e) :
    ∃ space id first, (space, id) ∈ f.ids ∧
      (b.registered.definedIn? space id = some first ∨ first = origin) ∧
      e = .duplicateId id space first origin := by
  obtain ⟨space, id, first, htaken, rfl⟩ := add_eq_error.mp h
  obtain ⟨passed, rest, hids, -, hfirst⟩ := taken?_eq_some.mp htaken
  refine ⟨space, id, first, ?_, hfirst.imp_right fun hrepeated => hrepeated.2.2, rfl⟩
  rw [hids]
  exact List.mem_append_right passed List.mem_cons_self

/-- A file fails when it is read, when it is checked or when it is registered. -/
theorem loadFile_eq_error {file : Path} :
    b.loadFile d file = .error e ↔
      ConfigFile.read IncludeFile d file = .error e ∨
        (∃ written v, ConfigFile.read IncludeFile d file = .ok written ∧
          written.prune.validate = .error v ∧
          e = .inFile "validating include file" file (.invalid v)) ∨
        ∃ f, f.HeldBy d file ∧ b.add f file = .error e := by
  rw [loadFile, Except.bind_eq_error_iff]
  refine or_congr_right ?_
  constructor
  · intro h
    obtain ⟨written, hread, hstage⟩ := h
    cases hcheck : written.prune.validate with
    | error v =>
      simp only [hcheck] at hstage
      cases hstage
      exact .inl ⟨written, v, hread, hcheck, rfl⟩
    | ok u =>
      simp only [hcheck] at hstage
      exact .inr ⟨written.prune,
        ⟨written, hread, rfl, IncludeFile.validate_eq_ok.mp hcheck⟩, hstage⟩
  · rintro (⟨written, v, hread, hcheck, rfl⟩ | ⟨f, ⟨written, hread, rfl, hvalid⟩, hadd⟩)
    · refine ⟨written, hread, ?_⟩
      simp only [hcheck]
      rfl
    · refine ⟨written, hread, ?_⟩
      simp only [IncludeFile.validate_eq_ok.mpr hvalid]
      exact hadd

/-- A directory fails at a file that is visited, or where the walk ends. -/
theorem cases_of_loadDir_eq_error {left : IncludeBuilder} {dir : Path}
    (h : b.loadDir d dir = (left, .error e)) :
    (∃ before file after, (d.walk .refuse dir).paths = before ++ file :: after ∧
        Walk.visitPaths (visitFile d) before b = (left, .ok ()) ∧
        (FileFormat.ofPath? file).isSome ∧ left.loadFile d file = .error e) ∨
      (d.walk .refuse dir).ending = .failed e ∨ e = .io dir .tooManyLinks := by
  rw [loadDir, Walk.visit] at h
  rcases hvisit : Walk.visitPaths (visitFile d) (d.walk .refuse dir).paths b with ⟨b', e' | u⟩
  · rw [hvisit] at h
    cases h
    obtain ⟨before, file, after, hpaths, hbefore, hfile⟩ := Walk.visitPaths_eq_error.mp hvisit
    rw [visitFile] at hfile
    split at hfile
    · cases hfile
    · rename_i hformat
      exact .inl ⟨before, file, after, hpaths, hbefore,
        by simpa [Option.isSome_iff_ne_none] using hformat, hfile⟩
  · rw [hvisit] at h
    cases hending : (d.walk .refuse dir).ending with
    | complete =>
      rw [hending] at h
      cases h
    | failed e' =>
      rw [hending] at h
      cases h
      exact .inr (.inl rfl)
    | endless =>
      rw [hending] at h
      cases h
      exact .inr (.inr rfl)

/-- Directories fail at one of them, after those before it were loaded. -/
theorem exists_of_loadDirs_eq_error {dirs : List Path} (h : loadDirs d b dirs = .error e) :
    ∃ before dir after next left, dirs = before ++ dir :: after ∧
      loadDirs d b before = .ok next ∧ next.loadDir d dir = (left, .error e) := by
  induction dirs generalizing b with
  | nil => cases h
  | cons dir rest ih =>
    rw [loadDirs] at h
    rcases hdir : b.loadDir d dir with ⟨next, e' | u⟩
    · rw [hdir] at h
      cases h
      exact ⟨[], dir, rest, b, next, rfl, rfl, hdir⟩
    · rw [hdir] at h
      obtain ⟨before, dir', after, next', left, rfl, hbefore, herror⟩ := ih h
      refine ⟨dir :: before, dir', after, next', left, rfl, ?_, herror⟩
      rw [loadDirs, hdir]
      exact hbefore

theorem resolveGroup_eq_error {s : IncludeStore} {group : Registered TaskGroup} :
    resolveGroup s group = .error e ↔ ∃ fault, group.fragment.fault? s = some fault ∧
      e = .inFile "resolving task group includes of" group.origin fault := by
  rw [resolveGroup, Task.resolveAll_value, TaskGroup.fault?]
  cases group.fragment.tasks.findSome? (Task.fault? s) with
  | some fault => simp [eq_comm]
  | none => simp

/-- Groups fail at one of them. -/
theorem exists_of_resolveGroups_eq_error {s : IncludeStore}
    {entries : List (String × Registered TaskGroup)} (h : resolveGroups s entries = .error e) :
    ∃ entry ∈ entries, ∃ fault, entry.2.fragment.fault? s = some fault ∧
      e = .inFile "resolving task group includes of" entry.2.origin fault := by
  induction entries with
  | nil => cases h
  | cons entry rest ih =>
    rw [resolveGroups, Except.bind_eq_error_iff] at h
    rcases h with hgroup | ⟨resolved, -, hrest⟩
    · exact ⟨entry, List.mem_cons_self, resolveGroup_eq_error.mp hgroup⟩
    · rcases Except.bind_eq_error_iff.mp hrest with hothers | ⟨others, -, hok⟩
      · obtain ⟨entry', hmem, hfault⟩ := ih hothers
        exact ⟨entry', List.mem_cons_of_mem _ hmem, hfault⟩
      · cases hok

/-- **A builder fails at a task of a group that names an id of no input and no output.** -/
theorem exists_of_build_eq_error {files : List (IncludeFile × Path)}
    (hb : b.registered.ConsistsOf files) (h : b.build = .error e) :
    ∃ file ∈ files, ∃ g ∈ file.1.taskGroups, ∃ t ∈ g.tasks, ∃ id ∈ t.includes,
      (∀ other ∈ files, id ∉ other.1.fragmentIds) ∧
      e = .inFile "resolving task group includes of" file.2
        (.reference id .inputOutput ("task '" ++ t.name ++ "'")) := by
  rcases Except.bind_eq_error_iff.mp h with hgroups | ⟨groups, -, hok⟩
  · obtain ⟨entry, hentry, fault, hfault, rfl⟩ := exists_of_resolveGroups_eq_error hgroups
    obtain ⟨file, hfile, hmem⟩ :=
      List.mem_flatMap.mp (hb.taskGroups.entries.mem_iff.mp hentry)
    obtain ⟨g, hg, rfl⟩ := List.mem_map.mp hmem
    obtain ⟨t, ht, htask⟩ := List.exists_of_findSome?_eq_some hfault
    obtain ⟨before, id, rest, hincludes, -, hunknown, rfl⟩ := (Task.fault?_eq_some _).mp htask
    have hnone : ∀ other ∈ files, id ∉ other.1.fragmentIds := by
      intro other hother hid
      have hknown : b.registered.knows id = true :=
        hb.knows.mpr (List.mem_flatMap.mpr ⟨other, hother, hid⟩)
      rw [show b.registered.knows id = false from hunknown] at hknown
      cases hknown
    exact ⟨file, hfile, g, hg, t, ht, id, by rw [hincludes]; simp, hnone, rfl⟩
  · cases hok

end IncludeBuilder

end Monorepo
