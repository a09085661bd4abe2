import Mathlib.Data.List.Forall2
import Monorepo.Proofs.Registration
import Monorepo.Proofs.Validity

/-!
# Loading include directories

Loading a store walks directories and registers the files that it meets.  Here the walk is taken out
of the way:

* `IncludeFile.HeldBy` — the include that a file holds: decoded, without blank outputs, and valid;
* `IncludeBuilder.loadFile_eq_ok` — one file is loaded exactly when it holds an include that can be
  registered;
* `IncludeStore.load_eq_ok` — a store is loaded exactly when all walks complete and what the
  configuration files on the way hold can be registered, one after the other, and built.
-/

namespace Monorepo

/-- The include that a file holds: decoded, without blank outputs, and valid. -/
def IncludeFile.HeldBy (d : Disk) (file : Path) (f : IncludeFile) : Prop :=
  ∃ written, ConfigFile.read IncludeFile d file = .ok written ∧ f = written.prune ∧ f.Valid

/-- The includes that configuration files hold, each with its file. -/
def IncludeFile.AllHeldBy (d : Disk) : List Path → List (IncludeFile × Path) → Prop :=
  List.Forall₂ fun file held => held.1.HeldBy d file ∧ held.2 = file

theorem IncludeFile.allHeldBy_append {d : Disk} {files files' : List Path}
    {held : List (IncludeFile × Path)} :
    AllHeldBy d (files ++ files') held ↔
      ∃ first others, AllHeldBy d files first ∧ AllHeldBy d files' others ∧
        held = first ++ others := by
  constructor
  · intro h
    induction files generalizing held with
    | nil => exact ⟨[], held, .nil, h, rfl⟩
    | cons file rest ih =>
      obtain ⟨f, others, hf, hothers, rfl⟩ := List.forall₂_cons_left_iff.mp h
      obtain ⟨first, last, hfirst, hlast, rfl⟩ := ih hothers
      exact ⟨f :: first, last, .cons hf hfirst, hlast, rfl⟩
  · intro h
    obtain ⟨first, others, hfirst, hothers, rfl⟩ := h
    exact List.rel_append hfirst hothers

theorem IncludeFile.AllHeldBy.valid {d : Disk} {files : List Path}
    {held : List (IncludeFile × Path)} (h : AllHeldBy d files held) :
    ∀ file ∈ held, file.1.Valid := by
  induction h with
  | nil => simp
  | cons hfile _ ih =>
    obtain ⟨⟨written, -, -, hvalid⟩, -⟩ := hfile
    exact List.forall_mem_cons.mpr ⟨hvalid, ih⟩

/-- The configuration files among files. -/
def configFiles (files : List Path) : List Path :=
  files.filter fun file => (FileFormat.ofPath? file).isSome

namespace IncludeBuilder

variable {d : Disk}

theorem loadFile_eq_ok {b b' : IncludeBuilder} {file : Path} :
    b.loadFile d file = .ok b' ↔ ∃ f, f.HeldBy d file ∧ b.add f file = .ok b' := by
  rw [loadFile, Except.bind_eq_ok_iff]
  constructor
  · intro h
    obtain ⟨written, hread, hadd⟩ := h
    cases hcheck : written.prune.validate with
    | error violation =>
      simp only [hcheck] at hadd
      cases hadd
    | ok u =>
      simp only [hcheck] at hadd
      exact ⟨written.prune, ⟨written, hread, rfl, IncludeFile.validate_eq_ok.mp hcheck⟩, hadd⟩
  · intro h
    obtain ⟨f, ⟨written, hread, rfl, hvalid⟩, hadd⟩ := h
    refine ⟨written, hread, ?_⟩
    simp only [IncludeFile.validate_eq_ok.mpr hvalid]
    exact hadd

/-- A visitor passes over all files exactly when those of them that are configuration files hold
includes that can be registered one after the other. -/
theorem visitPaths_eq_ok {b b' : IncludeBuilder} {files : List Path} :
    Walk.visitPaths (visitFile d) files b = (b', .ok ()) ↔
      ∃ held, IncludeFile.AllHeldBy d (configFiles files) held ∧ addAll b held = .ok b' := by
  induction files generalizing b with
  | nil =>
    simp [Walk.visitPaths, configFiles, IncludeFile.AllHeldBy, addAll]
  | cons file rest ih =>
    rw [Walk.visitPaths, visitFile]
    cases hformat : FileFormat.ofPath? file with
    | none =>
      have hskip : configFiles (file :: rest) = configFiles rest := by
        simp [configFiles, hformat]
      rw [hskip]
      exact ih
    | some format =>
      have hkeep : configFiles (file :: rest) = file :: configFiles rest := by
        simp [configFiles, hformat]
      rw [hkeep]
      simp only [Option.isNone_some, Bool.false_eq_true, if_false]
      constructor
      · intro h
        cases hload : b.loadFile d file with
        | error e =>
          rw [hload] at h
          cases h
        | ok next =>
          rw [hload] at h
          obtain ⟨f, hheld, hadd⟩ := loadFile_eq_ok.mp hload
          obtain ⟨held, hall, hrest⟩ := ih.mp h
          refine ⟨(f, file) :: held, .cons ⟨hheld, rfl⟩ hall, ?_⟩
          rw [addAll, hadd]
          exact hrest
      · intro h
        obtain ⟨held, hall, hadd⟩ := h
        obtain ⟨⟨f, origin⟩, others, ⟨hheld, horigin⟩, hothers, rfl⟩ :=
          List.forall₂_cons_left_iff.mp hall
        obtain rfl : origin = file := horigin
        rw [addAll, Except.bind_eq_ok_iff] at hadd
        obtain ⟨next, hnext, hrest⟩ := hadd
        rw [loadFile_eq_ok.mpr ⟨f, hheld, hnext⟩]
        exact ih.mpr ⟨others, hothers, hrest⟩

theorem loadDir_eq_ok {b b' : IncludeBuilder} {dir : Path} :
    b.loadDir d dir = (b', .ok ()) ↔ (d.walk .refuse dir).ending = .complete ∧
      ∃ held, IncludeFile.AllHeldBy d (configFiles (d.walk .refuse dir).paths) held ∧
        addAll b held = .ok b' := by
  rw [← visitPaths_eq_ok, loadDir, Walk.visit]
  rcases Walk.visitPaths (visitFile d) (d.walk .refuse dir).paths b with ⟨left, e | u⟩
  · simp
  · cases (d.walk .refuse dir).ending with
    | complete => simp
    | failed e => simp
    | endless => simp

theorem loadDirs_eq_ok {b b' : IncludeBuilder} {dirs : List Path} :
    loadDirs d b dirs = .ok b' ↔ (∀ dir ∈ dirs, (d.walk .refuse dir).ending = .complete) ∧
      ∃ held, IncludeFile.AllHeldBy d
          (configFiles (dirs.flatMap fun dir => (d.walk .refuse dir).paths)) held ∧
        addAll b held = .ok b' := by
  induction dirs generalizing b with
  | nil => simp [loadDirs, configFiles, IncludeFile.AllHeldBy, addAll]
  | cons dir rest ih =>
    have hsplit : configFiles ((dir :: rest).flatMap fun dir => (d.walk .refuse dir).paths) =
        configFiles (d.walk .refuse dir).paths ++
          configFiles (rest.flatMap fun dir => (d.walk .refuse dir).paths) := by
      simp [configFiles]
    rw [List.forall_mem_cons, hsplit, loadDirs]
    constructor
    · intro h
      rcases hdir : b.loadDir d dir with ⟨next, e | u⟩
      · rw [hdir] at h
        cases h
      · rw [hdir] at h
        obtain ⟨hending, held, hall, hadd⟩ := loadDir_eq_ok.mp hdir
        obtain ⟨hendings, others, hothers, hrest⟩ := ih.mp h
        refine ⟨⟨hending, hendings⟩, held ++ others,
          IncludeFile.allHeldBy_append.mpr ⟨held, others, hall, hothers, rfl⟩, ?_⟩
        rw [addAll_append, hadd]
        exact hrest
    · intro h
      obtain ⟨⟨hending, hendings⟩, held, hall, hadd⟩ := h
      obtain ⟨first, others, hfirst, hothers, rfl⟩ := IncludeFile.allHeldBy_append.mp hall
      rw [addAll_append, Except.bind_eq_ok_iff] at hadd
      obtain ⟨next, hnext, hrest⟩ := hadd
      rw [loadDir_eq_ok.mpr ⟨hending, first, hfirst, hnext⟩]
      exact ih.mpr ⟨hendings, others, hothers, hrest⟩

end IncludeBuilder

/-- **What a loaded store is made of.**  The walks over all directories complete, and the store is
built from what the configuration files that they meet hold. -/
theorem IncludeStore.load_eq_ok {d : Disk} {dirs : List Path} {s : IncludeStore} :
    IncludeStore.load d dirs = .ok s ↔
      (∀ dir ∈ dirs, (d.walk .refuse dir).ending = .complete) ∧
        ∃ held b, IncludeFile.AllHeldBy d
            (configFiles (dirs.flatMap fun dir => (d.walk .refuse dir).paths)) held ∧
          IncludeBuilder.addAll {} held = .ok b ∧ b.build = .ok s := by
  rw [load, Except.bind_eq_ok_iff]
  constructor
  · intro h
    obtain ⟨b, hload, hbuild⟩ := h
    obtain ⟨hendings, held, hall, hadd⟩ := IncludeBuilder.loadDirs_eq_ok.mp hload
    exact ⟨hendings, held, b, hall, hadd, hbuild⟩
  · intro h
    obtain ⟨hendings, held, b, hall, hadd, hbuild⟩ := h
    exact ⟨b, IncludeBuilder.loadDirs_eq_ok.mpr ⟨hendings, held, hall, hadd⟩, hbuild⟩

/-! ### A store that loads -/

/-- The bytes of lines of ASCII characters. -/
def asciiLines (lines : List String) : List UInt8 :=
  lines.flatMap fun line => (line.toList ++ ['\n']).map fun c => c.toNat.toUInt8

/-- An include file with a fragment of each kind, and an app that includes two of them. -/
def sampleDisk : Disk where
  tree := ⟨[
    (["inc"], .directory),
    (["inc", "a.toml"], .file (asciiLines [
      "[[Input]]",
      "id='i'",
      "GolangSources.paths=['p']",
      "[[Output]]",
      "id='o'",
      "[[Output.File]]",
      "path='f'",
      "[[TaskGroup]]",
      "id='g'",
      "[[TaskGroup.Task]]",
      "name='t'",
      "command='c'",
      "includes=['o','i']"])),
    (["app.toml"], .file (asciiLines [
      "name='a'",
      "includes=['g']",
      "[[Task]]",
      "name='b'",
      "command='c'",
      "includes=['i']",
      "Input.GolangSources.environment=['E']"]))]⟩

/-- The store of the include file, its group with the fragments in place of their ids. -/
def sampleStore : IncludeStore where
  inputs := ⟨[("i", ⟨{ id := "i", input := { golangSources := { paths := ["p"] } } },
    ⟨"inc/a.toml"⟩⟩)]⟩
  outputs := ⟨[("o", ⟨{ id := "o", output := { files := [{ path := "f" }] } },
    ⟨"inc/a.toml"⟩⟩)]⟩
  taskGroups := ⟨[("g", ⟨{
    id := "g"
    tasks := [{
      name := "t"
      command := "c"
      input := { golangSources := { paths := ["p"] } }
      output := { files := [{ path := "f" }] } }] }, ⟨"inc/a.toml"⟩⟩)]⟩

theorem load_sampleDisk : IncludeStore.load sampleDisk [⟨"inc"⟩] = .ok sampleStore := by
  decide +kernel

end Monorepo
