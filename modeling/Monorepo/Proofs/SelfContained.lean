import Monorepo.Proofs.AppLoading
import Monorepo.Proofs.References
import Monorepo.Proofs.Rendering
import Monorepo.Proofs.Writing

/-!
# Loaded apps stand on their own

A loaded app refers to nothing any more, and it is free of blank outputs.  So what is written of it
loads again, in the same mode, with whatever store is at hand:

* `App.Valid.prune_eq` — there is nothing to drop from a valid app;
* `AppLoader.load_of_readFile` — a file with the text of a valid app loads as that app;
* `AppLoader.load_encode` — the same from one loading to the next.
-/

namespace Monorepo

/-! ### Nothing is left to do -/

theorem Task.Valid.prune_eq {t : Task} (h : t.Valid) : t.prune = t := by
  rw [Task.prune, h.output.prune_eq]

namespace App.Valid

variable {mode : TaskMode} {a : App}

theorem prune_eq (h : a.Valid mode) : a.prune = a := by
  have htasks : a.tasks.map Task.prune = a.tasks := by
    calc a.tasks.map Task.prune = a.tasks.map id :=
          List.map_congr_left fun t ht => (h.tasks.each t ht).prune_eq
      _ = a.tasks := List.map_id _
  rw [App.prune, htasks]

end App.Valid

namespace AppLoader

theorem complete_of_valid {loader : AppLoader} {app : App} (h : app.Valid loader.taskMode)
    (file : Path) : loader.complete file app = .ok app := by
  apply complete_eq_ok.mpr
  rw [h.prune_eq]
  exact ⟨h.resolved.fault?_eq_none _, (h.resolved.completed_eq _).symm, h⟩

theorem valid_of_load {loader : AppLoader} {d : Disk} {file : Path} {app : App}
    (h : loader.load d file = .ok app) : app.Valid loader.taskMode := by
  obtain ⟨written, -, hcomplete⟩ := Except.bind_eq_ok_iff.mp h
  exact (complete_eq_ok.mp hcomplete).2.2

/-- **The text of a valid app loads as the app, with every store.** -/
theorem load_of_readFile {loader : AppLoader} {d : Disk} {file : Path} {app : App} {text : String}
    (happ : app.Valid loader.taskMode) (hencode : (FileFormat.ofPath file).encode app = .ok text)
    (hreads : (FileFormat.ofPath file).ReadsBack (OnDisk.schema App) (toDocument app))
    (hfile : d.readFile file = .ok (Utf8.encode text)) : loader.load d file = .ok app := by
  have hread : ConfigFile.read App d file = .ok app := by
    rw [ConfigFile.read, hfile]
    simp only [FileFormat.decode_encode hreads hencode]
  rw [load_eq_complete hread]
  exact complete_of_valid happ file

/-- **A loaded app is self-contained.**  It can be written in every format, and wherever its text is
written to a file of that format, the file loads as the same app in the same mode, with every
store. -/
theorem load_encode {loader : AppLoader} {d : Disk} {file : Path} {app : App}
    (h : loader.load d file = .ok app) (format : FileFormat)
    (hreads : format.ReadsBack (OnDisk.schema App) (toDocument app)) :
    ∃ text, format.encode app = .ok text ∧
      ∀ (store : IncludeStore) (before after : Disk) (copy : Path) (mode : Disk.WriteMode),
        FileFormat.ofPath copy = format → mode ≠ .extend →
        before.writeFile copy mode (Utf8.encode text) = .ok after →
        (AppLoader.mk store loader.taskMode).load after copy = .ok app := by
  obtain ⟨text, hencode⟩ := FileFormat.exists_encode_eq_ok format app
  refine ⟨text, hencode, ?_⟩
  rintro store before after copy mode rfl hmode hwrite
  have happ : app.Valid loader.taskMode := valid_of_load h
  exact load_of_readFile happ hencode hreads
    (Disk.readFile_of_writeFile hmode hwrite)

/-- A disk with an app that has no tasks but those of a group. -/
def groupAppDisk : Disk where
  tree := ⟨[(["app.toml"], .file (asciiLines ["name='a'", "includes=['g']"]))]⟩

/-- The app with the group of the sample store. -/
def groupApp : App where
  name := "a"
  tasks := [{
    name := "t"
    command := "c"
    input := { golangSources := { paths := ["p"] } }
    output := { files := [{ path := "f" }] } }]

/-- What is shown of the app. -/
def groupAppText : String :=
  "name = \"a\"\n\n[[Task]]\nname = \"t\"\ncommand = \"c\"\n"
    ++ "\n[Task.Input.GolangSources]\npaths = [\"p\"]\n"
    ++ "\n[[Task.Output.File]]\npath = \"f\"\n"

/-- The app includes a group of the sample store.  What is shown of it loads with the empty store
too. -/
theorem load_encode_group :
    (AppLoader.mk sampleStore .multiple).load groupAppDisk ⟨"app.toml"⟩ = .ok groupApp ∧
      FileFormat.ReadsBack .toml (OnDisk.schema App) (toDocument groupApp) ∧
      FileFormat.encode .toml groupApp = .ok groupAppText ∧
      ∃ after, ({} : Disk).writeFile ⟨"b.toml"⟩ .createNew (Utf8.encode groupAppText) = .ok after ∧
        (AppLoader.mk {} .multiple).load after ⟨"b.toml"⟩ = .ok groupApp := by
  have hload : (AppLoader.mk sampleStore .multiple).load groupAppDisk ⟨"app.toml"⟩ =
      .ok groupApp := by decide +kernel
  have hencode : FileFormat.encode .toml groupApp = .ok groupAppText := by decide +kernel
  have hreads : FileFormat.ReadsBack .toml (OnDisk.schema App) (toDocument groupApp) := by
    intro text htext
    obtain rfl : groupAppText = text := Except.ok.inj (hencode.symm.trans htext)
    decide +kernel
  obtain ⟨text, htext, hcopy⟩ := load_encode hload .toml hreads
  obtain rfl : groupAppText = text := Except.ok.inj (hencode.symm.trans htext)
  exact ⟨hload, hreads, hencode, _, rfl, hcopy {} {} _ ⟨"b.toml"⟩ .createNew rfl (by decide) rfl⟩

end AppLoader

end Monorepo
