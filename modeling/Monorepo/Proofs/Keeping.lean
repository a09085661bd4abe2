import Monorepo.ConfigFile
import Monorepo.Proofs.Rendering
import Monorepo.Proofs.SettingsDocument
import Monorepo.Proofs.Writing

/-!
# Values kept in files

What is written of a value gives the value back, as a text and as a file, for every type that is
kept on disk.  What a format does with a document is not looked into: it is asked to read a document
of the shape that it is told back from the text that it writes for it.

* `FileFormat.Faithful` — what is asked of a format;
* `FileFormat.Keeps` — a value is read back, from its text and from a file with its text;
* `FileFormat.KeepsSettings` — the same of settings as a program holds them;
* `FileFormat.exists_encode_settings_iff` — the settings that a format has a text for;
* `FileFormat.keeps_every_type` — every type is kept, and only settings may hold what a format has
  no text for: a path that is no text, and in TOML a number beyond its range.
-/

namespace Monorepo

open Document Schema

namespace FileFormat

/-- What is asked of a format for a document: if the document is of a shape, the format reads it
back from the text that it writes for it, when it is told the shape. -/
def Faithful (format : FileFormat) (schema : Schema) (d : Document) : Prop :=
  schema.Accepts d → format.ReadsBack schema d

/-- A value is read back: from its text, and after it was written to a file from that file. -/
structure Keeps {α : Type} [OnDisk α] (format : FileFormat) (value : α) : Prop where
  decodes : ∀ text, format.encode value = .ok text →
    format.decode α (Utf8.encode text) = .ok value
  reads : ∀ (d d' : Disk) (file : Path) (overwrite : Bool), ofPath file = format →
    ConfigFile.write d value file overwrite = .ok d' → ConfigFile.read α d' file = .ok value

/-- What is written to a file is there to read, as bytes. -/
theorem exists_of_write {α : Type} [OnDisk α] {d d' : Disk} {value : α} {file : Path}
    {overwrite : Bool} (h : ConfigFile.write d value file overwrite = .ok d') :
    ∃ text, (ofPath file).encode value = .ok text ∧
      d'.readFile file = .ok (Utf8.encode text) := by
  rw [ConfigFile.write] at h
  cases hencode : (ofPath file).encode value with
  | error fault =>
    rw [hencode] at h
    cases h
  | ok text =>
    rw [hencode] at h
    refine ⟨text, rfl, ?_⟩
    have hmode : (if overwrite then Disk.WriteMode.replace else .createNew) ≠ .extend := by
      cases overwrite <;> decide
    cases hwrite : d.writeFile file (if overwrite then .replace else .createNew)
        (Utf8.encode text) with
    | error fault =>
      simp only [hwrite] at h
      cases h
    | ok written =>
      simp only [hwrite] at h
      cases h
      exact Disk.readFile_of_writeFile hmode hwrite

/-- **What a format reads back, files keep.** -/
theorem keeps_of_readsBack {α : Type} [OnDisk α] [OnDisk.Lawful α] {format : FileFormat}
    {value : α} (hreads : format.ReadsBack (OnDisk.schema α) (toDocument value)) :
    format.Keeps value := by
  constructor
  · intro text htext
    exact decode_encode hreads htext
  · rintro d d' file overwrite rfl hwrite
    obtain ⟨text, hencode, hfile⟩ := exists_of_write hwrite
    rw [ConfigFile.read, hfile]
    simp only [decode_encode hreads hencode]

/-- Every value of a type can be written in every format, and is kept where the format is faithful
to its document. -/
def KeepsAll (α : Type) [OnDisk α] : Prop :=
  ∀ (format : FileFormat) (value : α),
    (∃ text, format.encode value = .ok text) ∧
      (format.Faithful (OnDisk.schema α) (toDocument value) → format.Keeps value)

theorem keepsAll (α : Type) [OnDisk α] [OnDisk.Textual α] [OnDisk.Shaped α] : KeepsAll α := by
  intro format value
  refine ⟨exists_encode_eq_ok format value, ?_⟩
  intro hfaithful
  exact keeps_of_readsBack (hfaithful (OnDisk.Shaped.accepts value))

/-- Settings are read back with the paths that they were written with: from their text, and after
they were written to a file from that file. -/
structure KeepsSettings (format : FileFormat) (r : RawSettings) : Prop where
  decodes : ∀ text, r.encode format = .ok text →
    ∃ s : Settings, s.raw = r ∧ format.decode Settings (Utf8.encode text) = .ok s
  reads : ∀ (d d' : Disk) (file : Path) (overwrite : Bool), ofPath file = format →
    r.write d file overwrite = .ok d' →
      ∃ s : Settings, s.raw = r ∧ ConfigFile.read Settings d' file = .ok s

section Settings

variable {format : FileFormat} {r : RawSettings}

theorem encode_settings_eq_ok {text : String} :
    r.encode format = .ok text ↔ ∃ s : Settings, s.raw = r ∧ format.encode s = .ok text := by
  simp only [← RawSettings.settings?_eq_some, RawSettings.encode]
  cases r.settings? with
  | none => simp
  | some s => simp

theorem write_settings_eq_ok {d d' : Disk} {file : Path} {overwrite : Bool} :
    r.write d file overwrite = .ok d' ↔
      ∃ s : Settings, s.raw = r ∧ ConfigFile.write d s file overwrite = .ok d' := by
  simp only [← RawSettings.settings?_eq_some, RawSettings.write]
  cases r.settings? with
  | none => simp
  | some s => simp

/-- **The settings that a format has a text for.**  No format has a text for bytes that are none. -/
theorem exists_encode_settings_iff :
    (∃ text, r.encode format = .ok text) ↔
      r.PathsAreText ∧ (format = .toml →
        r.searchDepth ≤ Toml.integerLimit ∧ r.parallelism ≤ Toml.integerLimit) := by
  have hcounts (s : Settings) : (∃ text, format.encode s = .ok text) ↔ (format = .toml →
      s.searchDepth ≤ Toml.integerLimit ∧ s.parallelism ≤ Toml.integerLimit) := by
    rw [← Settings.countsWithin_iff]
    exact exists_render_eq_ok
  simp only [← RawSettings.exists_settings?_iff, RawSettings.settings?_eq_some,
    encode_settings_eq_ok]
  constructor
  · rintro ⟨text, s, rfl, htext⟩
    exact ⟨⟨s, rfl⟩, (hcounts s).mp ⟨text, htext⟩⟩
  · rintro ⟨⟨s, rfl⟩, hwithin⟩
    obtain ⟨text, htext⟩ := (hcounts s).mpr hwithin
    exact ⟨text, s, rfl, htext⟩

theorem keepsSettings (hdepth : r.searchDepth ≤ Schema.countLimit)
    (hparallelism : r.parallelism ≤ Schema.countLimit)
    (hfaithful : ∀ s : Settings, s.raw = r →
      format.Faithful (OnDisk.schema Settings) (toDocument s)) :
    format.KeepsSettings r := by
  have hkeeps (s : Settings) (hs : s.raw = r) : format.Keeps s := by
    subst hs
    exact keeps_of_readsBack (hfaithful s rfl (Settings.shaped hdepth hparallelism))
  constructor
  · intro text htext
    obtain ⟨s, hs, hencode⟩ := encode_settings_eq_ok.mp htext
    exact ⟨s, hs, (hkeeps s hs).decodes text hencode⟩
  · intro d d' file overwrite hformat hwrite
    obtain ⟨s, hs, hwritten⟩ := write_settings_eq_ok.mp hwrite
    exact ⟨s, hs, (hkeeps s hs).reads d d' file overwrite hformat hwritten⟩

end Settings

/-- **Every type is kept.**  Configurations, fragments and their sections can be written in both
formats, and are read back.  So are settings, except that no format has a text for a path that is
none, and TOML no text for a number beyond its range; the numbers of settings are of 64 bits. -/
theorem keeps_every_type :
    KeepsAll App ∧ KeepsAll Task ∧ KeepsAll IncludeFile ∧
    KeepsAll InputFragment ∧ KeepsAll OutputFragment ∧ KeepsAll TaskGroup ∧
    KeepsAll Input ∧ KeepsAll Files ∧ KeepsAll GitFiles ∧ KeepsAll GolangSources ∧
    KeepsAll Output ∧ KeepsAll FileOutput ∧ KeepsAll FileCopy ∧ KeepsAll S3Upload ∧
    KeepsAll DockerImage ∧ KeepsAll RegistryUpload ∧
    ∀ (format : FileFormat) (r : RawSettings),
      ((∃ text, r.encode format = .ok text) ↔
        r.PathsAreText ∧ (format = .toml →
          r.searchDepth ≤ Toml.integerLimit ∧ r.parallelism ≤ Toml.integerLimit)) ∧
      (r.searchDepth ≤ Schema.countLimit → r.parallelism ≤ Schema.countLimit →
        (∀ s : Settings, s.raw = r →
          format.Faithful (OnDisk.schema Settings) (toDocument s)) →
        format.KeepsSettings r) := by
  refine ⟨keepsAll _, keepsAll _, keepsAll _, keepsAll _, keepsAll _, keepsAll _, keepsAll _,
    keepsAll _, keepsAll _, keepsAll _, keepsAll _, keepsAll _, keepsAll _, keepsAll _, keepsAll _,
    keepsAll _, ?_⟩
  intro format r
  exact ⟨exists_encode_settings_iff, keepsSettings⟩

/-- An include file with an output that has no upload but one blank and one nested section. -/
def keptInclude : IncludeFile where
  outputs := [{
    id := "o"
    output := { dockerImages := [{ idfile := "i" }], files := [{ s3Upload := { bucket := "b" } }] } }]

/-- The text of the include file in TOML. -/
def keptIncludeText : String :=
  "[[Output]]\nid = \"o\"\n\n[[Output.DockerImage]]\nidfile = \"i\"\n"
    ++ "\n[[Output.File]]\npath = \"\"\n\n[Output.File.S3Upload]\nbucket = \"b\"\ndest_file = \"\"\n"

/-- Settings with a number that TOML can not hold. -/
def keptSettings : Settings where
  parallelism := 9223372036854775808

/-- The text of the settings in YAML. -/
def keptSettingsText : String :=
  "discover:\n  dirs:\n  - .\n  search_depth: 10\n  app_file_names:\n  - .app.toml\n"
    ++ "  - .app.yaml\nincludes:\n  dirs: []\ntasks:\n  mode: multiple\n"
    ++ "loader:\n  parallelism: 9223372036854775808\n"

theorem faithful_of_parse {format : FileFormat} {schema : Schema} {d : Document} {text : String}
    (hrender : format.render d = .ok text) (hparse : format.parse schema text = .ok d) :
    format.Faithful schema d := by
  intro _ written hwritten
  obtain rfl : text = written := Except.ok.inj (hrender.symm.trans hwritten)
  exact hparse

/-- The include file is written to a path without an extension, which makes it TOML, and read from
there.  The settings have no text in TOML, and are read back from their text in YAML. -/
theorem keeps_every_type_beyond_toml :
    Faithful .toml (OnDisk.schema IncludeFile) (toDocument keptInclude) ∧
      (∃ after, ConfigFile.write {} keptInclude ⟨"o"⟩ false = .ok after ∧
        ConfigFile.read IncludeFile after ⟨"o"⟩ = .ok keptInclude) ∧
      (¬ ∃ text, keptSettings.raw.encode .toml = .ok text) ∧
      keptSettings.searchDepth ≤ Schema.countLimit ∧
      keptSettings.parallelism ≤ Schema.countLimit ∧
      Faithful .yaml (OnDisk.schema Settings) (toDocument keptSettings) ∧
      keptSettings.raw.encode .yaml = .ok keptSettingsText ∧
      ∃ s : Settings, s.raw = keptSettings.raw ∧
        FileFormat.decode Settings .yaml (Utf8.encode keptSettingsText) = .ok s := by
  obtain ⟨-, -, hinclude, -, -, -, -, -, -, -, -, -, -, -, -, -, hsettings⟩ := keeps_every_type
  have hrender : FileFormat.render .toml (toDocument keptInclude) = .ok keptIncludeText := by
    decide +kernel
  have hfaithful : Faithful .toml (OnDisk.schema IncludeFile) (toDocument keptInclude) :=
    faithful_of_parse hrender (by decide +kernel)
  have hencode : FileFormat.encode .yaml keptSettings = .ok keptSettingsText := by decide +kernel
  have hraw : keptSettings.raw.encode .yaml = .ok keptSettingsText :=
    encode_settings_eq_ok.mpr ⟨keptSettings, rfl, hencode⟩
  have hfaithful' : Faithful .yaml (OnDisk.schema Settings) (toDocument keptSettings) :=
    faithful_of_parse hencode (by decide +kernel)
  have hdepth : keptSettings.searchDepth ≤ Schema.countLimit := by decide
  have hparallelism : keptSettings.parallelism ≤ Schema.countLimit := by decide
  refine ⟨hfaithful, ⟨_, rfl, ?_⟩, ?_, hdepth, hparallelism, hfaithful', hraw, ?_⟩
  · exact ((hinclude .toml keptInclude).2 hfaithful).reads {} _ ⟨"o"⟩ false rfl rfl
  · rw [(hsettings .toml keptSettings.raw).1]
    rintro ⟨-, hwithin⟩
    exact absurd (hwithin rfl).2 (by decide)
  · refine ((hsettings .yaml keptSettings.raw).2 hdepth hparallelism ?_).decodes _ hraw
    intro s hs
    rwa [Settings.raw_injective hs]

/-- Settings with an include directory whose name is written in Latin-1. -/
def latinSettings : RawSettings :=
  { Settings.raw {} with includeDirs := [.ofBytes [0x6D, 0xF6, 0x62]] }

/-- A file, and a link to it whose name has another extension. -/
def aliasDisk : Disk where
  tree := ⟨[(["a.toml"], .file []), (["b.yaml"], .link "a.toml")]⟩

/-- Settings with small numbers are refused by both formats.  An app that is written through the
link is YAML in a file that is read as TOML. -/
theorem not_keeps_latin_or_alias :
    latinSettings.searchDepth ≤ Toml.integerLimit ∧
      latinSettings.parallelism ≤ Toml.integerLimit ∧
      (∀ format, ¬ ∃ text, latinSettings.encode format = .ok text) ∧
      ∃ d₁ d₂, ConfigFile.write aliasDisk ({ name := "shop" } : App) ⟨"a.toml"⟩ true = .ok d₁ ∧
        ConfigFile.write d₁ ({ name := "shop" } : App) ⟨"b.yaml"⟩ true = .ok d₂ ∧
        ConfigFile.read App d₂ ⟨"a.toml"⟩ = .error (.parse ⟨"a.toml"⟩ (.malformed .toml)) := by
  have hpaths : ¬ latinSettings.PathsAreText := by
    intro htext
    obtain ⟨path, hpath⟩ := htext (.ofBytes [0x6D, 0xF6, 0x62]) (by simp [latinSettings])
    have hnone : (RawPath.ofBytes [0x6D, 0xF6, 0x62]).text? = none := by
      rw [RawPath.text?_ofBytes]
      rfl
    rw [RawPath.text?_eq_some.mpr hpath] at hnone
    cases hnone
  refine ⟨by decide, by decide, ?_, ?_⟩
  · intro format hencode
    exact hpaths (exists_encode_settings_iff.mp hencode).1
  · exact ⟨_, _, rfl, rfl, by decide +kernel⟩

end FileFormat

end Monorepo
