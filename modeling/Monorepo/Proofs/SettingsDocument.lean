import Mathlib.Data.Set.List
import Monorepo.Settings.Raw
import Monorepo.Proofs.RoundTrip
import Monorepo.Proofs.Shape

/-!
# The document of settings

Settings write every field, whatever it is set to, and hold two numbers.

* the document of settings gives the settings back;
* `Settings.shaped` — it is of the shape that settings are read against, if the numbers are of 64
  bits;
* `Settings.countsWithin_iff` — the numbers in it;
* `RawSettings.settings?_eq_some`, `RawSettings.exists_settings?_iff` — which of the settings that a
  program holds have a document.
-/

namespace Monorepo

open Document Schema

namespace Settings

variable {s : Settings}

theorem toPaths?_ofPaths (paths : List Path) : toPaths? (ofPaths paths) = some paths := by
  rw [toPaths?, ofPaths, texts?_texts, Option.map_some, List.map_map]
  exact congrArg some (List.map_id paths)

theorem toMode?_name (mode : TaskMode) : toMode? (.text mode.name) = some mode := by
  cases mode <;> rfl

theorem name_mem_modes (mode : TaskMode) :
    mode.name ∈ [TaskMode.single.name, TaskMode.multiple.name] := by
  cases mode <;> decide

/-- No field of settings is ever left out. -/
instance : OnDisk.Lawful Settings where
  ofDocument?_toDocument s := by
    show (do
      let discoverDirs ← toPaths? (ofPaths s.discoverDirs)
      let appFileNames ← texts? (texts s.appFileNames)
      let includeDirs ← toPaths? (ofPaths s.includeDirs)
      let taskMode ← toMode? (.text s.taskMode.name)
      return Settings.mk discoverDirs s.searchDepth appFileNames includeDirs taskMode
        s.parallelism) = some s
    rw [toPaths?_ofPaths, texts?_texts, toPaths?_ofPaths, toMode?_name]
    rfl

theorem shaped (hdepth : s.searchDepth ≤ Schema.countLimit)
    (hparallelism : s.parallelism ≤ Schema.countLimit) :
    (OnDisk.schema Settings).Accepts (toDocument s) := by
  have hdiscover : AcceptsFields
      [("dirs", .texts), ("search_depth", .count), ("app_file_names", .texts)]
      [("dirs", ofPaths s.discoverDirs), ("search_depth", .count s.searchDepth),
        ("app_file_names", texts s.appFileNames)] :=
    .present (accepts_texts _) <| .present (.count hdepth) <| .present (accepts_texts _) .nil
  exact .record <| .present (.record hdiscover) <|
    .present (.record (.present (accepts_texts _) .nil)) <|
    .present (.record (.present (.choice (name_mem_modes _)) .nil)) <|
    .present (.record (.present (.count hparallelism) .nil)) .nil

theorem countsWithin_iff {limit : Nat} :
    (toDocument s).CountsWithin limit ↔ s.searchDepth ≤ limit ∧ s.parallelism ≤ limit := by
  have hpaths (paths : List Path) : (ofPaths paths).CountsWithin limit := countsWithin_texts _
  have htexts (values : List String) : (texts values).CountsWithin limit := countsWithin_texts _
  show FieldsWithin limit _ ↔ _
  simp only [FieldsWithin, CountsWithin, hpaths, htexts, true_and, and_true]

end Settings

/-! ### Paths that are no text -/

theorem Settings.raw_injective : Function.Injective Settings.raw := by
  intro s s' h
  have htext : Function.Injective (List.map RawPath.text) :=
    List.map_injective_iff.mpr fun _ _ => RawPath.text.inj
  cases s
  cases s'
  simp only [Settings.raw, RawSettings.mk.injEq, htext.eq_iff] at h
  simpa only [Settings.mk.injEq] using h

/-- Whether every path of the settings is text. -/
def RawSettings.PathsAreText (r : RawSettings) : Prop :=
  ∀ p ∈ r.discoverDirs ++ r.includeDirs, ∃ path, RawPath.text path = p

namespace RawPath

/-- Bytes are a path of text if they are text. -/
theorem text?_ofBytes (bytes : List UInt8) :
    (ofBytes bytes).text? = (Utf8.decode bytes).toOption.map Path.mk := by
  rw [ofBytes]
  split
  · next decoded h => simp [h, text?, Except.toOption]
  · next fault h => simp [h, text?, Except.toOption]

theorem text?_eq_some {p : RawPath} {path : Path} : p.text? = some path ↔ .text path = p := by
  cases p with
  | text other => simp [text?, eq_comm]
  | bytes bytes notText => simp [text?]

theorem mapM_text?_eq_some {raws : List RawPath} {paths : List Path} :
    raws.mapM text? = some paths ↔ paths.map .text = raws := by
  induction raws generalizing paths with
  | nil => cases paths <;> simp
  | cons p rest ih =>
    simp only [List.mapM_cons, Option.bind_eq_bind, Option.bind_eq_some_iff, Option.pure_def,
      Option.some.injEq, text?_eq_some, ih]
    constructor
    · rintro ⟨path, rfl, others, rfl, rfl⟩
      rfl
    · intro h
      obtain ⟨path, others, rfl, hpath, hothers⟩ := List.map_eq_cons_iff.mp h
      exact ⟨path, hpath, others, hothers, rfl⟩

theorem exists_map_text_iff {raws : List RawPath} :
    (∃ paths : List Path, paths.map .text = raws) ↔ ∀ p ∈ raws, ∃ path, text path = p :=
  Set.ext_iff.mp (Set.range_list_map text) raws

end RawPath

namespace RawSettings

variable {r : RawSettings}

theorem settings?_eq_some {s : Settings} : r.settings? = some s ↔ s.raw = r := by
  simp only [settings?, Option.bind_eq_bind, Option.bind_eq_some_iff, Option.pure_def,
    Option.some.injEq, RawPath.mapM_text?_eq_some]
  constructor
  · rintro ⟨discoverDirs, hdiscover, includeDirs, hinclude, rfl⟩
    simp only [Settings.raw, hdiscover, hinclude]
  · rintro rfl
    exact ⟨s.discoverDirs, rfl, s.includeDirs, rfl, rfl⟩

/-- **The settings whose paths are text** are those that have a document. -/
theorem exists_settings?_iff : (∃ s, r.settings? = some s) ↔ r.PathsAreText := by
  have hpaths : r.PathsAreText ↔ (∃ paths : List Path, paths.map .text = r.discoverDirs) ∧
      ∃ paths : List Path, paths.map .text = r.includeDirs := by
    rw [RawPath.exists_map_text_iff, RawPath.exists_map_text_iff, PathsAreText,
      List.forall_mem_append]
  simp only [settings?_eq_some]
  rw [hpaths]
  constructor
  · rintro ⟨s, rfl⟩
    exact ⟨⟨s.discoverDirs, rfl⟩, s.includeDirs, rfl⟩
  · rintro ⟨⟨discoverDirs, hdiscover⟩, includeDirs, hinclude⟩
    refine ⟨⟨discoverDirs, r.searchDepth, r.appFileNames, includeDirs, r.taskMode,
      r.parallelism⟩, ?_⟩
    simp only [Settings.raw, hdiscover, hinclude]

end RawSettings

end Monorepo
