import Monorepo.Settings.Load
import Monorepo.Proofs.Merging
import Monorepo.Proofs.SettingsDocument

/-!
# Tiers of settings

A tier of settings is a value that sets some of their fields and leaves the others to the tiers
below.  What it says besides is of no account.

* `SettingsTier` — what a tier sets;
* `SettingsTier.SetBy` — the values that set just this: every section is absent, null or an object,
  and in it every field is absent, null or of its type;
* `SettingsTier.SetBy.merge`, `SettingsTier.SetBy.foldl` — a value merged over another sets its own
  fields and, of the others, those that are set below; likewise a list of values;
* `Settings.ofJson_eq_ok` — the settings that a value stands for which sets every field.
-/

namespace Monorepo

open Document

/-! ### What tiers set -/

namespace Json

theorem not_isSection_ofDocument {d : Document} (h : d.fields? = none) :
    ¬ (ofDocument d).IsSection := by
  cases d with
  | record => cases h
  | text | count | list => rintro (h | ⟨_, h⟩) <;> simp [ofDocument] at h

/-- A value sets a field of a section to what is written as a document, or to nothing where the
section or the field is absent or null. -/
def Sets {α : Type} (v : Json) (sectionName name : String) (write : α → Document)
    (set? : Option α) : Prop :=
  (v.field sectionName).field name = (set?.map fun a => ofDocument (write a)).getD .null

end Json

/-- What a tier sets, field by field. -/
@[ext]
structure SettingsTier where
  discoverDirs? : Option (List Path) := none
  searchDepth? : Option Nat := none
  appFileNames? : Option (List String) := none
  includeDirs? : Option (List Path) := none
  taskMode? : Option TaskMode := none
  parallelism? : Option Nat := none

/-- The names of the sections of settings. -/
def Settings.sectionNames : List String :=
  ["discover", "includes", "tasks", "loader"]

namespace SettingsTier

/-- The tier that sets every field. -/
def ofSettings (s : Settings) : SettingsTier where
  discoverDirs? := s.discoverDirs
  searchDepth? := s.searchDepth
  appFileNames? := s.appFileNames
  includeDirs? := s.includeDirs
  taskMode? := s.taskMode
  parallelism? := s.parallelism

/-- What two tiers set together. -/
def orElse (upper lower : SettingsTier) : SettingsTier where
  discoverDirs? := upper.discoverDirs?.or lower.discoverDirs?
  searchDepth? := upper.searchDepth?.or lower.searchDepth?
  appFileNames? := upper.appFileNames?.or lower.appFileNames?
  includeDirs? := upper.includeDirs?.or lower.includeDirs?
  taskMode? := upper.taskMode?.or lower.taskMode?
  parallelism? := upper.parallelism?.or lower.parallelism?

/-- A tier is what a value sets, and all else in the value is of no account.  The value, and every
section in it, is an object or null, and every field is of its type, null or absent.  A mode is told
by its name: an object with the name alone is read as a mode too, but is merged like a section, so
that two of them make none. -/
structure SetBy (t : SettingsTier) (v : Json) : Prop where
  isSection : v.IsSection
  sections : ∀ name ∈ Settings.sectionNames, (v.field name).IsSection
  discoverDirs : v.Sets "discover" "dirs" Settings.ofPaths t.discoverDirs?
  searchDepth : v.Sets "discover" "search_depth" .count t.searchDepth?
  appFileNames : v.Sets "discover" "app_file_names" texts t.appFileNames?
  includeDirs : v.Sets "includes" "dirs" Settings.ofPaths t.includeDirs?
  taskMode : v.Sets "tasks" "mode" (fun mode => .text mode.name) t.taskMode?
  parallelism : v.Sets "loader" "parallelism" .count t.parallelism?
  searchDepth_le : ∀ n ∈ t.searchDepth?, n ≤ Schema.countLimit
  parallelism_le : ∀ n ∈ t.parallelism?, n ≤ Schema.countLimit

/-- What the last tier that sets a field sets it to. -/
def lastSet {α : Type} (field : SettingsTier → Option α) (tiers : List SettingsTier) : Option α :=
  (tiers.filterMap field).getLast?

end SettingsTier

/-! ### Merging tiers -/

theorem Json.Sets.merge {α : Type} {v w : Json} {sectionName name : String} {write : α → Document}
    {lower upper : Option α} (hsections : (Json.merge v w).field sectionName =
      Json.merge (v.field sectionName) (w.field sectionName))
    (hw : (w.field sectionName).IsSection) (hwell : (w.field sectionName).WellFormed)
    (hwrite : ∀ a, (write a).fields? = none)
    (hlower : v.Sets sectionName name write lower) (hupper : w.Sets sectionName name write upper) :
    (Json.merge v w).Sets sectionName name write (upper.or lower) := by
  rw [Sets, hsections, field_merge hw hwell, hlower, hupper]
  cases upper with
  | none => exact merge_null _
  | some a => exact merge_of_not_isSection (not_isSection_ofDocument (hwrite a))

namespace SettingsTier

theorem SetBy.merge {t u : SettingsTier} {v w : Json} (ht : t.SetBy v) (hu : u.SetBy w)
    (hw : w.WellFormed) : (u.orElse t).SetBy (Json.merge v w) := by
  have hfield (name : String) := Json.field_merge (v := v) hu.isSection hw name
  have hset {α : Type} {sectionName name : String} {write : α → Document} {lower upper : Option α}
      (hlower : v.Sets sectionName name write lower) (hupper : w.Sets sectionName name write upper)
      (hmem : sectionName ∈ Settings.sectionNames)
      (hwrite : ∀ a, (write a).fields? = none) :
      (Json.merge v w).Sets sectionName name write (upper.or lower) :=
    Json.Sets.merge (hfield _) (hu.sections _ hmem) (hw.field _) hwrite hlower hupper
  have hle {lower upper : Option Nat} (hlower : ∀ n ∈ lower, n ≤ Schema.countLimit)
      (hupper : ∀ n ∈ upper, n ≤ Schema.countLimit) :
      ∀ n ∈ upper.or lower, n ≤ Schema.countLimit := by
    cases upper with
    | none => exact hlower
    | some m => exact hupper
  exact {
    isSection := ht.isSection.merge hu.isSection
    sections := fun name hname => by
      rw [hfield]
      exact (ht.sections name hname).merge (hu.sections name hname)
    discoverDirs := hset ht.discoverDirs hu.discoverDirs (by decide) fun _ => rfl
    searchDepth := hset ht.searchDepth hu.searchDepth (by decide) fun _ => rfl
    appFileNames := hset ht.appFileNames hu.appFileNames (by decide) fun _ => rfl
    includeDirs := hset ht.includeDirs hu.includeDirs (by decide) fun _ => rfl
    taskMode := hset ht.taskMode hu.taskMode (by decide) fun _ => rfl
    parallelism := hset ht.parallelism hu.parallelism (by decide) fun _ => rfl
    searchDepth_le := hle ht.searchDepth_le hu.searchDepth_le
    parallelism_le := hle ht.parallelism_le hu.parallelism_le }

/-- **What values set that are merged one over the other.** -/
theorem SetBy.foldl {tiers : List SettingsTier} {values : List Json}
    (h : List.Forall₂ SetBy tiers values) (hvalues : ∀ v ∈ values, v.WellFormed) {t : SettingsTier}
    {v : Json} (ht : t.SetBy v) :
    (tiers.foldl (fun lower upper => upper.orElse lower) t).SetBy (values.foldl Json.merge v) := by
  induction h generalizing t v with
  | nil => exact ht
  | cons hu _ ih =>
    obtain ⟨hw, hrest⟩ := List.forall_mem_cons.mp hvalues
    exact ih hrest (ht.merge hu hw)

/-- Of each field the last tier that sets it counts, and the one below all where none does. -/
theorem foldl_orElse {α : Type} {field : SettingsTier → Option α}
    (hfield : ∀ upper lower, field (orElse upper lower) = (field upper).or (field lower))
    (tiers : List SettingsTier) (t : SettingsTier) :
    field (tiers.foldl (fun lower upper => upper.orElse lower) t) =
      (lastSet field tiers).or (field t) := by
  induction tiers generalizing t with
  | nil => rfl
  | cons u rest ih =>
    rw [List.foldl_cons, ih, hfield, lastSet, lastSet, List.filterMap_cons]
    cases field u with
    | none => rfl
    | some a =>
      rw [List.getLast?_cons]
      cases (rest.filterMap field).getLast? <;> rfl

/-- What settings are written as sets every field. -/
theorem setBy_toDocument {s : Settings} (hdepth : s.searchDepth ≤ Schema.countLimit)
    (hparallelism : s.parallelism ≤ Schema.countLimit) :
    (ofSettings s).SetBy (Json.ofDocument (toDocument s)) where
  isSection := .inr ⟨_, rfl⟩
  sections := by
    simp only [Settings.sectionNames, List.forall_mem_cons]
    exact ⟨.inr ⟨_, rfl⟩, .inr ⟨_, rfl⟩, .inr ⟨_, rfl⟩, .inr ⟨_, rfl⟩, nofun⟩
  discoverDirs := rfl
  searchDepth := rfl
  appFileNames := rfl
  includeDirs := rfl
  taskMode := rfl
  parallelism := rfl
  searchDepth_le := by simp [ofSettings, hdepth]
  parallelism_le := by simp [ofSettings, hparallelism]

end SettingsTier

/-! ### Reading a value that sets every field -/

namespace Json

theorem fit?_null (schema : Schema) : fit? schema .null = none := by
  cases schema <;> rfl

theorem fit?_texts (values : List String) :
    fit? .texts (ofDocument (texts values)) = some (texts values) := by
  have hvalues : (ofDocuments (values.map .text)).mapM (fit? .text) =
      some (values.map Document.text) := by
    induction values with
    | nil => rfl
    | cons value rest ih =>
      rw [List.map_cons, ofDocuments, List.mapM_cons, ih]
      rfl
  rw [texts, ofDocument, Schema.texts, fit?, hvalues]
  rfl

theorem fit?_count {n : Nat} (h : n ≤ Schema.countLimit) :
    fit? .count (ofDocument (.count n)) = some (.count n) := by
  simp [ofDocument, fit?, h]

theorem fit?_choice {words : List String} {word : String} (h : word ∈ words) :
    fit? (.choice words) (ofDocument (.text word)) = some (.text word) := by
  simp [ofDocument, fit?, h]

/-- A field of a value holds a document of a shape. -/
def HasField (v : Json) (f : String × Schema) (d : String × Document) : Prop :=
  f.1 = d.1 ∧ fit? f.2 (v.field f.1) = some d.2

theorem Sets.hasField {α : Type} {v : Json} {sectionName name : String} {write : α → Document}
    {a : α} {schema : Schema} (h : v.Sets sectionName name write (some a))
    (hfit : fit? schema (ofDocument (write a)) = some (write a)) :
    (v.field sectionName).HasField (name, schema) (name, write a) :=
  ⟨rfl, (congrArg (fit? schema) h).trans hfit⟩

theorem fitFields?_eq_some {values : List (String × Json)} {fields : List (String × Schema)}
    {ds : List (String × Document)} (h : List.Forall₂ (object values).HasField fields ds) :
    fitFields? fields values = some ds := by
  induction h with
  | nil => rfl
  | @cons f d fields ds hf _ ih =>
    obtain ⟨name, schema⟩ := f
    obtain ⟨_, document⟩ := d
    obtain ⟨rfl, hfit⟩ := hf
    rw [field] at hfit
    rw [fitFields?, ih]
    cases hlookup : values.lookup name with
    | none =>
      rw [hlookup, Option.getD_none, fit?_null] at hfit
      cases hfit
    | some value =>
      rw [hlookup, Option.getD_some] at hfit
      simp only [hfit]
      rfl

/-- The fields of a record are read by their names, and others are passed over. -/
theorem fit?_record {v : Json} (hv : v.IsSection) {f : String × Schema}
    {d : String × Document} {fields : List (String × Schema)} {ds : List (String × Document)}
    (h : List.Forall₂ v.HasField (f :: fields) (d :: ds)) :
    fit? (.record (f :: fields)) v = some (.record (d :: ds)) := by
  obtain rfl | ⟨values, rfl⟩ := hv
  · cases h with
    | cons hf _ =>
      have hnone := (fit?_null f.2).symm.trans hf.2
      cases hnone
  · rw [fit?, fitFields?_eq_some h]
    rfl

end Json

namespace Settings

variable {s : Settings} {v : Json}

/-- The document of settings is what a value holds that sets every field, whatever else it holds. -/
theorem fit?_of_setBy (h : (SettingsTier.ofSettings s).SetBy v) :
    Json.fit? (OnDisk.schema Settings) v = some (toDocument s) := by
  have hdepth := h.searchDepth_le s.searchDepth rfl
  have hparallelism := h.parallelism_le s.parallelism rfl
  have hdirs := h.discoverDirs.hasField (Json.fit?_texts _)
  have hsearch := h.searchDepth.hasField (Json.fit?_count hdepth)
  have hnames := h.appFileNames.hasField (Json.fit?_texts _)
  have hincludes := h.includeDirs.hasField (Json.fit?_texts _)
  have htasks := h.taskMode.hasField (Json.fit?_choice (name_mem_modes _))
  have hloader := h.parallelism.hasField (Json.fit?_count hparallelism)
  exact Json.fit?_record h.isSection <|
    .cons ⟨rfl, Json.fit?_record (h.sections _ (by decide))
      (.cons hdirs (.cons hsearch (.cons hnames .nil)))⟩ <|
    .cons ⟨rfl, Json.fit?_record (h.sections _ (by decide)) (.cons hincludes .nil)⟩ <|
    .cons ⟨rfl, Json.fit?_record (h.sections _ (by decide)) (.cons htasks .nil)⟩ <|
    .cons ⟨rfl, Json.fit?_record (h.sections _ (by decide)) (.cons hloader .nil)⟩ .nil

/-- **The settings of a value that sets every field.** -/
theorem ofJson_eq_ok (h : (SettingsTier.ofSettings s).SetBy v) : ofJson v = .ok s := by
  rw [ofJson, fit?_of_setBy h, Option.bind_some, ofDocument?_toDocument]

end Settings

end Monorepo
