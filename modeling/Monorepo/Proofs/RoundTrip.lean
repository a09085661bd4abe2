import Monorepo.Document.Layout
import Monorepo.Proofs.Validity

/-!
# Reading back what was written

A value is kept in a file as a document.  Sections that hold nothing are left out of it, and a field
that is absent is read as what it holds by default, so each section has to be left out exactly when
it is the default:

* `OnDisk.Lawful` — reading the document of a value gives the value back, for every type of the
  configuration;
* `Document.read_bind` — the one step of all these proofs: what a field is read as, told by where it
  stands among the fields and by when it is left out;
* `Document.CountsWithin` — no number in a document is greater than a limit; a value that is
  `OnDisk.Textual` holds no numbers at all.
-/

namespace Monorepo

open Document

/-! ### Fields -/

namespace Document

@[simp] theorem lookup_field (name other : String) (value : Document) :
    (field name value).lookup other = if other = name then some value else none := by
  by_cases h : other = name
  · simp [field, h]
  · simp [field, List.lookup_cons, beq_false_of_ne h, h]

@[simp] theorem lookup_fieldUnless (blank : Bool) (name other : String) (value : Document) :
    (fieldUnless blank name value).lookup other =
      if blank then none else if other = name then some value else none := by
  cases blank with
  | true => rfl
  | false => exact lookup_field name other value

/-- **What a field is read as.**  A field that is left out only where it would hold the default is
read as what it holds. -/
theorem read_bind {α β : Type} {fields : List (String × Document)} {name : String}
    {value? : Document → Option α} {absent value : α} {next : α → Option β} {result : β}
    (blank : Bool) {written : Document}
    (hlookup : fields.lookup name = if blank then none else some written)
    (hblank : blank = true → value = absent) (hvalue : value? written = some value)
    (hnext : next value = some result) :
    (read fields name value? absent >>= next) = some result := by
  have hread : read fields name value? absent = some value := by
    cases blank with
    | true =>
      rw [if_pos rfl] at hlookup
      rw [read, hlookup, hblank rfl]
    | false =>
      rw [if_neg Bool.false_ne_true] at hlookup
      rw [read, hlookup]
      exact hvalue
  rw [hread]
  exact hnext

@[simp] theorem texts?_texts (values : List String) : texts? (texts values) = some values := by
  induction values with
  | nil => rfl
  | cons value rest ih =>
    have hrest : (rest.map text).mapM text? = some rest := ih
    show ((value :: rest).map text).mapM text? = some (value :: rest)
    rw [List.map_cons, List.mapM_cons, hrest]
    rfl

end Document

/-! ### Numbers in a document -/

namespace Document

mutual

/-- No number in a document is greater than a limit. -/
def CountsWithin (limit : Nat) : Document → Prop
  | .text _ => True
  | .count value => value ≤ limit
  | .list items => ItemsWithin limit items
  | .record fields => FieldsWithin limit fields

/-- No number in the items of a list is greater than a limit. -/
def ItemsWithin (limit : Nat) : List Document → Prop
  | [] => True
  | item :: rest => item.CountsWithin limit ∧ ItemsWithin limit rest

/-- No number in the fields of a record is greater than a limit. -/
def FieldsWithin (limit : Nat) : List (String × Document) → Prop
  | [] => True
  | (_, value) :: rest => value.CountsWithin limit ∧ FieldsWithin limit rest

end

variable {limit : Nat}

theorem itemsWithin_iff {items : List Document} :
    ItemsWithin limit items ↔ ∀ item ∈ items, item.CountsWithin limit := by
  induction items with
  | nil => simp [ItemsWithin]
  | cons item rest ih => rw [ItemsWithin, ih, List.forall_mem_cons]

theorem fieldsWithin_iff {fields : List (String × Document)} :
    FieldsWithin limit fields ↔ ∀ f ∈ fields, f.2.CountsWithin limit := by
  induction fields with
  | nil => simp [FieldsWithin]
  | cons f rest ih =>
    obtain ⟨name, value⟩ := f
    rw [FieldsWithin, ih, List.forall_mem_cons]

@[simp] theorem fieldsWithin_append {fields others : List (String × Document)} :
    FieldsWithin limit (fields ++ others) ↔
      FieldsWithin limit fields ∧ FieldsWithin limit others := by
  simp only [fieldsWithin_iff, List.forall_mem_append]

@[simp] theorem fieldsWithin_field {name : String} {value : Document} :
    FieldsWithin limit (field name value) ↔ value.CountsWithin limit := by
  simp [field, FieldsWithin]

theorem fieldsWithin_fieldUnless {blank : Bool} {name : String} {value : Document}
    (h : value.CountsWithin limit) : FieldsWithin limit (fieldUnless blank name value) := by
  cases blank with
  | true => exact trivial
  | false => exact fieldsWithin_field.mpr h

theorem countsWithin_texts (values : List String) : (texts values).CountsWithin limit := by
  rw [texts, CountsWithin, itemsWithin_iff, List.forall_mem_map]
  exact fun _ _ => trivial

end Document

/-! ### Lawful types -/

/-- Reading the document of a value gives the value back. -/
class OnDisk.Lawful (α : Type) [OnDisk α] : Prop where
  ofDocument?_toDocument (value : α) : ofDocument? (toDocument value) = some value

/-- A lawful type whose documents hold no numbers. -/
class OnDisk.Textual (α : Type) [OnDisk α] : Prop extends OnDisk.Lawful α where
  countsWithin (limit : Nat) (value : α) : (toDocument value).CountsWithin limit

export OnDisk.Lawful (ofDocument?_toDocument)

namespace Document

theorem toList?_ofList {α : Type} [OnDisk α] [OnDisk.Lawful α] (values : List α) :
    toList? (ofList values) = some values := by
  induction values with
  | nil => rfl
  | cons value rest ih =>
    have hrest : (rest.map (toDocument (α := α))).mapM ofDocument? = some rest := ih
    show ((value :: rest).map (toDocument (α := α))).mapM ofDocument? = some (value :: rest)
    rw [List.map_cons, List.mapM_cons, hrest, ofDocument?_toDocument]
    rfl

theorem countsWithin_ofList {α : Type} [OnDisk α] [OnDisk.Textual α] {limit : Nat}
    (values : List α) : (ofList values).CountsWithin limit := by
  rw [ofList, CountsWithin, itemsWithin_iff, List.forall_mem_map]
  exact fun value _ => OnDisk.Textual.countsWithin limit value

end Document

/-! ### Inputs -/

instance : OnDisk.Textual Files where
  ofDocument?_toDocument f := by
    apply read_bind f.paths.isEmpty (by simp) List.isEmpty_iff.mp (texts?_texts f.paths)
    rfl
  countsWithin _ f := fieldsWithin_fieldUnless (countsWithin_texts f.paths)

instance : OnDisk.Textual GitFiles where
  ofDocument?_toDocument f := by
    apply read_bind f.paths.isEmpty (by simp) List.isEmpty_iff.mp (texts?_texts f.paths)
    rfl
  countsWithin _ f := fieldsWithin_fieldUnless (countsWithin_texts f.paths)

instance : OnDisk.Textual GolangSources where
  ofDocument?_toDocument s := by
    apply read_bind s.environment.isEmpty (by simp [List.lookup_append]) List.isEmpty_iff.mp
      (texts?_texts s.environment)
    apply read_bind s.paths.isEmpty (by simp [List.lookup_append]) List.isEmpty_iff.mp
      (texts?_texts s.paths)
    rfl
  countsWithin _ s := fieldsWithin_append.mpr
    ⟨fieldsWithin_fieldUnless (countsWithin_texts s.environment),
      fieldsWithin_fieldUnless (countsWithin_texts s.paths)⟩

/-- The sections of inputs are read back from behind fields of other names. -/
theorem Input.ofFields?_append (before : List (String × Document))
    (hbefore : ∀ name ∈ Input.sections.map Prod.fst, before.lookup name = none) (i : Input) :
    Input.ofFields? (before ++ i.toFields) = some i := by
  simp only [sections, List.map_cons, List.map_nil, List.forall_mem_cons] at hbefore
  obtain ⟨hfiles, hgitFiles, hgolangSources, -⟩ := hbefore
  apply read_bind i.files.isEmpty (by simp [List.lookup_append, toFields, hfiles])
    Files.isEmpty_iff.mp (ofDocument?_toDocument i.files)
  apply read_bind i.gitFiles.isEmpty (by simp [List.lookup_append, toFields, hgitFiles])
    GitFiles.isEmpty_iff.mp (ofDocument?_toDocument i.gitFiles)
  apply read_bind i.golangSources.isEmpty (by simp [List.lookup_append, toFields, hgolangSources])
    GolangSources.isEmpty_iff.mp (ofDocument?_toDocument i.golangSources)
  rfl

theorem Input.fieldsWithin_toFields (limit : Nat) (i : Input) : FieldsWithin limit i.toFields := by
  rw [toFields, fieldsWithin_append, fieldsWithin_append]
  exact ⟨⟨fieldsWithin_fieldUnless (OnDisk.Textual.countsWithin limit i.files),
    fieldsWithin_fieldUnless (OnDisk.Textual.countsWithin limit i.gitFiles)⟩,
    fieldsWithin_fieldUnless (OnDisk.Textual.countsWithin limit i.golangSources)⟩

instance : OnDisk.Textual Input where
  ofDocument?_toDocument := Input.ofFields?_append [] (fun _ _ => rfl)
  countsWithin := Input.fieldsWithin_toFields

/-! ### Outputs -/

instance : OnDisk.Textual FileCopy where
  ofDocument?_toDocument _ := rfl
  countsWithin _ _ := ⟨trivial, trivial⟩

instance : OnDisk.Textual S3Upload where
  ofDocument?_toDocument _ := rfl
  countsWithin _ _ := ⟨trivial, trivial, trivial⟩

instance : OnDisk.Textual FileOutput where
  ofDocument?_toDocument f := by
    apply read_bind f.fileCopy.isEmpty (by simp [List.lookup_append]) FileCopy.isEmpty_iff.mp
      (ofDocument?_toDocument f.fileCopy)
    apply read_bind f.s3Upload.isEmpty (by simp [List.lookup_append]) S3Upload.isEmpty_iff.mp
      (ofDocument?_toDocument f.s3Upload)
    rfl
  countsWithin limit f := by
    show FieldsWithin limit (_ ++ _ ++ _)
    rw [fieldsWithin_append, fieldsWithin_append]
    exact ⟨⟨fieldsWithin_field.mpr trivial,
      fieldsWithin_fieldUnless (OnDisk.Textual.countsWithin limit f.fileCopy)⟩,
      fieldsWithin_fieldUnless (OnDisk.Textual.countsWithin limit f.s3Upload)⟩

instance : OnDisk.Textual RegistryUpload where
  ofDocument?_toDocument _ := rfl
  countsWithin _ _ := ⟨trivial, trivial, trivial⟩

instance : OnDisk.Textual DockerImage where
  ofDocument?_toDocument i := by
    apply read_bind i.registryUpload.isEmpty (by simp [List.lookup_append])
      RegistryUpload.isEmpty_iff.mp (ofDocument?_toDocument i.registryUpload)
    rfl
  countsWithin limit i := fieldsWithin_append.mpr
    ⟨fieldsWithin_field.mpr trivial,
      fieldsWithin_fieldUnless (OnDisk.Textual.countsWithin limit i.registryUpload)⟩

/-- The sections of outputs are read back from behind fields of other names. -/
theorem Output.ofFields?_append (before : List (String × Document))
    (hbefore : ∀ name ∈ Output.sections.map Prod.fst, before.lookup name = none) (o : Output) :
    Output.ofFields? (before ++ o.toFields) = some o := by
  simp only [sections, List.map_cons, List.map_nil, List.forall_mem_cons] at hbefore
  obtain ⟨hdockerImages, hfiles, -⟩ := hbefore
  apply read_bind o.dockerImages.isEmpty
    (by simp [List.lookup_append, toFields, hdockerImages]) List.isEmpty_iff.mp
    (toList?_ofList o.dockerImages)
  apply read_bind o.files.isEmpty (by simp [List.lookup_append, toFields, hfiles])
    List.isEmpty_iff.mp (toList?_ofList o.files)
  rfl

theorem Output.fieldsWithin_toFields (limit : Nat) (o : Output) :
    FieldsWithin limit o.toFields :=
  fieldsWithin_append.mpr ⟨fieldsWithin_fieldUnless (countsWithin_ofList o.dockerImages),
    fieldsWithin_fieldUnless (countsWithin_ofList o.files)⟩

instance : OnDisk.Textual Output where
  ofDocument?_toDocument := Output.ofFields?_append [] (fun _ _ => rfl)
  countsWithin := Output.fieldsWithin_toFields

/-! ### Tasks and apps -/

instance : OnDisk.Textual Task where
  ofDocument?_toDocument t := by
    apply read_bind t.includes.isEmpty (by simp [List.lookup_append]) List.isEmpty_iff.mp
      (texts?_texts t.includes)
    apply read_bind t.input.isEmpty (by simp [List.lookup_append]) Input.isEmpty_iff.mp
      (ofDocument?_toDocument t.input)
    apply read_bind t.output.isEmpty (by simp [List.lookup_append]) Output.isEmpty_iff.mp
      (ofDocument?_toDocument t.output)
    rfl
  countsWithin limit t := by
    show FieldsWithin limit (_ ++ _ ++ _ ++ _ ++ _)
    simp only [fieldsWithin_append, fieldsWithin_field]
    exact ⟨⟨⟨⟨trivial, trivial⟩, fieldsWithin_fieldUnless (countsWithin_texts t.includes)⟩,
      fieldsWithin_fieldUnless (OnDisk.Textual.countsWithin limit t.input)⟩,
      fieldsWithin_fieldUnless (OnDisk.Textual.countsWithin limit t.output)⟩

instance : OnDisk.Textual App where
  ofDocument?_toDocument a := by
    apply read_bind a.includes.isEmpty (by simp [List.lookup_append]) List.isEmpty_iff.mp
      (texts?_texts a.includes)
    apply read_bind a.tasks.isEmpty (by simp [List.lookup_append]) List.isEmpty_iff.mp
      (toList?_ofList a.tasks)
    rfl
  countsWithin limit a := by
    show FieldsWithin limit (_ ++ _ ++ _)
    simp only [fieldsWithin_append, fieldsWithin_field]
    exact ⟨⟨trivial, fieldsWithin_fieldUnless (countsWithin_texts a.includes)⟩,
      fieldsWithin_fieldUnless (countsWithin_ofList a.tasks)⟩

/-! ### Include files -/

instance : OnDisk.Textual InputFragment where
  ofDocument?_toDocument f := by
    show (Input.ofFields? (field "id" (.text f.id) ++ f.input.toFields) >>= fun input =>
      some (InputFragment.mk f.id input)) = some f
    rw [Input.ofFields?_append _ (by simp [Input.sections]) f.input]
    rfl
  countsWithin limit f := fieldsWithin_append.mpr
    ⟨fieldsWithin_field.mpr trivial, Input.fieldsWithin_toFields limit f.input⟩

instance : OnDisk.Textual OutputFragment where
  ofDocument?_toDocument f := by
    show (Output.ofFields? (field "id" (.text f.id) ++ f.output.toFields) >>= fun output =>
      some (OutputFragment.mk f.id output)) = some f
    rw [Output.ofFields?_append _ (by simp [Output.sections]) f.output]
    rfl
  countsWithin limit f := fieldsWithin_append.mpr
    ⟨fieldsWithin_field.mpr trivial, Output.fieldsWithin_toFields limit f.output⟩

instance : OnDisk.Textual TaskGroup where
  ofDocument?_toDocument g := by
    apply read_bind g.tasks.isEmpty (by simp [List.lookup_append]) List.isEmpty_iff.mp
      (toList?_ofList g.tasks)
    rfl
  countsWithin _ g := fieldsWithin_append.mpr
    ⟨fieldsWithin_field.mpr trivial, fieldsWithin_fieldUnless (countsWithin_ofList g.tasks)⟩

instance : OnDisk.Textual IncludeFile where
  ofDocument?_toDocument f := by
    apply read_bind f.inputs.isEmpty (by simp [List.lookup_append]) List.isEmpty_iff.mp
      (toList?_ofList f.inputs)
    apply read_bind f.outputs.isEmpty (by simp [List.lookup_append]) List.isEmpty_iff.mp
      (toList?_ofList f.outputs)
    apply read_bind f.taskGroups.isEmpty (by simp [List.lookup_append]) List.isEmpty_iff.mp
      (toList?_ofList f.taskGroups)
    rfl
  countsWithin limit f := by
    show FieldsWithin limit (_ ++ _ ++ _)
    rw [fieldsWithin_append, fieldsWithin_append]
    exact ⟨⟨fieldsWithin_fieldUnless (countsWithin_ofList f.inputs),
      fieldsWithin_fieldUnless (countsWithin_ofList f.outputs)⟩,
      fieldsWithin_fieldUnless (countsWithin_ofList f.taskGroups)⟩

end Monorepo
