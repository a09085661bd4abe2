import Monorepo.Document.Layout

/-!
# The shape of written documents

A file is read against the schema of its type, so the document that a value is written as has to be
of that shape: no field but those that the schema names, in their order, each of its own shape.

* `Schema.Accepts`, `Schema.AcceptsFields` — the documents of a shape, and the fields of a record;
  any field may be absent;
* `OnDisk.Shaped` — the documents of a type are of the shape that the type is read against, for
  every type of the configuration.
-/

namespace Monorepo

open Document

/-! ### Documents of a shape -/

mutual

/-- A document is of a shape. -/
inductive Schema.Accepts : Schema → Document → Prop
  | text {value : String} : Accepts .text (.text value)
  | count {value : Nat} : value ≤ Schema.countLimit → Accepts .count (.count value)
  | choice {words : List String} {word : String} :
      word ∈ words → Accepts (.choice words) (.text word)
  | list {item : Schema} {items : List Document} :
      (∀ d ∈ items, Accepts item d) → Accepts (.list item) (.list items)
  | record {fields : List (String × Schema)} {values : List (String × Document)} :
      AcceptsFields fields values → Accepts (.record fields) (.record values)

/-- The fields of a record are among those of its shape, in their order. -/
inductive Schema.AcceptsFields : List (String × Schema) → List (String × Document) → Prop
  | nil : AcceptsFields [] []
  | absent {name : String} {schema : Schema} {fields : List (String × Schema)}
      {values : List (String × Document)} :
      AcceptsFields fields values → AcceptsFields ((name, schema) :: fields) values
  | present {name : String} {schema : Schema} {d : Document} {fields : List (String × Schema)}
      {values : List (String × Document)} :
      Accepts schema d → AcceptsFields fields values →
      AcceptsFields ((name, schema) :: fields) ((name, d) :: values)

end

namespace Schema

variable {schema : Schema} {d : Document}

theorem AcceptsFields.append {fields others : List (String × Schema)}
    {values more : List (String × Document)} (h : AcceptsFields fields values)
    (hmore : AcceptsFields others more) : AcceptsFields (fields ++ others) (values ++ more) := by
  induction fields generalizing values with
  | nil =>
    cases h
    exact hmore
  | cons f rest ih =>
    cases h with
    | absent h => exact .absent (ih h)
    | present hd h => exact .present hd (ih h)

theorem AcceptsFields.field (name : String) (h : schema.Accepts d) :
    AcceptsFields [(name, schema)] (Document.field name d) :=
  .present h .nil

theorem AcceptsFields.fieldUnless (blank : Bool) (name : String) (h : schema.Accepts d) :
    AcceptsFields [(name, schema)] (Document.fieldUnless blank name d) := by
  cases blank with
  | true => exact .absent .nil
  | false => exact .field name h

theorem accepts_texts (values : List String) : Accepts .texts (Document.texts values) := by
  apply Accepts.list
  intro d hd
  obtain ⟨value, -, rfl⟩ := List.mem_map.mp hd
  exact .text

end Schema

/-- The documents of a type are of the shape that it is read against. -/
class OnDisk.Shaped (α : Type) [OnDisk α] : Prop where
  accepts (value : α) : (OnDisk.schema α).Accepts (toDocument value)

open Schema OnDisk

theorem Schema.accepts_ofList {α : Type} [OnDisk α] [OnDisk.Shaped α] (values : List α) :
    Accepts (.list (OnDisk.schema α)) (Document.ofList values) := by
  apply Accepts.list
  intro d hd
  obtain ⟨value, -, rfl⟩ := List.mem_map.mp hd
  exact Shaped.accepts value

/-! ### Inputs -/

instance : OnDisk.Shaped Files where
  accepts f := .record (.fieldUnless _ "paths" (accepts_texts f.paths))

instance : OnDisk.Shaped GitFiles where
  accepts f := .record (.fieldUnless _ "paths" (accepts_texts f.paths))

instance : OnDisk.Shaped GolangSources where
  accepts s := .record (AcceptsFields.append
    (.fieldUnless _ "environment" (accepts_texts s.environment))
    (.fieldUnless _ "paths" (accepts_texts s.paths)))

theorem Input.acceptsFields (i : Input) : AcceptsFields Input.sections i.toFields :=
  ((AcceptsFields.fieldUnless _ "Files" (Shaped.accepts i.files)).append
    (.fieldUnless _ "GitFiles" (Shaped.accepts i.gitFiles))).append
    (.fieldUnless _ "GolangSources" (Shaped.accepts i.golangSources))

instance : OnDisk.Shaped Input where
  accepts i := .record i.acceptsFields

/-! ### Outputs -/

instance : OnDisk.Shaped FileCopy where
  accepts _ := .record (.field "path" .text)

instance : OnDisk.Shaped S3Upload where
  accepts _ := .record (AcceptsFields.append (.field "bucket" .text) (.field "dest_file" .text))

instance : OnDisk.Shaped FileOutput where
  accepts f := .record (((AcceptsFields.field "path" .text).append
    (.fieldUnless _ "FileCopy" (Shaped.accepts f.fileCopy))).append
    (.fieldUnless _ "S3Upload" (Shaped.accepts f.s3Upload)))

instance : OnDisk.Shaped RegistryUpload where
  accepts _ := .record (AcceptsFields.append (.field "repository" .text) (.field "tag" .text))

instance : OnDisk.Shaped DockerImage where
  accepts i := .record ((AcceptsFields.field "idfile" .text).append
    (.fieldUnless _ "RegistryUpload" (Shaped.accepts i.registryUpload)))

theorem Output.acceptsFields (o : Output) : AcceptsFields Output.sections o.toFields :=
  (AcceptsFields.fieldUnless _ "DockerImage" (accepts_ofList o.dockerImages)).append
    (.fieldUnless _ "File" (accepts_ofList o.files))

instance : OnDisk.Shaped Output where
  accepts o := .record o.acceptsFields

/-! ### Tasks, apps and include files -/

instance : OnDisk.Shaped Task where
  accepts t := .record (((((AcceptsFields.field "name" .text).append
    (.field "command" .text)).append
    (.fieldUnless _ "includes" (accepts_texts t.includes))).append
    (.fieldUnless _ "Input" (Shaped.accepts t.input))).append
    (.fieldUnless _ "Output" (Shaped.accepts t.output)))

instance : OnDisk.Shaped App where
  accepts a := .record (((AcceptsFields.field "name" .text).append
    (.fieldUnless _ "includes" (accepts_texts a.includes))).append
    (.fieldUnless _ "Task" (accepts_ofList a.tasks)))

instance : OnDisk.Shaped InputFragment where
  accepts f := .record ((AcceptsFields.field "id" .text).append f.input.acceptsFields)

instance : OnDisk.Shaped OutputFragment where
  accepts f := .record ((AcceptsFields.field "id" .text).append f.output.acceptsFields)

instance : OnDisk.Shaped TaskGroup where
  accepts g := .record ((AcceptsFields.field "id" .text).append
    (.fieldUnless _ "Task" (accepts_ofList g.tasks)))

instance : OnDisk.Shaped IncludeFile where
  accepts f := .record (((AcceptsFields.fieldUnless _ "Input" (accepts_ofList f.inputs)).append
    (.fieldUnless _ "Output" (accepts_ofList f.outputs))).append
    (.fieldUnless _ "TaskGroup" (accepts_ofList f.taskGroups)))

end Monorepo
