import Monorepo.Document
import Monorepo.Model.Include

/-!
# The layout of configuration files

Which document each type of the model is. Sections are capitalised, settings of a section are in
lower case. A section that holds nothing is left out, and a field that is absent holds nothing, so
reading a written document gives the value back.
-/

namespace Monorepo

open Document

/-- The shape of a list of texts. -/
def Schema.texts : Schema :=
  .list .text

instance : OnDisk Files where
  schema := .record [("paths", .texts)]
  toDocument f := .record (fieldUnless f.paths.isEmpty "paths" (texts f.paths))
  ofDocument? d := do
    let fields ← d.fields?
    return { paths := ← read fields "paths" texts? [] }

instance : OnDisk GitFiles where
  schema := .record [("paths", .texts)]
  toDocument f := .record (fieldUnless f.paths.isEmpty "paths" (texts f.paths))
  ofDocument? d := do
    let fields ← d.fields?
    return { paths := ← read fields "paths" texts? [] }

instance : OnDisk GolangSources where
  schema := .record [("environment", .texts), ("paths", .texts)]
  toDocument s := .record (
    fieldUnless s.environment.isEmpty "environment" (texts s.environment)
      ++ fieldUnless s.paths.isEmpty "paths" (texts s.paths))
  ofDocument? d := do
    let fields ← d.fields?
    return {
      environment := ← read fields "environment" texts? []
      paths := ← read fields "paths" texts? [] }

/-- The sections of inputs, which stand in a task's section or in a fragment itself. -/
def Input.sections : List (String × Schema) :=
  [("Files", OnDisk.schema Files), ("GitFiles", OnDisk.schema GitFiles),
    ("GolangSources", OnDisk.schema GolangSources)]

/-- The fields of inputs. -/
def Input.toFields (i : Input) : List (String × Document) :=
  fieldUnless i.files.isEmpty "Files" (toDocument i.files)
    ++ fieldUnless i.gitFiles.isEmpty "GitFiles" (toDocument i.gitFiles)
    ++ fieldUnless i.golangSources.isEmpty "GolangSources" (toDocument i.golangSources)

/-- The inputs among fields. -/
def Input.ofFields? (fields : List (String × Document)) : Option Input := do
  return {
    files := ← read fields "Files" ofDocument? {}
    gitFiles := ← read fields "GitFiles" ofDocument? {}
    golangSources := ← read fields "GolangSources" ofDocument? {} }

instance : OnDisk Input where
  schema := .record Input.sections
  toDocument i := .record i.toFields
  ofDocument? d := do Input.ofFields? (← d.fields?)

instance : OnDisk FileCopy where
  schema := .record [("path", .text)]
  toDocument c := .record (field "path" (.text c.path))
  ofDocument? d := do
    let fields ← d.fields?
    return { path := ← read fields "path" text? "" }

instance : OnDisk S3Upload where
  schema := .record [("bucket", .text), ("dest_file", .text)]
  toDocument u := .record (field "bucket" (.text u.bucket) ++ field "dest_file" (.text u.destFile))
  ofDocument? d := do
    let fields ← d.fields?
    return {
      bucket := ← read fields "bucket" text? ""
      destFile := ← read fields "dest_file" text? "" }

instance : OnDisk FileOutput where
  schema := .record [("path", .text), ("FileCopy", OnDisk.schema FileCopy),
    ("S3Upload", OnDisk.schema S3Upload)]
  toDocument f := .record (
    field "path" (.text f.path)
      ++ fieldUnless f.fileCopy.isEmpty "FileCopy" (toDocument f.fileCopy)
      ++ fieldUnless f.s3Upload.isEmpty "S3Upload" (toDocument f.s3Upload))
  ofDocument? d := do
    let fields ← d.fields?
    return {
      path := ← read fields "path" text? ""
      fileCopy := ← read fields "FileCopy" ofDocument? {}
      s3Upload := ← read fields "S3Upload" ofDocument? {} }

instance : OnDisk RegistryUpload where
  schema := .record [("repository", .text), ("tag", .text)]
  toDocument u := .record (
    field "repository" (.text u.repository) ++ field "tag" (.text u.tag))
  ofDocument? d := do
    let fields ← d.fields?
    return {
      repository := ← read fields "repository" text? ""
      tag := ← read fields "tag" text? "" }

instance : OnDisk DockerImage where
  schema := .record [("idfile", .text), ("RegistryUpload", OnDisk.schema RegistryUpload)]
  toDocument i := .record (
    field "idfile" (.text i.idfile)
      ++ fieldUnless i.registryUpload.isEmpty "RegistryUpload" (toDocument i.registryUpload))
  ofDocument? d := do
    let fields ← d.fields?
    return {
      idfile := ← read fields "idfile" text? ""
      registryUpload := ← read fields "RegistryUpload" ofDocument? {} }

/-- The sections of outputs, which stand in a task's section or in a fragment itself. -/
def Output.sections : List (String × Schema) :=
  [("DockerImage", .list (OnDisk.schema DockerImage)), ("File", .list (OnDisk.schema FileOutput))]

/-- The fields of outputs. -/
def Output.toFields (o : Output) : List (String × Document) :=
  fieldUnless o.dockerImages.isEmpty "DockerImage" (Document.ofList o.dockerImages)
    ++ fieldUnless o.files.isEmpty "File" (Document.ofList o.files)

/-- The outputs among fields. -/
def Output.ofFields? (fields : List (String × Document)) : Option Output := do
  return {
    dockerImages := ← read fields "DockerImage" toList? []
    files := ← read fields "File" toList? [] }

instance : OnDisk Output where
  schema := .record Output.sections
  toDocument o := .record o.toFields
  ofDocument? d := do Output.ofFields? (← d.fields?)

instance : OnDisk Task where
  schema := .record [("name", .text), ("command", .text), ("includes", .texts),
    ("Input", OnDisk.schema Input), ("Output", OnDisk.schema Output)]
  toDocument t := .record (
    field "name" (.text t.name)
      ++ field "command" (.text t.command)
      ++ fieldUnless t.includes.isEmpty "includes" (texts t.includes)
      ++ fieldUnless t.input.isEmpty "Input" (toDocument t.input)
      ++ fieldUnless t.output.isEmpty "Output" (toDocument t.output))
  ofDocument? d := do
    let fields ← d.fields?
    return {
      name := ← read fields "name" text? ""
      command := ← read fields "command" text? ""
      includes := ← read fields "includes" texts? []
      input := ← read fields "Input" ofDocument? {}
      output := ← read fields "Output" ofDocument? {} }

instance : OnDisk App where
  schema := .record [("name", .text), ("includes", .texts), ("Task", .list (OnDisk.schema Task))]
  toDocument a := .record (
    field "name" (.text a.name)
      ++ fieldUnless a.includes.isEmpty "includes" (texts a.includes)
      ++ fieldUnless a.tasks.isEmpty "Task" (Document.ofList a.tasks))
  ofDocument? d := do
    let fields ← d.fields?
    return {
      name := ← read fields "name" text? ""
      includes := ← read fields "includes" texts? []
      tasks := ← read fields "Task" toList? [] }

instance : OnDisk InputFragment where
  schema := .record (("id", .text) :: Input.sections)
  toDocument f := .record (field "id" (.text f.id) ++ f.input.toFields)
  ofDocument? d := do
    let fields ← d.fields?
    return { id := ← read fields "id" text? "", input := ← Input.ofFields? fields }

instance : OnDisk OutputFragment where
  schema := .record (("id", .text) :: Output.sections)
  toDocument f := .record (field "id" (.text f.id) ++ f.output.toFields)
  ofDocument? d := do
    let fields ← d.fields?
    return { id := ← read fields "id" text? "", output := ← Output.ofFields? fields }

instance : OnDisk TaskGroup where
  schema := .record [("id", .text), ("Task", .list (OnDisk.schema Task))]
  toDocument g := .record (
    field "id" (.text g.id)
      ++ fieldUnless g.tasks.isEmpty "Task" (Document.ofList g.tasks))
  ofDocument? d := do
    let fields ← d.fields?
    return { id := ← read fields "id" text? "", tasks := ← read fields "Task" toList? [] }

instance : OnDisk IncludeFile where
  schema := .record [("Input", .list (OnDisk.schema InputFragment)),
    ("Output", .list (OnDisk.schema OutputFragment)),
    ("TaskGroup", .list (OnDisk.schema TaskGroup))]
  toDocument f := .record (
    fieldUnless f.inputs.isEmpty "Input" (Document.ofList f.inputs)
      ++ fieldUnless f.outputs.isEmpty "Output" (Document.ofList f.outputs)
      ++ fieldUnless f.taskGroups.isEmpty "TaskGroup" (Document.ofList f.taskGroups))
  ofDocument? d := do
    let fields ← d.fields?
    return {
      inputs := ← read fields "Input" toList? []
      outputs := ← read fields "Output" toList? []
      taskGroups := ← read fields "TaskGroup" toList? [] }

end Monorepo
