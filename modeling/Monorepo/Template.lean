import Monorepo.Settings

/-!
# Templates

What new configuration files are filled with, and the variables that texts in them may hold.
Variables get their values when a task is run, which is not the work of this library.
-/

namespace Monorepo.Template

/-- The variables that have a meaning. -/
def reservedVariables : List String :=
  ["$ROOT", "$APPNAME", "$UUID", "$GITCOMMIT"]

/-- Inputs of every kind. -/
def input : Input where
  files := { paths := ["dbmigrations/*.sql"] }
  gitFiles := { paths := ["Makefile"] }
  golangSources := { environment := ["GOFLAGS=-mod=vendor", "GO111MODULE=on"], paths := ["."] }

/-- Outputs of every kind. -/
def output : Output where
  dockerImages := [{
    idfile := "$APPNAME-container.id"
    registryUpload := { repository := "my-company/$APPNAME", tag := "$GITCOMMIT" } }]
  files := [{
    path := "dist/$APPNAME.tar.xz"
    fileCopy := { path := "/mnt/fileserver/build_artifacts/$APPNAME-$GITCOMMIT.tar.xz" }
    s3Upload := { bucket := "go-artifacts/", destFile := "$APPNAME-$GITCOMMIT.tar.xz" } }]

/-- A task with all its inputs and outputs. -/
def task : Task where
  name := singleTaskName
  command := "make dist"
  input := input
  output := output

/-- An app of one task. -/
def app (name : String) : App where
  name := name
  tasks := [task]

/-- A task that includes an input. -/
def groupTask : Task where
  name := "cbuild"
  command := "make"
  includes := ["go_input"]
  input := { gitFiles := { paths := ["*.c", "*.h", "Makefile"] } }
  output := { files := [{ path := "a.out", fileCopy := { path := "/artifacts" } }] }

/-- A file with an include of every kind. -/
def includeFile : IncludeFile where
  inputs := [{ id := "go_input", input := input }]
  outputs := [{ id := "tar_output", output := output }]
  taskGroups := [{ id := "c_tasks", tasks := [groupTask] }]

/-- The directory of include files in a new repository. -/
def includeDir : Path :=
  ⟨"includes"⟩

/-- The settings of a new repository. -/
def settings : Settings where
  includeDirs := [includeDir]

end Monorepo.Template
