import Monorepo.AppLoader
import Monorepo.Json.Printer

/-!
# Reports

What became of loading the apps of a repository, as Markdown to read or as JSON. Files are named
by their path below the root.
-/

namespace Monorepo

/-- How a report is written. -/
inductive ReportFormat where
  | json
  | markdown
  deriving DecidableEq, Repr

/-- The format of a name, in any case. -/
def ReportFormat.ofName? (name : String) : Option ReportFormat :=
  let word := lowerWord name
  if word = "json" then some .json
  else if word = "markdown" then some .markdown
  else if word = "md" then some .markdown
  else none

namespace Report

/-- A path as a report shows it. -/
def shownPath (root file : Path) : String :=
  ((Path.relativeTo? root file).getD file).text

/-- A text as code. -/
def code (text : String) : String :=
  String.ofList ('`' :: text.toList ++ ['`'])

/-- A number of things, if there are any. -/
def countOf (n : Nat) (things : String) : List String :=
  if n = 0 then [] else [toString n ++ " " ++ things]

/-- The line of a task. -/
def taskLine (t : Task) : String :=
  let inputs := t.input.files.paths.length + t.input.gitFiles.paths.length
    + t.input.golangSources.paths.length
  let outputs := t.output.files.length + t.output.dockerImages.length
  let counts := countOf inputs "input(s)" ++ countOf outputs "output(s)"
  let remark := if counts.isEmpty then "" else " (" ++ ", ".intercalate counts ++ ")"
  "- " ++ code t.name ++ ": " ++ code t.command ++ remark ++ "\n"

/-- The section of an app. -/
def appMarkdown (a : App) : String :=
  "## App: " ++ a.name ++ "\n" ++ String.join (a.tasks.map taskLine)

/-- The item of an app that could not be loaded. -/
def failureItem (root file : Path) (error : LoadError) : String :=
  let report := ErrorReport.ofError error
  let element := report.elementPath?.getD []
  "- " ++ code (shownPath root file) ++ ": " ++ report.message ++ "\n"
    ++ (if element.isEmpty then ""
        else "  - **element**: " ++ code (".".intercalate element) ++ "\n")

/-- The apps that could not be loaded, with their errors. -/
def failures (apps : List LoadedApp) : List (Path × LoadError) :=
  apps.filterMap fun a =>
    match a.result with
    | .ok _ => none
    | .error error => some (a.file, error)

/-- The apps that were loaded. -/
def successes (apps : List LoadedApp) : List (Path × App) :=
  apps.filterMap fun a =>
    match a.result with
    | .ok app => some (a.file, app)
    | .error _ => none

/-- The report as Markdown: first what failed, then every app. -/
def markdown (root : Path) (apps : List LoadedApp) : String :=
  let failed := failures apps
  let loaded := successes apps
  let failedSection := if failed.isEmpty then "" else
    "## Failed\n\n"
      ++ String.join (failed.map fun (file, error) => failureItem root file error) ++ "\n"
  let appSection (entry : Path × App) : String :=
    appMarkdown entry.2 ++ "- **file**: " ++ code (shownPath root entry.1) ++ "\n\n"
  "# Apps (" ++ toString loaded.length ++ " loaded, " ++ toString failed.length ++ " failed)\n\n"
    ++ failedSection ++ String.join (loaded.map appSection)

/-- One app of the report. -/
def appJson (root : Path) (a : LoadedApp) : Json :=
  let file := ("file", Json.text (shownPath root a.file))
  match a.result with
  | .ok app =>
    .object [file, ("name", .text app.name),
      ("tasks", .list (app.tasks.map fun t => .text t.name))]
  | .error error => .object [("error", (ErrorReport.ofError error).toJson), file]

/-- The report as a value, its fields in alphabetical order. -/
def json (root : Path) (apps : List LoadedApp) : Json :=
  .object [
    ("apps", .list (apps.map (appJson root))),
    ("failed", .integer (failures apps).length),
    ("loaded", .integer (successes apps).length)]

/-- The report as text. -/
def text (format : ReportFormat) (root : Path) (apps : List LoadedApp) : String :=
  match format with
  | .markdown => markdown root apps
  | .json => (json root apps).render ++ "\n"

end Report

end Monorepo
