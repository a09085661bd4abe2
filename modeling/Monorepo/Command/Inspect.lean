import Monorepo.Command
import Monorepo.Report
import Monorepo.Repository

/-!
# Looking into a repository

The commands that only read: reporting on all apps, and printing one.
-/

namespace Monorepo.Repository

/-- The report on all apps, and whether all of them were loaded. -/
def check (r : Repository) (d : Disk) (format : String) :
    Except Panic (Except Failure (Bool × String)) := do
  match ReportFormat.ofName? format with
  | none =>
    return .error (.ofMessage ("Unknown format '" ++ format ++ "', expected markdown or json"))
  | some format =>
    let apps ← r.loadApps d
    return .ok (failureCount apps = 0, Report.text format r.root apps)

/-- The text of the complete app of a name. -/
def showApp (r : Repository) (d : Disk) (name : String) (format : FileFormat) :
    Except Panic (Except Failure String) := do
  match ← r.appByName d name with
  | .error failure => return .error failure
  | .ok app =>
    match format.encode app with
    | .ok text => return .ok text
    | .error fault => return .error { cause := .codec fault }

end Monorepo.Repository
