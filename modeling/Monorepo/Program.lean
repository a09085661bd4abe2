import Monorepo.Command.Init
import Monorepo.Command.Inspect

/-!
# The program

One run of the program: from a disk, an environment and the words of the command line to what is
printed, the exit status and the disk that is left behind.
-/

namespace Monorepo.Program

/-- What a run of the program leaves. -/
structure Outcome where
  exitStatus : Nat
  /-- What is printed on standard output. -/
  output : String := ""
  /-- The failure that is told on standard error. -/
  failure? : Option Failure := none
  /-- What ended the program before it was done. -/
  panic? : Option Panic := none
  disk : Disk
  deriving Repr

/-- The name and the version of the program. -/
def versionText : String :=
  "monobuild 0.1.0\n"

/-- What the program can be told to do. -/
def usageText : String :=
  "Usage: monobuild [--config FILE] [--verbose] [--log TARGET] COMMAND\n\n"
    ++ "Commands:\n"
    ++ "  init repo [--dir DIR] [--force]\n"
    ++ "  init app NAME [--dir DIR] [--format toml|yaml] [--force]\n"
    ++ "  init include FILE [--force]\n"
    ++ "  check [--format markdown|json]\n"
    ++ "  show NAME [--format toml|yaml]\n"

/-- The exit status of a command line that says no command. -/
def statusOf : CommandLine.Fault → Nat
  | .helpWanted => 0
  | .versionWanted => 0
  | _ => 2

/-- The run for a command line that says no command. -/
def usage (d : Disk) (fault : CommandLine.Fault) : Outcome :=
  { exitStatus := statusOf fault
    output := if fault = .versionWanted then versionText else ""
    disk := d }

/-- A failed run. -/
def failed (d : Disk) (failure : Failure) : Outcome :=
  { exitStatus := 1, failure? := some failure, disk := d }

/-- A run that ends where it stands. -/
def ended (d : Disk) (panic : Panic) : Outcome :=
  { exitStatus := 101, panic? := some panic, disk := d }

/-- Makes the log file, if records go to a file. -/
def openLog (d : Disk) (log : String) : Except Failure Disk :=
  match LogTarget.ofText log with
  | .file name =>
    match d.writeFile ⟨name⟩ .extend [] with
    | .ok opened => .ok opened
    | .error fault => .error { cause := .file fault }
  | _ => .ok d

/-- Opens the repository that contains the working directory. -/
def openRepository (d : Disk) (env : Environment) (config? : Option String) :
    Except Failure Repository := do
  let sources ← loaded (SettingsSources.discover d env d.workingPath)
  let explicit? := config?.map fun config => d.workingPath.join ⟨config⟩
  Repository.ofSources d env { sources with explicitFile? := explicit?.or sources.explicitFile? }

/-- The run of a command that makes files. -/
def runInit (d : Disk) (command : Command) : Outcome :=
  match command.runInit d d.workingPath with
  | (.error failure, d) => failed d failure
  | (.ok files, d) =>
    { exitStatus := 0
      output := String.join (files.map fun file => "Wrote " ++ file.text ++ "\n")
      disk := d }

/-- The run of a command that reads the repository. -/
def runInspect (d : Disk) (env : Environment) (config? : Option String)
    (inspect : Repository → Except Panic (Except Failure (Bool × String))) : Outcome :=
  match openRepository d env config? with
  | .error failure => failed d failure
  | .ok repository =>
    match inspect repository with
    | .error panic => ended d panic
    | .ok (.error failure) => failed d failure
    | .ok (.ok (good, output)) => { exitStatus := if good then 0 else 1, output, disk := d }

/-- Runs an invocation. -/
def runInvocation (d : Disk) (env : Environment) (i : Invocation) : Outcome :=
  match openLog d i.log with
  | .error failure => failed d failure
  | .ok d =>
    match i.command with
    | .check format => runInspect d env i.config? fun r => r.check d format
    | .showApp name format =>
      runInspect d env i.config? fun r => do
        return (true, ·) <$> (← r.showApp d name format)
    | command => runInit d command

/-- Runs the program. -/
def run (d : Disk) (env : Environment) (words : List String) : Outcome :=
  match Invocation.parse words with
  | .error fault => usage d fault
  | .ok invocation => runInvocation d env invocation

end Monorepo.Program
