import Monorepo.CommandLine
import Monorepo.Format

/-!
# Commands

What the program can be told to do, and how it is told. `Invocation.parse` reads a command line
against `grammar`.
-/

namespace Monorepo

open CommandLine

/-- What the program is to do. -/
inductive Command where
  /-- Make a repository. -/
  | initRepository (dir? : Option Path) (force : Bool)
  /-- Make an app file. -/
  | initApp (name : String) (dir? : Option Path) (format : FileFormat) (force : Bool)
  /-- Make an include file. -/
  | initInclude (file : Path) (force : Bool)
  /-- Load all apps and report on them. -/
  | check (format : String)
  /-- Print an app. -/
  | showApp (name : String) (format : FileFormat)
  deriving DecidableEq, Repr

/-- A command with the options that every command has. -/
structure Invocation where
  /-- A settings file in the place of all others. -/
  config? : Option String
  verbose : Bool
  /-- Where log records go. -/
  log : String
  command : Command
  deriving DecidableEq, Repr

/-- Where log records are written. -/
inductive LogTarget where
  | off
  | standardOutput
  | standardError
  | file (name : String)
  deriving DecidableEq, Repr

/-- The target that an option names. -/
def LogTarget.ofText (text : String) : LogTarget :=
  if text = "0" || text = "off" then .off
  else if text = "1" || text = "stdout" then .standardOutput
  else if text = "2" || text = "stderr" then .standardError
  else .file text

namespace Command

/-- The option that explains a command. -/
def helpOption : Parameter :=
  { name := "help", short? := some 'h', meaning := .help }

/-- The options of every command. -/
def sharedOptions : List Parameter :=
  [{ name := "config", short? := some 'c', meaning := .text },
    { name := "verbose", short? := some 'v', meaning := .switch },
    { name := "log", short? := some 'l', meaning := .text },
    helpOption]

/-- The option of a directory to write to. -/
def dirOption : Parameter :=
  { name := "dir", meaning := .path }

/-- The option to overwrite files. -/
def forceOption : Parameter :=
  { name := "force", meaning := .switch }

/-- The option of a file format. -/
def formatOption : Parameter :=
  { name := "format", meaning := .word ["toml", "yaml"] }

/-- The grammar of a command without commands of its own. -/
def leaf (options operands : List Parameter) : Grammar :=
  .mk (options ++ sharedOptions) operands []

/-- What may stand on the program's command line. -/
def grammar : Grammar :=
  .mk (sharedOptions ++ [{ name := "version", short? := some 'V', meaning := .version }]) [] [
    ("init", .mk sharedOptions [] [
      ("repo", leaf [dirOption, forceOption] []),
      ("app", leaf [dirOption, formatOption, forceOption] [{ name := "name", meaning := .text }]),
      ("include", leaf [forceOption] [{ name := "file", meaning := .path }])]),
    ("check", leaf [{ name := "format", meaning := .text }] []),
    ("show", leaf [formatOption] [{ name := "name", meaning := .text }])]

/-- The command of a reading. -/
def ofReading? (r : Reading) : Option Command :=
  let dir? := (r.get? "dir").map Path.mk
  let format := ((r.get? "format").bind FileFormat.ofExtension?).getD .toml
  let force := r.has "force"
  match r.commands with
  | ["init", "repo"] => some (.initRepository dir? force)
  | ["init", "app"] => (r.get? "name").map fun name => .initApp name dir? format force
  | ["init", "include"] => (r.get? "file").map fun file => .initInclude ⟨file⟩ force
  | ["check"] => some (.check ((r.get? "format").getD "markdown"))
  | ["show"] => (r.get? "name").map fun name => .showApp name format
  | _ => none

end Command

namespace Invocation

/-- The invocation that the words of a command line stand for. -/
def parse (words : List String) : Except Fault Invocation := do
  let r ← Command.grammar.read words
  match Command.ofReading? r with
  | some command =>
    return {
      config? := r.get? "config"
      verbose := r.has "verbose"
      log := (r.get? "log").getD "2"
      command }
  | none => throw .missingCommand

end Invocation

end Monorepo
