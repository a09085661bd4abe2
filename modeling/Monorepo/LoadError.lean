import Monorepo.Disk
import Monorepo.Format
import Monorepo.Json
import Monorepo.Violation

/-!
# Errors of loading

Why an include file or an app could not be loaded. A `LoadError` names the fault and what it is
about; each stage that handles a file wraps the error with what it was doing. The whole error
prints as one sentence, and its `root` is what went wrong below all wrapping.
-/

namespace Monorepo

/-- The spaces in which the ids of includes are distinct. -/
inductive IdSpace where
  /-- Inputs and outputs share one space. -/
  | inputOutput
  | taskGroup
  deriving DecidableEq, Repr

/-- The name of a space in messages. -/
def IdSpace.text : IdSpace → String
  | .inputOutput => "input/output"
  | .taskGroup => "task group"

/-- Why a file could not be loaded. -/
inductive LoadError where
  /-- A configuration file holds no value of its type. -/
  | parse (file : Path) (fault : CodecFault)
  /-- An id is referenced that no include has. -/
  | reference (id : String) (space : IdSpace) (referrer : String)
  /-- Two includes of one space share an id. -/
  | duplicateId (id : String) (space : IdSpace) (first second : Path)
  | invalid (violation : Violation)
  | io (path : Path) (fault : FileFault)
  /-- A link stands where none is allowed. -/
  | symlink (path : Path)
  /-- An error that arose while a file was handled. -/
  | inFile (activity : String) (file : Path) (inner : LoadError)
  deriving DecidableEq, Repr

/-- The kinds of errors that a program can tell apart. -/
inductive ErrorCode where
  | parse
  | reference
  | duplicateId
  | validation
  | io
  deriving DecidableEq, Repr

/-- The name of a code in reports. -/
def ErrorCode.name : ErrorCode → String
  | .parse => "PARSE_ERROR"
  | .reference => "REFERENCE_ERROR"
  | .duplicateId => "DUPLICATE_ID_ERROR"
  | .validation => "VALIDATION_ERROR"
  | .io => "IO_ERROR"

namespace LoadError

/-- An error as a sentence. -/
def message : LoadError → String
  | .parse file fault => "parsing " ++ file.quoted ++ " failed: " ++ fault.message
  | .reference id space referrer =>
    "could not find " ++ space.text ++ " include with id '" ++ id ++ "' referenced by "
      ++ referrer
  | .duplicateId id space first second =>
    "multiple " ++ space.text ++ " includes with id '" ++ id ++ "' are defined ("
      ++ first.quoted ++ " and " ++ second.quoted ++ "), ids must be unique"
  | .invalid violation => violation.text
  | .io path fault => path.quoted ++ ": " ++ fault.message
  | .symlink path => path.quoted ++ " is a symlink"
  | .inFile activity file inner =>
    activity ++ " " ++ file.quoted ++ " failed: " ++ inner.message

/-- What went wrong, without what was done meanwhile. -/
def root : LoadError → LoadError
  | .inFile _ _ inner => inner.root
  | error => error

/-- The kind of an error, which wrapping does not change. -/
def code : LoadError → ErrorCode
  | .parse .. => .parse
  | .reference .. => .reference
  | .duplicateId .. => .duplicateId
  | .invalid _ => .validation
  | .io .. => .io
  | .symlink _ => .io
  | .inFile _ _ inner => inner.code

/-- The broken rule, if that is what went wrong. -/
def violation? (error : LoadError) : Option Violation :=
  match error.root with
  | .invalid violation => some violation
  | _ => none

/-- The sentences of an error and of what it was caused by, in turn. -/
def chain : LoadError → List String
  | .parse file fault =>
    LoadError.message (.parse file fault) :: fault.message ::
      (match fault with
        | .notText fault => [fault.message]
        | _ => [])
  | .io path fault => [LoadError.message (.io path fault), fault.message]
  | .inFile activity file inner =>
    LoadError.message (.inFile activity file inner) :: inner.chain
  | error => [error.message]

end LoadError

/-- What a report tells of an error. -/
structure ErrorReport where
  code : ErrorCode
  message : String
  /-- The element that breaks a rule. -/
  elementPath? : Option (List String)
  deriving DecidableEq, Repr

namespace ErrorReport

/-- The report of an error. -/
def ofError (error : LoadError) : ErrorReport :=
  ⟨error.code, error.message, error.violation?.map Violation.elementPath⟩

/-- A report as a value, its fields in alphabetical order. -/
def toJson (report : ErrorReport) : Json :=
  let element := match report.elementPath? with
    | some path => [("element_path", Json.list (path.map .text))]
    | none => []
  .object ([("code", Json.text report.code.name)] ++ element
    ++ [("message", Json.text report.message)])

end ErrorReport

end Monorepo
