import Monorepo.LoadError

/-!
# Failures of commands

A command fails for one cause, and each layer it passes on its way out adds a sentence of context.
A `Failure` keeps the cause with its contexts; its `chain` is the list of all sentences from the
outermost context to the innermost cause.
-/

namespace Monorepo

/-- What a failure comes from. -/
inductive Cause where
  /-- A rule of the command itself. -/
  | message (text : String)
  | load (error : LoadError)
  | file (fault : FileFault)
  | codec (fault : CodecFault)
  deriving DecidableEq, Repr

/-- The sentences of a cause. -/
def Cause.chain : Cause → List String
  | .message text => [text]
  | .load error => error.chain
  | .file fault => [fault.message]
  | .codec fault => [fault.message]

/-- Why a command failed. -/
structure Failure where
  /-- What was being done, outermost first. -/
  contexts : List String := []
  cause : Cause
  deriving DecidableEq, Repr

namespace Failure

/-- A failure with nothing more to tell. -/
def ofMessage (text : String) : Failure :=
  { cause := .message text }

/-- The failure of loading a file. -/
def ofLoadError (error : LoadError) : Failure :=
  { cause := .load error }

/-- The same failure, seen from what was being done. -/
def within (context : String) (f : Failure) : Failure :=
  { f with contexts := context :: f.contexts }

/-- All sentences, outermost first. -/
def chain (f : Failure) : List String :=
  f.contexts ++ f.cause.chain

/-- The outermost sentence. -/
def message (f : Failure) : String :=
  f.chain.headD ""

/-- The name of the kind of a failure. -/
def codeName (f : Failure) : String :=
  match f.cause with
  | .load error => error.code.name
  | _ => "OTHER"

/-- A text whose further lines are indented. -/
def indentLines (indentation text : String) : String :=
  ("\n" ++ indentation).intercalate (text.splitOn "\n")

/-- A number in five columns. -/
def numberColumn (n : Nat) : String :=
  let digits := toString n
  String.ofList (List.replicate (5 - digits.length) ' ') ++ digits

/-- The causes of a failure, a line each, numbered from `n` on. -/
def numberedCauses (n : Nat) : List String → String
  | [] => ""
  | cause :: rest =>
    "\n" ++ numberColumn n ++ ": " ++ indentLines "       " cause ++ numberedCauses (n + 1) rest

/-- A failure as it is told to the user: the outermost sentence, and its causes below. -/
def report (f : Failure) : String :=
  let causes := match f.chain.drop 1 with
    | [] => ""
    | [cause] => "\n\nCaused by:\n    " ++ indentLines "    " cause
    | causes => "\n\nCaused by:" ++ numberedCauses 0 causes
  "Error: " ++ f.message ++ causes ++ "\n"

end Failure

/-- Adds context to a failure. -/
def withContext {α : Type} (context : String) : Except Failure α → Except Failure α
  | .ok value => .ok value
  | .error failure => .error (failure.within context)

/-- The outcome of loading as the outcome of a command. -/
def loaded {α : Type} : Except LoadError α → Except Failure α
  | .ok value => .ok value
  | .error error => .error (.ofLoadError error)

end Monorepo
