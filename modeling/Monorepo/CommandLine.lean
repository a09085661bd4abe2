/-!
# Command lines

A program's command line is described by a `Grammar`: its options, its operands and its commands,
which have grammars of their own. `Grammar.read` reads the arguments against it, word by word.

A word that no open option waits for is looked at in this order: a command, `--`, a long option, a
group of short options, an operand. The value of an option or operand is checked when the next one
is read, or at the end: so a misspelt option is reported before a bad value to its left.
-/

namespace Monorepo.CommandLine

/-- What a command line asks for instead of a command, or why it can not be read. -/
inductive Fault where
  | helpWanted
  | versionWanted
  /-- Nothing is given where a command is needed. -/
  | nothingGiven
  /-- Options are given, but no command. -/
  | missingCommand
  | unknownCommand
  | unknownArgument
  /-- A value is missing, or is none of the possible ones. -/
  | invalidValue
  | missingOperand
  /-- An option is given twice. -/
  | repeatedOption
  /-- A value is given to an option that takes none. -/
  | unwantedValue
  deriving DecidableEq, Repr

/-- What an option or operand stands for. -/
inductive Meaning where
  /-- The option is given or not. -/
  | switch
  | help
  | version
  /-- Any text. -/
  | text
  /-- Any text but the empty one. -/
  | path
  /-- One of some words. -/
  | word (words : List String)
  deriving DecidableEq, Repr

namespace Meaning

/-- Whether a value follows. -/
def takesValue : Meaning → Bool
  | .switch => false
  | .help => false
  | .version => false
  | .text => true
  | .path => true
  | .word _ => true

/-- Whether a text is a value. -/
def allows : Meaning → String → Bool
  | .path, value => value ≠ ""
  | .word words, value => words.contains value
  | _, _ => true

end Meaning

/-- An option, or an operand, which has no short form. -/
structure Parameter where
  name : String
  short? : Option Char := none
  meaning : Meaning
  deriving DecidableEq, Repr

/-- What may stand on a command line. Every operand is needed. -/
inductive Grammar where
  | mk (options operands : List Parameter) (commands : List (String × Grammar))

namespace Grammar

def options : Grammar → List Parameter
  | .mk options _ _ => options

def operands : Grammar → List Parameter
  | .mk _ operands _ => operands

def commands : Grammar → List (String × Grammar)
  | .mk _ _ commands => commands

/-- The grammar of a command. -/
def command? (g : Grammar) (name : String) : Option Grammar :=
  g.commands.lookup name

/-- The option of a long name. -/
def long? (g : Grammar) (name : String) : Option Parameter :=
  g.options.find? fun p => p.name = name

/-- The option of a letter. -/
def short? (g : Grammar) (letter : Char) : Option Parameter :=
  g.options.find? fun p => p.short? = some letter

end Grammar

/-- The command that explains others. Whatever has commands has this one too. -/
def helpCommand : String :=
  "help"

/-- What was read on one level of commands. -/
structure Level where
  grammar : Grammar
  /-- Options and operands with their values. -/
  values : List (String × String) := []
  /-- The option or operand read last, with its value as far as it has one. -/
  pending : Option (Parameter × Option String) := none
  /-- How many operands were read. -/
  operandsRead : Nat := 0
  /-- Whether all further words are operands. -/
  onlyOperands : Bool := false

namespace Level

/-- Whether the next word may be the value of an option. -/
def awaitsValue (l : Level) : Bool :=
  match l.pending with
  | some (_, none) => true
  | _ => false

/-- Takes in an option or operand with its value. -/
def settle (l : Level) (p : Parameter) (value : Option String) : Except Fault Level :=
  match value with
  | none => .error .invalidValue
  | some value =>
    if (l.values.lookup p.name).isSome then .error .repeatedOption
    else if p.meaning.allows value then
      .ok { l with values := l.values ++ [(p.name, value)], pending := none }
    else .error .invalidValue

/-- Takes in what is pending. -/
def settlePending (l : Level) : Except Fault Level :=
  match l.pending with
  | none => .ok l
  | some (p, value) => l.settle p value

/-- Reads an option, with the value that is attached to it. -/
def readOption (l : Level) (p : Parameter) (attached : Option String) : Except Fault Level :=
  if p.meaning.takesValue then do
    let settled ← l.settlePending
    match attached with
    | some value => settled.settle p (some value)
    | none => return { settled with pending := some (p, none) }
  else
    match attached with
    | some _ => .error .unwantedValue
    | none => do
      let settled ← l.settlePending
      match p.meaning with
      | .help => throw .helpWanted
      | .version => throw .versionWanted
      | _ => settled.settle p (some "")

/-- Reads a long option, without its dashes. -/
def readLong (l : Level) (word : List Char) : Except Fault Level :=
  let name := String.ofList (word.takeWhile (· ≠ '='))
  let attached := match word.dropWhile (· ≠ '=') with
    | [] => none
    | _ :: value => some (String.ofList value)
  match l.grammar.long? name with
  | some p => l.readOption p attached
  | none => .error .unknownArgument

/-- Reads a group of short options, without its dash. What follows an option that takes a value is
its value. -/
def readShorts (l : Level) : List Char → Except Fault Level
  | [] => .ok l
  | letter :: rest =>
    match l.grammar.short? letter with
    | none => .error .unknownArgument
    | some p =>
      if p.meaning.takesValue then
        match rest with
        | [] => l.readOption p none
        | '=' :: value => l.readOption p (some (String.ofList value))
        | value => l.readOption p (some (String.ofList value))
      else do
        let read ← l.readOption p none
        read.readShorts rest

/-- The fault of a word that is no operand. -/
def strayWord (l : Level) (word : String) : Fault :=
  if l.grammar.commands.isEmpty then .unknownArgument
  else if l.onlyOperands && ((l.grammar.command? word).isSome || word = helpCommand) then
    .unknownArgument
  else .unknownCommand

/-- Reads an operand. -/
def readOperand (l : Level) (word : String) : Except Fault Level :=
  match l.grammar.operands[l.operandsRead]? with
  | none => .error (l.strayWord word)
  | some p => do
    let settled ← l.settlePending
    return { settled with
      pending := some (p, some word)
      operandsRead := settled.operandsRead + 1 }

/-- Reads a word that is no command. -/
def readWord (l : Level) (word : String) : Except Fault Level :=
  if l.onlyOperands then l.readOperand word
  else
    match word.toList with
    | ['-', '-'] => .ok { l with onlyOperands := true }
    | '-' :: '-' :: long => l.readLong long
    | '-' :: c :: shorts => l.readShorts (c :: shorts)
    | _ =>
      match l.pending with
      | some (p, none) => .ok { l with pending := some (p, some word) }
      | _ => l.readOperand word

/-- The end of a level: nothing may be missing. -/
def finish (l : Level) (hasCommand : Bool) : Except Fault (List (String × String)) := do
  let settled ← l.settlePending
  if !hasCommand && !l.grammar.commands.isEmpty then
    throw (if settled.values.isEmpty then .nothingGiven else .missingCommand)
  if l.grammar.operands.any fun p => (settled.values.lookup p.name).isNone then
    throw .missingOperand
  return settled.values

end Level

/-- What a command line says. -/
structure Reading where
  /-- The names of the commands, outermost first. -/
  commands : List String
  /-- Options and operands with their values, those of inner commands first. -/
  values : List (String × String)
  deriving DecidableEq, Repr

namespace Reading

/-- The value of an option or operand that is given. -/
def get? (r : Reading) (name : String) : Option String :=
  r.values.lookup name

/-- Whether an option is given. -/
def has (r : Reading) (name : String) : Bool :=
  (r.get? name).isSome

end Reading

/-- What asking for help on commands by name gives: help, unless there is no such command. -/
def helpOn (g : Grammar) : List String → Fault
  | [] => .helpWanted
  | name :: rest =>
    match g.command? name with
    | some inner => helpOn inner rest
    | none =>
      if name = helpCommand && !g.commands.isEmpty && rest.isEmpty then .helpWanted
      else .unknownCommand

/-- Reads words on a level, where `outer` are the levels around it, innermost first. -/
def readLevels (level : Level) (outer : List (String × Level)) :
    List String → Except Fault Reading
  | [] => do
    let values ← level.finish false
    let outerValues ← outer.mapM fun (_, l) => l.finish true
    return ⟨(outer.map Prod.fst).reverse, values ++ outerValues.flatten⟩
  | word :: rest =>
    if level.onlyOperands || level.awaitsValue then do
      readLevels (← level.readWord word) outer rest
    else
      match level.grammar.command? word with
      | some inner => readLevels { grammar := inner } ((word, level) :: outer) rest
      | none =>
        if word = helpCommand && !level.grammar.commands.isEmpty then
          .error (helpOn level.grammar rest)
        else do
          readLevels (← level.readWord word) outer rest

/-- Reads the words of a command line. -/
def Grammar.read (g : Grammar) (words : List String) : Except Fault Reading :=
  readLevels { grammar := g } [] words

end Monorepo.CommandLine
