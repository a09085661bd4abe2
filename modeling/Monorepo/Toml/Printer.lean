import Monorepo.Document
import Monorepo.Toml.Scalar

/-!
# Printing TOML

The plain fields of a record come first, then its records and lists of records under headers, with
an empty line in front of each header but the first. A list of more than one item takes a line an
item. A text is written in the simplest quotes that hold it.
-/

namespace Monorepo.Toml

/-- The length of the longest run of a character. -/
def longestRun (c : Char) (text : List Char) : Nat :=
  (text.foldl (fun (current, longest) x =>
    if x = c then (current + 1, max longest (current + 1)) else (0, longest)) (0, 0)).2

/-- The four ways to quote a text. -/
inductive Quotes where
  /-- Double quotes, with escapes. -/
  | basic
  /-- Single quotes. -/
  | literal
  /-- Three double quotes, with escapes. -/
  | basicLines
  /-- Three single quotes. -/
  | literalLines
  deriving DecidableEq, Repr

/-- The simplest quotes that hold a text: without escapes if possible, on one line if possible. -/
def quotesFor (text : List Char) : Quotes :=
  let controls := text.any fun c => (c.toNat < 0x20 && c ≠ '\n') || c = '\x7f'
  let backslash := text.contains '\\'
  let lines := text.contains '\n'
  let doubles := longestRun '"' text
  let singles := longestRun '\'' text
  if !controls && !backslash && !lines && doubles = 0 then .basic
  else if !controls && !lines && singles = 0 then .literal
  else if !controls && !backslash && doubles ≤ 2 then .basicLines
  else if !controls && singles ≤ 2 then .literalLines
  else if lines then .basicLines
  else .basic

/-- A character as an escape of four hexadecimal digits. -/
def unicodeEscape (c : Char) : List Char :=
  let digit (n : Nat) : Char := if n < 10 then Char.ofNat (0x30 + n) else Char.ofNat (0x37 + n)
  let n := c.toNat
  ['\\', 'u', digit (n / 4096 % 16), digit (n / 256 % 16), digit (n / 16 % 16), digit (n % 16)]

/-- A character inside double quotes that are not its own. -/
def escapeChar (c : Char) : List Char :=
  if c = '\x08' then ['\\', 'b']
  else if c = '\t' then ['\\', 't']
  else if c = '\n' then ['\\', 'n']
  else if c = '\x0c' then ['\\', 'f']
  else if c = '\r' then ['\\', 'r']
  else if c = '\\' then ['\\', '\\']
  else if c.toNat < 0x20 || c = '\x7f' then unicodeEscape c
  else [c]

/-- The inside of double quotes. -/
def basicBody (text : List Char) : List Char :=
  text.flatMap fun c => if c = '"' then ['\\', '"'] else escapeChar c

/-- The inside of three double quotes, where `run` quotes stand right before. Every third quote of
a run is escaped. -/
def basicLinesBody (run : Nat) : List Char → List Char
  | [] => []
  | c :: rest =>
    if c = '"' then
      if 2 ≤ run then '\\' :: '"' :: basicLinesBody 0 rest else '"' :: basicLinesBody (run + 1) rest
    else (if c = '\n' then ['\n'] else escapeChar c) ++ basicLinesBody 0 rest

/-- A text in quotes. In three quotes a text of several lines starts on a line of its own. -/
def renderText (text : List Char) : List Char :=
  let start := if text.contains '\n' then ['\n'] else []
  match quotesFor text with
  | .basic => '"' :: basicBody text ++ ['"']
  | .literal => '\'' :: text ++ ['\'']
  | .basicLines => "\"\"\"".toList ++ start ++ basicLinesBody 0 text ++ "\"\"\"".toList
  | .literalLines => "'''".toList ++ start ++ text ++ "'''".toList

mutual

/-- A plain value. A number that is too large has none. -/
def renderValue : Document → Option (List Char)
  | .text value => some (renderText value.toList)
  | .count value => if value ≤ integerLimit then some (toString value).toList else none
  | .list [] => some ['[', ']']
  | .list [item] => do return '[' :: (← renderValue item) ++ [']']
  | .list (first :: second :: rest) => do
    return '[' :: (← renderItems (first :: second :: rest)) ++ ['\n', ']']
  | .record fields => do return '\x7b' :: (← renderInline fields) ++ [' ', '\x7d']

/-- The items of a list, each on a line of its own. -/
def renderItems : List Document → Option (List Char)
  | [] => some []
  | item :: rest => do
    return "\n    ".toList ++ (← renderValue item) ++ ',' :: (← renderItems rest)

/-- The fields of a record on one line. -/
def renderInline : List (String × Document) → Option (List Char)
  | [] => some []
  | (name, value) :: rest => do
    return ' ' :: name.toList ++ " = ".toList ++ (← renderValue value)
      ++ (if rest.isEmpty then [] else [',']) ++ (← renderInline rest)

end

/-- Whether all of these are records. -/
def allRecords : List Document → Bool
  | [] => true
  | .record _ :: rest => allRecords rest
  | _ :: _ => false

/-- Whether a field is written under a header. -/
def isTable : Document → Bool
  | .record _ => true
  | .list items => !items.isEmpty && allRecords items
  | _ => false

/-- The plain fields of a record, a line each. -/
def renderPlain : List (String × Document) → Option (List Char)
  | [] => some []
  | (name, value) :: rest => do
    let others ← renderPlain rest
    if isTable value then return others
    else return name.toList ++ " = ".toList ++ (← renderValue value) ++ '\n' :: others

/-- A header between brackets. -/
def header (opening closing : String) (path : List String) : List Char :=
  ('\n' :: (opening ++ ".".intercalate path ++ closing).toList) ++ ['\n']

mutual

/-- The tables of a record at a path, each behind an empty line. -/
def renderTables (path : List String) : List (String × Document) → Option (List Char)
  | [] => some []
  | (name, value) :: rest => do
    return (← renderTable (path ++ [name]) value) ++ (← renderTables path rest)

/-- A field that is written under headers. The header of a record that only holds tables is left
out. -/
def renderTable (path : List String) : Document → Option (List Char)
  | .record fields => do
    let plain ← renderPlain fields
    let shown := fields.isEmpty || !plain.isEmpty
    return (if shown then header "[" "]" path else []) ++ plain ++ (← renderTables path fields)
  | .list items => if allRecords items then renderTableItems path items else some []
  | _ => some []

/-- The items of a list of records. -/
def renderTableItems (path : List String) : List Document → Option (List Char)
  | [] => some []
  | .record fields :: rest => do
    return header "[[" "]]" path ++ (← renderPlain fields) ++ (← renderTables path fields)
      ++ (← renderTableItems path rest)
  | _ :: rest => renderTableItems path rest

end

/-- A document as text; none when it holds a number that is too large. -/
def render? : Document → Option String
  | .record fields => do
    let plain ← renderPlain fields
    let tables ← renderTables [] fields
    return String.ofList (if plain.isEmpty then tables.drop 1 else plain ++ tables)
  | d => do return String.ofList (← renderValue d)

end Monorepo.Toml
