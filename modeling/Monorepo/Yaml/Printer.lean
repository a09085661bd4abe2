import Monorepo.Document
import Monorepo.Yaml.Cursor
import Monorepo.Yaml.Plain

/-!
# Printing YAML

A document is printed in blocks: a field or an entry a line, two columns a level, the entries of a
list at the column of the field that holds it. A text is written plain when it is read back as the
same text; else in single quotes, as a block of lines when it holds line feeds, or in double quotes
where nothing else can hold it.
-/

namespace Monorepo.Yaml

/-- Characters that stand for themselves in any style. -/
def isShown (c : Char) : Bool :=
  c = '\n' || (' ' ≤ c && c ≤ '~') || ('\xA0' ≤ c && c ≤ '\uFDCF')
    || ('\uFDF0' ≤ c && c ≤ '\uFFFD' && c ≠ byteOrderMark) || 0x10000 ≤ c.toNat

/-- Whether a text can not be plain because of the indicator it starts with. -/
def startsAsIndicator : List Char → Bool
  | [] => false
  | c :: rest =>
    let beforeGap := rest.head?.all isBlankOrBreak
    c = '#' || c = ',' || c = '[' || c = ']' || c = '\x7b' || c = '\x7d' || c = '&' || c = '*'
      || c = '!' || c = '|' || c = '>' || c = '\'' || c = '"' || c = '%' || c = '@' || c = '`'
      || ((c = '?' || c = ':' || c = '-') && beforeGap)

/-- Whether a colon in front of a gap, or a hash behind one, stands behind the first character. -/
def holdsIndicator : List Char → Bool
  | a :: b :: rest =>
    (b = ':' && rest.head?.all isBlankOrBreak) || (b = '#' && isBlankOrBreak a)
      || holdsIndicator (b :: rest)
  | _ => false

/-- Whether a text starts like the line between two documents. -/
def startsAsMarker (text : List Char) : Bool :=
  text.take 3 = ['-', '-', '-'] || text.take 3 = ['.', '.', '.']

/-- Whether two neighbouring characters are of the two classes. -/
def holdsPair (first second : Char → Bool) : List Char → Bool
  | a :: b :: rest => (first a && second b) || holdsPair first second (b :: rest)
  | _ => false

/-- What decides how a text can be written. -/
structure Traits where
  /-- It can be plain. -/
  plain : Bool
  /-- It can stand in single quotes. -/
  single : Bool
  /-- It can be a block. -/
  block : Bool

/-- How a text can be written. Blanks at its ends or around breaks would be lost, and some
characters can only be written as escapes. -/
def traits (text : List Char) : Traits :=
  let isSpace (c : Char) : Bool := c = ' '
  let breaks := text.any isBreak
  let spaceBreak := holdsPair isSpace isBreak text
  let breakSpace := holdsPair isBreak isSpace text
  let escapes := text.any (!isShown ·)
  let startsLoose := text.head?.any fun c => isSpace c || isBreak c
  let endsLoose := text.getLast?.any fun c => isSpace c || isBreak c
  let endsSpace := text.getLast?.any isSpace
  let indicators := startsAsMarker text || startsAsIndicator text || holdsIndicator text
  let always := !spaceBreak && !escapes
  { plain := always && !breaks && !startsLoose && !endsLoose && !indicators
    single := always && !breakSpace
    block := always && !endsSpace }

/-- Whether a text that is written plain would be read as something else. -/
def isAmbiguous (text : List Char) : Bool :=
  Plain.ofWord text ≠ .text || Plain.isPaddedDigits text

/-- A number in upper-case hexadecimal digits, as wide as given. -/
def upperHex : Nat → Nat → List Char
  | 0, _ => []
  | width + 1, n =>
    let digit := n % 16
    upperHex width (n / 16)
      ++ [if digit < 10 then Char.ofNat (0x30 + digit) else Char.ofNat (0x37 + digit)]

/-- A character inside double quotes. -/
def escape (c : Char) : List Char :=
  if c = '\x00' then ['\\', '0']
  else if c = '\x07' then ['\\', 'a']
  else if c = '\x08' then ['\\', 'b']
  else if c = '\t' then ['\\', 't']
  else if c = '\n' then ['\\', 'n']
  else if c = '\x0b' then ['\\', 'v']
  else if c = '\x0c' then ['\\', 'f']
  else if c = '\r' then ['\\', 'r']
  else if c = '\x1b' then ['\\', 'e']
  else if c = '"' then ['\\', '"']
  else if c = '\\' then ['\\', '\\']
  else if c = '\x85' then ['\\', 'N']
  else if c = '\u2028' then ['\\', 'L']
  else if c = '\u2029' then ['\\', 'P']
  else if isShown c then [c]
  else if c.toNat ≤ 0xFF then ['\\', 'x'] ++ upperHex 2 c.toNat
  else if c.toNat ≤ 0xFFFF then ['\\', 'u'] ++ upperHex 4 c.toNat
  else ['\\', 'U'] ++ upperHex 8 c.toNat

/-- A text in double quotes. -/
def doubleQuoted (text : List Char) : List Char :=
  '"' :: text.flatMap escape ++ ['"']

/-- The columns in front of a line. -/
def columns (n : Nat) : List Char :=
  List.replicate n ' '

/-- The inside of single quotes. A line that is not the first starts at a column. -/
def singleQuotedBody (column : Nat) (lineStart : Bool) : List Char → List Char
  | [] => if lineStart then columns column else []
  | c :: rest =>
    if isBreak c then c :: singleQuotedBody column true rest
    else
      (if lineStart then columns column else []) ++ (if c = '\'' then ['\'', '\''] else [c])
        ++ singleQuotedBody column false rest

/-- A text in single quotes. -/
def singleQuoted (column : Nat) (text : List Char) : List Char :=
  '\'' :: singleQuotedBody column false text ++ ['\'']

/-- The lines of a block, each at a column; empty lines stay empty. -/
def blockBody (column : Nat) (lineStart : Bool) : List Char → List Char
  | [] => []
  | c :: rest =>
    if isBreak c then c :: blockBody column true rest
    else (if lineStart then columns column else []) ++ c :: blockBody column false rest

/-- The mark that says which line breaks end a block. -/
def chompingHint (text : List Char) : List Char :=
  match text.reverse with
  | [] => ['-']
  | last :: before =>
    if !isBreak last then ['-']
    else if before.head?.all isBreak then ['+']
    else []

/-- A text as a block of lines. The indentation is given when the first line hides it. -/
def literalBlock (column : Nat) (text : List Char) : List Char :=
  let hint := if text.head?.any (fun c => c = ' ' || isBreak c) then ['2'] else []
  '|' :: hint ++ chompingHint text ++ ['\n'] ++ blockBody column true text

/-- A text whose further lines stand at a column. -/
def renderText (column : Nat) (text : List Char) : List Char :=
  let t := traits text
  if text.any (· = '\n') then
    if t.block then literalBlock column text else doubleQuoted text
  else if text.isEmpty then ['\'', '\'']
  else if t.plain && !isAmbiguous text then text
  else if t.single then singleQuoted column text
  else doubleQuoted text

/-- Ends a line, unless it has ended. -/
def endLine (text : List Char) : List Char :=
  if text.getLast?.any isBreak then text else text ++ ['\n']

mutual

/-- The value of a field whose name stands at a column. -/
def renderValue (column : Nat) : Document → List Char
  | .text value => endLine (' ' :: renderText (column + 2) value.toList)
  | .count value => ' ' :: (toString value).toList ++ ['\n']
  | .list [] => " []\n".toList
  | .list items => '\n' :: renderItems column items
  | .record [] => " \x7b\x7d\n".toList
  | .record fields => '\n' :: columns (column + 2) ++ renderFields (column + 2) fields

/-- What follows the dash of an entry that stands at a column. -/
def renderEntry (column : Nat) : Document → List Char
  | .text value => endLine (renderText (column + 2) value.toList)
  | .count value => (toString value).toList ++ ['\n']
  | .list [] => "[]\n".toList
  | .list items => renderItemsInline (column + 2) items
  | .record [] => "\x7b\x7d\n".toList
  | .record fields => renderFields (column + 2) fields

/-- The entries of a list, each on lines of its own at a column. -/
def renderItems (column : Nat) : List Document → List Char
  | [] => []
  | item :: rest =>
    columns column ++ '-' :: ' ' :: renderEntry column item ++ renderItems column rest

/-- The entries of a list, the first of which stands at its column already. -/
def renderItemsInline (column : Nat) : List Document → List Char
  | [] => []
  | item :: rest => '-' :: ' ' :: renderEntry column item ++ renderItems column rest

/-- The fields of a record, the first of which stands at its column already. -/
def renderFields (column : Nat) : List (String × Document) → List Char
  | [] => []
  | (name, value) :: rest =>
    name.toList ++ ':' :: renderValue column value
      ++ (if rest.isEmpty then [] else columns column) ++ renderFields column rest

end

/-- A document as text. -/
def render : Document → String
  | .record (field :: rest) => String.ofList (renderFields 0 (field :: rest))
  | .list (item :: rest) => String.ofList (renderItems 0 (item :: rest))
  | d => String.ofList (renderEntry 0 d)

end Monorepo.Yaml
