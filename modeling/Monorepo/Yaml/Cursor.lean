/-!
# A place in a YAML text

Indentation carries meaning in YAML, so reading keeps the line and the column beside the text that
is left. `Cursor` is such a place; the character classes of the format stand here too.
-/

namespace Monorepo.Yaml

/-- Why a text is no YAML document of the expected shape. -/
inductive Fault where
  /-- A character that no YAML text holds. -/
  | character
  /-- A tab where only spaces indent. -/
  | tab
  /-- A text in quotes that does not end. -/
  | unterminated
  /-- An escape that stands for no character. -/
  | escape
  /-- An anchor or alias without a name. -/
  | anchor
  /-- A tag that is not well formed or whose handle is not declared. -/
  | tag
  /-- A directive that is unknown, repeated or not well formed. -/
  | directive
  /-- The header of a block text is not well formed. -/
  | blockHeader
  /-- A key, value or entry that stands where none may. -/
  | misplaced
  /-- A key that no colon follows. -/
  | missingColon
  /-- A collection whose parts are out of order. -/
  | structure_
  /-- An alias of a name that was not given before. -/
  | unknownAlias
  /-- Aliases that repeat more than the text warrants. -/
  | repetition
  /-- Collections nested too deep. -/
  | depth
  /-- More than one document. -/
  | severalDocuments
  /-- A value of another kind than expected. -/
  | kind
  /-- A field that is given twice. -/
  | repeatedField
  deriving DecidableEq, Repr

def isBreak (c : Char) : Bool :=
  c = '\n' || c = '\r' || c = '\x85' || c = '\u2028' || c = '\u2029'

def isBlank (c : Char) : Bool :=
  c = ' ' || c = '\t'

def isBlankOrBreak (c : Char) : Bool :=
  isBlank c || isBreak c

/-- The characters of anchors, handles and directive names. -/
def isWord (c : Char) : Bool :=
  ('a' ≤ c && c ≤ 'z') || ('A' ≤ c && c ≤ 'Z') || ('0' ≤ c && c ≤ '9') || c = '_' || c = '-'

/-- The characters that a YAML text may hold. -/
def isAllowed (c : Char) : Bool :=
  c = '\t' || c = '\n' || c = '\r' || (' ' ≤ c && c ≤ '~') || c = '\x85'
    || ('\xA0' ≤ c && c ≤ '\uFFFD') || 0x10000 ≤ c.toNat

/-- The mark of byte order, which may open a line. -/
def byteOrderMark : Char :=
  '\uFEFF'

/-- The value of a hexadecimal digit. -/
def hexValue? (c : Char) : Option Nat :=
  if '0' ≤ c ∧ c ≤ '9' then some (c.toNat - 0x30)
  else if 'a' ≤ c ∧ c ≤ 'f' then some (c.toNat - 0x57)
  else if 'A' ≤ c ∧ c ≤ 'F' then some (c.toNat - 0x37)
  else none

/-- A place in a text. -/
structure Cursor where
  /-- What is left of the text. -/
  rest : List Char
  /-- How many characters were passed. -/
  index : Nat := 0
  line : Nat := 0
  column : Nat := 0

namespace Cursor

/-- The character here; none at the end. -/
def peek? (c : Cursor) : Option Char :=
  c.rest.head?

/-- The character `n` places on. -/
def ahead? (c : Cursor) (n : Nat) : Option Char :=
  c.rest[n]?

/-- Whether this character is here. -/
def isAt (c : Cursor) (char : Char) : Bool :=
  c.peek? = some char

/-- Whether the character here is of a class; the end is of none. -/
def isAtAny (c : Cursor) (class_ : Char → Bool) : Bool :=
  c.peek?.any class_

/-- Whether a blank, a break or the end is `n` places on. -/
def isGapAhead (c : Cursor) (n : Nat) : Bool :=
  (c.ahead? n).all isBlankOrBreak

/-- Whether a break or the end is here. -/
def isAtLineEnd (c : Cursor) : Bool :=
  c.peek?.all isBreak

/-- Passes `n` characters of one line. -/
def advance (c : Cursor) (n : Nat) : Cursor :=
  { c with rest := c.rest.drop n, index := c.index + n, column := c.column + n }

/-- Passes one character of a line. -/
def next (c : Cursor) : Cursor :=
  c.advance 1

/-- The characters of a class from here on. -/
def span (c : Cursor) (class_ : Char → Bool) : List Char :=
  c.rest.takeWhile class_

/-- Passes the characters of a class, none of which is a break. -/
def skip (c : Cursor) (class_ : Char → Bool) : Cursor :=
  c.advance (c.span class_).length

/-- Passes the rest of a line, but not its break. -/
def skipLineRest (c : Cursor) : Cursor :=
  c.skip (!isBreak ·)

/-- Goes to the start of the next line behind a break of `n` characters. -/
def newLine (c : Cursor) (n : Nat) : Cursor :=
  ⟨c.rest.drop n, c.index + n, c.line + 1, 0⟩

/-- The break here as it counts in a text, and the place behind it. All breaks but the two
separators of Unicode count as a line feed. -/
def break? (c : Cursor) : Option (Char × Cursor) :=
  match c.rest with
  | '\r' :: '\n' :: _ => some ('\n', c.newLine 2)
  | char :: _ =>
    if char = '\u2028' || char = '\u2029' then some (char, c.newLine 1)
    else if isBreak char then some ('\n', c.newLine 1)
    else none
  | [] => none

/-- Whether a document marker, three of a character and a gap, starts this line. -/
def isAtMarker (c : Cursor) (char : Char) : Bool :=
  c.column = 0 && c.rest.take 3 = [char, char, char] && c.isGapAhead 3

/-- Whether a line starts here that ends or starts a document. -/
def isAtAnyMarker (c : Cursor) : Bool :=
  c.isAtMarker '-' || c.isAtMarker '.'

end Cursor

end Monorepo.Yaml
