import Monorepo.Json
import Monorepo.Text.Quoted

/-!
# Printing JSON

A value is printed over several lines, one field or item a line, indented by two spaces a level.
-/

namespace Monorepo.Json

/-- A character inside the quotes of a text. -/
def escapeChar (c : Char) : List Char :=
  if c = '"' then ['\\', '"']
  else if c = '\\' then ['\\', '\\']
  else if c = '\n' then ['\\', 'n']
  else if c = '\r' then ['\\', 'r']
  else if c = '\t' then ['\\', 't']
  else if c = '\x08' then ['\\', 'b']
  else if c = '\x0c' then ['\\', 'f']
  else if c.toNat < 0x20 then
    ['\\', 'u', '0', '0', Text.hexDigit (c.toNat / 16), Text.hexDigit (c.toNat % 16)]
  else [c]

/-- A text in quotes. -/
def quote (text : String) : String :=
  String.ofList ('"' :: text.toList.flatMap escapeChar ++ ['"'])

/-- A line break and the indentation of a level. -/
def lineStart (level : Nat) : String :=
  String.ofList ('\n' :: List.replicate (2 * level) ' ')

mutual

/-- A value that starts on a line of a level. -/
def renderAt (level : Nat) : Json → String
  | .null => "null"
  | .bool value => if value then "true" else "false"
  | .integer value => toString value
  | .decimal digits => digits
  | .text value => quote value
  | .list [] => "[]"
  | .list (item :: rest) =>
    "[" ++ lineStart (level + 1) ++ renderAt (level + 1) item ++ renderItems (level + 1) rest
      ++ lineStart level ++ "]"
  | .object [] => "\x7b\x7d"
  | .object ((name, value) :: rest) =>
    "\x7b" ++ lineStart (level + 1) ++ quote name ++ ": " ++ renderAt (level + 1) value
      ++ renderFields (level + 1) rest ++ lineStart level ++ "\x7d"

/-- The items of a list behind the first. -/
def renderItems (level : Nat) : List Json → String
  | [] => ""
  | item :: rest => "," ++ lineStart level ++ renderAt level item ++ renderItems level rest

/-- The fields of an object behind the first. -/
def renderFields (level : Nat) : List (String × Json) → String
  | [] => ""
  | (name, value) :: rest =>
    "," ++ lineStart level ++ quote name ++ ": " ++ renderAt level value
      ++ renderFields level rest

end

/-- A value as text. -/
def render (value : Json) : String :=
  renderAt 0 value

end Monorepo.Json
