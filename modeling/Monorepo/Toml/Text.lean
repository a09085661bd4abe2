import Monorepo.Text.Decimal

/-!
# The texts of TOML

A TOML text stands in double quotes with escapes or in single quotes without, on one line or, in
three quotes, over several. The readers here start behind the opening quotes and give the text and
what follows the closing quotes.
-/

namespace Monorepo.Toml

/-- Why a text is no TOML document of the expected shape. -/
inductive Fault where
  /-- Something that the grammar does not allow. -/
  | grammar
  /-- A text in quotes that does not end. -/
  | unterminated
  /-- An escape that stands for no character. -/
  | escape
  /-- A number that is not well formed or too large. -/
  | number
  /-- A date or time that does not exist. -/
  | dateTime
  /-- A key or table that is given twice. -/
  | repeatedKey
  /-- Values nested too deep. -/
  | depth
  /-- A value of another kind than expected. -/
  | kind
  deriving DecidableEq, Repr

/-- Blanks inside a line. -/
def isBlank (c : Char) : Bool :=
  c = ' ' || c = '\t'

/-- Whether a character may stand in a comment or a text: all but the control characters, of which
only the tab may. -/
def isVisible (c : Char) : Bool :=
  c = '\t' || (' ' ≤ c && c ≤ '~') || 0x80 ≤ c.toNat

/-- What follows a line break. -/
def newline? : List Char → Option (List Char)
  | '\n' :: rest => some rest
  | '\r' :: '\n' :: rest => some rest
  | _ => none

/-- Passes blanks. -/
def skipBlanks (text : List Char) : List Char :=
  text.dropWhile isBlank

/-- The character behind a backslash, and what follows. -/
def readEscape : List Char → Except Fault (Char × List Char)
  | [] => .error .unterminated
  | letter :: rest =>
    let code (width : Nat) : Except Fault (Char × List Char) :=
      let digits := rest.take width
      if digits.length < width then .error .escape
      else
        match Text.natOfDigits? 16 digits with
        | none => .error .escape
        | some n =>
          if (0xD800 ≤ n ∧ n ≤ 0xDFFF) ∨ 0x10FFFF < n then .error .escape
          else .ok (Char.ofNat n, rest.drop width)
    if letter = 'b' then .ok ('\x08', rest)
    else if letter = 't' then .ok ('\t', rest)
    else if letter = 'n' then .ok ('\n', rest)
    else if letter = 'f' then .ok ('\x0c', rest)
    else if letter = 'r' then .ok ('\r', rest)
    else if letter = '"' then .ok ('"', rest)
    else if letter = '\\' then .ok ('\\', rest)
    else if letter = 'u' then code 4
    else if letter = 'U' then code 8
    else .error .escape

/-- Reads a text in quotes on one line; escapes only count in double quotes. -/
def readLineFrom (quote : Char) : Nat → List Char → List Char → Except Fault (String × List Char)
  | 0, _, _ => .error .unterminated
  | _, _, [] => .error .unterminated
  | fuel + 1, reversed, c :: rest =>
    if c = quote then .ok (String.ofList reversed.reverse, rest)
    else if c = '\\' && quote = '"' then do
      let (escaped, rest) ← readEscape rest
      readLineFrom quote fuel (escaped :: reversed) rest
    else if isVisible c then readLineFrom quote fuel (c :: reversed) rest
    else .error .grammar

/-- What follows blanks and line breaks, when there is a line break among them. -/
def skipFoldedLines (text : List Char) : Option (List Char) :=
  (newline? (skipBlanks text)).map fun rest =>
    rest.dropWhile fun c => isBlank c || c = '\n' || c = '\r'

/-- Whether every carriage return of the blanks and breaks that start a text is part of a line
break. -/
def hasWholeBreaks : List Char → Bool
  | '\r' :: '\n' :: rest => hasWholeBreaks rest
  | c :: rest => if c = ' ' || c = '\t' || c = '\n' then hasWholeBreaks rest else c ≠ '\r'
  | [] => true

/-- Reads a text in three quotes. One or two quotes inside stand for themselves, also in front of
the closing three. A backslash at the end of a line joins it with the next text. -/
def readLinesFrom (quote : Char) : Nat → List Char → List Char → Except Fault (String × List Char)
  | 0, _, _ => .error .unterminated
  | _, _, [] => .error .unterminated
  | fuel + 1, reversed, c :: rest =>
    if c = quote then
      let run := ((c :: rest).takeWhile (· = quote)).length
      let after := (c :: rest).drop run
      if run < 3 then readLinesFrom quote fuel (List.replicate run quote ++ reversed) after
      else if run < 6 then
        .ok (String.ofList (List.replicate (run - 3) quote ++ reversed).reverse, after)
      else .error .grammar
    else
      match newline? (c :: rest) with
      | some after => readLinesFrom quote fuel ('\n' :: reversed) after
      | none =>
        if c = '\\' && quote = '"' then
          match skipFoldedLines rest with
          | some after =>
            if hasWholeBreaks rest then readLinesFrom quote fuel reversed after
            else .error .grammar
          | none => do
            let (escaped, rest) ← readEscape rest
            readLinesFrom quote fuel (escaped :: reversed) rest
        else if isVisible c then readLinesFrom quote fuel (c :: reversed) rest
        else .error .grammar

/-- Reads a text from its opening quotes on. A line break right behind three quotes does not
count. -/
def readText (quote : Char) (text : List Char) : Except Fault (String × List Char) :=
  let rest := text.drop 1
  if rest.take 2 = [quote, quote] then
    let body := rest.drop 2
    readLinesFrom quote (body.length + 1) [] ((newline? body).getD body)
  else readLineFrom quote (rest.length + 1) [] rest

end Monorepo.Toml
