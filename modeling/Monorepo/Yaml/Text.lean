import Monorepo.Yaml.Cursor

/-!
# Reading the texts of YAML

A YAML scalar is written plain, in single or double quotes, or as a block of lines. Each reader
here takes the place where the scalar starts and gives its text and the place behind it. Line
breaks inside a scalar are folded: one break counts as a space, more breaks as one less.

Every reader takes a bound on the steps it makes. A step passes at least one character, so the
number of characters left is bound enough.
-/

namespace Monorepo.Yaml

/-- Blanks and breaks between two words of a scalar. -/
structure Gap where
  /-- The blanks before the first break. -/
  blanks : List Char := []
  /-- The first break. -/
  first : Option Char := none
  /-- The breaks behind the first. -/
  others : List Char := []

namespace Gap

/-- Whether the gap goes over a line break. -/
def hasBreak (g : Gap) : Bool :=
  g.first.isSome

/-- What is left of a gap that holds a break. -/
def folded (g : Gap) : List Char :=
  match g.first with
  | some '\n' => if g.others.isEmpty then [' '] else g.others
  | some c => c :: g.others
  | none => g.others

/-- What a gap between two words counts as. -/
def text (g : Gap) : List Char :=
  if g.hasBreak then g.folded else g.blanks

end Gap

/-- Passes the blanks and breaks here, adding them to a gap. In a plain scalar `tabLimit` is the
column from which on tabs may stand. -/
def gapFrom (tabLimit : Option Int) : Nat → Gap → Bool → Cursor →
    Except Fault (Gap × Bool × Cursor)
  | 0, gap, broken, c => .ok (gap, broken, c)
  | fuel + 1, gap, broken, c =>
    match c.peek? with
    | none => .ok (gap, broken, c)
    | some char =>
      if isBlank char then
        if broken && char = '\t' && tabLimit.any (fun limit => (c.column : Int) < limit) then
          .error .tab
        else
          let gap := if broken then gap else { gap with blanks := gap.blanks ++ [char] }
          gapFrom tabLimit fuel gap broken c.next
      else
        match c.break? with
        | none => .ok (gap, broken, c)
        | some (mark, after) =>
          let gap : Gap :=
            if broken then { gap with others := gap.others ++ [mark] }
            else ⟨[], some mark, gap.others⟩
          gapFrom tabLimit fuel gap true after

/-- The length of the run of a plain scalar that starts a text: up to a gap, a colon before a gap
and, inside brackets, an indicator of flow collections. A colon before such an indicator is a
fault there. -/
def plainRunLength (inFlow : Bool) : List Char → Except Fault Nat
  | [] => .ok 0
  | char :: rest =>
    let isFlowMark (x : Char) : Bool :=
      x = ',' || x = '[' || x = ']' || x = '\x7b' || x = '\x7d'
    if isBlankOrBreak char then .ok 0
    else if inFlow && char = ':' && rest.head?.any (fun x => isFlowMark x || x = '?') then
      .error .misplaced
    else if char = ':' && rest.head?.all isBlankOrBreak then .ok 0
    else if inFlow && isFlowMark char then .ok 0
    else (· + 1) <$> plainRunLength inFlow rest

/-- Reads the runs of a plain scalar, where `text` was read so far and `gap` lies behind it. The
flag of the answer says whether the scalar was followed by a line break. -/
def plainFrom (inFlow : Bool) (indent : Int) : Nat → List Char → Gap → Cursor →
    Except Fault (List Char × Bool × Cursor)
  | 0, text, gap, c => .ok (text, gap.hasBreak, c)
  | fuel + 1, text, gap, c => do
    if c.isAtAnyMarker || c.isAt '#' then return (text, gap.hasBreak, c)
    let length ← plainRunLength inFlow c.rest
    if length = 0 then return (text, gap.hasBreak, c)
    let text := text ++ gap.text ++ c.rest.take length
    let c := c.advance length
    if !c.isAtAny isBlankOrBreak then return (text, false, c)
    let (gap, _, c) ← gapFrom (some indent) fuel {} false c
    if !inFlow && (c.column : Int) < indent then return (text, gap.hasBreak, c)
    plainFrom inFlow indent fuel text gap c

/-- Reads a plain scalar, whose further lines stand at `indent` or behind. -/
def readPlain (inFlow : Bool) (indent : Int) (fuel : Nat) (c : Cursor) :
    Except Fault (String × Bool × Cursor) := do
  let (text, broken, c) ← plainFrom inFlow indent fuel [] {} c
  return (String.ofList text, broken, c)

/-- The character of an escape of one letter. -/
def escapedChar? (c : Char) : Option Char :=
  if c = '0' then some '\x00'
  else if c = 'a' then some '\x07'
  else if c = 'b' then some '\x08'
  else if c = 't' || c = '\t' then some '\t'
  else if c = 'n' then some '\n'
  else if c = 'v' then some '\x0b'
  else if c = 'f' then some '\x0c'
  else if c = 'r' then some '\r'
  else if c = 'e' then some '\x1b'
  else if c = ' ' || c = '"' || c = '/' || c = '\\' then some c
  else if c = 'N' then some '\x85'
  else if c = '_' then some '\xA0'
  else if c = 'L' then some '\u2028'
  else if c = 'P' then some '\u2029'
  else none

/-- How many hexadecimal digits follow the letter of an escape. -/
def escapeDigits? (c : Char) : Option Nat :=
  if c = 'x' then some 2 else if c = 'u' then some 4 else if c = 'U' then some 8 else none

/-- The number that hexadecimal digits stand for. -/
def hexNumber? (digits : List Char) : Option Nat :=
  digits.foldlM (fun n c => (n * 16 + ·) <$> hexValue? c) 0

/-- The character that follows a backslash, and how many characters it takes. -/
def readEscape (afterBackslash : List Char) : Except Fault (Char × Nat) :=
  match afterBackslash with
  | [] => .error .escape
  | letter :: rest =>
    match escapedChar? letter with
    | some c => .ok (c, 1)
    | none =>
      match escapeDigits? letter with
      | none => .error .escape
      | some n =>
        let digits := rest.take n
        if digits.length < n then .error .escape
        else
          match hexNumber? digits with
          | none => .error .escape
          | some value =>
            if (0xD800 ≤ value ∧ value ≤ 0xDFFF) ∨ 0x10FFFF < value then .error .escape
            else .ok (Char.ofNat value, n + 1)

/-- Reads a scalar in quotes from behind its opening quote; `reversed` is what was read so far, its
last character first. -/
def quotedFrom (quote : Char) : Nat → List Char → Cursor → Except Fault (List Char × Cursor)
  | 0, _, _ => .error .unterminated
  | fuel + 1, reversed, c => do
    if c.isAtAnyMarker then throw .unterminated
    match c.rest with
    | [] => throw .unterminated
    | char :: rest =>
      if isBlankOrBreak char then
        let (gap, _, after) ← gapFrom none (fuel + 1) {} false c
        quotedFrom quote fuel (gap.text.reverse ++ reversed) after
      else if quote = '\'' && char = '\'' && rest.head? = some '\'' then
        quotedFrom quote fuel ('\'' :: reversed) (c.advance 2)
      else if char = quote then
        return (reversed.reverse, c.next)
      else if quote = '"' && char = '\\' then
        match c.next.break? with
        | some (_, after) =>
          let (gap, _, after) ← gapFrom none fuel {} true after
          quotedFrom quote fuel (gap.folded.reverse ++ reversed) after
        | none =>
          let (escaped, length) ← readEscape rest
          quotedFrom quote fuel (escaped :: reversed) (c.advance (length + 1))
      else
        quotedFrom quote fuel (char :: reversed) c.next

/-- Reads a scalar in quotes. -/
def readQuoted (quote : Char) (fuel : Nat) (c : Cursor) : Except Fault (String × Cursor) := do
  let (text, c) ← quotedFrom quote fuel [] c.next
  return (String.ofList text, c)

/-- What a block scalar keeps of its last breaks. -/
inductive Chomping where
  /-- Nothing. -/
  | strip
  /-- One. -/
  | clip
  /-- All. -/
  | keep
  deriving DecidableEq

/-- The header of a block scalar. -/
structure BlockHeader where
  chomping : Chomping
  /-- The indentation of the lines, when it is given. -/
  increment : Option Nat

/-- The chomping mark here. -/
def chompingMark? (c : Cursor) : Option Chomping :=
  if c.isAt '+' then some .keep else if c.isAt '-' then some .strip else none

/-- The indentation mark here. -/
def incrementMark? (c : Cursor) : Except Fault (Option Nat) :=
  match c.peek? with
  | some char =>
    if char = '0' then .error .blockHeader
    else if '1' ≤ char ∧ char ≤ '9' then .ok (some (char.toNat - 0x30))
    else .ok none
  | none => .ok none

/-- Reads the marks of a block scalar, which come in either order. -/
def readBlockHeader (c : Cursor) : Except Fault (BlockHeader × Cursor) := do
  match chompingMark? c with
  | some chomping =>
    let c := c.next
    match ← incrementMark? c with
    | some n => return (⟨chomping, some n⟩, c.next)
    | none => return (⟨chomping, none⟩, c)
  | none =>
    match ← incrementMark? c with
    | none => return (⟨.clip, none⟩, c)
    | some n =>
      let c := c.next
      match chompingMark? c with
      | some chomping => return (⟨chomping, some n⟩, c.next)
      | none => return (⟨.clip, some n⟩, c)

/-- Passes indentation and empty lines in front of a line of a block scalar. The indentation is
given, or it is that of the deepest line passed; the answer holds the breaks and the deepest
column. -/
def blockBreaks (indent : Option Nat) : Nat → List Char → Nat → Cursor →
    Except Fault (List Char × Nat × Cursor)
  | 0, breaks, deepest, c => .ok (breaks, deepest, c)
  | fuel + 1, breaks, deepest, c =>
    let spaces := (c.span (· = ' ')).length
    let c := c.advance (indent.elim spaces fun limit => min spaces (limit - c.column))
    let deepest := max deepest c.column
    if c.isAt '\t' && indent.all (fun limit => c.column < limit) then .error .tab
    else
      match c.break? with
      | none => .ok (breaks, deepest, c)
      | some (mark, after) => blockBreaks indent fuel (breaks ++ [mark]) deepest after

/-- The part of a block scalar that was read. -/
structure BlockText where
  text : List Char := []
  /-- The break behind the last line. -/
  lineBreak : List Char := []
  /-- The breaks of the empty lines behind it. -/
  emptyLines : List Char := []
  /-- Whether the last line starts with a blank. -/
  startsBlank : Bool := false

/-- The text in front of a further line. A folded scalar joins two lines by a space, unless one of
them starts with a blank. -/
def BlockText.joint (folds : Bool) (b : BlockText) (nextStartsBlank : Bool) : List Char :=
  if folds && b.lineBreak = ['\n'] && !b.startsBlank && !nextStartsBlank then
    (if b.emptyLines.isEmpty then [' '] else []) ++ b.emptyLines
  else b.lineBreak ++ b.emptyLines

/-- Reads the lines of a block scalar, which stand at column `indent`. -/
def blockLines (folds : Bool) (indent : Nat) : Nat → BlockText → Cursor →
    Except Fault (BlockText × Cursor)
  | 0, b, c => .ok (b, c)
  | fuel + 1, b, c =>
    if c.column ≠ indent || c.rest.isEmpty then .ok (b, c)
    else do
      let startsBlank := c.isAtAny isBlank
      let line := c.span (!isBreak ·)
      let text := b.text ++ b.joint folds startsBlank ++ line
      let c := c.skipLineRest
      let (lineBreak, c) := match c.break? with
        | some (mark, after) => ([mark], after)
        | none => ([], c)
      let (emptyLines, _, c) ← blockBreaks (some indent) (fuel + 1) [] 0 c
      blockLines folds indent fuel ⟨text, lineBreak, emptyLines, startsBlank⟩ c

/-- The text of a block scalar, its end chomped. -/
def BlockText.chomped (b : BlockText) (chomping : Chomping) : List Char :=
  match chomping with
  | .strip => b.text
  | .clip => b.text ++ b.lineBreak
  | .keep => b.text ++ b.lineBreak ++ b.emptyLines

/-- Reads a block scalar from its indicator on, in a block at column `blockIndent`. -/
def readBlock (folds : Bool) (blockIndent : Int) (fuel : Nat) (c : Cursor) :
    Except Fault (String × Cursor) := do
  let (header, c) ← readBlockHeader c.next
  let c := c.skip isBlank
  let c := if c.isAt '#' then c.skipLineRest else c
  if !c.isAtLineEnd then throw .blockHeader
  let c := match c.break? with
    | some (_, after) => after
    | none => c
  let given := header.increment.map fun n => if 0 ≤ blockIndent then blockIndent.toNat + n else n
  let (emptyLines, deepest, c) ← blockBreaks given fuel [] 0 c
  let indent := given.getD (max (max deepest (blockIndent + 1).toNat) 1)
  let (b, c) ← blockLines folds indent fuel { emptyLines } c
  return (String.ofList (b.chomped header.chomping), c)

end Monorepo.Yaml
