import Monorepo.Yaml.Text

/-!
# The tokens of a YAML text

A text is cut into tokens. Indentation becomes tokens of its own, which open and close block
collections. A key of one line is only known to be one when its colon is met, so the tokens that
mark it are put in front of tokens that were found before.
-/

namespace Monorepo.Yaml

/-- How a scalar is written. -/
inductive Style where
  | plain
  | singleQuoted
  | doubleQuoted
  | literal
  | folded
  deriving DecidableEq, Repr

inductive Token where
  | version (major minor : Nat)
  | tagHandle (handle start : String)
  | documentStart
  | documentEnd
  | blockSequence
  | blockMapping
  | blockEnd
  | flowSequence
  | flowSequenceEnd
  | flowMapping
  | flowMappingEnd
  | blockEntry
  | flowEntry
  | key
  | value
  | alias (name : String)
  | anchor (name : String)
  | tag (handle suffix : String)
  | scalar (text : String) (style : Style)
  deriving DecidableEq, Repr

/-- A place that may turn out to start a key. -/
structure KeyStart where
  /-- Whether only a key may stand there. -/
  required : Bool
  /-- How many tokens come before it. -/
  number : Nat
  index : Nat
  line : Nat
  column : Nat

/-- A text that is partly cut into tokens. -/
structure Scanner where
  cursor : Cursor
  /-- The tokens found, the last first. -/
  found : List Token := []
  /-- How many tokens were found. -/
  count : Nat := 0
  /-- The column of the open block collection; below zero there is none. -/
  indent : Int := -1
  /-- The columns of the block collections around it. -/
  outer : List Int := []
  /-- Whether a key may start here. -/
  keyAllowed : Bool := true
  /-- The possible key of the block, or of the innermost flow collection. -/
  keyStart : Option KeyStart := none
  /-- The possible keys around the open flow collections, innermost first. -/
  outerKeys : List (Option KeyStart) := []

namespace Scanner

/-- Whether a flow collection is open. -/
def inFlow (s : Scanner) : Bool :=
  !s.outerKeys.isEmpty

/-- Adds a token. -/
def push (s : Scanner) (t : Token) : Scanner :=
  { s with found := t :: s.found, count := s.count + 1 }

/-- Adds a token behind the first `number` tokens. -/
def insert (s : Scanner) (number : Nat) (t : Token) : Scanner :=
  let behind := s.count - number
  { s with found := s.found.take behind ++ t :: s.found.drop behind, count := s.count + 1 }

/-- Opens a block collection at a column that is deeper than the open one. -/
def openBlock (s : Scanner) (column : Nat) (number : Option Nat) (t : Token) : Scanner :=
  if s.inFlow then s
  else if s.indent < (column : Int) then
    let s := match number with
      | none => s.push t
      | some n => s.insert n t
    { s with outer := s.indent :: s.outer, indent := column }
  else s

/-- Closes block collections that stand deeper than a column, given the columns around them. -/
def closeBlocksFrom (column : Int) : List Int → Scanner → Scanner
  | [], s => s
  | around :: outer, s =>
    if column < s.indent then
      closeBlocksFrom column outer { s.push .blockEnd with indent := around, outer }
    else s

/-- Closes the block collections that stand deeper than a column. -/
def closeBlocks (s : Scanner) (column : Int) : Scanner :=
  if s.inFlow then s else closeBlocksFrom column s.outer s

/-- Gives up a possible key, which must not be a required one. -/
def giveUp : Option KeyStart → Except Fault Unit
  | some k => if k.required then .error .missingColon else .ok ()
  | none => .ok ()

/-- Gives up the possible key here. -/
def dropKey (s : Scanner) : Except Fault Scanner := do
  giveUp s.keyStart
  return { s with keyStart := none }

/-- Notes that a key may start here. -/
def noteKey (s : Scanner) : Except Fault Scanner :=
  if s.keyAllowed then do
    let s ← s.dropKey
    let c := s.cursor
    return { s with
      keyStart := some
        ⟨!s.inFlow && s.indent = (c.column : Int), s.count, c.index, c.line, c.column⟩ }
  else .ok s

/-- A possible key that is still one here: a key ends on its line, within 1024 characters. -/
def freshKey (c : Cursor) (key : Option KeyStart) : Except Fault (Option KeyStart) :=
  match key with
  | some k =>
    if k.line < c.line || k.index + 1024 < c.index then do
      giveUp (some k)
      return none
    else .ok (some k)
  | none => .ok none

/-- Gives up the possible keys that are none any more. -/
def dropStaleKeys (s : Scanner) : Except Fault Scanner := do
  let outerKeys ← s.outerKeys.mapM (freshKey s.cursor)
  let keyStart ← freshKey s.cursor s.keyStart
  return { s with keyStart, outerKeys }

/-- Passes blanks, comments and line breaks. Tabs may stand where no key can start. -/
def skipGap : Nat → Scanner → Scanner
  | 0, s => s
  | fuel + 1, s =>
    let c := s.cursor
    let c := if c.column = 0 && c.isAt byteOrderMark then c.next else c
    let tabs := s.inFlow || !s.keyAllowed
    let c := c.skip fun char => char = ' ' || (tabs && char = '\t')
    let c := if c.isAt '#' then c.skipLineRest else c
    match c.break? with
    | some (_, after) =>
      skipGap fuel { s with cursor := after, keyAllowed := s.keyAllowed || !s.inFlow }
    | none => { s with cursor := c }

/-- Passes `n` characters. -/
def advance (s : Scanner) (n : Nat) : Scanner :=
  { s with cursor := s.cursor.advance n }

/-! ### Directives and tags -/

/-- Reads one number of a version. -/
def readVersionNumber (c : Cursor) : Except Fault (Nat × Cursor) :=
  let digits := c.span Char.isDigit
  if digits.isEmpty || 9 < digits.length then .error .directive
  else .ok (digits.foldl (fun n d => n * 10 + (d.toNat - 0x30)) 0, c.advance digits.length)

/-- Reads a tag handle. The flag says that it stands in a directive, where it must be complete. -/
def readHandle (inDirective : Bool) (c : Cursor) : Except Fault (String × Cursor) :=
  if !c.isAt '!' then .error .tag
  else
    let word := c.next.span isWord
    let c := c.advance (word.length + 1)
    if c.isAt '!' then .ok (String.ofList ('!' :: word ++ ['!']), c.next)
    else if inDirective && !word.isEmpty then .error .tag
    else .ok (String.ofList ('!' :: word), c)

/-- The characters of a tag, apart from escapes. -/
def isTagChar (verbatim : Bool) (c : Char) : Bool :=
  isWord c || c = ';' || c = '/' || c = '?' || c = ':' || c = '@' || c = '&' || c = '=' || c = '+'
    || c = '$' || c = '.' || c = '!' || c = '~' || c = '*' || c = '\'' || c = '(' || c = ')'
    || (verbatim && (c = ',' || c = '[' || c = ']'))

/-- The byte of an escape such as `%2F`. -/
def escapedByte? : List Char → Option Nat
  | '%' :: a :: b :: _ => do return (← hexValue? a) * 16 + (← hexValue? b)
  | _ => none

/-- The bytes of `n` further escapes of one character, added to its value. -/
def escapedTail : Nat → Nat → List Char → Option Nat
  | 0, value, _ => some value
  | n + 1, value, text => do
    let byte ← escapedByte? text
    if 0x80 ≤ byte ∧ byte < 0xC0 then escapedTail n (value * 64 + (byte - 0x80)) (text.drop 3)
    else none

/-- The character of the escapes here, and how many characters they take. -/
def escapedTagChar? (text : List Char) : Option (Char × Nat) := do
  let first ← escapedByte? text
  let (more, value) ←
    if first < 0x80 then some (0, first)
    else if 0xC0 ≤ first ∧ first < 0xE0 then some (1, first - 0xC0)
    else if 0xE0 ≤ first ∧ first < 0xF0 then some (2, first - 0xE0)
    else if 0xF0 ≤ first ∧ first < 0xF8 then some (3, first - 0xF0)
    else none
  let value ← escapedTail more value (text.drop 3)
  return (Char.ofNat value, 3 * (more + 1))

/-- Reads the characters of a tag. -/
def tagTextFrom (verbatim : Bool) : Nat → List Char → Cursor → Except Fault (List Char × Cursor)
  | 0, text, c => .ok (text, c)
  | fuel + 1, text, c =>
    match c.peek? with
    | none => .ok (text, c)
    | some char =>
      if char = '%' then
        match escapedTagChar? c.rest with
        | some (escaped, length) =>
          tagTextFrom verbatim fuel (text ++ [escaped]) (c.advance length)
        | none => .error .tag
      else if isTagChar verbatim char then tagTextFrom verbatim fuel (text ++ [char]) c.next
      else .ok (text, c)

/-- Reads the suffix of a tag behind what was already read of it. Only behind a lone exclamation
mark may it be empty. -/
def readTagText (verbatim : Bool) (before : Option (List Char)) (fuel : Nat) (c : Cursor) :
    Except Fault (String × Cursor) := do
  let (text, after) ← tagTextFrom verbatim fuel (before.getD []) c
  if before.isNone && text.isEmpty then throw .tag
  return (String.ofList text, after)

/-- Reads a tag. -/
def readTag (inFlow : Bool) (fuel : Nat) (c : Cursor) : Except Fault (Token × Cursor) := do
  let (t, c) ←
    if c.ahead? 1 = some '<' then do
      let (suffix, c) ← readTagText true none fuel (c.advance 2)
      if !c.isAt '>' then throw .tag
      pure (Token.tag "" suffix, c.next)
    else do
      let (handle, after) ← readHandle false c
      let word := handle.toList.drop 1
      if !word.isEmpty && handle.toList.getLast? = some '!' then
        let (suffix, c) ← readTagText false none fuel after
        pure (Token.tag handle suffix, c)
      else
        let (suffix, c) ← readTagText false (some word) fuel after
        pure (if suffix = "" then Token.tag "" "!" else Token.tag "!" suffix, c)
  if (inFlow && c.isAt ',') || c.isGapAhead 0 then return (t, c) else throw .tag

/-- Reads a directive and the rest of its line. -/
def readDirective (fuel : Nat) (c : Cursor) : Except Fault (Token × Cursor) := do
  let name := c.next.span isWord
  let c := c.advance (name.length + 1)
  if name.isEmpty || !c.isGapAhead 0 then throw .directive
  let c := c.skip isBlank
  let (t, c) ←
    if name = ['Y', 'A', 'M', 'L'] then do
      let (major, c) ← readVersionNumber c
      if !c.isAt '.' then throw .directive
      let (minor, c) ← readVersionNumber c.next
      pure (Token.version major minor, c)
    else if name = ['T', 'A', 'G'] then do
      let (handle, c) ← readHandle true c
      if !c.isAtAny isBlank then throw .directive
      let (start, c) ← readTagText true none fuel (c.skip isBlank)
      if !c.isGapAhead 0 then throw .directive
      pure (Token.tagHandle handle start, c)
    else throw .directive
  let c := c.skip isBlank
  let c := if c.isAt '#' then c.skipLineRest else c
  match c.break? with
  | some (_, after) => return (t, after)
  | none => if c.rest.isEmpty then return (t, c) else throw .directive

/-- Reads the name of an anchor or alias. -/
def readName (c : Cursor) : Except Fault (String × Cursor) :=
  let name := c.next.span isWord
  let c := c.advance (name.length + 1)
  let ends := c.isGapAhead 0
    || c.isAtAny fun x => x = '?' || x = ':' || x = ',' || x = ']' || x = '\x7d' || x = '%'
      || x = '@' || x = '`'
  if name.isEmpty || !ends then .error .anchor else .ok (String.ofList name, c)

/-! ### One token -/

/-- Adds a token of `n` characters that ends every open block. -/
def takeMarker (s : Scanner) (n : Nat) (t : Token) : Except Fault Scanner := do
  let s ← (s.closeBlocks (-1)).dropKey
  return ({ s with keyAllowed := false }.advance n).push t

/-- Opens a flow collection. -/
def takeFlowStart (s : Scanner) (t : Token) : Except Fault Scanner := do
  let s ← s.noteKey
  return ({ s with
    keyStart := none, outerKeys := s.keyStart :: s.outerKeys, keyAllowed := true }.advance 1).push t

/-- Closes a flow collection. -/
def takeFlowEnd (s : Scanner) (t : Token) : Except Fault Scanner := do
  let s ← s.dropKey
  let s := match s.outerKeys with
    | [] => s
    | key :: outerKeys => { s with keyStart := key, outerKeys }
  return ({ s with keyAllowed := false }.advance 1).push t

/-- Passes the comma between entries of a flow collection. -/
def takeFlowEntry (s : Scanner) : Except Fault Scanner := do
  let s ← s.dropKey
  return ({ s with keyAllowed := true }.advance 1).push .flowEntry

/-- Passes the dash of an entry. -/
def takeBlockEntry (s : Scanner) : Except Fault Scanner := do
  if !s.inFlow && !s.keyAllowed then throw .misplaced
  let s ← (s.openBlock s.cursor.column none .blockSequence).dropKey
  return ({ s with keyAllowed := true }.advance 1).push .blockEntry

/-- Passes the question mark of a key. -/
def takeKey (s : Scanner) : Except Fault Scanner := do
  if !s.inFlow && !s.keyAllowed then throw .misplaced
  let s ← (s.openBlock s.cursor.column none .blockMapping).dropKey
  return ({ s with keyAllowed := !s.inFlow }.advance 1).push .key

/-- Passes the colon of a value. -/
def takeValue (s : Scanner) : Except Fault Scanner :=
  match s.keyStart with
  | some k =>
    let s := (s.insert k.number .key).openBlock k.column (some k.number) .blockMapping
    .ok (({ s with keyStart := none, keyAllowed := false }.advance 1).push .value)
  | none => do
    if !s.inFlow && !s.keyAllowed then throw .misplaced
    let s := s.openBlock s.cursor.column none .blockMapping
    return ({ s with keyAllowed := !s.inFlow }.advance 1).push .value

/-- Adds a token that may start a key. -/
def takeNode (s : Scanner) (read : Cursor → Except Fault (Token × Cursor)) :
    Except Fault Scanner := do
  let s ← s.noteKey
  let (t, cursor) ← read s.cursor
  return { s with keyAllowed := false, cursor }.push t

/-- Adds a block scalar. -/
def takeBlock (s : Scanner) (style : Style) (fuel : Nat) : Except Fault Scanner := do
  let s ← s.dropKey
  let (text, cursor) ← readBlock (style = .folded) s.indent fuel s.cursor
  return { s with keyAllowed := true, cursor }.push (.scalar text style)

/-- Adds a plain scalar, behind whose line break a key may start again. -/
def takePlain (s : Scanner) (fuel : Nat) : Except Fault Scanner := do
  let s ← s.noteKey
  let (text, broken, cursor) ← readPlain s.inFlow (s.indent + 1) fuel s.cursor
  return { s with keyAllowed := broken, cursor }.push (.scalar text .plain)

/-- The characters that start no plain scalar. -/
def isIndicator (c : Char) : Bool :=
  c = '-' || c = '?' || c = ':' || c = ',' || c = '[' || c = ']' || c = '\x7b' || c = '\x7d'
    || c = '#' || c = '&' || c = '*' || c = '!' || c = '|' || c = '>' || c = '\'' || c = '"'
    || c = '%' || c = '@' || c = '`'

/-- Whether a plain scalar starts here. -/
def isAtPlain (s : Scanner) (char : Char) : Bool :=
  let c := s.cursor
  !(isBlankOrBreak char || isIndicator char)
    || (char = '-' && !(c.ahead? 1).any isBlank)
    || (!s.inFlow && (char = '?' || char = ':') && !c.isGapAhead 1)

/-- Finds the token that starts with the character here. -/
def takeToken (s : Scanner) (char : Char) (fuel : Nat) : Except Fault Scanner :=
  let c := s.cursor
  if c.column = 0 && char = '%' then do
    let s ← (s.closeBlocks (-1)).dropKey
    let (t, cursor) ← readDirective fuel s.cursor
    return { s with keyAllowed := false, cursor }.push t
  else if c.isAtMarker '-' then s.takeMarker 3 .documentStart
  else if c.isAtMarker '.' then s.takeMarker 3 .documentEnd
  else if char = '[' then s.takeFlowStart .flowSequence
  else if char = '\x7b' then s.takeFlowStart .flowMapping
  else if char = ']' then s.takeFlowEnd .flowSequenceEnd
  else if char = '\x7d' then s.takeFlowEnd .flowMappingEnd
  else if char = ',' then s.takeFlowEntry
  else if char = '-' && c.isGapAhead 1 then s.takeBlockEntry
  else if char = '?' && (s.inFlow || c.isGapAhead 1) then s.takeKey
  else if char = ':' && (s.inFlow || c.isGapAhead 1) then s.takeValue
  else if char = '*' then
    s.takeNode fun c => do
      let (name, c) ← readName c
      return (.alias name, c)
  else if char = '&' then
    s.takeNode fun c => do
      let (name, c) ← readName c
      return (.anchor name, c)
  else if char = '!' then s.takeNode (readTag s.inFlow fuel)
  else if char = '|' && !s.inFlow then s.takeBlock .literal fuel
  else if char = '>' && !s.inFlow then s.takeBlock .folded fuel
  else if char = '\'' then
    s.takeNode fun c => do
      let (text, c) ← readQuoted '\'' fuel c
      return (.scalar text .singleQuoted, c)
  else if char = '"' then
    s.takeNode fun c => do
      let (text, c) ← readQuoted '"' fuel c
      return (.scalar text .doubleQuoted, c)
  else if s.isAtPlain char then s.takePlain fuel
  else .error .misplaced

/-- Ends the text: every block is closed and no required key is left open. -/
def finish (s : Scanner) : Except Fault (List Token) := do
  let s ← (s.closeBlocks (-1)).dropKey
  return s.found.reverse

/-- Cuts the rest of a text into tokens. Every step passes a character at least. -/
def run : Nat → Scanner → Except Fault (List Token)
  | 0, s => s.finish
  | fuel + 1, s => do
    let s ← (s.skipGap (fuel + 1)).dropStaleKeys
    let s := s.closeBlocks s.cursor.column
    match s.cursor.peek? with
    | none => s.finish
    | some char => run fuel (← s.takeToken char (fuel + 1))

end Scanner

/-- The tokens of a text. A mark of byte order may open it. -/
def tokens (text : List Char) : Except Fault (List Token) :=
  let text := if text.head? = some byteOrderMark then text.drop 1 else text
  if text.all isAllowed then
    Scanner.run (text.length + 1) { cursor := { rest := text } }
  else .error .character

end Monorepo.Yaml
