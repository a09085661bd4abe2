import Monorepo.Toml.Scalar

/-!
# The statements of TOML

A TOML text is a list of statements, one a line: a key gets a value, or a header opens a table. A
value may go on over several lines inside brackets. What the statements make of the tables is not
decided here.
-/

namespace Monorepo.Toml

/-- One statement. A key is the path of names between its dots. -/
inductive Statement where
  | assign (key : List String) (value : Value)
  | openTable (key : List String)
  | openItem (key : List String)
  deriving Repr

/-- How deep brackets may be nested, and how many names a key may have. -/
def depthLimit : Nat :=
  80

/-- The characters of a key without quotes. -/
def isKeyChar (c : Char) : Bool :=
  ('a' ≤ c && c ≤ 'z') || ('A' ≤ c && c ≤ 'Z') || c.isDigit || c = '_' || c = '-'

/-- Reads one name of a key. -/
def readName (text : List Char) : Except Fault (String × List Char) :=
  match text with
  | '"' :: rest => readLineFrom '"' (rest.length + 1) [] rest
  | '\'' :: rest => readLineFrom '\'' (rest.length + 1) [] rest
  | _ =>
    let name := text.takeWhile isKeyChar
    if name.isEmpty then .error .grammar else .ok (String.ofList name, text.drop name.length)

/-- Reads a key of at most `fuel` names, with blanks around each. -/
def readKey : Nat → List Char → Except Fault (List String × List Char)
  | 0, _ => .error .depth
  | fuel + 1, text => do
    let (name, rest) ← readName (skipBlanks text)
    match skipBlanks rest with
    | '.' :: more =>
      let (names, rest) ← readKey fuel more
      return (name :: names, rest)
    | rest => return ([name], rest)

/-- Passes a comment, which holds no control character. -/
def skipComment (text : List Char) : Except Fault (List Char) :=
  match text with
  | '#' :: rest =>
    let after := rest.dropWhile isVisible
    if after.isEmpty || (newline? after).isSome then .ok after else .error .grammar
  | _ => .ok text

/-- Passes blanks, comments and line breaks between the items of a list. -/
def skipSpace : Nat → List Char → Except Fault (List Char)
  | 0, text => .ok text
  | fuel + 1, text => do
    let text ← skipComment (skipBlanks text)
    match newline? text with
    | some rest => skipSpace fuel rest
    | none => return text

/-- Passes the end of a line: blanks, a comment, and a line break or the end of the text. -/
def skipLineEnd (text : List Char) : Except Fault (List Char) := do
  let text ← skipComment (skipBlanks text)
  match newline? text with
  | some rest => return rest
  | none => if text.isEmpty then return [] else throw .grammar

/-! ### Tables from keys -/

/-- An entry of a table that is being built. -/
inductive Entry where
  /-- A value, which nothing can be added to. -/
  | leaf (value : Value)
  /-- A table. It is implied until a header or a key sets it, and dotted when a key with dots made
  it. -/
  | table (implied dotted : Bool) (entries : List (String × Entry))
  /-- The tables of a list, which headers add to. -/
  | items (tables : List (List (String × Entry)))
  deriving Repr, Inhabited

namespace Entry

/-- Sets an entry, in its place if it has one, else behind the others. -/
def set (name : String) (e : Entry) : List (String × Entry) → List (String × Entry)
  | [] => [(name, e)]
  | (n, old) :: rest => if n = name then (n, e) :: rest else (n, old) :: set name e rest

/-- Changes the table that a path leads to; the change is told whether that table is dotted.
Tables on the way that do not exist are implied; a list leads to its last table. A key may not
lead through a table that a header opened. -/
def update (byKey : Bool)
    (change : Bool → List (String × Entry) → Except Fault (List (String × Entry))) :
    List String → Bool → List (String × Entry) → Except Fault (List (String × Entry))
  | [], dotted, entries => change dotted entries
  | name :: path, _, entries =>
    match entries.lookup name with
    | none => do
      let inner ← update byKey change path byKey []
      return set name (.table true byKey inner) entries
    | some (.leaf _) => .error .repeatedKey
    | some (.items tables) =>
      match tables.getLast? with
      | none => .error .repeatedKey
      | some last => do
        let inner ← update byKey change path false last
        return set name (.items (tables.dropLast ++ [inner])) entries
    | some (.table implied dotted inner) =>
      if byKey && !implied then .error .repeatedKey
      else do
        let inner ← update byKey change path dotted inner
        return set name (.table implied dotted inner) entries

/-- Gives a key its value. A key with dots adds only to tables that such keys made, and a key
without adds to no such table. -/
def assign (key : List String) (value : Value) (entries : List (String × Entry)) :
    Except Fault (List (String × Entry)) :=
  match key.getLast? with
  | none => .error .grammar
  | some name =>
    let path := key.dropLast
    update true (fun dotted entries =>
      if dotted = path.isEmpty || (entries.lookup name).isSome then .error .repeatedKey
      else .ok (entries ++ [(name, .leaf value)])) path false entries

mutual

/-- The finished value of an entry. -/
def toValue : Entry → Value
  | .leaf value => value
  | .table _ _ entries => .table (toValues entries)
  | .items tables => .list (tableValues tables)

/-- The finished fields of a table. -/
def toValues : List (String × Entry) → List (String × Value)
  | [] => []
  | (name, e) :: rest => (name, e.toValue) :: toValues rest

/-- The finished tables of a list. -/
def tableValues : List (List (String × Entry)) → List Value
  | [] => []
  | entries :: rest => .table (toValues entries) :: tableValues rest

end

end Entry

mutual

/-- Reads a value, `depth` levels of brackets deep. -/
def readValue (depth : Nat) : Nat → List Char → Except Fault (Value × List Char)
  | 0, _ => .error .grammar
  | fuel + 1, text =>
    match text with
    | '"' :: _ => do
      let (value, rest) ← readText '"' text
      return (.text value, rest)
    | '\'' :: _ => do
      let (value, rest) ← readText '\'' text
      return (.text value, rest)
    | '[' :: rest =>
      if depthLimit ≤ depth + 1 then .error .depth
      else do
        let (items, rest) ← readItems (depth + 1) fuel rest
        return (.list items, rest)
    | '\x7b' :: rest =>
      if depthLimit ≤ depth + 1 then .error .depth
      else
        match skipBlanks rest with
        | '\x7d' :: rest => .ok (.table [], rest)
        | rest => do
          let (entries, rest) ← readEntries (depth + 1) fuel [] rest
          return (.table (Entry.toValues entries), rest)
    | _ => readPlain text

/-- Reads the items of a list up to its closing bracket. -/
def readItems (depth : Nat) : Nat → List Char → Except Fault (List Value × List Char)
  | 0, _ => .error .grammar
  | fuel + 1, text => do
    match ← skipSpace (fuel + 1) text with
    | ']' :: rest => return ([], rest)
    | text =>
      let (item, rest) ← readValue depth fuel text
      match ← skipSpace (fuel + 1) rest with
      | ']' :: rest => return ([item], rest)
      | ',' :: rest =>
        let (items, rest) ← readItems depth fuel rest
        return (item :: items, rest)
      | _ => throw .grammar

/-- Reads the entries of a table on one line up to its closing brace. -/
def readEntries (depth : Nat) :
    Nat → List (String × Entry) → List Char → Except Fault (List (String × Entry) × List Char)
  | 0, _, _ => .error .grammar
  | fuel + 1, entries, text => do
    let (key, rest) ← readKey (depthLimit - 1) text
    match rest with
    | '=' :: rest =>
      let (value, rest) ← readValue depth fuel (skipBlanks rest)
      let entries ← Entry.assign key value entries
      match skipBlanks rest with
      | '\x7d' :: rest => return (entries, rest)
      | ',' :: rest => readEntries depth fuel entries rest
      | _ => throw .grammar
    | _ => throw .grammar

end

/-- Reads the key of a header up to its closing brackets. -/
def readHeader (brackets : List Char) (text : List Char) :
    Except Fault (List String × List Char) := do
  let (key, rest) ← readKey (depthLimit - 1) text
  if rest.take brackets.length = brackets then return (key, rest.drop brackets.length)
  else throw .grammar

/-- Reads one statement and its line end. -/
def readStatement (fuel : Nat) (text : List Char) : Except Fault (Statement × List Char) :=
  match text with
  | '[' :: '[' :: rest => do
    let (key, rest) ← readHeader [']', ']'] rest
    return (.openItem key, ← skipLineEnd rest)
  | '[' :: rest => do
    let (key, rest) ← readHeader [']'] rest
    return (.openTable key, ← skipLineEnd rest)
  | _ => do
    let (key, rest) ← readKey (depthLimit - 1) text
    match rest with
    | '=' :: rest =>
      let (value, rest) ← readValue 0 fuel (skipBlanks rest)
      return (.assign key value, ← skipLineEnd rest)
    | _ => throw .grammar

/-- Reads the statements of a text, with empty lines and comments between them. -/
def readStatements : Nat → List Char → Except Fault (List Statement)
  | 0, _ => .ok []
  | fuel + 1, text => do
    match ← skipSpace (fuel + 1) text with
    | [] => return []
    | text =>
      let (statement, rest) ← readStatement (fuel + 1) text
      return statement :: (← readStatements fuel rest)

/-- The statements of a text. A mark of byte order may open it. -/
def statements (text : List Char) : Except Fault (List Statement) :=
  let text := if text.head? = some '\uFEFF' then text.drop 1 else text
  readStatements (text.length + 1) text

end Monorepo.Toml
