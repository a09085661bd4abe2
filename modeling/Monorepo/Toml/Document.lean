import Monorepo.Document
import Monorepo.Toml.Statement

/-!
# What a TOML text holds

The statements of a text build one table (`tableOf`), and the table is read against a schema
(`decode`). A header opens each table once; only a list of tables is opened again, for its next
item.
-/

namespace Monorepo.Toml

/-- The table that a header opened. -/
structure OpenTable where
  key : List String
  /-- Whether it is an item of a list. -/
  isItem : Bool
  entries : List (String × Entry)

/-- The tables that the statements read so far built. -/
structure Builder where
  root : List (String × Entry) := []
  /-- The table that keys are set in; none before the first header. -/
  current : Option OpenTable := none

namespace Builder

/-- Puts the open table into its place. -/
def close (b : Builder) : Except Fault (List (String × Entry)) :=
  match b.current with
  | none => .ok b.root
  | some t =>
    match t.key.getLast? with
    | none => .error .grammar
    | some name =>
      Entry.update false (fun _ entries =>
        if t.isItem then
          match entries.lookup name with
          | none => .ok (entries ++ [(name, .items [t.entries])])
          | some (.items tables) => .ok (Entry.set name (.items (tables ++ [t.entries])) entries)
          | some _ => .error .repeatedKey
        else .ok (entries.filter (·.1 ≠ name) ++ [(name, .table false false t.entries)]))
        t.key.dropLast false b.root

/-- The entries that a table has before its header: those that longer headers implied. -/
def impliedEntries (root : List (String × Entry)) (name : String) (path : List String) :
    Except Fault (List (String × Entry)) :=
  let rec go : List String → List (String × Entry) → Except Fault (List (String × Entry))
    | [], entries =>
      match entries.lookup name with
      | none => .ok []
      | some (.table true false inner) => .ok inner
      | some _ => .error .repeatedKey
    | step :: path, entries =>
      match entries.lookup step with
      | none => .ok []
      | some (.leaf _) => .error .repeatedKey
      | some (.items tables) => go path (tables.getLast?.getD [])
      | some (.table _ _ inner) => go path inner
  go path root

/-- Opens a table. -/
def openTable (b : Builder) (key : List String) (isItem : Bool) : Except Fault Builder := do
  let root ← b.close
  match key.getLast? with
  | none => throw .grammar
  | some name =>
    let entries ← if isItem then pure [] else impliedEntries root name key.dropLast
    return ⟨root, some ⟨key, isItem, entries⟩⟩

/-- Follows one statement. -/
def step (b : Builder) : Statement → Except Fault Builder
  | .assign key value =>
    match b.current with
    | none => do return { b with root := ← Entry.assign key value b.root }
    | some t => do
      return { b with current := some { t with entries := ← Entry.assign key value t.entries } }
  | .openTable key => b.openTable key false
  | .openItem key => b.openTable key true

end Builder

/-- The table that statements build. -/
def tableOf (statements : List Statement) : Except Fault Value := do
  let b ← statements.foldlM Builder.step ({} : Builder)
  return .table (Entry.toValues (← b.close))

/-- The table that a text holds. -/
def parse (text : List Char) : Except Fault Value := do
  tableOf (← statements text)

/-- Whether a value may stand beside the word of a choice: it holds nothing. -/
def isEmptyCollection : Value → Bool
  | .list items => items.isEmpty
  | .table fields => fields.isEmpty
  | _ => false

mutual

/-- Reads a value against a schema. Fields that the schema does not name are passed over, and a
record may also be a list of the values of its first fields. -/
def fit : Schema → Value → Except Fault Document
  | .text, .text value => .ok (.text value)
  | .count, .integer value => if 0 ≤ value then .ok (.count value.toNat) else .error .kind
  | .choice words, .text value =>
    if words.contains value then .ok (.text value) else .error .kind
  | .choice words, .table [(name, value)] =>
    if words.contains name && isEmptyCollection value then .ok (.text name) else .error .kind
  | .list item, .list values => .list <$> values.mapM (fit item)
  | .record fields, .table values => .record <$> fitFields fields values
  | .record fields, .list values => .record <$> fitPositions fields values
  | .record _, .dateTime => .ok (.record [])
  | _, _ => .error .kind

/-- Reads the fields of a record from a table. -/
def fitFields :
    List (String × Schema) → List (String × Value) → Except Fault (List (String × Document))
  | [], _ => .ok []
  | (name, schema) :: rest, values => do
    let field ← match values.lookup name with
      | none => pure []
      | some value => do pure [(name, ← fit schema value)]
    return field ++ (← fitFields rest values)

/-- Reads the fields of a record in order. -/
def fitPositions : List (String × Schema) → List Value → Except Fault (List (String × Document))
  | (name, schema) :: rest, value :: values => do
    return (name, ← fit schema value) :: (← fitPositions rest values)
  | _, _ => .ok []

end

/-- The document that a text holds. -/
def decode (schema : Schema) (text : String) : Except Fault Document := do
  fit schema (← parse text.toList)

end Monorepo.Toml
