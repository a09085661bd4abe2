import Monorepo.Document
import Monorepo.Json
import Monorepo.Yaml.Node
import Monorepo.Yaml.Plain

/-!
# What a YAML text holds

A YAML tree is read against a schema (`decode`), or as a settings value where every plain word
means what it looks like (`decodeValue`). Following an alias costs one of a number of steps that
grows with the text, so a short text can not stand for a huge value.
-/

namespace Monorepo.Yaml

namespace Source

/-- The node that a node stands for, where following an alias takes a step. -/
def follow (s : Source) (n : Node) (steps : Nat) : Except Fault (Node × Nat) :=
  match n with
  | .alias mark =>
    match steps, s.target? mark with
    | steps + 1, some target => .ok (target, steps)
    | 0, _ => .error .repetition
    | _, none => .error .unknownAlias
  | n => .ok (n, steps)

/-- Reads nodes in order, passing on the steps that are left. -/
def readAll {α β : Type} (read : α → Nat → Except Fault (β × Nat)) :
    List α → Nat → Except Fault (List β × Nat)
  | [], steps => .ok ([], steps)
  | a :: rest, steps => do
    let (b, steps) ← read a steps
    let (bs, steps) ← readAll read rest steps
    return (b :: bs, steps)

/-- The name that a node gives to a field. -/
def readName (s : Source) (n : Node) (steps : Nat) : Except Fault (String × Nat) := do
  match ← s.follow n steps with
  | (.scalar _ text _, steps) => return (text, steps)
  | _ => throw .kind

/-- A value that is left out stands for an empty collection. -/
def isLeftOut : Node → Bool
  | .scalar _ text .plain => text = ""
  | _ => false

/-- The local tag of a node, without its exclamation mark. -/
def localTag? (n : Node) : Option String :=
  match n.properties.tag.map String.toList with
  | some ['!'] => some "!"
  | some ('!' :: rest) => some (String.ofList rest)
  | _ => none

/-- The word of a choice: a tag on nothing, or a scalar. -/
def readChoice (words : List String) (n : Node) : Except Fault Document :=
  let word? : Option String :=
    match localTag? n, n with
    | some word, .scalar _ text .plain =>
      if text = "" || Plain.isNull text.toList then some word else none
    | some _, _ => none
    | none, .scalar _ text _ => some text
    | none, _ => none
  match word? with
  | some word => if words.contains word then .ok (.text word) else .error .kind
  | none => .error .kind

/-- Whether a scalar can be read as a number: it is plain, or a block that is tagged as one. -/
def canBeCount (p : Properties) (style : Style) : Bool :=
  style = .plain || (style = .literal && p.tag = some "tag:yaml.org,2002:int")

/-- The fields read so far, with one more. -/
def addField (fields : List (String × Document)) (name : String) (value : Document) :
    Except Fault (List (String × Document)) :=
  if (fields.lookup name).isSome then .error .repeatedField
  else .ok (fields ++ [(name, value)])

/-- Reads the entries of a mapping, where `readField` reads the value of a field that the schema
names, and other entries are passed over. -/
def readEntries (s : Source)
    (readField : String → Node → Nat → Option (Except Fault (Document × Nat))) :
    List (Node × Node) → List (String × Document) → Nat →
    Except Fault (List (String × Document) × Nat)
  | [], fields, steps => .ok (fields, steps)
  | (k, v) :: rest, fields, steps => do
    let (name, steps) ← s.readName k steps
    match readField name v steps with
    | none => readEntries s readField rest fields steps
    | some result =>
      let (value, steps) ← result
      readEntries s readField rest (← addField fields name value) steps

mutual

/-- Reads a node against a schema. -/
def fit (s : Source) : Schema → Node → Nat → Except Fault (Document × Nat)
  | schema, node, steps => do
    let (n, steps) ← s.follow node steps
    match schema, n with
    | .text, .scalar _ text _ => return (.text text, steps)
    | .count, .scalar p text style =>
      match Plain.natural? Schema.countLimit text.toList with
      | some n => if canBeCount p style then return (.count n, steps) else throw .kind
      | none => throw .kind
    | .choice words, n => return (← readChoice words n, steps)
    | .list item, .sequence _ items =>
      let (values, steps) ← readAll (s.fit item) items steps
      return (.list values, steps)
    | .list _, n => if isLeftOut n then return (.list [], steps) else throw .kind
    | .record fields, .mapping _ entries =>
      let (values, steps) ← s.readEntries (s.fitField fields) entries [] steps
      return (.record values, steps)
    | .record _, n => if isLeftOut n then return (.record [], steps) else throw .kind
    | _, _ => throw .kind

/-- Reads the value of a field, if the schema names it. -/
def fitField (s : Source) :
    List (String × Schema) → String → Node → Nat → Option (Except Fault (Document × Nat))
  | [], _, _, _ => none
  | (field, schema) :: rest, name, node, steps =>
    if field = name then some (s.fit schema node steps) else s.fitField rest name node steps

end

/-- The document of an empty text. -/
def fitNothing : Schema → Except Fault Document
  | .list _ => .ok (.list [])
  | .record _ => .ok (.record [])
  | _ => .error .kind

/-- The value of a scalar by its tag, its style and its word. -/
def scalarValue (p : Properties) (text : String) (style : Style) : Except Fault Json :=
  let word := text.toList
  let ofPlain : Plain → Except Fault Json
    | .null | .unbounded => .ok .null
    | .bool b => .ok (.bool b)
    | .integer n => .ok (.integer n)
    | .wide => .error .kind
    | .decimal => .ok (.decimal text)
    | .text => .ok (.text text)
  if p.tag = some "tag:yaml.org,2002:bool" then
    match Plain.bool? word with
    | some b => .ok (.bool b)
    | none => .error .kind
  else if p.tag = some "tag:yaml.org,2002:int" then
    match Plain.integer? word with
    | some n => ofPlain n
    | none => .error .kind
  else if p.tag = some "tag:yaml.org,2002:float" then
    match Plain.decimal? word with
    | some d => ofPlain d
    | none => .error .kind
  else if p.tag = some "tag:yaml.org,2002:null" then
    if Plain.isNull word then .ok .null else .error .kind
  else if p.tag.isNone && style = .plain then ofPlain (Plain.ofWord word)
  else .ok (.text text)

/-- A way to read nodes as settings values. -/
abbrev ValueReader :=
  Node → Nat → Except Fault (Json × Nat)

/-- Reads an entry of a mapping, whose value is read by `read`. -/
def readEntry (s : Source) (read : ValueReader) (entry : Node × Node) (steps : Nat) :
    Except Fault ((String × Json) × Nat) := do
  let (name, steps) ← s.readName entry.1 steps
  let (value, steps) ← read entry.2 steps
  return ((name, value), steps)

/-- Reads a collection, whose items are read by `read`. A later field replaces an earlier one of its
name. -/
def readCollection (s : Source) (read : ValueReader) : ValueReader
  | .sequence _ items, steps => do
    let (values, steps) ← readAll read items steps
    return (.list values, steps)
  | .mapping _ entries, steps => do
    let (fields, steps) ← readAll (s.readEntry read) entries steps
    return (.object (fields.foldl (fun fs f => Json.setField f.1 f.2 fs) []), steps)
  | _, _ => throw .kind

/-- Reads a node as a settings value, where collections are read by `collection`. -/
def readValue (s : Source) (collection : ValueReader) (node : Node) (steps : Nat) :
    Except Fault (Json × Nat) := do
  let (n, steps) ← s.follow node steps
  if (localTag? n).isSome then throw .kind
  else
    match n with
    | .alias _ => throw .unknownAlias
    | .scalar p text style => return (← scalarValue p text style, steps)
    | n => collection n steps

/-- Reads a node as a settings value; `depth` bounds the nesting of collections. -/
def value (s : Source) : Nat → ValueReader
  | 0 => s.readValue fun _ _ => throw .depth
  | depth + 1 => s.readValue (s.readCollection (s.value depth))

end Source

/-- How deep collections may be nested in a settings value. -/
def depthLimit : Nat :=
  128

/-- The document that a text holds. -/
def decode (schema : Schema) (text : String) : Except Fault Document := do
  let source ← Source.parse text.toList
  match source.root with
  | none => Source.fitNothing schema
  | some root => return (← source.fit schema root source.aliasBudget).1

/-- The settings value that a text holds. -/
def decodeValue (text : String) : Except Fault Json := do
  let source ← Source.parse text.toList
  match source.root with
  | none => return .null
  | some root => return (← source.value depthLimit root source.aliasBudget).1

end Monorepo.Yaml
