import Monorepo.Document

/-!
# Settings values

Settings come in tiers. Each tier is a `Json` value, and tiers are merged field by field: a later
tier wins, lists are replaced as a whole, and null says nothing. `Json.fit?` reads the merged value
against a schema.
-/

namespace Monorepo

/-- A value of named, listed and plain values. -/
inductive Json where
  | null
  | bool (value : Bool)
  | integer (value : Int)
  /-- A number with a point or an exponent, as written. -/
  | decimal (digits : String)
  | text (value : String)
  | list (items : List Json)
  | object (fields : List (String × Json))
  deriving Repr, Inhabited

namespace Json

mutual

/-- Decides whether two values are equal. -/
def decEq (v w : Json) : Decidable (v = w) :=
  match v, w with
  | .null, .null => .isTrue rfl
  | .bool a, .bool b => decidable_of_iff (a = b) (by simp)
  | .integer m, .integer n => decidable_of_iff (m = n) (by simp)
  | .decimal a, .decimal b => decidable_of_iff (a = b) (by simp)
  | .text a, .text b => decidable_of_iff (a = b) (by simp)
  | .list items, .list others =>
    have := decEqItems items others
    decidable_of_iff (items = others) (by simp)
  | .object fields, .object others =>
    have := decEqFields fields others
    decidable_of_iff (fields = others) (by simp)
  | .null, .bool _ | .null, .integer _ | .null, .decimal _
  | .null, .text _ | .null, .list _ | .null, .object _ => .isFalse nofun
  | .bool _, .null | .bool _, .integer _ | .bool _, .decimal _
  | .bool _, .text _ | .bool _, .list _ | .bool _, .object _ => .isFalse nofun
  | .integer _, .null | .integer _, .bool _ | .integer _, .decimal _
  | .integer _, .text _ | .integer _, .list _ | .integer _, .object _ => .isFalse nofun
  | .decimal _, .null | .decimal _, .bool _ | .decimal _, .integer _
  | .decimal _, .text _ | .decimal _, .list _ | .decimal _, .object _ => .isFalse nofun
  | .text _, .null | .text _, .bool _ | .text _, .integer _
  | .text _, .decimal _ | .text _, .list _ | .text _, .object _ => .isFalse nofun
  | .list _, .null | .list _, .bool _ | .list _, .integer _
  | .list _, .decimal _ | .list _, .text _ | .list _, .object _ => .isFalse nofun
  | .object _, .null | .object _, .bool _ | .object _, .integer _
  | .object _, .decimal _ | .object _, .text _ | .object _, .list _ => .isFalse nofun

/-- Decides whether two lists of values are equal. -/
def decEqItems (items others : List Json) : Decidable (items = others) :=
  match items, others with
  | [], [] => .isTrue rfl
  | [], _ :: _ | _ :: _, [] => .isFalse nofun
  | v :: items, w :: others =>
    have := decEq v w
    have := decEqItems items others
    decidable_of_iff (v = w ∧ items = others) (by simp)

/-- Decides whether two lists of fields are equal. -/
def decEqFields (fields others : List (String × Json)) : Decidable (fields = others) :=
  match fields, others with
  | [], [] => .isTrue rfl
  | [], _ :: _ | _ :: _, [] => .isFalse nofun
  | (name, v) :: fields, (other, w) :: others =>
    have := decEq v w
    have := decEqFields fields others
    decidable_of_iff (name = other ∧ v = w ∧ fields = others) (by simp [and_assoc])

end

instance : DecidableEq Json :=
  decEq

/-- Sets a field, in its place if it has one, else behind the others. -/
def setField (name : String) (value : Json) : List (String × Json) → List (String × Json)
  | [] => [(name, value)]
  | (n, v) :: rest => if n = name then (n, value) :: rest else (n, v) :: setField name value rest

mutual

/-- Puts a value over another. Objects are merged field by field, and null changes nothing. -/
def merge : Json → Json → Json
  | .object base, .object upper => .object (mergeFields base upper)
  | base, .null => base
  | _, upper => upper

/-- Puts the fields of an object over those of another. -/
def mergeFields (base : List (String × Json)) : List (String × Json) → List (String × Json)
  | [] => base
  | (name, value) :: rest =>
    let merged := match base.lookup name with
      | some old => merge old value
      | none => value
    mergeFields (setField name merged base) rest

end

/-- Puts each value over those before it. -/
def mergeAll (values : List Json) : Json :=
  values.foldl merge .null

mutual

/-- The value of a document. -/
def ofDocument : Document → Json
  | .text value => .text value
  | .count value => .integer value
  | .list items => .list (ofDocuments items)
  | .record fields => .object (ofFields fields)

/-- The values of a list of documents. -/
def ofDocuments : List Document → List Json
  | [] => []
  | d :: rest => ofDocument d :: ofDocuments rest

/-- The values of the fields of a document. -/
def ofFields : List (String × Document) → List (String × Json)
  | [] => []
  | (name, d) :: rest => (name, ofDocument d) :: ofFields rest

end

mutual

/-- Reads a value against a schema. Fields that the schema does not name are passed over, and a
record may also be a list of the values of its first fields. -/
def fit? : Schema → Json → Option Document
  | .text, .text value => some (.text value)
  | .count, .integer value =>
    if 0 ≤ value ∧ value.toNat ≤ Schema.countLimit then some (.count value.toNat) else none
  | .choice words, .text value => if words.contains value then some (.text value) else none
  | .choice words, .object [(name, .null)] =>
    if words.contains name then some (.text name) else none
  | .list item, .list values => .list <$> values.mapM (fit? item)
  | .record fields, .object values => .record <$> fitFields? fields values
  | .record fields, .list values =>
    if values.length ≤ fields.length then .record <$> fitPositions? fields values else none
  | _, _ => none

/-- Reads the fields of a record from an object. -/
def fitFields? : List (String × Schema) → List (String × Json) → Option (List (String × Document))
  | [], _ => some []
  | (name, schema) :: rest, values => do
    let others ← fitFields? rest values
    match values.lookup name with
    | none => return others
    | some value => return (name, ← fit? schema value) :: others

/-- Reads the fields of a record in order. -/
def fitPositions? : List (String × Schema) → List Json → Option (List (String × Document))
  | (name, schema) :: rest, value :: values => do
    return (name, ← fit? schema value) :: (← fitPositions? rest values)
  | _, _ => some []

end

end Json

end Monorepo
