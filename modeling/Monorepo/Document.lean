/-!
# Documents

A configuration file, whatever its format, stands for a tree of named and listed values: a
`Document`. The formats print and read documents; a type whose values are kept in files says by
`OnDisk` which document each value is.

What a file may hold is not guessed from its text but told by a `Schema`. A format reads its file
against the schema, so that the same plain word is a text where a text is expected and a number
where a number is.
-/

namespace Monorepo

/-- The tree of values that a file holds. -/
inductive Document where
  | text (value : String)
  | count (value : Nat)
  | list (items : List Document)
  | record (fields : List (String × Document))
  deriving Repr, Inhabited

namespace Document

mutual

/-- Decides whether two documents are equal. -/
def decEq (d e : Document) : Decidable (d = e) :=
  match d, e with
  | .text v, .text w => decidable_of_iff (v = w) (by simp)
  | .count m, .count n => decidable_of_iff (m = n) (by simp)
  | .list items, .list others =>
    have := decEqItems items others
    decidable_of_iff (items = others) (by simp)
  | .record fields, .record others =>
    have := decEqFields fields others
    decidable_of_iff (fields = others) (by simp)
  | .text _, .count _ | .text _, .list _ | .text _, .record _ => .isFalse nofun
  | .count _, .text _ | .count _, .list _ | .count _, .record _ => .isFalse nofun
  | .list _, .text _ | .list _, .count _ | .list _, .record _ => .isFalse nofun
  | .record _, .text _ | .record _, .count _ | .record _, .list _ => .isFalse nofun

/-- Decides whether two lists of documents are equal. -/
def decEqItems (items others : List Document) : Decidable (items = others) :=
  match items, others with
  | [], [] => .isTrue rfl
  | [], _ :: _ | _ :: _, [] => .isFalse nofun
  | d :: items, e :: others =>
    have := decEq d e
    have := decEqItems items others
    decidable_of_iff (d = e ∧ items = others) (by simp)

/-- Decides whether two lists of fields are equal. -/
def decEqFields (fields others : List (String × Document)) : Decidable (fields = others) :=
  match fields, others with
  | [], [] => .isTrue rfl
  | [], _ :: _ | _ :: _, [] => .isFalse nofun
  | (name, d) :: fields, (other, e) :: others =>
    have := decEq d e
    have := decEqFields fields others
    decidable_of_iff (name = other ∧ d = e ∧ fields = others) (by simp [and_assoc])

end

instance : DecidableEq Document :=
  decEq

end Document

/-- The shape of the documents that a type reads. -/
inductive Schema where
  | text
  /-- A number that fits 64 bits. -/
  | count
  /-- One of these words. -/
  | choice (words : List String)
  | list (item : Schema)
  /-- Named fields, each of which may be absent. -/
  | record (fields : List (String × Schema))
  deriving Repr, Inhabited

/-- The greatest number a count can be. -/
def Schema.countLimit : Nat :=
  Nat.pow 2 64 - 1

namespace Document

def text? : Document → Option String
  | .text value => some value
  | _ => none

def count? : Document → Option Nat
  | .count value => some value
  | _ => none

def list? : Document → Option (List Document)
  | .list items => some items
  | _ => none

def fields? : Document → Option (List (String × Document))
  | .record fields => some fields
  | _ => none

/-- A list of texts. -/
def texts (values : List String) : Document :=
  .list (values.map .text)

/-- The texts of a list of texts. -/
def texts? (d : Document) : Option (List String) := do
  (← d.list?).mapM text?

end Document

/-- A type whose values are kept in files. -/
class OnDisk (α : Type) where
  /-- The shape of the documents it reads. -/
  schema : Schema
  /-- The document that a value is written as. -/
  toDocument : α → Document
  /-- The value of a document of the shape. -/
  ofDocument? : Document → Option α

export OnDisk (toDocument ofDocument?)

namespace Document

/-- A field that is always written. -/
def field (name : String) (value : Document) : List (String × Document) :=
  [(name, value)]

/-- A field that is left out when it holds nothing. -/
def fieldUnless (blank : Bool) (name : String) (value : Document) : List (String × Document) :=
  if blank then [] else [(name, value)]

/-- The value of a field, or what it is when it is absent. -/
def read {α : Type} (fields : List (String × Document)) (name : String)
    (value? : Document → Option α) (absent : α) : Option α :=
  match fields.lookup name with
  | none => some absent
  | some d => value? d

/-- The list of values as a document. -/
def ofList {α : Type} [OnDisk α] (values : List α) : Document :=
  .list (values.map toDocument)

/-- The values of a list of documents. -/
def toList? {α : Type} [OnDisk α] (d : Document) : Option (List α) := do
  (← d.list?).mapM ofDocument?

end Document

end Monorepo
