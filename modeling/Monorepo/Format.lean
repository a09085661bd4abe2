import Monorepo.Document.Layout
import Monorepo.Path
import Monorepo.Text.Utf8
import Monorepo.Toml.Document
import Monorepo.Toml.Printer
import Monorepo.Yaml.Document
import Monorepo.Yaml.Printer

/-!
# File formats

A configuration file is written in TOML or YAML, as its extension says. `FileFormat.decode` turns
the bytes of a file into a value of a type that is kept on disk, and `FileFormat.encode` writes a
value as text. Both go through the value's document.
-/

namespace Monorepo

/-- The lower-case form of a character, as far as it is a letter of a word of ASCII letters. The
Kelvin sign is the only other character whose lower-case form is one. -/
def lowerChar (c : Char) : Char :=
  if c = '\u212A' then 'k' else c.toLower

/-- A word in lower case. -/
def lowerWord (word : String) : String :=
  String.ofList (word.toList.map lowerChar)

/-- How a configuration file is written. -/
inductive FileFormat where
  | toml
  | yaml
  deriving DecidableEq, Repr, Inhabited

/-- Why a file holds no value, or a value can not be written. -/
inductive CodecFault where
  /-- The bytes are no text. -/
  | notText (fault : Utf8.Fault)
  /-- The text is no document of the format, or not one of the wanted shape. -/
  | malformed (format : FileFormat)
  /-- The format has no text for the value. -/
  | unwritable (format : FileFormat)
  deriving DecidableEq, Repr

/-- The phrase that stands for all that a reader or a printer finds wrong with a value. -/
def unreadablePhrase : String :=
  "<parser message>"

/-- A fault as a sentence. -/
def CodecFault.message : CodecFault → String
  | .notText fault => "file is not valid UTF-8: " ++ fault.message
  | .malformed _ => unreadablePhrase
  | .unwritable _ => unreadablePhrase

namespace FileFormat

/-- The format that an extension names. -/
def ofExtension? (extension : String) : Option FileFormat :=
  if extension = "toml" then some .toml
  else if extension = "yaml" then some .yaml
  else if extension = "yml" then some .yaml
  else none

/-- The format of the file at a path, told by its extension. -/
def ofPath? (p : Path) : Option FileFormat :=
  p.extension?.bind ofExtension?

/-- The format of a file that is known to be a configuration file. -/
def ofPath (p : Path) : FileFormat :=
  (ofPath? p).getD .toml

/-- The format of a name, in any case. -/
def ofName? (name : String) : Option FileFormat :=
  ofExtension? (lowerWord name)

/-- The document that a text holds, read against a schema. -/
def parse (format : FileFormat) (schema : Schema) (text : String) : Except CodecFault Document :=
  let document? := match format with
    | .toml => (Toml.decode schema text).toOption
    | .yaml => (Yaml.decode schema text).toOption
  match document? with
  | some document => .ok document
  | none => .error (.malformed format)

/-- The text of a document. -/
def render (format : FileFormat) (document : Document) : Except CodecFault String :=
  match format with
  | .yaml => .ok (Yaml.render document)
  | .toml =>
    match Toml.render? document with
    | some text => .ok text
    | none => .error (.unwritable .toml)

/-- The value that bytes hold. -/
def decode (α : Type) [OnDisk α] (format : FileFormat) (bytes : List UInt8) :
    Except CodecFault α := do
  let text ← match Utf8.decode bytes with
    | .ok text => .ok text
    | .error fault => .error (CodecFault.notText fault)
  let document ← format.parse (OnDisk.schema α) text
  match ofDocument? document with
  | some value => return value
  | none => throw (.malformed format)

/-- The text of a value. -/
def encode {α : Type} [OnDisk α] (format : FileFormat) (value : α) : Except CodecFault String :=
  format.render (toDocument value)

end FileFormat

end Monorepo
