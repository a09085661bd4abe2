import Monorepo.Format
import Monorepo.Proofs.RoundTrip
import Monorepo.Proofs.TextBytes

/-!
# Which documents can be written

YAML has a text for every document.  TOML has none for a number that does not fit 64 bits with a
sign, wherever in the document it stands; `Toml.isSome_render?` says that nothing else keeps a
document from being written.

The printer goes over the fields of a record twice: once for the plain ones, once for those that
stand under headers.  Each pass is known by the fields that it leaves to the other.

Whether a format reads a document back from its text is decided on the characters of the text
(`FileFormat.readsAs_iff`), so that it can be decided for a document of the size of a file.
-/

namespace Monorepo

namespace Toml

open Document

/-- A chain whose second step has a result for every intermediate value or for none. -/
theorem isSome_bind_iff {α β : Type} {x : Option α} {f : α → Option β} {p : Prop}
    (h : ∀ a, (f a).isSome ↔ p) : (x >>= f).isSome ↔ x.isSome ∧ p := by
  cases x with
  | none => simp
  | some a => simp [h]

/-- A chain whose second step always has a result. -/
theorem isSome_bind_some {α β : Type} {x : Option α} {f : α → β} :
    (x >>= fun a => some (f a)).isSome ↔ x.isSome := by
  rw [isSome_bind_iff fun _ => iff_of_true rfl trivial, and_true]

/-! ### Plain values -/

mutual

theorem isSome_renderValue (d : Document) :
    (renderValue d).isSome ↔ d.CountsWithin integerLimit := by
  match d with
  | .text value => simp [renderValue, CountsWithin]
  | .count value => simp [renderValue, CountsWithin]
  | .list [] => simp [renderValue, CountsWithin, ItemsWithin]
  | .list [item] =>
    rw [renderValue, CountsWithin, ItemsWithin, ItemsWithin, and_true, ← isSome_renderValue item]
    exact isSome_bind_some
  | .list (first :: second :: rest) =>
    rw [renderValue, CountsWithin, ← isSome_renderItems (first :: second :: rest)]
    exact isSome_bind_some
  | .record fields =>
    rw [renderValue, CountsWithin, ← isSome_renderInline fields]
    exact isSome_bind_some

theorem isSome_renderItems (items : List Document) :
    (renderItems items).isSome ↔ ItemsWithin integerLimit items := by
  match items with
  | [] => simp [renderItems, ItemsWithin]
  | item :: rest =>
    rw [renderItems, ItemsWithin, ← isSome_renderValue item, ← isSome_renderItems rest]
    exact isSome_bind_iff fun _ => isSome_bind_some

theorem isSome_renderInline (fields : List (String × Document)) :
    (renderInline fields).isSome ↔ FieldsWithin integerLimit fields := by
  match fields with
  | [] => simp [renderInline, FieldsWithin]
  | (name, value) :: rest =>
    rw [renderInline, FieldsWithin, ← isSome_renderValue value, ← isSome_renderInline rest]
    exact isSome_bind_iff fun _ => isSome_bind_some

end

/-! ### Fields under headers -/

/-- The plain fields of a record can be written when their numbers fit; the others are not looked
at. -/
theorem isSome_renderPlain (fields : List (String × Document)) :
    (renderPlain fields).isSome ↔
      ∀ f ∈ fields, isTable f.2 = false → f.2.CountsWithin integerLimit := by
  induction fields with
  | nil => simp [renderPlain]
  | cons f rest ih =>
    obtain ⟨name, value⟩ := f
    rw [renderPlain, List.forall_mem_cons, and_comm, ← ih]
    apply isSome_bind_iff
    intro others
    cases htable : isTable value with
    | true => simp
    | false =>
      rw [← isSome_renderValue value]
      simpa using isSome_bind_some

/-- Together, the two passes over a record look at every field. -/
theorem fieldsWithin_of_passes {fields : List (String × Document)} :
    FieldsWithin integerLimit fields ↔
      (∀ f ∈ fields, isTable f.2 = false → f.2.CountsWithin integerLimit) ∧
        ∀ f ∈ fields, isTable f.2 = true → f.2.CountsWithin integerLimit := by
  rw [fieldsWithin_iff]
  constructor
  · intro h
    exact ⟨fun f hf _ => h f hf, fun f hf _ => h f hf⟩
  · intro h f hf
    cases htable : isTable f.2 with
    | false => exact h.1 f hf htable
    | true => exact h.2 f hf htable

mutual

theorem isSome_renderTable (path : List String) (d : Document) :
    (renderTable path d).isSome ↔ (isTable d = true → d.CountsWithin integerLimit) := by
  match d with
  | .text value => simp [renderTable, isTable]
  | .count value => simp [renderTable, isTable]
  | .list items =>
    cases hrecords : allRecords items with
    | false => simp [renderTable, isTable, hrecords]
    | true =>
      have hitems := isSome_renderTableItems path items hrecords
      cases items with
      | nil => simp [renderTable, renderTableItems, isTable, allRecords]
      | cons item rest => simpa [renderTable, isTable, hrecords, CountsWithin] using hitems
  | .record fields =>
    rw [renderTable, CountsWithin, fieldsWithin_of_passes, ← isSome_renderPlain,
      ← isSome_renderTables path fields]
    simpa [isTable] using isSome_bind_iff fun _ => isSome_bind_some

theorem isSome_renderTables (path : List String) (fields : List (String × Document)) :
    (renderTables path fields).isSome ↔
      ∀ f ∈ fields, isTable f.2 = true → f.2.CountsWithin integerLimit := by
  match fields with
  | [] => simp [renderTables]
  | (name, value) :: rest =>
    rw [renderTables, List.forall_mem_cons, ← isSome_renderTable (path ++ [name]) value,
      ← isSome_renderTables path rest]
    exact isSome_bind_iff fun _ => isSome_bind_some

theorem isSome_renderTableItems (path : List String) (items : List Document)
    (hrecords : allRecords items = true) :
    (renderTableItems path items).isSome ↔ ItemsWithin integerLimit items := by
  match items with
  | [] => simp [renderTableItems, ItemsWithin]
  | .record fields :: rest =>
    rw [renderTableItems, ItemsWithin, CountsWithin, fieldsWithin_of_passes, ← isSome_renderPlain,
      ← isSome_renderTables path fields, ← isSome_renderTableItems path rest hrecords, and_assoc]
    exact isSome_bind_iff fun _ => isSome_bind_iff fun _ => isSome_bind_some

end

/-- **A document can be written in TOML exactly when its numbers fit.** -/
theorem isSome_render? (d : Document) : (render? d).isSome ↔ d.CountsWithin integerLimit := by
  cases d with
  | text value => exact isSome_bind_some.trans (isSome_renderValue _)
  | count value => exact isSome_bind_some.trans (isSome_renderValue _)
  | list items => exact isSome_bind_some.trans (isSome_renderValue _)
  | record fields =>
    rw [render?, CountsWithin, fieldsWithin_of_passes, ← isSome_renderPlain,
      ← isSome_renderTables [] fields]
    exact isSome_bind_iff fun _ => isSome_bind_some

/-! ### Texts as characters -/

/-- The characters of a document in TOML. -/
def renderChars? : Document → Option (List Char)
  | .record fields => do
    let plain ← renderPlain fields
    let tables ← renderTables [] fields
    return if plain.isEmpty then tables.drop 1 else plain ++ tables
  | d => renderValue d

theorem render?_eq (d : Document) : render? d = (renderChars? d).map String.ofList := by
  cases d with
  | record fields =>
    rw [render?, renderChars?]
    cases renderPlain fields with
    | none => rfl
    | some plain =>
      cases renderTables [] fields with
      | none => rfl
      | some tables => rfl
  | text value => rfl
  | count value =>
    show (renderValue (.count value) >>= fun chars => some (String.ofList chars)) =
      (renderValue (.count value)).map String.ofList
    cases renderValue (.count value) with
    | none => rfl
    | some chars => rfl
  | list items =>
    show (renderValue (.list items) >>= fun chars => some (String.ofList chars)) =
      (renderValue (.list items)).map String.ofList
    cases renderValue (.list items) with
    | none => rfl
    | some chars => rfl

/-- The document that characters hold. -/
def decodeChars (schema : Schema) (chars : List Char) : Except Fault Document := do
  fit schema (← parse chars)

theorem decode_ofList (schema : Schema) (chars : List Char) :
    decode schema (String.ofList chars) = decodeChars schema chars := by
  rw [decode, String.toList_ofList]
  rfl

end Toml

namespace Yaml

/-- The characters of a document in YAML. -/
def renderChars : Document → List Char
  | .record (field :: rest) => renderFields 0 (field :: rest)
  | .list (item :: rest) => renderItems 0 (item :: rest)
  | d => renderEntry 0 d

theorem render_eq (d : Document) : render d = String.ofList (renderChars d) := by
  match d with
  | .record (field :: rest) => rfl
  | .record [] => rfl
  | .list (item :: rest) => rfl
  | .list [] => rfl
  | .text value => rfl
  | .count value => rfl

/-- The document that characters hold. -/
def decodeChars (schema : Schema) (chars : List Char) : Except Fault Document := do
  let source ← Source.parse chars
  match source.root with
  | none => Source.fitNothing schema
  | some root => return (← source.fit schema root source.aliasBudget).1

theorem decode_ofList (schema : Schema) (chars : List Char) :
    decode schema (String.ofList chars) = decodeChars schema chars := by
  rw [decode, String.toList_ofList]
  rfl

end Yaml

namespace FileFormat

/-- The formats differ only in the numbers that they hold. -/
theorem exists_render_eq_ok {format : FileFormat} {d : Document} :
    (∃ text, format.render d = .ok text) ↔
      (format = .toml → d.CountsWithin Toml.integerLimit) := by
  cases format with
  | yaml => simp [render]
  | toml =>
    rw [← Toml.isSome_render?, Option.isSome_iff_exists]
    cases hrender : Toml.render? d with
    | none => simp [render, hrender]
    | some text => simp [render, hrender]

/-- **A value without numbers can be written in every format.** -/
theorem exists_encode_eq_ok {α : Type} [OnDisk α] [OnDisk.Textual α] (format : FileFormat)
    (value : α) : ∃ text, format.encode value = .ok text :=
  exists_render_eq_ok.mpr fun _ => OnDisk.Textual.countsWithin _ value

/-- A format reads a document back from the text that it writes for it, when it is told the shape of
the document. -/
def ReadsBack (format : FileFormat) (schema : Schema) (d : Document) : Prop :=
  ∀ text, format.render d = .ok text → format.parse schema text = .ok d

/-- A format reads the text that it writes for a document as another document, when it is told a
shape. -/
def ReadsAs (format : FileFormat) (schema : Schema) (d d' : Document) : Prop :=
  ∀ text, format.render d = .ok text → format.parse schema text = .ok d'

/-- The characters that a format writes for a document. -/
def renderChars? : FileFormat → Document → Option (List Char)
  | .toml, d => Toml.renderChars? d
  | .yaml, d => some (Yaml.renderChars d)

/-- The document that a format reads from characters. -/
def parseChars? (schema : Schema) : FileFormat → List Char → Option Document
  | .toml, chars => (Toml.decodeChars schema chars).toOption
  | .yaml, chars => (Yaml.decodeChars schema chars).toOption

theorem render_eq (format : FileFormat) (d : Document) :
    format.render d =
      (format.renderChars? d).elim (.error (.unwritable format)) fun chars =>
        .ok (String.ofList chars) := by
  cases format with
  | yaml => rw [render, Yaml.render_eq, renderChars?, Option.elim_some]
  | toml =>
    rw [render, Toml.render?_eq, renderChars?]
    cases Toml.renderChars? d with
    | none => rfl
    | some chars => rfl

theorem parse_ofList (format : FileFormat) (schema : Schema) (chars : List Char) :
    format.parse schema (String.ofList chars) =
      (parseChars? schema format chars).elim (.error (.malformed format)) .ok := by
  rw [parse.eq_def]
  cases format with
  | toml =>
    simp only [Toml.decode_ofList, parseChars?]
    cases (Toml.decodeChars schema chars).toOption <;> rfl
  | yaml =>
    simp only [Yaml.decode_ofList, parseChars?]
    cases (Yaml.decodeChars schema chars).toOption <;> rfl

theorem parse_ofList_eq_ok {format : FileFormat} {schema : Schema} {chars : List Char}
    {d : Document} : format.parse schema (String.ofList chars) = .ok d ↔
      parseChars? schema format chars = some d := by
  rw [parse_ofList]
  cases parseChars? schema format chars with
  | none => simp
  | some found => simp

/-- How a text is read can be told from its characters. -/
theorem readsAs_iff {format : FileFormat} {schema : Schema} {d d' : Document} :
    format.ReadsAs schema d d' ↔
      ∀ chars ∈ format.renderChars? d, parseChars? schema format chars = some d' := by
  rw [ReadsAs, render_eq]
  cases format.renderChars? d with
  | none => exact ⟨fun _ => nofun, fun _ => nofun⟩
  | some chars =>
    constructor
    · rintro h _ ⟨⟩
      exact parse_ofList_eq_ok.mp (h _ rfl)
    · rintro h _ ⟨⟩
      exact parse_ofList_eq_ok.mpr (h _ rfl)

instance (format : FileFormat) (schema : Schema) (d d' : Document) :
    Decidable (format.ReadsAs schema d d') :=
  decidable_of_iff _ readsAs_iff.symm

instance (format : FileFormat) (schema : Schema) (d : Document) :
    Decidable (format.ReadsBack schema d) :=
  inferInstanceAs (Decidable (format.ReadsAs schema d d))

/-- **What was written is what is read**, as far as the format reads documents back. -/
theorem decode_encode {α : Type} [OnDisk α] [OnDisk.Lawful α] {format : FileFormat} {value : α}
    (hreads : format.ReadsBack (OnDisk.schema α) (toDocument value)) {text : String}
    (h : format.encode value = .ok text) : format.decode α (Utf8.encode text) = .ok value := by
  rw [decode, Utf8.decode_encode]
  refine Except.bind_eq_ok_iff.mpr ⟨text, rfl, ?_⟩
  refine Except.bind_eq_ok_iff.mpr ⟨toDocument value, hreads text h, ?_⟩
  rw [ofDocument?_toDocument]
  rfl

end FileFormat

end Monorepo
