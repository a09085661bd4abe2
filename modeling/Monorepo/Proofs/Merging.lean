import Monorepo.Json
import Monorepo.Yaml.Document
import Monorepo.Proofs.Check

/-!
# Merging settings values

An object is known by what its names stand for.  A name that is absent stands for nothing, and so
does one that stands for null, which makes null the value of all that is absent:

* `Json.WellFormed` — no name stands twice in an object, at any depth; `Yaml.wellFormed_decodeValue`
  says this of every value that is read from a file;
* `Json.field` — the value of a name, null where it is absent;
* `Json.IsSection` — a value that has fields or could have them: an object or null;
* `Json.field_merge` — the fields of a section merged over a value are the merged fields.
-/

namespace Monorepo

namespace Json

/-! ### Names that stand once -/

/-- No name stands twice in an object, in the value or in what it holds. -/
inductive WellFormed : Json → Prop
  | null : WellFormed .null
  | bool {value : Bool} : WellFormed (.bool value)
  | integer {value : Int} : WellFormed (.integer value)
  | decimal {digits : String} : WellFormed (.decimal digits)
  | text {value : String} : WellFormed (.text value)
  | list {items : List Json} : (∀ v ∈ items, WellFormed v) → WellFormed (.list items)
  | object {fields : List (String × Json)} : (fields.map Prod.fst).Nodup →
      (∀ f ∈ fields, WellFormed f.2) → WellFormed (.object fields)

theorem lookup_setField (name : String) (value : Json) (fields : List (String × Json))
    (other : String) :
    (setField name value fields).lookup other =
      if other = name then some value else fields.lookup other := by
  induction fields with
  | nil =>
    by_cases h : other = name
    · simp [setField, h]
    · simp [setField, List.lookup_cons, beq_false_of_ne h, h]
  | cons f rest ih =>
    obtain ⟨n, v⟩ := f
    rw [setField]
    by_cases hn : n = name
    · subst hn
      rw [if_pos rfl, List.lookup_cons, List.lookup_cons]
      by_cases h : other = n
      · simp [h]
      · simp [beq_false_of_ne h, h]
    · rw [if_neg hn, List.lookup_cons, List.lookup_cons, ih]
      by_cases h : other = n
      · subst h
        simp [hn]
      · simp [beq_false_of_ne h]

/-- The names of the fields stay where they are, and a new one goes behind them. -/
theorem map_fst_setField (name : String) (value : Json) (fields : List (String × Json)) :
    (setField name value fields).map Prod.fst =
      if name ∈ fields.map Prod.fst then fields.map Prod.fst
      else fields.map Prod.fst ++ [name] := by
  induction fields with
  | nil => rfl
  | cons f rest ih =>
    obtain ⟨n, v⟩ := f
    rw [setField]
    by_cases hn : n = name
    · simp [hn]
    · rw [if_neg hn, List.map_cons, ih]
      by_cases hmem : name ∈ rest.map Prod.fst
      · simp [hmem]
      · simp [hmem, Ne.symm hn]

theorem nodup_setField {name : String} {value : Json} {fields : List (String × Json)}
    (h : (fields.map Prod.fst).Nodup) : ((setField name value fields).map Prod.fst).Nodup := by
  rw [map_fst_setField]
  by_cases hmem : name ∈ fields.map Prod.fst
  · rwa [if_pos hmem]
  · rw [if_neg hmem]
    exact List.nodup_append.mpr ⟨h, List.pairwise_singleton _ name, by
      rintro n hn m hm rfl
      exact hmem (List.mem_singleton.mp hm ▸ hn)⟩

theorem mem_setField {name : String} {value : Json} {fields : List (String × Json)}
    {f : String × Json} (h : f ∈ setField name value fields) : f = (name, value) ∨ f ∈ fields := by
  induction fields with
  | nil => exact .inl (List.mem_singleton.mp h)
  | cons g rest ih =>
    obtain ⟨n, v⟩ := g
    rw [setField] at h
    by_cases hn : n = name
    · rw [if_pos hn, List.mem_cons] at h
      exact h.imp (fun he => he.trans (by rw [hn])) (List.mem_cons_of_mem _)
    · rw [if_neg hn, List.mem_cons] at h
      rcases h with rfl | h
      · exact .inr List.mem_cons_self
      · exact (ih h).imp_right (List.mem_cons_of_mem _)

theorem WellFormed.object_setField {name : String} {value : Json} {fields : List (String × Json)}
    (h : WellFormed (.object fields)) (hvalue : value.WellFormed) :
    WellFormed (.object (setField name value fields)) := by
  cases h with
  | object hnames hfields =>
    refine .object (nodup_setField hnames) ?_
    intro f hf
    rcases mem_setField hf with rfl | hf
    · exact hvalue
    · exact hfields f hf

/-- Fields that are set one after the other make an object, whatever their names. -/
theorem wellFormed_foldl_setField {entries fields : List (String × Json)}
    (h : WellFormed (.object fields)) (hentries : ∀ e ∈ entries, e.2.WellFormed) :
    WellFormed (.object (entries.foldl (fun fs f => setField f.1 f.2 fs) fields)) := by
  induction entries generalizing fields with
  | nil => exact h
  | cons e rest ih =>
    obtain ⟨he, hrest⟩ := List.forall_mem_cons.mp hentries
    exact ih (h.object_setField he) hrest

end Json

namespace Yaml

open Json Source

/-! ### Values that are read -/

/-- What is read of each node is read of all of them. -/
theorem forall_mem_of_readAll {α β : Type} {read : α → Nat → Except Fault (β × Nat)} {p : β → Prop}
    (hread : ∀ a steps b left, read a steps = .ok (b, left) → p b) {l : List α} {steps left : Nat}
    {bs : List β} (h : readAll read l steps = .ok (bs, left)) : ∀ b ∈ bs, p b := by
  induction l generalizing steps bs with
  | nil =>
    cases h
    exact nofun
  | cons a rest ih =>
    rw [readAll, Except.bind_eq_ok_iff] at h
    obtain ⟨⟨b, next⟩, hb, h⟩ := h
    obtain ⟨⟨others, last⟩, hothers, h⟩ := Except.bind_eq_ok_iff.mp h
    cases h
    exact List.forall_mem_cons.mpr ⟨hread a steps b next hb, ih hothers⟩

theorem wellFormed_scalarValue {p : Properties} {text : String} {style : Style} {v : Json}
    (h : scalarValue p text style = .ok v) : v.WellFormed := by
  cases v with
  | null => exact .null
  | bool => exact .bool
  | integer => exact .integer
  | decimal => exact .decimal
  | text => exact .text
  | list | object =>
    -- No scalar is a collection.
    unfold scalarValue at h
    grind

/-- A reader that gives well-formed values only. -/
def Reads (read : ValueReader) : Prop :=
  ∀ node steps v left, read node steps = .ok (v, left) → v.WellFormed

theorem reads_readCollection {s : Source} {read : ValueReader} (hread : Reads read) :
    Reads (s.readCollection read) := by
  intro node steps v left h
  match node, h with
  | .alias _, h | .scalar .., h =>
    cases h
  | .sequence _ items, h =>
    obtain ⟨⟨values, next⟩, hvalues, h⟩ := Except.bind_eq_ok_iff.mp h
    cases h
    exact .list (forall_mem_of_readAll hread hvalues)
  | .mapping _ entries, h =>
    obtain ⟨⟨fields, next⟩, hfields, h⟩ := Except.bind_eq_ok_iff.mp h
    cases h
    refine wellFormed_foldl_setField (.object List.nodup_nil nofun) ?_
    refine forall_mem_of_readAll (fun entry steps f left hentry => ?_) hfields
    obtain ⟨⟨name, next⟩, -, hentry⟩ := Except.bind_eq_ok_iff.mp hentry
    obtain ⟨⟨value, last⟩, hvalue, hentry⟩ := Except.bind_eq_ok_iff.mp hentry
    cases hentry
    exact hread _ _ _ _ hvalue

theorem reads_readValue {s : Source} {collection : ValueReader} (h : Reads collection) :
    Reads (s.readValue collection) := by
  intro node steps v left hvalue
  obtain ⟨⟨n, next⟩, -, hvalue⟩ := Except.bind_eq_ok_iff.mp hvalue
  dsimp only at hvalue
  split at hvalue
  · cases hvalue
  · match n, hvalue with
    | .alias _, hvalue =>
      cases hvalue
    | .scalar .., hvalue =>
      obtain ⟨scalar, hscalar, hvalue⟩ := Except.bind_eq_ok_iff.mp hvalue
      cases hvalue
      exact wellFormed_scalarValue hscalar
    | .sequence .., hvalue | .mapping .., hvalue =>
      exact h _ _ _ _ hvalue

theorem reads_value (s : Source) (depth : Nat) : Reads (s.value depth) := by
  induction depth with
  | zero => exact reads_readValue nofun
  | succ depth ih => exact reads_readValue (reads_readCollection ih)

/-- **No name stands twice in what a text holds**, for a later field takes the place of an earlier
one. -/
theorem wellFormed_decodeValue {text : String} {v : Json} (h : decodeValue text = .ok v) :
    v.WellFormed := by
  obtain ⟨source, -, h⟩ := Except.bind_eq_ok_iff.mp h
  cases hroot : source.root with
  | none =>
    rw [hroot] at h
    cases h
    exact .null
  | some root =>
    rw [hroot] at h
    obtain ⟨⟨value, left⟩, hvalue, h⟩ := Except.bind_eq_ok_iff.mp h
    cases h
    exact reads_value source depthLimit root _ _ _ hvalue

end Yaml

namespace Json

/-! ### Fields of merged values -/

/-- The value of a name: null where it is absent, or where the value has no names. -/
def field (v : Json) (name : String) : Json :=
  match v with
  | .object fields => (fields.lookup name).getD .null
  | _ => .null

/-- A value that has fields, or stands for one that is absent. -/
def IsSection (v : Json) : Prop :=
  v = .null ∨ ∃ fields, v = .object fields

theorem merge_null (v : Json) : merge v .null = v := by
  cases v <;> rfl

theorem null_merge (v : Json) : merge .null v = v := by
  cases v <;> rfl

theorem IsSection.merge {v w : Json} (hv : v.IsSection) (hw : w.IsSection) :
    (merge v w).IsSection := by
  obtain rfl | ⟨upper, rfl⟩ := hw
  · rwa [merge_null]
  obtain rfl | ⟨base, rfl⟩ := hv
  · rw [null_merge]
    exact .inr ⟨upper, rfl⟩
  · exact .inr ⟨mergeFields base upper, rfl⟩

/-- What is no section takes the place of what it is put over. -/
theorem merge_of_not_isSection {v w : Json} (hw : ¬ w.IsSection) : merge v w = w := by
  cases w with
  | null => exact absurd (.inl rfl) hw
  | object fields => exact absurd (.inr ⟨fields, rfl⟩) hw
  | bool | integer | decimal | text | list => cases v <;> rfl

theorem WellFormed.field {v : Json} (h : v.WellFormed) (name : String) :
    (v.field name).WellFormed := by
  cases h with
  | @object fields _ hfields =>
    show ((fields.lookup name).getD .null).WellFormed
    cases hlookup : fields.lookup name with
    | none => exact .null
    | some value =>
      obtain ⟨before, after, rfl, -⟩ := List.lookup_eq_some_iff.mp hlookup
      exact hfields (name, value) (List.mem_append_right _ List.mem_cons_self)
  | null | bool | integer | decimal | text | list => exact .null

/-- A field is put over what its name stands for. -/
theorem mergeFields_cons (base : List (String × Json)) (name : String) (value : Json)
    (rest : List (String × Json)) :
    mergeFields base ((name, value) :: rest) =
      mergeFields (setField name (merge ((base.lookup name).getD .null) value) base) rest := by
  rw [mergeFields]
  cases hold : base.lookup name with
  | none => simp only [Option.getD_none, null_merge]
  | some old => rfl

theorem lookup_mergeFields {base upper : List (String × Json)} (h : (upper.map Prod.fst).Nodup)
    (name : String) :
    (mergeFields base upper).lookup name =
      match upper.lookup name with
      | none => base.lookup name
      | some value => some (merge ((base.lookup name).getD .null) value) := by
  induction upper generalizing base with
  | nil => rfl
  | cons f rest ih =>
    obtain ⟨n, v⟩ := f
    rw [List.map_cons, List.nodup_cons] at h
    rw [mergeFields_cons, ih h.2, lookup_setField, List.lookup_cons]
    by_cases hname : name = n
    · subst hname
      have hrest : rest.lookup name = none := by
        rw [List.lookup_eq_none_iff]
        intro f hf
        have hne : name ≠ f.1 := by
          intro hname
          exact h.1 (List.mem_map.mpr ⟨f, hf, hname.symm⟩)
        simpa using hne
      simp [hrest]
    · simp [beq_false_of_ne hname, hname]

/-- **The fields of a section that is merged over a value are the merged fields**, absent ones
included. -/
theorem field_merge {v w : Json} (hw : w.IsSection) (hwell : w.WellFormed) (name : String) :
    (merge v w).field name = merge (v.field name) (w.field name) := by
  obtain rfl | ⟨upper, rfl⟩ := hw
  · rw [merge_null]
    exact (merge_null _).symm
  cases v with
  | object base =>
    cases hwell with
    | object hnames _ =>
      rw [merge, field, lookup_mergeFields hnames, field, field]
      cases upper.lookup name with
      | none => exact (merge_null _).symm
      | some value => rfl
  | null | bool | integer | decimal | text | list =>
    -- What has no fields is null under every name.
    exact (null_merge _).symm

end Json

end Monorepo
