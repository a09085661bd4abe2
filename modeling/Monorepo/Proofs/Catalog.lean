import Mathlib.Data.String.Basic
import Monorepo.Catalog

/-!
# Laws of catalogs

A catalog is known by its look-ups, and insertion is known by what it does to them:

* `find?_insert` — the new value under its id, the former values under all others;
* `insert_comm`, `insertAll_comm` — insertions under different ids may change places;
* `find?_insertAll_eq_none`, `find?_insertAll_of_notMem` — the ids that a list of values takes, and
  the look-ups that it leaves alone;
* `Holds` — a property of every fragment, kept by insertion of fragments that have it;
* `mapFragments` — the catalog with every fragment changed, under the same ids;
* `Lists` — which entries a catalog has, in whatever order they came in; `Lists.insertAll` says what
  new values add to them.
-/

namespace Monorepo.Catalog

variable {α β : Type}

/-! ### Insertion of one value -/

theorem lookup_insertEntry (id i : String) (value : Registered α)
    (entries : List (String × Registered α)) :
    (insertEntry id value entries).lookup i =
      if i = id then some value else entries.lookup i := by
  induction entries with
  | nil => by_cases hi : i = id <;> simp [insertEntry, hi]
  | cons entry rest ih =>
    obtain ⟨j, v⟩ := entry
    by_cases hi : i = id
    · grind [insertEntry]
    · grind [insertEntry]

/-- **A catalog maps an id to the value that was put there last.** -/
theorem find?_insert (c : Catalog α) (id i : String) (value : Registered α) :
    (c.insert id value).find? i = if i = id then some value else c.find? i :=
  lookup_insertEntry id i value c.entries

/-- Where the two ids stand to the id at the head decides which insertion goes on behind it. -/
theorem insertEntry_comm {id id' : String} (hne : id ≠ id') (value value' : Registered α)
    (entries : List (String × Registered α)) :
    insertEntry id' value' (insertEntry id value entries) =
      insertEntry id value (insertEntry id' value' entries) := by
  induction entries with
  | nil =>
    rcases lt_or_gt_of_ne hne with hlt | hgt
    · grind [insertEntry]
    · grind [insertEntry]
  | cons entry rest ih =>
    obtain ⟨i, v⟩ := entry
    rcases lt_trichotomy id i with hid | hid | hid <;>
      rcases lt_trichotomy id' i with hid' | hid' | hid' <;>
        grind [insertEntry]

theorem insert_comm (c : Catalog α) {id id' : String} (hne : id ≠ id')
    (value value' : Registered α) :
    (c.insert id value).insert id' value' = (c.insert id' value').insert id value := by
  rw [insert, insert, insert, insert, insertEntry_comm hne]

theorem mem_insertEntry {id : String} {value : Registered α} {e : String × Registered α}
    {entries : List (String × Registered α)} (he : e ∈ insertEntry id value entries) :
    e = (id, value) ∨ e ∈ entries := by
  induction entries with
  | nil => simpa [insertEntry] using he
  | cons entry rest ih =>
    rw [insertEntry] at he
    split_ifs at he with hlt heq
    · simpa using he
    · rcases List.mem_cons.mp he with rfl | he
      · exact Or.inl rfl
      · exact Or.inr (List.mem_cons_of_mem entry he)
    · rcases List.mem_cons.mp he with rfl | he
      · exact Or.inr List.mem_cons_self
      · exact (ih he).imp_right (List.mem_cons_of_mem entry)

/-! ### Insertion of a list of values -/

variable (idOf : α → String) (origin : Path)

theorem find?_insertAll_of_notMem {i : String} {values : List α} (c : Catalog α)
    (hi : i ∉ values.map idOf) :
    (c.insertAll idOf origin values).find? i = c.find? i := by
  induction values generalizing c with
  | nil => rfl
  | cons v rest ih =>
    rw [List.map_cons, List.mem_cons, not_or] at hi
    have hrest := ih (c.insert (idOf v) ⟨v, origin⟩) hi.2
    rw [find?_insert, if_neg hi.1] at hrest
    exact hrest

theorem find?_insertAll_eq_none {i : String} {values : List α} (c : Catalog α) :
    (c.insertAll idOf origin values).find? i = none ↔
      i ∉ values.map idOf ∧ c.find? i = none := by
  induction values generalizing c with
  | nil => simp [insertAll]
  | cons v rest ih =>
    have hrest := ih (c.insert (idOf v) ⟨v, origin⟩)
    rw [find?_insert] at hrest
    show (insertAll idOf origin rest (c.insert (idOf v) ⟨v, origin⟩)).find? i = none ↔ _
    rw [hrest, List.map_cons, List.mem_cons, not_or]
    by_cases hi : i = idOf v
    · simp [hi]
    · simp [hi]

theorem insertAll_insert (c : Catalog α) {id : String} {values : List α} (value : Registered α)
    (hid : id ∉ values.map idOf) :
    (c.insert id value).insertAll idOf origin values =
      (c.insertAll idOf origin values).insert id value := by
  induction values generalizing c with
  | nil => rfl
  | cons v rest ih =>
    rw [List.map_cons, List.mem_cons, not_or] at hid
    calc (c.insert id value).insertAll idOf origin (v :: rest)
        = ((c.insert id value).insert (idOf v) ⟨v, origin⟩).insertAll idOf origin rest := rfl
      _ = ((c.insert (idOf v) ⟨v, origin⟩).insert id value).insertAll idOf origin rest := by
          rw [insert_comm c hid.1]
      _ = ((c.insert (idOf v) ⟨v, origin⟩).insertAll idOf origin rest).insert id value :=
          ih (c.insert (idOf v) ⟨v, origin⟩) hid.2
      _ = (c.insertAll idOf origin (v :: rest)).insert id value := rfl

/-- **Lists of values without a common id may be put in in either order.** -/
theorem insertAll_comm (origin' : Path) (c : Catalog α) {values values' : List α}
    (h : (values.map idOf).Disjoint (values'.map idOf)) :
    (c.insertAll idOf origin values).insertAll idOf origin' values' =
      (c.insertAll idOf origin' values').insertAll idOf origin values := by
  induction values generalizing c with
  | nil => rfl
  | cons v rest ih =>
    rw [List.map_cons, List.disjoint_cons_left] at h
    calc (c.insertAll idOf origin (v :: rest)).insertAll idOf origin' values'
        = ((c.insert (idOf v) ⟨v, origin⟩).insertAll idOf origin rest).insertAll
            idOf origin' values' := rfl
      _ = ((c.insert (idOf v) ⟨v, origin⟩).insertAll idOf origin' values').insertAll
            idOf origin rest := ih (c.insert (idOf v) ⟨v, origin⟩) h.2
      _ = ((c.insertAll idOf origin' values').insert (idOf v) ⟨v, origin⟩).insertAll
            idOf origin rest := by rw [insertAll_insert idOf origin' c _ h.1]
      _ = (c.insertAll idOf origin' values').insertAll idOf origin (v :: rest) := rfl

/-! ### Properties of all fragments -/

/-- Every fragment has the property. -/
def Holds (P : α → Prop) (c : Catalog α) : Prop :=
  ∀ e ∈ c.entries, P e.2.fragment

theorem Holds.empty (P : α → Prop) : Holds P {} := by
  intro e he
  cases he

theorem Holds.fragment? {P : α → Prop} {c : Catalog α} (h : c.Holds P) {id : String} {v : α}
    (hv : c.fragment? id = some v) : P v := by
  obtain ⟨r, hr, rfl⟩ := Option.map_eq_some_iff.mp hv
  obtain ⟨before, after, hentries, -⟩ := List.lookup_eq_some_iff.mp hr
  exact h (id, r) (by simp [hentries])

theorem Holds.insertAll {P : α → Prop} {c : Catalog α} (h : c.Holds P) {values : List α}
    (hvalues : ∀ v ∈ values, P v) : (c.insertAll idOf origin values).Holds P := by
  induction values generalizing c with
  | nil => exact h
  | cons v rest ih =>
    have hv : (c.insert (idOf v) ⟨v, origin⟩).Holds P := by
      intro e he
      rcases mem_insertEntry he with rfl | he
      · exact hvalues v List.mem_cons_self
      · exact h e he
    exact ih hv fun u hu => hvalues u (List.mem_cons_of_mem v hu)

/-! ### Changing all fragments -/

/-- The catalog with every fragment changed, of the same origin. -/
def mapFragments (f : α → β) (c : Catalog α) : Catalog β :=
  ⟨c.entries.map fun e => (e.1, ⟨f e.2.fragment, e.2.origin⟩)⟩

theorem find?_mapFragments (f : α → β) (c : Catalog α) (id : String) :
    (c.mapFragments f).find? id = (c.find? id).map fun r => ⟨f r.fragment, r.origin⟩ := by
  obtain ⟨entries⟩ := c
  simp only [find?, mapFragments]
  induction entries with
  | nil => rfl
  | cons entry rest ih =>
    rw [List.map_cons, List.lookup_cons, List.lookup_cons, ih]
    cases id == entry.1 with
    | true => rfl
    | false => rfl

theorem fragment?_mapFragments (f : α → β) (c : Catalog α) (id : String) :
    (c.mapFragments f).fragment? id = (c.fragment? id).map f := by
  rw [Catalog.fragment?, Catalog.fragment?, find?_mapFragments, Option.map_map, Option.map_map]
  rfl

theorem Holds.mapFragments {P : α → Prop} {Q : β → Prop} {f : α → β} {c : Catalog α}
    (h : c.Holds P) (hf : ∀ v, P v → Q (f v)) : (c.mapFragments f).Holds Q := by
  intro e he
  obtain ⟨e', he', rfl⟩ := List.mem_map.mp he
  exact hf e'.2.fragment (h e' he')

/-! ### Which entries a catalog has -/

/-- The entries of values, each under its own id and all of one origin. -/
def entriesOf (values : List α) : List (String × Registered α) :=
  values.map fun v => (idOf v, ⟨v, origin⟩)

theorem map_fst_entriesOf (values : List α) :
    (entriesOf idOf origin values).map Prod.fst = values.map idOf := by
  rw [entriesOf, List.map_map]
  rfl

/-- A catalog has exactly these entries, in ascending order of ids, and so no two under one id. -/
structure Lists (c : Catalog α) (expected : List (String × Registered α)) : Prop where
  entries : c.entries.Perm expected
  ascending : c.ids.Pairwise (· < ·)

theorem perm_insertEntry {id : String} (value : Registered α)
    {entries : List (String × Registered α)} (hid : id ∉ entries.map Prod.fst) :
    (insertEntry id value entries).Perm ((id, value) :: entries) := by
  induction entries with
  | nil => exact .refl _
  | cons entry rest ih =>
    rw [List.map_cons, List.mem_cons, not_or] at hid
    rw [insertEntry]
    split_ifs with hlt heq
    · exact .refl _
    · exact absurd heq hid.1
    · exact ((ih hid.2).cons entry).trans (.swap (id, value) entry rest)

theorem ascending_insertEntry (id : String) (value : Registered α)
    {entries : List (String × Registered α)} (h : (entries.map Prod.fst).Pairwise (· < ·)) :
    ((insertEntry id value entries).map Prod.fst).Pairwise (· < ·) := by
  induction entries with
  | nil => exact List.pairwise_singleton _ _
  | cons entry rest ih =>
    obtain ⟨i, v⟩ := entry
    have htail := ih (List.pairwise_cons.mp h).2
    rw [insertEntry]
    split_ifs with hlt heq
    · refine List.pairwise_cons.mpr ⟨fun j hj => ?_, h⟩
      rcases List.mem_cons.mp hj with rfl | hj
      · exact hlt
      · exact hlt.trans ((List.pairwise_cons.mp h).1 j hj)
    · rw [heq]
      exact h
    · refine List.pairwise_cons.mpr ⟨fun j hj => ?_, htail⟩
      obtain ⟨e, he, rfl⟩ := List.mem_map.mp hj
      rcases mem_insertEntry he with rfl | he
      · exact lt_of_le_of_ne (not_lt.mp hlt) (Ne.symm heq)
      · exact (List.pairwise_cons.mp h).1 e.1 (List.mem_map_of_mem he)

theorem Lists.empty : (Catalog.mk (α := α) []).Lists [] :=
  ⟨.refl _, .nil⟩

theorem Lists.perm {c : Catalog α} {expected expected' : List (String × Registered α)}
    (h : c.Lists expected) (hperm : expected.Perm expected') : c.Lists expected' :=
  ⟨h.entries.trans hperm, h.ascending⟩

theorem Lists.size {c : Catalog α} {expected : List (String × Registered α)}
    (h : c.Lists expected) : c.size = expected.length :=
  h.entries.length_eq

theorem contains_eq_true {c : Catalog α} {id : String} : c.contains id = true ↔ id ∈ c.ids := by
  rw [Catalog.contains, find?, List.lookup_isSome_iff, ids, List.mem_map]
  refine exists_congr fun e => and_congr_right fun _ => ?_
  rw [beq_iff_eq, eq_comm]

theorem Lists.contains {c : Catalog α} {expected : List (String × Registered α)}
    (h : c.Lists expected) {id : String} :
    c.contains id = true ↔ id ∈ expected.map Prod.fst := by
  rw [contains_eq_true, ids, (h.entries.map Prod.fst).mem_iff]

/-- What is found under an id is what is listed there. -/
theorem Lists.find?_eq_some {c : Catalog α} {expected : List (String × Registered α)}
    (h : c.Lists expected) {id : String} {value : Registered α} :
    c.find? id = some value ↔ (id, value) ∈ expected := by
  rw [← h.entries.mem_iff, find?, List.lookup_eq_some_iff]
  constructor
  · intro hfound
    obtain ⟨before, after, hentries, -⟩ := hfound
    rw [hentries]
    exact List.mem_append_right before List.mem_cons_self
  · intro hmem
    obtain ⟨before, after, hentries⟩ := List.append_of_mem hmem
    refine ⟨before, after, hentries, fun e he => ?_⟩
    have hascending := h.ascending
    rw [ids, hentries, List.map_append, List.pairwise_append] at hascending
    have hlt : e.1 < id := hascending.2.2 e.1 (List.mem_map_of_mem he) id List.mem_cons_self
    simpa using hlt.ne'

theorem Lists.notMem {c : Catalog α} {expected : List (String × Registered α)}
    (h : c.Lists expected) {id : String} (hnot : c.contains id = false) :
    id ∉ expected.map Prod.fst := by
  rw [← h.contains, hnot]
  exact Bool.false_ne_true

theorem Lists.insert {c : Catalog α} {expected : List (String × Registered α)}
    (h : c.Lists expected) {id : String} (value : Registered α)
    (hid : id ∉ expected.map Prod.fst) : (c.insert id value).Lists ((id, value) :: expected) := by
  have hnew : id ∉ c.entries.map Prod.fst := by
    rw [(h.entries.map Prod.fst).mem_iff]
    exact hid
  exact ⟨(perm_insertEntry value hnew).trans (h.entries.cons _),
    ascending_insertEntry id value h.ascending⟩

/-- **Values of new ids add their entries, and nothing else.** -/
theorem Lists.insertAll {c : Catalog α} {expected : List (String × Registered α)}
    (h : c.Lists expected) {values : List α} (hnodup : (values.map idOf).Nodup)
    (hnew : ∀ id ∈ values.map idOf, id ∉ expected.map Prod.fst) :
    (c.insertAll idOf origin values).Lists (expected ++ entriesOf idOf origin values) := by
  induction values generalizing c expected with
  | nil => exact h.perm (by simp [entriesOf])
  | cons v rest ih =>
    rw [List.map_cons, List.nodup_cons] at hnodup
    rw [List.map_cons, List.forall_mem_cons] at hnew
    have hrest : ∀ id ∈ rest.map idOf,
        id ∉ ((idOf v, Registered.mk v origin) :: expected).map Prod.fst := by
      intro id hid hmem
      rcases List.mem_cons.mp hmem with rfl | hmem
      · exact hnodup.1 hid
      · exact hnew.2 id hid hmem
    exact (ih (h.insert ⟨v, origin⟩ hnew.1) hnodup.2 hrest).perm List.perm_middle.symm

/-- What holds of the fragments of a catalog holds of those that it is expected to have. -/
theorem Lists.holds {c : Catalog α} {expected : List (String × Registered α)}
    (h : c.Lists expected) (P : α → Prop) : c.Holds P ↔ ∀ e ∈ expected, P e.2.fragment :=
  forall_congr' fun _ => imp_congr_left h.entries.mem_iff

theorem Lists.mapFragments {c : Catalog α} {expected : List (String × Registered α)}
    (h : c.Lists expected) (f : α → β) :
    (c.mapFragments f).Lists (expected.map fun e => (e.1, ⟨f e.2.fragment, e.2.origin⟩)) := by
  refine ⟨h.entries.map _, ?_⟩
  have hids : (c.mapFragments f).ids = c.ids := by
    rw [ids, ids, Catalog.mapFragments, List.map_map]
    rfl
  rw [hids]
  exact h.ascending

end Monorepo.Catalog
