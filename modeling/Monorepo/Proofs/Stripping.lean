import Monorepo.Proofs.Grouping

/-!
# Tiers without their nulls

A tier may hold null under a name that no lower tier has, and then null is what the merged value has
there, until a later tier says something else.  So nulls are met again at any later merge.  They say
nothing even so: it does not matter whether they are taken out before merging or after it.

* `Json.strip` — a value without the fields that are null, at every depth of objects;
* `Json.Same` — two values that differ at most in the order of the fields of objects;
* `Json.field_strip`, `Json.mem_names_strip` — what a stripped object has under each name, and which
  names it has;
* `Json.same_strip_merge` — stripping two values and merging them is merging them and stripping;
* `Json.strip_commutes` — the same for lists of tiers.

The order of fields has to be mentioned.  A name that is null in the lower of two objects keeps its
place there when the upper one sets it, but goes behind all others if it was taken out first.
-/

namespace Monorepo.Json

/-! ### Values without null fields -/

mutual

/-- A value without its null fields and without those of the objects in its fields.  The items of
lists stay as they are. -/
def strip : Json → Json
  | .object fields => .object (stripFields fields)
  | v => v

/-- The fields that are not null, each with its value stripped. -/
def stripFields : List (String × Json) → List (String × Json)
  | [] => []
  | (name, value) :: rest =>
    if value = .null then stripFields rest else (name, strip value) :: stripFields rest

end

theorem stripFields_eq (fields : List (String × Json)) :
    stripFields fields = (fields.filter fun f => f.2 ≠ .null).map fun f => (f.1, f.2.strip) := by
  induction fields with
  | nil => rfl
  | cons f rest ih =>
    rw [stripFields, ih, List.filter_cons]
    by_cases hnull : f.2 = .null <;> simp [hnull]

theorem strip_of_not_isObject {v : Json} (h : ¬ v.IsObject) : v.strip = v := by
  cases v with
  | object fields => exact absurd ⟨fields, rfl⟩ h
  | null | bool | integer | decimal | text | list => rfl

theorem isObject_strip {v : Json} : v.strip.IsObject ↔ v.IsObject := by
  cases v with
  | object fields => exact ⟨fun _ => ⟨fields, rfl⟩, fun _ => ⟨stripFields fields, rfl⟩⟩
  | null | bool | integer | decimal | text | list => exact Iff.rfl

theorem nodup_stripFields {fields : List (String × Json)} (h : (fields.map Prod.fst).Nodup) :
    ((stripFields fields).map Prod.fst).Nodup := by
  rw [stripFields_eq, List.map_map]
  exact h.sublist (List.filter_sublist.map Prod.fst)

/-- The names that are left are those that stand for something. -/
theorem mem_names_strip {fields : List (String × Json)} (h : (Json.object fields).WellFormed)
    {name : String} :
    name ∈ (stripFields fields).map Prod.fst ↔ (object fields).field name ≠ .null := by
  rw [stripFields_eq, List.map_map, List.mem_map]
  constructor
  · intro hmem
    obtain ⟨f, hf, rfl⟩ := hmem
    obtain ⟨hf, hvalue⟩ := List.mem_filter.mp hf
    have hfield : (object fields).field f.1 = f.2 := field_eq_of_mem h.names hf
    simpa [hfield] using hvalue
  · intro hvalue
    have hmem := (field_eq_null_or_mem fields name).resolve_left hvalue
    exact ⟨_, List.mem_filter.mpr ⟨hmem, by simpa using hvalue⟩, rfl⟩

/-- **Stripping goes on under every name.** -/
theorem field_strip {v : Json} (h : v.WellFormed) (name : String) :
    v.strip.field name = (v.field name).strip := by
  by_cases hobject : v.IsObject
  · obtain ⟨fields, rfl⟩ := hobject
    by_cases hnull : (object fields).field name = .null
    · have habsent : name ∉ (stripFields fields).map Prod.fst :=
        fun hmem => (mem_names_strip h).mp hmem hnull
      rw [hnull]
      refine (field_eq_null_or_mem (stripFields fields) name).resolve_right fun hmem => ?_
      exact habsent (List.mem_map_of_mem hmem)
    · have hmem := (field_eq_null_or_mem fields name).resolve_left hnull
      have hkept : (name, ((object fields).field name).strip) ∈ stripFields fields := by
        rw [stripFields_eq, List.mem_map]
        exact ⟨_, List.mem_filter.mpr ⟨hmem, by simpa using hnull⟩, rfl⟩
      exact field_eq_of_mem (nodup_stripFields h.names) hkept
  · rw [strip_of_not_isObject hobject, field_of_not_isObject hobject]
    rfl

theorem WellFormed.strip {v : Json} (h : v.WellFormed) : v.strip.WellFormed := by
  induction h using byFields with
  | null => exact .null
  | plain v h hplain => rwa [strip_of_not_isObject hplain.2]
  | object fields h ih =>
    have hnames := nodup_stripFields h.names
    refine .object hnames fun f hf => ?_
    have hfield : f.2 = ((Json.object fields).field f.1).strip := by
      rw [← field_strip h]
      exact (field_eq_of_mem hnames hf).symm
    rw [hfield]
    exact ih f.1

/-! ### The order of fields -/

/-- Two values that differ at most in the order of the fields of objects. -/
inductive Same : Json → Json → Prop
  | refl (v : Json) : Same v v
  /-- Objects of the same names, with the same values under each. -/
  | object {fields others : List (String × Json)} :
      (fields.map Prod.fst).Perm (others.map Prod.fst) →
      (∀ name, Same ((Json.object fields).field name) ((Json.object others).field name)) →
      Same (.object fields) (.object others)

namespace Same

theorem trans {u v w : Json} (huv : Same u v) (hvw : Same v w) : Same u w := by
  induction huv generalizing w with
  | refl v => exact hvw
  | object hnames hfields ih =>
    cases hvw with
    | refl => exact .object hnames hfields
    | object hnames' hfields' =>
      exact .object (hnames.trans hnames') fun name => ih name (hfields' name)

instance : Trans Same Same Same :=
  ⟨trans⟩

/-- What is put over a value does not see the order of its fields. -/
theorem merge_left {u v w : Json} (huv : Same u v) (hw : w.WellFormed) :
    Same (merge u w) (merge v w) := by
  induction hw using WellFormed.byFields generalizing u v with
  | null => rwa [merge_null, merge_null]
  | plain w hw hplain =>
    rw [merge_of_isPlain hplain, merge_of_isPlain hplain]
    exact .refl w
  | object upper hupper ih =>
    cases huv with
    | refl => exact .refl _
    | @object fields others hnames hfields =>
      have hsection : (Json.object upper).IsSection := .inr ⟨upper, rfl⟩
      refine .object ?_ fun name => ?_
      · rw [map_fst_mergeFields hupper.names, map_fst_mergeFields hupper.names]
        have hfilter : (upper.map Prod.fst).filter (fun name => name ∉ fields.map Prod.fst) =
            (upper.map Prod.fst).filter fun name => name ∉ others.map Prod.fst := by
          simp only [hnames.mem_iff]
        rw [hfilter]
        exact hnames.append_right _
      · have hleft := field_merge (v := .object fields) hsection hupper name
        have hright := field_merge (v := .object others) hsection hupper name
        have hmerged := ih name (hfields name)
        rwa [← hleft, ← hright] at hmerged

end Same

/-! ### Stripping and merging -/

theorem merge_eq_null {v w : Json} : merge v w = .null ↔ v = .null ∧ w = .null := by
  by_cases hw : w = .null
  · rw [hw, merge_null]
    simp
  · have hmerged : merge v w ≠ .null := by
      by_cases hobject : w.IsObject
      · obtain ⟨fields, hfields⟩ := hobject.merge (v := v)
        simp [hfields]
      · rwa [merge_of_isPlain ⟨hw, hobject⟩]
    simp [hw, hmerged]

/-- The names that two merged objects have left when they are stripped are those that one of them
has left. -/
theorem perm_names_strip_merge {base upper : List (String × Json)}
    (hbase : (object base).WellFormed) (hupper : (object upper).WellFormed) :
    ((stripFields (mergeFields base upper)).map Prod.fst).Perm
      ((mergeFields (stripFields base) (stripFields upper)).map Prod.fst) := by
  have hmerged : (object (mergeFields base upper)).WellFormed := hbase.merge hupper
  have hstripped : (object (mergeFields (stripFields base) (stripFields upper))).WellFormed :=
    hbase.strip.merge hupper.strip
  rw [List.perm_ext_iff_of_nodup (nodup_stripFields hmerged.names) hstripped.names]
  intro name
  have hfield : (object (mergeFields base upper)).field name =
      merge ((object base).field name) ((object upper).field name) :=
    field_merge (v := .object base) (.inr ⟨upper, rfl⟩) hupper name
  rw [mem_names_strip hmerged, hfield, Ne, merge_eq_null,
    map_fst_mergeFields (nodup_stripFields hupper.names), List.mem_append, List.mem_filter,
    decide_eq_true_eq, mem_names_strip hupper, mem_names_strip hbase]
  by_cases hnull : (object base).field name = .null <;> simp [hnull]

/-- **It does not matter whether nulls are taken out before two values are merged or after.**  The
induction is on the upper value: only where both are objects does merging go on, name by name. -/
theorem same_strip_merge {v w : Json} (hv : v.WellFormed) (hw : w.WellFormed) :
    Same (merge v w).strip (merge v.strip w.strip) := by
  induction hw using WellFormed.byFields generalizing v with
  | null =>
    have hstripped : merge v.strip .null = v.strip := merge_null v.strip
    rw [merge_null, strip_of_not_isObject not_isObject_null, hstripped]
    exact .refl v.strip
  | plain w hw hplain =>
    rw [merge_of_isPlain hplain, strip_of_not_isObject hplain.2, merge_of_isPlain hplain]
    exact .refl w
  | object upper hupper ih =>
    have hobject : (object upper).IsObject := ⟨upper, rfl⟩
    by_cases hvObject : v.IsObject
    · obtain ⟨base, rfl⟩ := hvObject
      refine .object (perm_names_strip_merge hv hupper) fun name => ?_
      have hleft : (merge (object base) (object upper)).strip.field name =
          (merge ((object base).field name) ((object upper).field name)).strip := by
        rw [field_strip (hv.merge hupper), field_merge (.inr ⟨upper, rfl⟩) hupper]
      have hright : (merge (object base).strip (object upper).strip).field name =
          merge ((object base).field name).strip ((object upper).field name).strip := by
        have hsection : (object upper).strip.IsSection := .inr ⟨stripFields upper, rfl⟩
        rw [field_merge hsection hupper.strip, field_strip hv, field_strip hupper]
      have hname := ih name (hv.field name)
      rwa [← hleft, ← hright] at hname
    · have hstripped : ¬ v.strip.IsObject := fun h => hvObject (isObject_strip.mp h)
      rw [merge_of_not_isObject hvObject hobject,
        merge_of_not_isObject hstripped (isObject_strip.mpr hobject)]
      exact .refl _

/-- The same for a list of tiers.  The list grows by its uppermost tier, so that one merge is the
step. -/
theorem same_strip_mergeAll {values : List Json} (hvalues : ∀ v ∈ values, v.WellFormed) :
    Same (mergeAll values).strip (mergeAll (values.map strip)) := by
  induction values using List.reverseRecOn with
  | nil => exact .refl .null
  | append_singleton lower v ih =>
    rw [List.forall_mem_append] at hvalues
    obtain ⟨hlower, hv⟩ := hvalues
    have hv : v.WellFormed := hv v List.mem_cons_self
    calc (mergeAll (lower ++ [v])).strip
        = (merge (mergeAll lower) v).strip := by rw [mergeAll_concat]
      Same _ (merge (mergeAll lower).strip v.strip) := same_strip_merge (.mergeAll hlower) hv
      Same _ (merge (mergeAll (lower.map strip)) v.strip) := (ih hlower).merge_left hv.strip
      _ = mergeAll ((lower ++ [v]).map strip) := by
        rw [List.map_append, List.map_singleton, mergeAll_concat]

/-- **Null means that nothing is said, at every depth.**  Nulls may be taken out of two values before
they are merged or out of the merged value, and out of a list of tiers likewise: what is left is the
same, but for the order of fields. -/
theorem strip_commutes :
    (∀ a b : Json, a.WellFormed → b.WellFormed →
      Same (merge a b).strip (merge a.strip b.strip)) ∧
    ∀ values : List Json, (∀ v ∈ values, v.WellFormed) →
      Same (mergeAll values).strip (mergeAll (values.map strip)) :=
  ⟨fun _ _ ha hb => same_strip_merge ha hb, fun _ hvalues => same_strip_mergeAll hvalues⟩

/-- A null that is met at two depths: the lowest tier has it in the place of the object that comes
next, and this has it in the place of a number. -/
theorem strip_commutes_null_in_null :
    let a : Json := .object [("depth", .null), ("mode", .text "single")]
    let b : Json := .object [("depth", .object [("limit", .null)])]
    let c : Json := .object [("depth", .object [("limit", .integer 3)])]
    a.WellFormed ∧ b.WellFormed ∧ Same (merge a b).strip (merge a.strip b.strip) ∧
      (∀ v ∈ [a, b, c], v.WellFormed) ∧
      Same (mergeAll [a, b, c]).strip (mergeAll [a.strip, b.strip, c.strip]) := by
  intro a b c
  have ha : a.WellFormed := .object (by decide) (by
    simp only [List.forall_mem_cons]
    exact ⟨.null, .text, nofun⟩)
  have hb : b.WellFormed := wellFormed_singleton (wellFormed_singleton .null)
  have hc : c.WellFormed := wellFormed_singleton (wellFormed_singleton .integer)
  have hvalues : ∀ v ∈ [a, b, c], v.WellFormed := by
    simp only [List.forall_mem_cons]
    exact ⟨ha, hb, hc, nofun⟩
  obtain ⟨htwo, hall⟩ := strip_commutes
  exact ⟨ha, hb, htwo a b ha hb, hvalues, hall [a, b, c] hvalues⟩

/-- The two sides may have their fields in different orders: the lower tier keeps a place for what
it says nothing about. -/
example :
    let a : Json := .object [("depth", .null), ("mode", .text "single")]
    let b : Json := .object [("depth", .integer 3)]
    (merge a b).strip = .object [("depth", .integer 3), ("mode", .text "single")] ∧
      merge a.strip b.strip = .object [("mode", .text "single"), ("depth", .integer 3)] := by
  decide

end Monorepo.Json
