import Mathlib.Data.List.Induction
import Monorepo.Proofs.KeyPaths

/-!
# Tiers merged in groups

Two objects with the same names in the same order are equal if every name stands for the same in
both.  Names and fields of a merged object are those of `Json.map_fst_mergeFields` and
`Json.field_merge`, so equations between merged values are proved name by name:

* `Json.merge_self` — a value changes nothing when it is merged over itself;
* `Json.Divides` — a plain value stands between two objects, so that it matters which of its
  neighbours it meets first;
* `Json.merge_assoc` — but for such a value, it does not matter where merging starts;
* `Json.Grouping`, `Json.OneShape` — tiers put together in any grouping, and tiers of which no two
  disagree on what is an object;
* `Json.merge_laws` — the laws of merging, and what they say of tiers.
-/

namespace Monorepo.Json

/-! ### Objects by name -/

/-- A name stands for nothing, or for what the object has under it. -/
theorem field_eq_null_or_mem (fields : List (String × Json)) (name : String) :
    (object fields).field name = .null ∨ (name, (object fields).field name) ∈ fields := by
  rw [field]
  cases hlookup : fields.lookup name with
  | none => exact .inl rfl
  | some value =>
    obtain ⟨before, after, rfl, -⟩ := List.lookup_eq_some_iff.mp hlookup
    exact .inr (List.mem_append_right before List.mem_cons_self)

theorem field_eq_of_mem {fields : List (String × Json)} (hdistinct : (fields.map Prod.fst).Nodup)
    {f : String × Json} (hf : f ∈ fields) : (object fields).field f.1 = f.2 := by
  induction fields with
  | nil => cases hf
  | cons first rest ih =>
    rw [List.map_cons, List.nodup_cons] at hdistinct
    rw [field, List.lookup_cons]
    rcases List.mem_cons.mp hf with rfl | hrest
    · simp
    · have hne : f.1 ≠ first.1 := by
        intro heq
        exact hdistinct.1 (heq ▸ List.mem_map_of_mem hrest)
      rw [beq_false_of_ne hne]
      exact ih hdistinct.2 hrest

theorem map_field_eq {fields : List (String × Json)} (hdistinct : (fields.map Prod.fst).Nodup) :
    ((fields.map Prod.fst).map fun name => (name, (object fields).field name)) = fields := by
  rw [List.map_map]
  calc fields.map _ = fields.map id :=
        List.map_congr_left fun f hf => congrArg (Prod.mk f.1) (field_eq_of_mem hdistinct hf)
    _ = fields := List.map_id fields

/-- **Objects of the same names are known by what the names stand for.** -/
theorem eq_of_field_eq {fields others : List (String × Json)}
    (hdistinct : (fields.map Prod.fst).Nodup)
    (hnames : others.map Prod.fst = fields.map Prod.fst)
    (hfield : ∀ name, (object others).field name = (object fields).field name) :
    others = fields := by
  calc others = (others.map Prod.fst).map fun name => (name, (object others).field name) :=
        (map_field_eq (hnames ▸ hdistinct)).symm
    _ = (fields.map Prod.fst).map fun name => (name, (object fields).field name) := by
        simp only [hnames, hfield]
    _ = fields := map_field_eq hdistinct

/-- The names of the base stay in front, and the new ones follow in their order. -/
theorem map_fst_mergeFields {base upper : List (String × Json)}
    (h : (upper.map Prod.fst).Nodup) :
    (mergeFields base upper).map Prod.fst =
      base.map Prod.fst ++ (upper.map Prod.fst).filter fun name => name ∉ base.map Prod.fst := by
  induction upper generalizing base with
  | nil => exact (List.append_nil _).symm
  | cons f rest ih =>
    obtain ⟨name, value⟩ := f
    rw [List.map_cons, List.nodup_cons] at h
    rw [mergeFields_cons, ih h.2, map_fst_setField, List.map_cons]
    by_cases hname : name ∈ base.map Prod.fst
    · rw [if_pos hname, List.filter_cons_of_neg (by simpa using hname)]
    · rw [if_neg hname, List.filter_cons_of_pos (by simpa using hname), List.append_assoc,
        List.singleton_append]
      have hfilter : (rest.map Prod.fst).filter (fun n => n ∉ base.map Prod.fst ++ [name]) =
          (rest.map Prod.fst).filter fun n => n ∉ base.map Prod.fst := by
        apply List.filter_congr
        intro other hother
        have hne : other ≠ name := fun heq => h.1 (heq ▸ hother)
        simp [hne]
      rw [hfilter]

theorem nodup_mergeFields {base upper : List (String × Json)}
    (hbase : (base.map Prod.fst).Nodup) (hupper : (upper.map Prod.fst).Nodup) :
    ((mergeFields base upper).map Prod.fst).Nodup := by
  rw [map_fst_mergeFields hupper]
  refine List.nodup_append.mpr ⟨hbase, hupper.filter _, ?_⟩
  rintro name hname other hother rfl
  simpa [hname] using (List.mem_filter.mp hother).2

theorem WellFormed.names {fields : List (String × Json)} (h : (Json.object fields).WellFormed) :
    (fields.map Prod.fst).Nodup := by
  cases h with
  | object hnames _ => exact hnames

/-- Induction over values name by name: of an object, what all of its names stand for comes first,
be they there or not. -/
@[elab_as_elim]
theorem WellFormed.byFields {motive : (v : Json) → v.WellFormed → Prop}
    (null : motive .null .null)
    (plain : ∀ (v : Json) (h : v.WellFormed), v.IsPlain → motive v h)
    (object : ∀ (fields : List (String × Json)) (h : (Json.object fields).WellFormed),
      (∀ name, motive ((Json.object fields).field name) (h.field name)) → motive (.object fields) h)
    {v : Json} (h : v.WellFormed) : motive v h := by
  induction h with
  | null => exact null
  | bool | integer | decimal | text | list => exact plain _ _ ⟨by simp, by simp [IsObject]⟩
  | @object fields hnames hfields ih =>
    refine object fields (.object hnames hfields) fun name => ?_
    rcases field_eq_null_or_mem fields name with hnull | hmem
    · simpa only [hnull] using null
    · exact ih _ hmem

/-- No name stands twice in merged values, if none does in each. -/
theorem WellFormed.merge {v w : Json} (hv : v.WellFormed) (hw : w.WellFormed) :
    (merge v w).WellFormed := by
  induction hw using byFields generalizing v with
  | null => rwa [merge_null]
  | plain w hw hplain => rwa [merge_of_isPlain hplain]
  | object upper hupper ih =>
    cases v with
    | object base =>
      have hnames : ((mergeFields base upper).map Prod.fst).Nodup :=
        nodup_mergeFields hv.names hupper.names
      refine .object hnames fun f hf => ?_
      have hfield : Json.merge ((Json.object base).field f.1) ((Json.object upper).field f.1) =
          f.2 := by
        rw [← field_merge (.inr ⟨upper, rfl⟩) hupper]
        exact field_eq_of_mem hnames hf
      rw [← hfield]
      exact ih f.1 (hv.field f.1)
    | null | bool | integer | decimal | text | list => exact hupper

/-! ### Laws -/

/-- **A value that is merged over itself changes nothing.** -/
theorem merge_self {v : Json} (hv : v.WellFormed) : merge v v = v := by
  induction hv using WellFormed.byFields with
  | null => rfl
  | plain v hv hplain => exact merge_of_isPlain hplain
  | object fields hfields ih =>
    have hmerged : mergeFields fields fields = fields := by
      apply eq_of_field_eq hfields.names
      · rw [map_fst_mergeFields hfields.names]
        simp
      · intro name
        calc (merge (object fields) (object fields)).field name
            = merge ((object fields).field name) ((object fields).field name) :=
              field_merge (.inr ⟨fields, rfl⟩) hfields name
          _ = (object fields).field name := ih name
    exact congrArg object hmerged

/-- At some key path a plain value of `b` stands between objects of `a` and `c`. -/
def Divides (b a c : Json) : Prop :=
  ∃ path, (a.valueAt path).IsObject ∧ (b.valueAt path).IsPlain ∧ (c.valueAt path).IsObject

theorem Divides.of_field {a b c : Json} {name : String}
    (h : (b.field name).Divides (a.field name) (c.field name)) : b.Divides a c := by
  obtain ⟨path, hpath⟩ := h
  exact ⟨name :: path, hpath⟩

/-- What has no fields gives way to an object. -/
theorem merge_of_not_isObject {v w : Json} (hv : ¬ v.IsObject) (hw : w.IsObject) :
    merge v w = w := by
  obtain ⟨upper, rfl⟩ := hw
  cases v with
  | object base => exact absurd ⟨base, rfl⟩ hv
  | null | bool | integer | decimal | text | list => rfl

/-- The names of three merged objects, in whatever order they are merged. -/
theorem map_fst_mergeFields_assoc {a b c : List (String × Json)} (hb : (b.map Prod.fst).Nodup)
    (hc : (c.map Prod.fst).Nodup) :
    (mergeFields (mergeFields a b) c).map Prod.fst =
      (mergeFields a (mergeFields b c)).map Prod.fst := by
  rw [map_fst_mergeFields hc, map_fst_mergeFields hb,
    map_fst_mergeFields (nodup_mergeFields hb hc), map_fst_mergeFields hc, List.filter_append,
    List.filter_filter, List.append_assoc]
  congr 2
  apply List.filter_congr
  intro name _
  by_cases ha : name ∈ a.map Prod.fst <;> simp [ha]

/-- Three objects can be merged in both orders if what they have under each name can. -/
theorem merge_assoc_of_fields {lower middle upper : List (String × Json)}
    (hlower : (object lower).WellFormed) (hmiddle : (object middle).WellFormed)
    (hupper : (object upper).WellFormed)
    (hfield : ∀ name,
      merge (merge ((object lower).field name) ((object middle).field name))
          ((object upper).field name) =
        merge ((object lower).field name)
          (merge ((object middle).field name) ((object upper).field name))) :
    merge (merge (object lower) (object middle)) (object upper) =
      merge (object lower) (merge (object middle) (object upper)) := by
  have hright : (merge (object middle) (object upper)).WellFormed := hmiddle.merge hupper
  apply congrArg object
  apply eq_of_field_eq (hlower.merge hright).names
  · exact map_fst_mergeFields_assoc hmiddle.names hupper.names
  · intro name
    calc (merge (merge (object lower) (object middle)) (object upper)).field name
        = merge ((merge (object lower) (object middle)).field name)
            ((object upper).field name) := field_merge (.inr ⟨upper, rfl⟩) hupper name
      _ = merge (merge ((object lower).field name) ((object middle).field name))
            ((object upper).field name) := by
          rw [field_merge (.inr ⟨middle, rfl⟩) hmiddle]
      _ = merge ((object lower).field name)
            (merge ((object middle).field name) ((object upper).field name)) := hfield name
      _ = merge ((object lower).field name)
            ((merge (object middle) (object upper)).field name) := by
          rw [field_merge (.inr ⟨upper, rfl⟩) hupper]
      _ = (merge (object lower) (merge (object middle) (object upper))).field name :=
          (field_merge (.inr ⟨_, rfl⟩) hright name).symm

/-- **It does not matter where merging starts**, unless the value in the middle divides the others.
The induction is on the uppermost value: where it says nothing, the other two are all there is to
merge. -/
theorem merge_assoc {a b c : Json} (ha : a.WellFormed) (hb : b.WellFormed) (hc : c.WellFormed)
    (h : ¬ b.Divides a c) : merge (merge a b) c = merge a (merge b c) := by
  induction hc using WellFormed.byFields generalizing a b with
  | null => rw [merge_null, merge_null]
  | plain c hc hplain =>
    rw [merge_of_isPlain hplain, merge_of_isPlain hplain, merge_of_isPlain hplain]
  | object upper hupper ih =>
    have hobject : (object upper).IsObject := ⟨upper, rfl⟩
    by_cases hplain : b.IsPlain
    · have haObject : ¬ a.IsObject := fun haObject => h ⟨[], haObject, hplain, hobject⟩
      rw [merge_of_isPlain hplain, merge_of_not_isObject hplain.2 hobject,
        merge_of_not_isObject haObject hobject]
    obtain rfl | hbObject := not_isPlain_iff.mp hplain
    · rw [merge_null, null_merge]
    by_cases haObject : a.IsObject
    · obtain ⟨lower, rfl⟩ := haObject
      obtain ⟨middle, rfl⟩ := hbObject
      apply merge_assoc_of_fields ha hb hupper
      intro name
      exact ih name (ha.field name) (hb.field name) fun hdivides => h hdivides.of_field
    · rw [merge_of_not_isObject haObject hbObject, merge_of_not_isObject haObject hobject.merge]

/-- It matters where merging starts if a number stands between two objects: put over the lower one
first, it leaves nothing of it. -/
example :
    let a : Json := .object [("loader", .object [("parallelism", .integer 4)])]
    let b : Json := .object [("loader", .integer 1)]
    let c : Json := .object [("loader", .object [("threads", .integer 2)])]
    merge (merge a b) c ≠ merge a (merge b c) := by
  decide

/-! ### Groupings -/

/-- Tiers put together two by two, the lower one first. -/
inductive Grouping where
  | tier (v : Json)
  | pair (lower upper : Grouping)

namespace Grouping

/-- The tiers from the lowest to the uppermost. -/
def tiers : Grouping → List Json
  | tier v => [v]
  | pair lower upper => lower.tiers ++ upper.tiers

/-- What the grouping comes to when the two parts of each pair are merged first. -/
def merged : Grouping → Json
  | tier v => v
  | pair lower upper => merge lower.merged upper.merged

end Grouping

/-- No two values disagree on what is an object: where one has an object, no other has a plain
value. -/
def OneShape (values : List Json) : Prop :=
  ∀ v ∈ values, ∀ w ∈ values, ∀ path, (v.valueAt path).IsObject → ¬ (w.valueAt path).IsPlain

theorem OneShape.mono {values others : List Json} (h : OneShape values) (hsub : others ⊆ values) :
    OneShape others :=
  fun v hv w hw => h v (hsub hv) w (hsub hw)

theorem mergeAll_concat (values : List Json) (v : Json) :
    mergeAll (values ++ [v]) = merge (mergeAll values) v :=
  List.foldl_append

theorem WellFormed.mergeAll {values : List Json} (h : ∀ v ∈ values, v.WellFormed) :
    (mergeAll values).WellFormed := by
  induction values using List.reverseRecOn with
  | nil => exact .null
  | append_singleton lower v ih =>
    rw [List.forall_mem_append] at h
    rw [mergeAll_concat]
    exact (ih h.1).merge (h.2 v List.mem_cons_self)

/-- A plain value in a merged list comes from one of the values. -/
theorem exists_isPlain_of_mergeAll {values : List Json} (hvalues : ∀ v ∈ values, v.WellFormed)
    {path : List String} (h : ((mergeAll values).valueAt path).IsPlain) :
    ∃ v ∈ values, (v.valueAt path).IsPlain := by
  obtain ⟨before, v, after, rfl, hv, -⟩ := (valueAt_mergeAll_eq_iff hvalues h path).mp rfl
  exact ⟨v, List.mem_append_right before List.mem_cons_self, hv ▸ h⟩

/-- **Tiers of one shape may be merged in two parts.**  The upper part grows by its last tier: no
plain value of the tiers in front divides it from the lower part. -/
theorem mergeAll_append {lower upper : List Json} (hwell : ∀ v ∈ lower ++ upper, v.WellFormed)
    (hshape : OneShape (lower ++ upper)) :
    mergeAll (lower ++ upper) = merge (mergeAll lower) (mergeAll upper) := by
  induction upper using List.reverseRecOn with
  | nil =>
    rw [List.append_nil]
    exact (merge_null _).symm
  | append_singleton upper v ih =>
    rw [← List.append_assoc] at hwell hshape ⊢
    have hfront : ∀ w ∈ lower ++ upper, w.WellFormed :=
      fun w hw => hwell w (List.mem_append_left [v] hw)
    have hupper : ∀ w ∈ upper, w.WellFormed :=
      fun w hw => hfront w (List.mem_append_right lower hw)
    have hdivides : ¬ (mergeAll upper).Divides (mergeAll lower) v := by
      rintro ⟨path, -, hplain, hobject⟩
      obtain ⟨w, hw, hwplain⟩ := exists_isPlain_of_mergeAll hupper hplain
      exact hshape v (List.mem_append_right _ List.mem_cons_self) w
        (List.mem_append_left [v] (List.mem_append_right lower hw)) path hobject hwplain
    calc mergeAll (lower ++ upper ++ [v])
        = merge (mergeAll (lower ++ upper)) v := mergeAll_concat _ v
      _ = merge (merge (mergeAll lower) (mergeAll upper)) v := by
          rw [ih hfront (hshape.mono (List.subset_append_left _ [v]))]
      _ = merge (mergeAll lower) (merge (mergeAll upper) v) :=
          merge_assoc (.mergeAll fun w hw => hfront w (List.mem_append_left upper hw))
            (.mergeAll hupper) (hwell v (List.mem_append_right _ List.mem_cons_self)) hdivides
      _ = merge (mergeAll lower) (mergeAll (upper ++ [v])) := by rw [mergeAll_concat upper v]

/-- Every grouping of tiers of one shape comes to the merged list of its tiers. -/
theorem Grouping.merged_eq_mergeAll {g : Grouping} (hwell : ∀ v ∈ g.tiers, v.WellFormed)
    (hshape : OneShape g.tiers) : g.merged = mergeAll g.tiers := by
  induction g with
  | tier v => exact (null_merge v).symm
  | pair lower upper ihlower ihupper =>
    have hlower : lower.tiers ⊆ (pair lower upper).tiers := List.subset_append_left _ _
    have hupper : upper.tiers ⊆ (pair lower upper).tiers := List.subset_append_right _ _
    rw [merged, tiers, mergeAll_append hwell hshape,
      ihlower (fun v hv => hwell v (hlower hv)) (hshape.mono hlower),
      ihupper (fun v hv => hwell v (hupper hv)) (hshape.mono hupper)]

/-- **The laws of merging.**  Merging a value over itself changes nothing, null changes nothing on
either side, and three values can be merged in both orders unless the one in the middle divides the
others.  So tiers of one shape can be merged beforehand in any grouping. -/
theorem merge_laws :
    (∀ a : Json, a.WellFormed → merge a a = a) ∧
    (∀ a : Json, merge a .null = a ∧ merge .null a = a) ∧
    (∀ a b c : Json, a.WellFormed → b.WellFormed → c.WellFormed →
      (¬ ∃ path, (a.valueAt path).IsObject ∧ (c.valueAt path).IsObject ∧
        (b.valueAt path).IsPlain) →
      merge (merge a b) c = merge a (merge b c)) ∧
    (∀ g : Grouping, (∀ v ∈ g.tiers, v.WellFormed) → OneShape g.tiers →
      g.merged = mergeAll g.tiers) := by
  refine ⟨fun a ha => merge_self ha, fun a => ⟨merge_null a, null_merge a⟩, ?_,
    fun g hwell hshape => Grouping.merged_eq_mergeAll hwell hshape⟩
  intro a b c ha hb hc h
  apply merge_assoc ha hb hc
  rintro ⟨path, haObject, hplain, hcObject⟩
  exact h ⟨path, haObject, hcObject, hplain⟩

/-- An object whose fields are none has no object below it. -/
theorem eq_nil_of_isObject_valueAt {fields : List (String × Json)}
    (h : ∀ f ∈ fields, ¬ f.2.IsObject) {path : List String}
    (hpath : ((object fields).valueAt path).IsObject) : path = [] := by
  cases path with
  | nil => rfl
  | cons name rest =>
    have hfield : ¬ ((object fields).field name).IsObject := by
      rcases field_eq_null_or_mem fields name with hnull | hmem
      · rw [hnull]
        exact not_isObject_null
      · exact h _ hmem
    rw [valueAt_cons] at hpath
    cases rest with
    | nil => exact absurd hpath hfield
    | cons next further =>
      rw [valueAt_cons, field_of_not_isObject hfield, valueAt_null] at hpath
      exact absurd hpath not_isObject_null

/-- Three tiers of one shape: the null of the one in the middle leaves the number below to be
replaced by the last, wherever merging starts. -/
theorem merge_laws_null_between :
    let a : Json := .object [("depth", .integer 3)]
    let b : Json := .object [("depth", .null), ("mode", .text "single")]
    let c : Json := .object [("depth", .integer 5)]
    let g : Grouping := .pair (.tier a) (.pair (.tier b) (.tier c))
    (∀ v ∈ g.tiers, v.WellFormed) ∧ OneShape g.tiers ∧ merge b b = b ∧ merge b .null = b ∧
      merge (merge a b) c = merge a (merge b c) ∧ g.merged = mergeAll [a, b, c] := by
  intro a b c g
  have ha : a.WellFormed := wellFormed_singleton .integer
  have hb : b.WellFormed := .object (by decide) (by
    simp only [List.forall_mem_cons]
    exact ⟨.null, .text, nofun⟩)
  have hc : c.WellFormed := wellFormed_singleton .integer
  have hwell : ∀ v ∈ g.tiers, v.WellFormed := by
    show ∀ v ∈ [a, b, c], v.WellFormed
    simp only [List.forall_mem_cons]
    exact ⟨ha, hb, hc, nofun⟩
  have hroot : ∀ v ∈ g.tiers, ∀ path, (v.valueAt path).IsObject → path = [] := by
    show ∀ v ∈ [a, b, c], ∀ path, (v.valueAt path).IsObject → path = []
    simp only [List.forall_mem_cons]
    exact ⟨fun _ => eq_nil_of_isObject_valueAt (by decide),
      fun _ => eq_nil_of_isObject_valueAt (by decide),
      fun _ => eq_nil_of_isObject_valueAt (by decide), nofun⟩
  have hshape : OneShape g.tiers := by
    intro v hv w hw path hobject
    obtain rfl := hroot v hv path hobject
    revert w
    decide
  obtain ⟨hself, hnull, hassoc, hgrouping⟩ := merge_laws
  refine ⟨hwell, hshape, hself b hb, (hnull b).1, hassoc a b c ha hb hc ?_,
    hgrouping g hwell hshape⟩
  rintro ⟨path, hobject, -, hplain⟩
  obtain rfl := eq_nil_of_isObject_valueAt (by decide) hobject
  exact hplain.2 ⟨_, rfl⟩

end Monorepo.Json
