import Monorepo.Proofs.Merging

/-!
# The last value at a key path

Merging a list of values keeps, at every key path, what was said there last.  What a later value says
about the path is of two kinds: it may hold a value there, or it may hold something that is no object
further up, and then nothing below that is kept.

* `Json.valueAt` — the value at a key path, null where there is none;
* `Json.IsPlain` — a value that is neither null nor an object;
* `Json.Cuts` — a plain value stands on the way along a path, so nothing is at the end of it;
* `Json.valueAt_merge`, `Json.valueAt_merge_of_cuts` — what merging two values does to a path;
* `Json.mergeAll_iff_last` — from one step to the whole list: what the last write leaves;
* `Json.mergeAll_last_writer` — the plain values and the objects of a merged list.
-/

namespace Monorepo.Json

/-! ### Kinds of values -/

/-- A value that has fields. -/
def IsObject (v : Json) : Prop :=
  ∃ fields, v = .object fields

/-- A value that says something but has no fields: a list, a text, a number or a truth value. -/
def IsPlain (v : Json) : Prop :=
  v ≠ .null ∧ ¬ v.IsObject

instance (v : Json) : Decidable v.IsObject :=
  match v with
  | .object fields => .isTrue ⟨fields, rfl⟩
  | .null | .bool _ | .integer _ | .decimal _ | .text _ | .list _ => .isFalse nofun

instance (v : Json) : Decidable v.IsPlain :=
  inferInstanceAs (Decidable (v ≠ .null ∧ ¬ v.IsObject))

theorem not_isPlain_iff {v : Json} : ¬ v.IsPlain ↔ v.IsSection := by
  rw [IsPlain, Classical.not_and_iff_not_or_not, Classical.not_not, Classical.not_not]
  rfl

theorem not_isPlain_null : ¬ IsPlain .null :=
  fun h => h.1 rfl

theorem not_isObject_null : ¬ IsObject .null :=
  nofun

theorem field_of_not_isObject {v : Json} (h : ¬ v.IsObject) (name : String) :
    v.field name = .null := by
  cases v with
  | object fields => exact absurd ⟨fields, rfl⟩ h
  | null | bool | integer | decimal | text | list => rfl

/-- A plain value is put in the place of everything. -/
theorem merge_of_isPlain {v w : Json} (h : w.IsPlain) : merge v w = w :=
  merge_of_not_isSection fun hsection => not_isPlain_iff.mpr hsection h

/-- An object is put over an object field by field, and in the place of all else. -/
theorem IsObject.merge {v w : Json} (h : w.IsObject) : (merge v w).IsObject := by
  obtain ⟨upper, rfl⟩ := h
  cases v with
  | object base => exact ⟨mergeFields base upper, rfl⟩
  | null | bool | integer | decimal | text | list => exact ⟨upper, rfl⟩

/-- A merged value is plain where the upper value is that value, or leaves it. -/
theorem merge_eq_iff_of_isPlain {v w x : Json} (hx : x.IsPlain) :
    merge v w = x ↔ w = x ∨ v = x ∧ w = .null := by
  by_cases hnull : w = .null
  · subst hnull
    rw [merge_null]
    have hne : (.null : Json) ≠ x := fun h => hx.1 h.symm
    simp [hne]
  by_cases hobject : w.IsObject
  · have hmerged : Monorepo.Json.merge v w ≠ x := fun h => hx.2 (h ▸ hobject.merge)
    have hne : w ≠ x := fun h => hx.2 (h ▸ hobject)
    simp [hmerged, hne, hnull]
  · rw [merge_of_isPlain ⟨hnull, hobject⟩]
    simp [hnull]

theorem isObject_merge_iff {v w : Json} :
    (merge v w).IsObject ↔ w.IsObject ∨ v.IsObject ∧ ¬ w.IsPlain := by
  by_cases hnull : w = .null
  · subst hnull
    rw [merge_null]
    simp [not_isObject_null, not_isPlain_null]
  by_cases hobject : w.IsObject
  · simp [hobject, hobject.merge]
  · have hplain : w.IsPlain := ⟨hnull, hobject⟩
    rw [merge_of_isPlain hplain]
    simp [hplain, hobject]

/-! ### Key paths -/

/-- The value at a key path, null where there is none. -/
def valueAt (v : Json) (path : List String) : Json :=
  path.foldl field v

theorem valueAt_cons (v : Json) (name : String) (path : List String) :
    v.valueAt (name :: path) = (v.field name).valueAt path := rfl

theorem valueAt_null (path : List String) : valueAt .null path = .null := by
  induction path with
  | nil => rfl
  | cons name rest ih => exact ih

theorem WellFormed.valueAt {v : Json} (h : v.WellFormed) (path : List String) :
    (v.valueAt path).WellFormed := by
  induction path generalizing v with
  | nil => exact h
  | cons name rest ih => exact ih (h.field name)

/-- A plain value stands at a proper prefix of a path. -/
def Cuts (v : Json) (path : List String) : Prop :=
  ∃ before, before <+: path ∧ before ≠ path ∧ (v.valueAt before).IsPlain

theorem not_cuts_nil (v : Json) : ¬ v.Cuts [] := by
  rintro ⟨before, hprefix, hne, -⟩
  exact hne (List.prefix_nil.mp hprefix)

/-- The way along a path is cut at its start or further on. -/
theorem cuts_cons {v : Json} {name : String} {path : List String} :
    v.Cuts (name :: path) ↔ v.IsPlain ∨ (v.field name).Cuts path := by
  constructor
  · rintro ⟨before, hprefix, hne, hplain⟩
    cases before with
    | nil => exact .inl hplain
    | cons first rest =>
      obtain ⟨rfl, hrest⟩ := List.cons_prefix_cons.mp hprefix
      exact .inr ⟨rest, hrest, fun h => hne (h ▸ rfl), hplain⟩
  · rintro (hplain | ⟨before, hprefix, hne, hplain⟩)
    · exact ⟨[], List.nil_prefix, (List.cons_ne_nil name path).symm, hplain⟩
    · refine ⟨name :: before, List.cons_prefix_cons.mpr ⟨rfl, hprefix⟩, ?_, hplain⟩
      intro h
      exact hne (List.cons.inj h).2

/-- Nothing is at the end of a path that is cut. -/
theorem Cuts.valueAt_eq_null {v : Json} {path : List String} (h : v.Cuts path) :
    v.valueAt path = .null := by
  induction path generalizing v with
  | nil => exact absurd h (not_cuts_nil v)
  | cons name rest ih =>
    rw [valueAt_cons]
    rcases cuts_cons.mp h with hplain | hrest
    · rw [field_of_not_isObject hplain.2]
      exact valueAt_null rest
    · exact ih hrest

/-! ### One value over another -/

/-- **Along a path that the upper value does not cut, the values at its end are merged.** -/
theorem valueAt_merge {v w : Json} (hw : w.WellFormed) {path : List String} (h : ¬ w.Cuts path) :
    (merge v w).valueAt path = merge (v.valueAt path) (w.valueAt path) := by
  induction path generalizing v w with
  | nil => rfl
  | cons name rest ih =>
    rw [cuts_cons, not_or] at h
    obtain ⟨hplain, hrest⟩ := h
    rw [valueAt_cons, field_merge (not_isPlain_iff.mp hplain) hw]
    exact ih (hw.field name) hrest

/-- **A path that the upper value cuts is cut in the merged value.** -/
theorem valueAt_merge_of_cuts {v w : Json} (hw : w.WellFormed) {path : List String}
    (h : w.Cuts path) : (merge v w).valueAt path = .null := by
  induction path generalizing v w with
  | nil => exact absurd h (not_cuts_nil w)
  | cons name rest ih =>
    by_cases hplain : w.IsPlain
    · rw [merge_of_isPlain hplain, valueAt_cons, field_of_not_isObject hplain.2]
      exact valueAt_null rest
    · rw [valueAt_cons, field_merge (not_isPlain_iff.mp hplain) hw]
      exact ih (hw.field name) ((cuts_cons.mp h).resolve_left hplain)

/-- A plain value is at a path of a merged value if the upper value holds it there, or the lower one
does and the upper one says nothing about it. -/
theorem valueAt_merge_eq_iff {v w x : Json} (hw : w.WellFormed) (hx : x.IsPlain)
    (path : List String) :
    (merge v w).valueAt path = x ↔
      w.valueAt path = x ∨ v.valueAt path = x ∧ w.valueAt path = .null ∧ ¬ w.Cuts path := by
  by_cases hcuts : w.Cuts path
  · have hne : (.null : Json) ≠ x := fun h => hx.1 h.symm
    rw [valueAt_merge_of_cuts hw hcuts, hcuts.valueAt_eq_null]
    simp [hne, hcuts]
  · rw [valueAt_merge hw hcuts, merge_eq_iff_of_isPlain hx]
    simp [hcuts]

/-- An object is at a path of a merged value if the upper value holds one there, or the lower one
does and the upper one says nothing against it. -/
theorem isObject_valueAt_merge_iff {v w : Json} (hw : w.WellFormed) (path : List String) :
    ((merge v w).valueAt path).IsObject ↔
      (w.valueAt path).IsObject ∨
        (v.valueAt path).IsObject ∧ ¬ (w.valueAt path).IsPlain ∧ ¬ w.Cuts path := by
  by_cases hcuts : w.Cuts path
  · rw [valueAt_merge_of_cuts hw hcuts, hcuts.valueAt_eq_null]
    simp [not_isObject_null, hcuts]
  · rw [valueAt_merge hw hcuts, isObject_merge_iff]
    simp [hcuts]

/-! ### A list of values -/

/-- A value of a list writes something, and no later one takes it back. -/
def LastWrites (writes keeps : Json → Prop) (values : List Json) : Prop :=
  ∃ before v after, values = before ++ v :: after ∧ writes v ∧ ∀ w ∈ after, keeps w

theorem not_lastWrites_nil {writes keeps : Json → Prop} : ¬ LastWrites writes keeps [] := by
  rintro ⟨before, v, after, h, -⟩
  exact List.append_ne_nil_of_right_ne_nil before (List.cons_ne_nil v after) h.symm

theorem lastWrites_cons {writes keeps : Json → Prop} {v : Json} {rest : List Json} :
    LastWrites writes keeps (v :: rest) ↔
      LastWrites writes keeps rest ∨ writes v ∧ ∀ w ∈ rest, keeps w := by
  constructor
  · rintro ⟨before, u, after, hvalues, hwrites, hkeeps⟩
    cases before with
    | nil =>
      obtain ⟨rfl, rfl⟩ := List.cons.inj hvalues
      exact .inr ⟨hwrites, hkeeps⟩
    | cons first others =>
      obtain ⟨rfl, rfl⟩ := List.cons.inj hvalues
      exact .inl ⟨others, u, after, rfl, hwrites, hkeeps⟩
  · rintro (⟨before, u, after, rfl, hwrites, hkeeps⟩ | ⟨hwrites, hkeeps⟩)
    · exact ⟨v :: before, u, after, rfl, hwrites, hkeeps⟩
    · exact ⟨[], v, rest, rfl, hwrites, hkeeps⟩

section Folding

variable (writes keeps : Json → Prop)

/-- The induction is on the values that are still to come, so the value that they are merged over is
any: what was in it before counts as written in front of them. -/
theorem foldl_merge_iff {values : List Json}
    (hstep : ∀ v, ∀ w ∈ values, writes (merge v w) ↔ writes w ∨ writes v ∧ keeps w) (v : Json) :
    writes (values.foldl merge v) ↔
      LastWrites writes keeps values ∨ writes v ∧ ∀ w ∈ values, keeps w := by
  induction values generalizing v with
  | nil => simp [not_lastWrites_nil]
  | cons w rest ih =>
    have hrest := ih (fun u x hx => hstep u x (List.mem_cons_of_mem w hx)) (merge v w)
    rw [List.foldl_cons, hrest, hstep v w List.mem_cons_self, lastWrites_cons,
      List.forall_mem_cons, or_and_right, and_assoc, or_assoc]

/-- **What a step keeps is known of the whole list.**  Where merging one value over another writes
what the upper one writes, and what it keeps of the lower one, a merged list holds what was written
last. -/
theorem mergeAll_iff_last {values : List Json} (hnull : ¬ writes .null)
    (hstep : ∀ v, ∀ w ∈ values, writes (merge v w) ↔ writes w ∨ writes v ∧ keeps w) :
    writes (mergeAll values) ↔ LastWrites writes keeps values := by
  rw [mergeAll, foldl_merge_iff writes keeps hstep]
  simp [hnull]

variable {values : List Json} (hvalues : ∀ v ∈ values, v.WellFormed)

include hvalues

theorem valueAt_mergeAll_eq_iff {x : Json} (hx : x.IsPlain) (path : List String) :
    (mergeAll values).valueAt path = x ↔
      LastWrites (fun v => v.valueAt path = x)
        (fun w => w.valueAt path = .null ∧ ¬ w.Cuts path) values := by
  refine mergeAll_iff_last (fun v => v.valueAt path = x) _ ?_ ?_
  · rw [valueAt_null]
    exact fun h => hx.1 h.symm
  · exact fun v w hw => valueAt_merge_eq_iff (hvalues w hw) hx path

theorem isObject_valueAt_mergeAll_iff (path : List String) :
    ((mergeAll values).valueAt path).IsObject ↔
      LastWrites (fun v => (v.valueAt path).IsObject)
        (fun w => ¬ (w.valueAt path).IsPlain ∧ ¬ w.Cuts path) values := by
  refine mergeAll_iff_last (fun v => (v.valueAt path).IsObject) _ ?_ ?_
  · rw [valueAt_null]
    exact not_isObject_null
  · exact fun v w hw => isObject_valueAt_merge_iff (hvalues w hw) path

end Folding

/-- **The last writer wins, at every key path.**  A merged list of values holds a plain value at a
path exactly if one of the values holds it there and none after it says anything at the path or cuts
it; and it holds an object there exactly if one of the values does and none after it has a plain
value there or cuts the path. -/
theorem mergeAll_last_writer (values : List Json) (hvalues : ∀ v ∈ values, v.WellFormed)
    (path : List String) :
    (∀ x : Json, x.IsPlain →
      ((mergeAll values).valueAt path = x ↔
        ∃ before v after, values = before ++ v :: after ∧ v.valueAt path = x ∧
          ∀ w ∈ after, w.valueAt path = .null ∧ ¬ w.Cuts path)) ∧
    (((mergeAll values).valueAt path).IsObject ↔
      ∃ before v after, values = before ++ v :: after ∧ (v.valueAt path).IsObject ∧
        ∀ w ∈ after, ¬ (w.valueAt path).IsPlain ∧ ¬ w.Cuts path) :=
  ⟨fun _ hx => valueAt_mergeAll_eq_iff hvalues hx path, isObject_valueAt_mergeAll_iff hvalues path⟩

theorem wellFormed_singleton {name : String} {value : Json} (h : value.WellFormed) :
    WellFormed (.object [(name, value)]) :=
  .object (List.pairwise_singleton _ name) (List.forall_mem_singleton.mpr h)

/-- A number takes the place of an object, and a later object that of the number.  Only what the last
tier holds is left, and it is no matter that the object there was also in the first tier. -/
theorem mergeAll_last_writer_wiped :
    let first : Json := .object [("loader", .object [("parallelism", .integer 4)])]
    let wiped : Json := .object [("loader", .integer 1)]
    let last : Json := .object [("loader", .object [("threads", .integer 2)])]
    (∀ v ∈ [first, wiped, last, .null], v.WellFormed) ∧
      (mergeAll [first, wiped, last, .null]).valueAt ["loader", "threads"] = .integer 2 ∧
      ((mergeAll [first, wiped, last, .null]).valueAt ["loader"]).IsObject ∧
      (mergeAll [first, wiped, last, .null]).valueAt ["loader", "parallelism"] ≠ .integer 4 := by
  intro first wiped last
  have hwell : ∀ v ∈ [first, wiped, last, .null], v.WellFormed := by
    simp only [List.forall_mem_cons]
    exact ⟨wellFormed_singleton (wellFormed_singleton .integer), wellFormed_singleton .integer,
      wellFormed_singleton (wellFormed_singleton .integer), .null, nofun⟩
  have hkept (path : List String) : ∀ w ∈ [Json.null], w.valueAt path = .null ∧ ¬ w.Cuts path := by
    intro w hw
    obtain rfl := List.mem_singleton.mp hw
    refine ⟨valueAt_null path, ?_⟩
    rintro ⟨before, -, -, hplain⟩
    exact not_isPlain_null (valueAt_null before ▸ hplain)
  refine ⟨hwell, ?_, ?_, ?_⟩
  · obtain ⟨hplain, -⟩ := mergeAll_last_writer _ hwell ["loader", "threads"]
    exact (hplain (.integer 2) (by decide)).mpr ⟨[first, wiped], last, [.null], rfl, rfl, hkept _⟩
  · obtain ⟨-, hobject⟩ := mergeAll_last_writer _ hwell ["loader"]
    refine hobject.mpr ⟨[first, wiped], last, [.null], rfl, ⟨_, rfl⟩, fun w hw => ?_⟩
    obtain ⟨hnull, hcuts⟩ := hkept ["loader"] w hw
    exact ⟨fun hplain => hplain.1 hnull, hcuts⟩
  · decide

end Monorepo.Json
