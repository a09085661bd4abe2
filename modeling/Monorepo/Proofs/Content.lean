import Mathlib.Algebra.BigOperators.Group.List.Basic
import Mathlib.Algebra.GroupWithZero.Nat
import Monorepo.Proofs.Registration
import Monorepo.Proofs.Resolution

/-!
# What registered files leave behind

Registering is known by what the store then consists of:

* `IncludeFile.fragmentIds`, `IncludeFile.groupIds` — the ids of a file in each of the two spaces;
  `nodup_allIds` and `fresh_ids` say space by space when ids are distinct and new;
* `IncludeStore.ConsistsOf` — the fragments of files, each under its id and with its file, and no
  others; `IncludeBuilder.consistsOf_register` is what one file adds, and
  `IncludeBuilder.consistsOf_registerAll` what any number of them do;
* `IncludeStore.ConsistsOf.knows`, `.not_input_and_output`, `.size_eq` — what follows for look-ups
  and for the number of fragments.
-/

namespace Monorepo

namespace IncludeFile

/-- The ids of the inputs and outputs of a file, which share a space. -/
def fragmentIds (f : IncludeFile) : List String :=
  f.inputs.map InputFragment.id ++ f.outputs.map OutputFragment.id

/-- The ids of the groups of a file. -/
def groupIds (f : IncludeFile) : List String :=
  f.taskGroups.map TaskGroup.id

theorem ids_eq (f : IncludeFile) :
    f.ids = f.fragmentIds.map (Prod.mk .inputOutput) ++ f.groupIds.map (Prod.mk .taskGroup) := by
  simp [ids, fragmentIds, groupIds, Function.comp_def]

end IncludeFile

/-! ### Distinct and new ids, space by space -/

theorem nodup_spaces {fragments groups : List String} :
    (fragments.map (Prod.mk IdSpace.inputOutput) ++ groups.map (Prod.mk IdSpace.taskGroup)).Nodup ↔
      fragments.Nodup ∧ groups.Nodup := by
  have hinjective : ∀ space : IdSpace, Function.Injective (Prod.mk (β := String) space) :=
    fun space _ _ h => (Prod.mk.inj h).2
  have hdisjoint : (fragments.map (Prod.mk IdSpace.inputOutput)).Disjoint
      (groups.map (Prod.mk IdSpace.taskGroup)) := by
    intro k hfragment hgroup
    obtain ⟨id, -, rfl⟩ := List.mem_map.mp hfragment
    obtain ⟨id', -, heq⟩ := List.mem_map.mp hgroup
    cases heq
  rw [List.nodup_append', List.nodup_map_iff (hinjective _), List.nodup_map_iff (hinjective _)]
  exact ⟨fun h => ⟨h.1, h.2.1⟩, fun h => ⟨h.1, h.2, hdisjoint⟩⟩

theorem IncludeFile.nodup_ids {f : IncludeFile} :
    f.ids.Nodup ↔ f.fragmentIds.Nodup ∧ f.groupIds.Nodup := by
  rw [ids_eq, nodup_spaces]

namespace IncludeBuilder

theorem nodup_allIds {files : List (IncludeFile × Path)} :
    (allIds files).Nodup ↔ (files.flatMap fun file => file.1.fragmentIds).Nodup ∧
      (files.flatMap fun file => file.1.groupIds).Nodup := by
  have hsplit : (allIds files).Perm
      ((files.flatMap fun file => file.1.fragmentIds).map (Prod.mk .inputOutput) ++
        (files.flatMap fun file => file.1.groupIds).map (Prod.mk .taskGroup)) := by
    simp only [allIds, IncludeFile.ids_eq, List.map_flatMap]
    exact (List.flatMap_append_perm files _ _).symm
  rw [hsplit.nodup_iff, nodup_spaces]

theorem fresh_ids {b : IncludeBuilder} {f : IncludeFile} :
    b.Fresh f.ids ↔
      (∀ id ∈ f.fragmentIds, b.registered.inputs.contains id = false ∧
        b.registered.outputs.contains id = false) ∧
      ∀ id ∈ f.groupIds, b.registered.taskGroups.contains id = false := by
  rw [IncludeFile.ids_eq, fresh_append]
  simp only [Fresh, List.forall_mem_map, IncludeStore.definedIn?_inputOutput_eq_none,
    IncludeStore.definedIn?_taskGroup_eq_none, Catalog.contains, Option.isSome_eq_false_iff,
    Option.isNone_iff_eq_none]

end IncludeBuilder

/-! ### The fragments of a store -/

/-- A store has the fragments of these files, each under its id and with its file as origin, and no
others. -/
structure IncludeStore.ConsistsOf (s : IncludeStore) (files : List (IncludeFile × Path)) :
    Prop where
  inputs : s.inputs.Lists
    (files.flatMap fun file => Catalog.entriesOf InputFragment.id file.2 file.1.inputs)
  outputs : s.outputs.Lists
    (files.flatMap fun file => Catalog.entriesOf OutputFragment.id file.2 file.1.outputs)
  taskGroups : s.taskGroups.Lists
    (files.flatMap fun file => Catalog.entriesOf TaskGroup.id file.2 file.1.taskGroups)

namespace IncludeStore.ConsistsOf

variable {s : IncludeStore} {files : List (IncludeFile × Path)}

theorem empty : ConsistsOf {} [] :=
  ⟨.empty, .empty, .empty⟩

theorem contains_input (h : s.ConsistsOf files) {id : String} :
    s.inputs.contains id = true ↔
      id ∈ files.flatMap fun file => file.1.inputs.map InputFragment.id := by
  simp only [h.inputs.contains, List.map_flatMap, Catalog.map_fst_entriesOf]

theorem contains_output (h : s.ConsistsOf files) {id : String} :
    s.outputs.contains id = true ↔
      id ∈ files.flatMap fun file => file.1.outputs.map OutputFragment.id := by
  simp only [h.outputs.contains, List.map_flatMap, Catalog.map_fst_entriesOf]

/-- Tasks may include exactly the ids of inputs and outputs. -/
theorem knows (h : s.ConsistsOf files) {id : String} :
    s.knows id = true ↔ id ∈ files.flatMap fun file => file.1.fragmentIds := by
  rw [IncludeStore.knows, Bool.or_eq_true, h.contains_input, h.contains_output]
  simp only [IncludeFile.fragmentIds, List.mem_flatMap, List.mem_append, and_or_left, exists_or]

/-- Where ids are distinct, none is that of an input and of an output. -/
theorem not_input_and_output (h : s.ConsistsOf files)
    (hnodup : (files.flatMap fun file => file.1.fragmentIds).Nodup) (id : String) :
    ¬ (s.inputs.contains id = true ∧ s.outputs.contains id = true) := by
  have hsplit := List.flatMap_append_perm files
    (fun file => file.1.inputs.map InputFragment.id)
    (fun file => file.1.outputs.map OutputFragment.id)
  rw [h.contains_input, h.contains_output]
  exact fun hboth =>
    (List.nodup_append'.mp (hsplit.nodup_iff.mpr hnodup)).2.2 hboth.1 hboth.2

end IncludeStore.ConsistsOf

/-! ### What registering adds -/

namespace IncludeBuilder

variable {b : IncludeBuilder}

/-- A file of distinct, new ids adds its fragments. -/
theorem consistsOf_register {files : List (IncludeFile × Path)}
    (h : b.registered.ConsistsOf files) {f : IncludeFile} (origin : Path) (hnodup : f.ids.Nodup)
    (hfresh : b.Fresh f.ids) :
    (b.register f origin).registered.ConsistsOf (files ++ [(f, origin)]) := by
  obtain ⟨hfragments, hgroups⟩ := IncludeFile.nodup_ids.mp hnodup
  obtain ⟨hinputs, houtputs, -⟩ := List.nodup_append'.mp hfragments
  obtain ⟨hnewFragments, hnewGroups⟩ := fresh_ids.mp hfresh
  constructor
  · rw [List.flatMap_append, List.flatMap_singleton]
    exact h.inputs.insertAll _ origin hinputs fun id hid =>
      h.inputs.notMem (hnewFragments id (List.mem_append_left _ hid)).1
  · rw [List.flatMap_append, List.flatMap_singleton]
    exact h.outputs.insertAll _ origin houtputs fun id hid =>
      h.outputs.notMem (hnewFragments id (List.mem_append_right _ hid)).2
  · rw [List.flatMap_append, List.flatMap_singleton]
    exact h.taskGroups.insertAll _ origin hgroups fun id hid =>
      h.taskGroups.notMem (hnewGroups id hid)

theorem consistsOf_registerAll {before files : List (IncludeFile × Path)}
    (h : b.registered.ConsistsOf before) (hnodup : (allIds files).Nodup)
    (hfresh : b.Fresh (allIds files)) :
    (b.registerAll files).registered.ConsistsOf (before ++ files) := by
  induction files generalizing b before with
  | nil =>
    rw [List.append_nil]
    exact h
  | cons file rest ih =>
    obtain ⟨f, origin⟩ := file
    rw [allIds_cons, List.nodup_append'] at hnodup
    rw [allIds_cons, fresh_append] at hfresh
    have hnext := consistsOf_register h origin hnodup.1 hfresh.1
    have hrest := ih hnext hnodup.2.1 (fresh_register.mpr ⟨hnodup.2.2, hfresh.2⟩)
    rw [List.append_assoc] at hrest
    exact hrest

/-- **What was taken is what is there.** -/
theorem consistsOf_of_addAll {files : List (IncludeFile × Path)} (h : addAll {} files = .ok b) :
    b.registered.ConsistsOf files := by
  obtain ⟨hnodup, rfl⟩ := addAll_empty_eq_ok.mp h
  have hall := consistsOf_registerAll IncludeStore.ConsistsOf.empty hnodup (fresh_empty _)
  rwa [List.nil_append] at hall

end IncludeBuilder

end Monorepo
