import Mathlib.Data.List.Flatten
import Mathlib.Data.List.Nodup
import Mathlib.Data.List.Pairwise
import Monorepo.IncludeStore.Builder
import Monorepo.Proofs.Catalog
import Monorepo.Proofs.Check

/-!
# Registering include files

An include file is registered as a whole or not at all, and which files were registered does not show
in which order:

* `add_eq_ok` — a file is taken exactly when its ids are distinct and none of them is taken;
* `addAll_eq_ok` — so files are taken one after the other exactly when all their ids together are
  distinct and new, and the builder then holds all of them;
* `register_comm`, `addAll_perm` — files that share no id may be registered in any order.

The main statement is that the order of registration shows neither in whether all files are taken nor
in the store that is built, nor in the error if none is.
-/

namespace Monorepo

namespace IncludeFile

variable {f : IncludeFile} {id : String}

theorem mem_ids_inputOutput : (IdSpace.inputOutput, id) ∈ f.ids ↔
    id ∈ f.inputs.map InputFragment.id ∨ id ∈ f.outputs.map OutputFragment.id := by
  simp [ids]

theorem mem_ids_taskGroup : (IdSpace.taskGroup, id) ∈ f.ids ↔
    id ∈ f.taskGroups.map TaskGroup.id := by
  simp [ids]

end IncludeFile

theorem IncludeStore.definedIn?_inputOutput_eq_none {s : IncludeStore} {id : String} :
    s.definedIn? .inputOutput id = none ↔
      s.inputs.find? id = none ∧ s.outputs.find? id = none := by
  simp [definedIn?, Catalog.origin?]

theorem IncludeStore.definedIn?_taskGroup_eq_none {s : IncludeStore} {id : String} :
    s.definedIn? .taskGroup id = none ↔ s.taskGroups.find? id = none := by
  simp [definedIn?, Catalog.origin?]

namespace IncludeBuilder

/-- None of the ids is taken. -/
def Fresh (b : IncludeBuilder) (ids : List (IdSpace × String)) : Prop :=
  ∀ k ∈ ids, b.registered.definedIn? k.1 k.2 = none

theorem fresh_cons {b : IncludeBuilder} {k : IdSpace × String} {ids : List (IdSpace × String)} :
    b.Fresh (k :: ids) ↔ b.registered.definedIn? k.1 k.2 = none ∧ b.Fresh ids :=
  List.forall_mem_cons

theorem fresh_append {b : IncludeBuilder} {ids ids' : List (IdSpace × String)} :
    b.Fresh (ids ++ ids') ↔ b.Fresh ids ∧ b.Fresh ids' :=
  List.forall_mem_append

/-! ### One file -/

/-- No id is found to be taken exactly when all are new, distinct and none of those before. -/
theorem taken?_eq_none {b : IncludeBuilder} {origin : Path}
    {before ids : List (IdSpace × String)} :
    b.taken? origin before ids = none ↔
      b.Fresh ids ∧ ids.Nodup ∧ ∀ k ∈ ids, k ∉ before := by
  induction ids generalizing before with
  | nil => simp [taken?, Fresh]
  | cons k rest ih =>
    rw [taken?, fresh_cons, List.nodup_cons, List.forall_mem_cons]
    cases hdefined : b.registered.definedIn? k.1 k.2 with
    | some first => simp
    | none =>
      by_cases hbefore : k ∈ before
      · simp [hbefore]
      · simp only [List.contains_eq_mem, hbefore, decide_false, Bool.false_eq_true, if_false, ih,
          true_and, not_false_iff]
        constructor
        · intro h
          obtain ⟨hfresh, hnodup, hnew⟩ := h
          have hk : k ∉ rest := fun hmem => hnew k hmem List.mem_cons_self
          exact ⟨hfresh, ⟨hk, hnodup⟩, fun i hi hmem => hnew i hi (List.mem_cons_of_mem k hmem)⟩
        · intro h
          obtain ⟨hfresh, ⟨hk, hnodup⟩, hnew⟩ := h
          refine ⟨hfresh, hnodup, fun i hi hmem => ?_⟩
          rcases List.mem_cons.mp hmem with rfl | hmem
          · exact hk hi
          · exact hnew i hi hmem

/-- Behind ids that are not taken, the others are looked at as if these stood before them. -/
theorem taken?_append {b : IncludeBuilder} {origin : Path} {before passed : List (IdSpace × String)}
    (h : b.taken? origin before passed = none) (ids : List (IdSpace × String)) :
    b.taken? origin before (passed ++ ids) = b.taken? origin (passed.reverse ++ before) ids := by
  induction passed generalizing before with
  | nil => rfl
  | cons k rest ih =>
    obtain ⟨hfresh, -, hnew⟩ := taken?_eq_none.mp h
    have hdefined := hfresh k List.mem_cons_self
    have hbefore : before.contains k = false := by simpa using hnew k List.mem_cons_self
    simp only [taken?, hdefined, hbefore, Bool.false_eq_true, if_false] at h
    simp only [List.cons_append, taken?, hdefined, hbefore, Bool.false_eq_true, if_false,
      List.reverse_cons, List.append_assoc]
    exact ih h

/-- **The first id that is taken.**  None in front of it is taken, and it is registered itself or
stands among those before it. -/
theorem taken?_eq_some {b : IncludeBuilder} {origin first : Path}
    {before ids : List (IdSpace × String)} {space : IdSpace} {id : String} :
    b.taken? origin before ids = some (space, id, first) ↔
      ∃ passed rest, ids = passed ++ (space, id) :: rest ∧
        b.taken? origin before passed = none ∧
        (b.registered.definedIn? space id = some first ∨
          b.registered.definedIn? space id = none ∧
            ((space, id) ∈ passed ∨ (space, id) ∈ before) ∧ first = origin) := by
  constructor
  · intro h
    induction ids generalizing before with
    | nil => cases h
    | cons k others ih =>
      obtain ⟨space', id'⟩ := k
      rw [taken?] at h
      split at h
      · rename_i file hdefined
        cases h
        exact ⟨[], others, rfl, rfl, .inl hdefined⟩
      · rename_i hdefined
        split at h
        · rename_i hbefore
          cases h
          exact ⟨[], others, rfl, rfl, .inr ⟨hdefined, .inr (by simpa using hbefore), rfl⟩⟩
        · rename_i hbefore
          obtain ⟨passed, rest, rfl, hnone, hfirst⟩ := ih h
          refine ⟨(space', id') :: passed, rest, rfl, ?_, hfirst.imp_right fun htaken => ?_⟩
          · simp only [taken?, hdefined, hbefore, Bool.false_eq_true, if_false]
            exact hnone
          · obtain ⟨hfree, hmem, horigin⟩ := htaken
            refine ⟨hfree, ?_, horigin⟩
            rcases hmem with hpassed | hk
            · exact .inl (List.mem_cons_of_mem _ hpassed)
            · rcases List.mem_cons.mp hk with heq | hold
              · cases heq
                exact .inl List.mem_cons_self
              · exact .inr hold
  · intro h
    obtain ⟨passed, rest, rfl, hnone, hfirst⟩ := h
    rw [taken?_append hnone, taken?]
    rcases hfirst with hdefined | ⟨hdefined, hmem, rfl⟩
    · rw [hdefined]
    · have hcontains : (passed.reverse ++ before).contains (space, id) = true := by
        simpa using hmem
      simp only [hdefined, hcontains, if_true]

/-- A file is refused at the first of its ids that is taken. -/
theorem add_eq_error {b : IncludeBuilder} {f : IncludeFile} {origin : Path} {e : LoadError} :
    b.add f origin = .error e ↔ ∃ space id first,
      b.taken? origin [] f.ids = some (space, id, first) ∧
        e = .duplicateId id space first origin := by
  rw [add]
  cases htaken : b.taken? origin [] f.ids with
  | none => simp
  | some found =>
    obtain ⟨space, id, first⟩ := found
    simp [eq_comm]

/-- **A file is registered exactly when its ids are distinct and none of them is taken.** -/
theorem add_eq_ok {b b' : IncludeBuilder} {f : IncludeFile} {origin : Path} :
    b.add f origin = .ok b' ↔ f.ids.Nodup ∧ b.Fresh f.ids ∧ b' = b.register f origin := by
  have hnone : b.taken? origin [] f.ids = none ↔ b.Fresh f.ids ∧ f.ids.Nodup := by
    rw [taken?_eq_none]
    simp only [List.not_mem_nil, not_false_iff, implies_true, and_true]
  rw [add]
  cases htaken : b.taken? origin [] f.ids with
  | none =>
    obtain ⟨hfresh, hnodup⟩ := hnone.mp htaken
    simp [hfresh, hnodup, eq_comm]
  | some k =>
    have hnot : ¬ (b.Fresh f.ids ∧ f.ids.Nodup) := by
      intro h
      rw [hnone.mpr h] at htaken
      cases htaken
    constructor
    · intro h
      cases h
    · intro h
      obtain ⟨hnodup, hfresh, -⟩ := h
      exact absurd ⟨hfresh, hnodup⟩ hnot

theorem definedIn?_register_eq_none {b : IncludeBuilder} {f : IncludeFile} {origin : Path}
    {k : IdSpace × String} :
    (b.register f origin).registered.definedIn? k.1 k.2 = none ↔
      k ∉ f.ids ∧ b.registered.definedIn? k.1 k.2 = none := by
  obtain ⟨space, id⟩ := k
  cases space with
  | inputOutput =>
    simp only [IncludeStore.definedIn?_inputOutput_eq_none, register,
      Catalog.find?_insertAll_eq_none, IncludeFile.mem_ids_inputOutput, not_or]
    exact and_and_and_comm
  | taskGroup =>
    simp only [IncludeStore.definedIn?_taskGroup_eq_none, register,
      Catalog.find?_insertAll_eq_none, IncludeFile.mem_ids_taskGroup]

/-- **Two files without a common id may be registered in either order.** -/
theorem register_comm (b : IncludeBuilder) {f f' : IncludeFile} (origin origin' : Path)
    (h : f.ids.Disjoint f'.ids) :
    (b.register f origin).register f' origin' = (b.register f' origin').register f origin := by
  have hinputs : (f.inputs.map InputFragment.id).Disjoint (f'.inputs.map InputFragment.id) :=
    fun id hid hid' => h (IncludeFile.mem_ids_inputOutput.mpr (Or.inl hid))
      (IncludeFile.mem_ids_inputOutput.mpr (Or.inl hid'))
  have houtputs : (f.outputs.map OutputFragment.id).Disjoint
      (f'.outputs.map OutputFragment.id) :=
    fun id hid hid' => h (IncludeFile.mem_ids_inputOutput.mpr (Or.inr hid))
      (IncludeFile.mem_ids_inputOutput.mpr (Or.inr hid'))
  have hgroups : (f.taskGroups.map TaskGroup.id).Disjoint (f'.taskGroups.map TaskGroup.id) :=
    fun id hid hid' => h (IncludeFile.mem_ids_taskGroup.mpr hid)
      (IncludeFile.mem_ids_taskGroup.mpr hid')
  simp only [register, Catalog.insertAll_comm _ _ _ _ hinputs,
    Catalog.insertAll_comm _ _ _ _ houtputs, Catalog.insertAll_comm _ _ _ _ hgroups]

/-! ### One file after the other -/

/-- Registers files in order, each with its origin, up to the first that is refused. -/
def addAll : IncludeBuilder → List (IncludeFile × Path) → Except LoadError IncludeBuilder
  | b, [] => .ok b
  | b, (f, origin) :: rest => do
    addAll (← b.add f origin) rest

/-- All ids that files define. -/
def allIds (files : List (IncludeFile × Path)) : List (IdSpace × String) :=
  files.flatMap fun file => file.1.ids

/-- The builder with every fragment of every file. -/
def registerAll (b : IncludeBuilder) (files : List (IncludeFile × Path)) : IncludeBuilder :=
  files.foldl (fun b file => b.register file.1 file.2) b

theorem allIds_cons (f : IncludeFile) (origin : Path) (rest : List (IncludeFile × Path)) :
    allIds ((f, origin) :: rest) = f.ids ++ allIds rest :=
  List.flatMap_cons

theorem addAll_append (b : IncludeBuilder) (files files' : List (IncludeFile × Path)) :
    addAll b (files ++ files') = addAll b files >>= fun next => addAll next files' := by
  induction files generalizing b with
  | nil => rfl
  | cons file rest ih =>
    obtain ⟨f, origin⟩ := file
    rw [List.cons_append, addAll, addAll]
    cases b.add f origin with
    | error e => rfl
    | ok next => exact ih next

theorem fresh_register {b : IncludeBuilder} {f : IncludeFile} {origin : Path}
    {ids : List (IdSpace × String)} :
    (b.register f origin).Fresh ids ↔ f.ids.Disjoint ids ∧ b.Fresh ids := by
  simp only [Fresh, definedIn?_register_eq_none]
  constructor
  · intro h
    exact ⟨fun k hk hmem => (h k hmem).1 hk, fun k hk => (h k hk).2⟩
  · rintro ⟨hdisjoint, hfresh⟩ k hk
    exact ⟨fun hmem => hdisjoint hmem hk, hfresh k hk⟩

/-- **Files are taken one after the other exactly when all their ids are distinct and new.** -/
theorem addAll_eq_ok {b b' : IncludeBuilder} {files : List (IncludeFile × Path)} :
    addAll b files = .ok b' ↔
      (allIds files).Nodup ∧ b.Fresh (allIds files) ∧ b' = b.registerAll files := by
  induction files generalizing b with
  | nil => simp [addAll, allIds, registerAll, Fresh, eq_comm]
  | cons file rest ih =>
    obtain ⟨f, origin⟩ := file
    rw [addAll, Except.bind_eq_ok_iff, allIds_cons, List.nodup_append', fresh_append]
    constructor
    · intro h
      obtain ⟨next, hadd, hrest⟩ := h
      obtain ⟨hnodup, hfresh, rfl⟩ := add_eq_ok.mp hadd
      obtain ⟨hnodups, hfreshes, rfl⟩ := ih.mp hrest
      obtain ⟨hdisjoint, hfreshes⟩ := fresh_register.mp hfreshes
      exact ⟨⟨hnodup, hnodups, hdisjoint⟩, ⟨hfresh, hfreshes⟩, rfl⟩
    · intro h
      obtain ⟨⟨hnodup, hnodups, hdisjoint⟩, ⟨hfresh, hfreshes⟩, rfl⟩ := h
      exact ⟨b.register f origin, add_eq_ok.mpr ⟨hnodup, hfresh, rfl⟩,
        ih.mpr ⟨hnodups, fresh_register.mpr ⟨hdisjoint, hfreshes⟩, rfl⟩⟩

theorem fresh_empty (ids : List (IdSpace × String)) : Fresh {} ids := by
  intro k _
  obtain ⟨space, id⟩ := k
  cases space with
  | inputOutput => rfl
  | taskGroup => rfl

theorem addAll_empty_eq_ok {b : IncludeBuilder} {files : List (IncludeFile × Path)} :
    addAll {} files = .ok b ↔ (allIds files).Nodup ∧ b = registerAll {} files := by
  rw [addAll_eq_ok]
  exact ⟨fun h => ⟨h.1, h.2.2⟩, fun h => ⟨h.1, fresh_empty _, h.2⟩⟩

/-! ### The order of files -/

theorem allIds_perm {files files' : List (IncludeFile × Path)} (h : files.Perm files') :
    (allIds files).Perm (allIds files') :=
  h.flatMap_right _

/-- Files without a common id commute, so any order of them leaves the same builder. -/
theorem registerAll_perm (b : IncludeBuilder) {files files' : List (IncludeFile × Path)}
    (h : files.Perm files') (hnodup : (allIds files).Nodup) :
    b.registerAll files = b.registerAll files' := by
  have hsymm : Std.Symm fun file file' : IncludeFile × Path => file.1.ids.Disjoint file'.1.ids :=
    ⟨fun _ _ hdisjoint => List.disjoint_symm hdisjoint⟩
  have hcomm : ∀ file ∈ files, ∀ file' ∈ files, ∀ b : IncludeBuilder,
      (b.register file.1 file.2).register file'.1 file'.2 =
        (b.register file'.1 file'.2).register file.1 file.2 := by
    intro file hfile file' hfile' b
    by_cases heq : file = file'
    · rw [heq]
    · exact register_comm b file.2 file'.2
        (List.Pairwise.forall (List.nodup_flatMap.mp hnodup).2 hfile hfile' heq)
  exact h.foldl_eq' hcomm b

theorem addAll_perm {files files' : List (IncludeFile × Path)} (h : files.Perm files')
    {b : IncludeBuilder} (hb : addAll {} files = .ok b) : addAll {} files' = .ok b := by
  obtain ⟨hnodup, rfl⟩ := addAll_empty_eq_ok.mp hb
  exact addAll_empty_eq_ok.mpr ⟨(allIds_perm h).nodup_iff.mp hnodup, registerAll_perm {} h hnodup⟩

/-- **The order of registration does not show.**  If a list of files registers in one order, so it
does in any other, and then the store that is built is the same, or the error if none is. -/
theorem addAll_perm_build {files files' : List (IncludeFile × Path)} (h : files.Perm files') :
    ((∃ b, addAll {} files = .ok b) ↔ ∃ b', addAll {} files' = .ok b') ∧
      ∀ b b', addAll {} files = .ok b → addAll {} files' = .ok b' → b.build = b'.build := by
  refine ⟨?_, ?_⟩
  · constructor
    · intro htaken
      obtain ⟨b, hb⟩ := htaken
      exact ⟨b, addAll_perm h hb⟩
    · intro htaken
      obtain ⟨b', hb'⟩ := htaken
      exact ⟨b', addAll_perm h.symm hb'⟩
  · intro b b' hb hb'
    rw [addAll_perm h hb] at hb'
    cases hb'
    rfl

/-- A group that includes an input of another file, registered before and after it. -/
theorem addAll_perm_build_forward_reference :
    let group : IncludeFile × Path :=
      ({ inputs := [{ id := "make", input := { files := ⟨["Makefile"]⟩ } }]
         taskGroups := [{ id := "ci", tasks :=
          [{ name := "check", command := "make", includes := ["go", "make"] }] }] }, ⟨"a.toml"⟩)
    let input : IncludeFile × Path :=
      ({ inputs := [{ id := "go", input := { files := ⟨["*.go"]⟩ } }] }, ⟨"b.toml"⟩)
    [group, input].Perm [input, group] ∧
      ∃ b b', addAll {} [group, input] = .ok b ∧ addAll {} [input, group] = .ok b' ∧
        b.build = b'.build := by
  intro group input
  have h : [group, input].Perm [input, group] := .swap _ _ _
  exact ⟨h, _, _, rfl, rfl, (addAll_perm_build h).2 _ _ rfl rfl⟩

end IncludeBuilder

end Monorepo
