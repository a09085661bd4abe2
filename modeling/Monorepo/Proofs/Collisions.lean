import Mathlib.Data.List.Induction
import Monorepo.Proofs.History

/-!
# Which collision is reported

A file that is refused may collide in many places, with files that were registered and with itself.
The error is about one of them, the first in the order of the file:

* `IncludeFile.keys` — the fragments of a file, each by its kind and id: inputs, then outputs, then
  groups;
* `IncludeBuilder.Collides` — the id of a fragment is taken in the space of its kind, by a fragment
  that is registered or by one that stands before it in the same file;
* `IncludeStore.ConsistsOf.origin?_eq_some` — the origin that is recorded for a fragment is the file
  that brought it;
* `IncludeBuilder.taken?_keys_eq_some` — the id that is found to be taken is that of the first
  collision, and the file that is told with it is the one that has the id.

The main statement, `IncludeBuilder.first_collision_of_calls`, gives the error of any call at any
point of any history.
-/

namespace Monorepo

/-! ### Fragments by kind and id -/

namespace IncludeFile

variable {f : IncludeFile} {id : String}

/-- The kinds and ids of the fragments of a file: of inputs, then outputs, then groups. -/
def keys (f : IncludeFile) : List (FragmentKind × String) :=
  f.inputs.map (fun i => (.input, i.id))
    ++ f.outputs.map (fun o => (.output, o.id))
    ++ f.taskGroups.map (fun g => (.taskGroup, g.id))

/-- The id of a fragment in the space of its kind. -/
def idOfKey (key : FragmentKind × String) : IdSpace × String :=
  (key.1.space, key.2)

theorem ids_eq_map_keys (f : IncludeFile) : f.ids = f.keys.map idOfKey := by
  simp [ids, keys, idOfKey, FragmentKind.space, Function.comp_def]

theorem mem_keys_input : (FragmentKind.input, id) ∈ f.keys ↔
    id ∈ f.inputs.map InputFragment.id := by
  simp [keys]

theorem mem_keys_output : (FragmentKind.output, id) ∈ f.keys ↔
    id ∈ f.outputs.map OutputFragment.id := by
  simp [keys]

theorem mem_keys_taskGroup : (FragmentKind.taskGroup, id) ∈ f.keys ↔
    id ∈ f.taskGroups.map TaskGroup.id := by
  simp [keys]

end IncludeFile

/-! ### The origin of a fragment -/

/-- The origin under an id is that of a file which lists the id. -/
theorem Catalog.Lists.origin?_eq_some {α : Type} {c : Catalog α} {idOf : α → String}
    {values : IncludeFile → List α} {files : List (IncludeFile × Path)}
    (h : c.Lists (files.flatMap fun file => Catalog.entriesOf idOf file.2 (values file.1)))
    {id : String} {first : Path} :
    c.origin? id = some first ↔ ∃ f, (f, first) ∈ files ∧ id ∈ (values f).map idOf := by
  rw [Catalog.origin?, Option.map_eq_some_iff]
  constructor
  · intro hfound
    obtain ⟨value, hfind, rfl⟩ := hfound
    obtain ⟨⟨f, origin⟩, hfile, hentry⟩ := List.mem_flatMap.mp (h.find?_eq_some.mp hfind)
    obtain ⟨fragment, hfragment, heq⟩ := List.mem_map.mp hentry
    cases heq
    exact ⟨f, hfile, List.mem_map_of_mem hfragment⟩
  · intro hlisted
    obtain ⟨f, hfile, hid⟩ := hlisted
    obtain ⟨fragment, hfragment, rfl⟩ := List.mem_map.mp hid
    refine ⟨⟨fragment, first⟩, h.find?_eq_some.mpr ?_, rfl⟩
    exact List.mem_flatMap.mpr ⟨(f, first), hfile, List.mem_map_of_mem hfragment⟩

namespace IncludeStore

variable {s : IncludeStore} {files : List (IncludeFile × Path)} {space : IdSpace}
  {kind : FragmentKind} {id : String} {first : Path}

/-- **The origin of a fragment is the file that brought it.** -/
theorem ConsistsOf.origin?_eq_some (h : s.ConsistsOf files) :
    s.origin? kind id = some first ↔ ∃ f, (f, first) ∈ files ∧ (kind, id) ∈ f.keys := by
  cases kind with
  | input => simp only [IncludeFile.mem_keys_input]; exact h.inputs.origin?_eq_some
  | output => simp only [IncludeFile.mem_keys_output]; exact h.outputs.origin?_eq_some
  | taskGroup => simp only [IncludeFile.mem_keys_taskGroup]; exact h.taskGroups.origin?_eq_some

theorem contains_eq_isSome : s.contains kind id = (s.origin? kind id).isSome := by
  cases kind <;> simp [contains, origin?, Catalog.contains, Catalog.origin?]

/-- An id is new in a space if no kind of the space has it. -/
theorem definedIn?_eq_none_iff :
    s.definedIn? space id = none ↔ ∀ kind, kind.space = space → s.contains kind id = false := by
  simp only [contains_eq_isSome, Option.isSome_eq_false_iff, Option.isNone_iff_eq_none]
  constructor
  · intro h kind hkind
    cases kind with
    | input =>
      subst hkind
      exact (Option.or_eq_none_iff.mp h).1
    | output =>
      subst hkind
      exact (Option.or_eq_none_iff.mp h).2
    | taskGroup =>
      subst hkind
      exact h
  · intro h
    cases space with
    | inputOutput => exact Option.or_eq_none_iff.mpr ⟨h .input rfl, h .output rfl⟩
    | taskGroup => exact h .taskGroup rfl

/-- The file that has an id in a space has it for a kind of the space. -/
theorem exists_origin?_of_definedIn? (h : s.definedIn? space id = some first) :
    ∃ kind, kind.space = space ∧ s.origin? kind id = some first := by
  cases space with
  | inputOutput =>
    rcases Option.or_eq_some_iff.mp h with hinput | ⟨-, houtput⟩
    · exact ⟨.input, rfl, hinput⟩
    · exact ⟨.output, rfl, houtput⟩
  | taskGroup => exact ⟨.taskGroup, rfl, h⟩

/-- Where no id is that of an input and of an output, it does not matter for which kind of the space
the file has the id. -/
theorem definedIn?_eq_some_iff
    (hone : ∀ id, ¬ (s.inputs.contains id = true ∧ s.outputs.contains id = true)) :
    s.definedIn? space id = some first ↔
      ∃ kind, kind.space = space ∧ s.origin? kind id = some first := by
  refine ⟨exists_origin?_of_definedIn?, fun h => ?_⟩
  obtain ⟨kind, rfl, horigin⟩ := h
  cases kind with
  | input => exact Option.or_eq_some_iff.mpr (.inl horigin)
  | output =>
    refine Option.or_eq_some_iff.mpr (.inr ⟨?_, horigin⟩)
    have houtput : s.contains .output id = true := by
      rw [contains_eq_isSome, horigin]
      rfl
    have hinput : s.contains .input id = false := by
      rw [Bool.eq_false_iff]
      exact fun hinput => hone id ⟨hinput, houtput⟩
    rw [contains_eq_isSome, Option.isSome_eq_false_iff, Option.isNone_iff_eq_none] at hinput
    exact hinput
  | taskGroup => exact horigin

/-- The file that is told to define an id defines it. -/
theorem ConsistsOf.exists_of_definedIn? (h : s.ConsistsOf files)
    (hdefined : s.definedIn? space id = some first) :
    ∃ f, (f, first) ∈ files ∧ (space, id) ∈ f.ids := by
  obtain ⟨kind, rfl, horigin⟩ := exists_origin?_of_definedIn? hdefined
  obtain ⟨f, hfile, hkey⟩ := h.origin?_eq_some.mp horigin
  refine ⟨f, hfile, ?_⟩
  rw [IncludeFile.ids_eq_map_keys]
  exact List.mem_map_of_mem (f := IncludeFile.idOfKey) hkey

end IncludeStore

/-! ### The first collision -/

namespace IncludeBuilder

open IncludeFile

variable {b : IncludeBuilder}

/-- The id of a fragment is taken in the space of its kind: a registered fragment has it, or one of
those before it in the same file. -/
def Collides (b : IncludeBuilder) (before : List (FragmentKind × String))
    (key : FragmentKind × String) : Prop :=
  ∃ other : FragmentKind, other.space = key.1.space ∧
    (b.registered.contains other key.2 = true ∨ (other, key.2) ∈ before)

theorem mem_map_idOfKey {keys : List (FragmentKind × String)} (key : FragmentKind × String) :
    idOfKey key ∈ keys.map idOfKey ↔
      ∃ other : FragmentKind, other.space = key.1.space ∧ (other, key.2) ∈ keys := by
  rw [List.mem_map]
  constructor
  · intro h
    obtain ⟨⟨other, id⟩, hmem, heq⟩ := h
    obtain ⟨hspace, rfl⟩ := Prod.mk.inj heq
    exact ⟨other, hspace, hmem⟩
  · intro h
    obtain ⟨other, hspace, hmem⟩ := h
    exact ⟨_, hmem, Prod.ext hspace rfl⟩

theorem not_collides_iff {before : List (FragmentKind × String)} {key : FragmentKind × String} :
    ¬ b.Collides before key ↔
      b.registered.definedIn? (idOfKey key).1 (idOfKey key).2 = none ∧
        idOfKey key ∉ before.map idOfKey := by
  rw [IncludeStore.definedIn?_eq_none_iff, mem_map_idOfKey, Collides]
  simp only [not_exists, not_and, not_or, Bool.not_eq_true, idOfKey, forall_and]

/-- No id of fragments is taken if none of them collides. -/
theorem taken?_keys_eq_none {origin : Path} {keys : List (FragmentKind × String)} :
    b.taken? origin [] (keys.map idOfKey) = none ↔
      ∀ before key rest, keys = before ++ key :: rest → ¬ b.Collides before key := by
  rw [taken?_eq_none]
  simp only [List.not_mem_nil, not_false_iff, implies_true, and_true]
  constructor
  · intro h before key rest hkeys
    obtain ⟨hfresh, hnodup⟩ := h
    rw [hkeys, List.map_append, List.map_cons] at hfresh hnodup
    refine not_collides_iff.mpr ⟨hfresh _ (by simp), fun hmem => ?_⟩
    exact (List.nodup_append'.mp hnodup).2.2 hmem List.mem_cons_self
  · intro h
    -- The list grows at its end, where the key that comes last has all others before it.
    induction keys using List.reverseRecOn with
    | nil => exact ⟨nofun, .nil⟩
    | append_singleton keys key ih =>
      obtain ⟨hfresh, hnodup⟩ := ih fun before other rest hkeys =>
        h before other (rest ++ [key]) (by rw [hkeys]; simp)
      obtain ⟨hfree, hnew⟩ := not_collides_iff.mp (h keys key [] rfl)
      rw [List.map_append, List.map_singleton, fresh_append, List.nodup_append']
      refine ⟨⟨hfresh, fresh_cons.mpr ⟨hfree, nofun⟩⟩, hnodup, List.nodup_singleton _, ?_⟩
      simpa using hnew

/-- **The id that is found to be taken is that of the first collision.** -/
theorem taken?_keys_eq_some {origin first : Path} {keys : List (FragmentKind × String)}
    {space : IdSpace} {id : String}
    (hone : ∀ id, ¬ (b.registered.inputs.contains id = true ∧
      b.registered.outputs.contains id = true)) :
    b.taken? origin [] (keys.map idOfKey) = some (space, id, first) ↔
      ∃ before kind rest, keys = before ++ (kind, id) :: rest ∧ kind.space = space ∧
        b.Collides before (kind, id) ∧
        (∀ earlier key more, before = earlier ++ key :: more → ¬ b.Collides earlier key) ∧
        ((∃ other, other.space = space ∧ b.registered.origin? other id = some first) ∨
          (∀ other, other.space = space → b.registered.contains other id = false) ∧
            first = origin) := by
  simp only [taken?_eq_some, IncludeStore.definedIn?_eq_some_iff hone,
    IncludeStore.definedIn?_eq_none_iff, List.not_mem_nil, or_false]
  constructor
  · intro h
    obtain ⟨passed, rest, hkeys, hnone, hfirst⟩ := h
    obtain ⟨before, others, rfl, rfl, hothers⟩ := List.map_eq_append_iff.mp hkeys
    obtain ⟨⟨kind, id'⟩, rest', rfl, hkey, rfl⟩ := List.map_eq_cons_iff.mp hothers
    obtain ⟨rfl, rfl⟩ := Prod.mk.inj hkey
    refine ⟨before, kind, rest', rfl, rfl, ?_, taken?_keys_eq_none.mp hnone,
      hfirst.imp_right fun htaken => ⟨htaken.1, htaken.2.2⟩⟩
    rcases hfirst with ⟨other, hother, horigin⟩ | ⟨-, hmem, -⟩
    · refine ⟨other, hother, .inl ?_⟩
      rw [IncludeStore.contains_eq_isSome, horigin]
      rfl
    · obtain ⟨other, hother, hmem⟩ := (mem_map_idOfKey (kind, id')).mp hmem
      exact ⟨other, hother, .inr hmem⟩
  · intro h
    obtain ⟨before, kind, rest, rfl, rfl, hcollides, hearlier, hfirst⟩ := h
    refine ⟨before.map idOfKey, rest.map idOfKey, by rw [List.map_append, List.map_cons]; rfl,
      taken?_keys_eq_none.mpr hearlier, hfirst.imp_right fun hnew => ?_⟩
    obtain ⟨hfree, horigin⟩ := hnew
    refine ⟨hfree, (mem_map_idOfKey (kind, id)).mpr ?_, horigin⟩
    obtain ⟨other, hother, hregistered | hmem⟩ := hcollides
    · rw [hfree other hother] at hregistered
      cases hregistered
    · exact ⟨other, hother, hmem⟩

/-- **The error of a call tells the first collision of its file.**  At any point of any history a call
fails exactly if a fragment of the file collides, and the error is about the first that does: its
id, the space of its kind, and the two files at odds.  The second of these is the file of the call.
The first is the origin of the registered fragment that has the id in this space, whichever its
kind, which is the file of an earlier call that succeeded; or the file of the call itself where no
registered fragment has it. -/
theorem first_collision_of_calls (calls : List (IncludeFile × Path)) (f : IncludeFile)
    (origin : Path) :
    (∀ e, ((afterCalls {} calls).tryAdd f origin).result = .error e ↔
      ∃ before kind id rest first, f.keys = before ++ (kind, id) :: rest ∧
        (afterCalls {} calls).Collides before (kind, id) ∧
        (∀ earlier key more, before = earlier ++ key :: more →
          ¬ (afterCalls {} calls).Collides earlier key) ∧
        ((∃ other, other.space = kind.space ∧
            (afterCalls {} calls).registered.origin? other id = some first) ∨
          (∀ other, other.space = kind.space →
            (afterCalls {} calls).registered.contains other id = false) ∧ first = origin) ∧
        e = .duplicateId id kind.space first origin) ∧
    ∀ kind id first, (afterCalls {} calls).registered.origin? kind id = some first ↔
      ∃ g, (g, first) ∈ taken {} calls ∧ (kind, id) ∈ g.keys := by
  obtain ⟨hcontent, hone⟩ := consistsOf_afterCalls calls
  refine ⟨fun e => ?_, fun _ _ _ => hcontent.origin?_eq_some⟩
  rw [result_tryAdd_eq_error, add_eq_error, ids_eq_map_keys]
  simp only [taken?_keys_eq_some hone]
  constructor
  · intro h
    obtain ⟨_, id, first, ⟨before, kind, rest, hkeys, rfl, hcollides, hearlier, hfirst⟩, he⟩ := h
    exact ⟨before, kind, id, rest, first, hkeys, hcollides, hearlier, hfirst, he⟩
  · intro h
    obtain ⟨before, kind, id, rest, first, hkeys, hcollides, hearlier, hfirst, he⟩ := h
    exact ⟨_, id, first, ⟨before, kind, rest, hkeys, rfl, hcollides, hearlier, hfirst⟩, he⟩

/-- An input that collides with an output of an earlier file.  Its id comes behind one that only a
group has, which is no collision, and before an id that the file repeats and a group that collides
too. -/
theorem first_collision_of_calls_input_and_output :
    let earlier : IncludeFile × Path :=
      ({ outputs := [{ id := "x", output := { files := [{ path := "a.out" }] } }]
         taskGroups := [{ id := "n", tasks := [{ name := "t", command := "c" }] }] },
        ⟨"first.toml"⟩)
    let file : IncludeFile :=
      { inputs := [{ id := "n", input := { files := ⟨["*.go"]⟩ } },
          { id := "x", input := { files := ⟨["*.c"]⟩ } },
          { id := "n", input := { files := ⟨["*.h"]⟩ } }]
        taskGroups := [{ id := "n", tasks := [{ name := "t", command := "c" }] }] }
    let e : LoadError := .duplicateId "x" .inputOutput ⟨"first.toml"⟩ ⟨"second.toml"⟩
    ((afterCalls {} [earlier]).tryAdd file ⟨"second.toml"⟩).result = .error e ∧
      ∃ before kind id rest first, file.keys = before ++ (kind, id) :: rest ∧
        (afterCalls {} [earlier]).Collides before (kind, id) ∧
        e = .duplicateId id kind.space first ⟨"second.toml"⟩ := by
  intro earlier file e
  have hrefused : ((afterCalls {} [earlier]).tryAdd file ⟨"second.toml"⟩).result = .error e := by
    decide
  obtain ⟨herror, -⟩ := first_collision_of_calls [earlier] file ⟨"second.toml"⟩
  obtain ⟨before, kind, id, rest, first, hkeys, hcollides, -, -, he⟩ := (herror e).mp hrefused
  exact ⟨hrefused, before, kind, id, rest, first, hkeys, hcollides, he⟩

end IncludeBuilder

end Monorepo
