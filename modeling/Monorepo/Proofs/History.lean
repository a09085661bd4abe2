import Monorepo.Proofs.Content

/-!
# The history of a builder

Files are registered in place, and a call may be refused.  What the builder is after any calls is
told by those that succeeded:

* `IncludeBuilder.tryAdd_ok`, `IncludeBuilder.tryAdd_error` — what one call does to the builder;
* `IncludeBuilder.taken` — the calls of a history that succeeded;
* `IncludeBuilder.addAll_taken` — after a history the builder is as if only these had been made.

The main statement, `IncludeBuilder.history_of_calls`, says of the builder at any point of any
history which call would succeed next, and what it holds.
-/

namespace Monorepo

namespace IncludeBuilder

variable {b : IncludeBuilder}

/-! ### One call -/

theorem tryAdd_ok {f : IncludeFile} {origin : Path} {next : IncludeBuilder}
    (h : b.add f origin = .ok next) : b.tryAdd f origin = ⟨.ok (), next⟩ := by
  rw [tryAdd, h]

theorem tryAdd_error {f : IncludeFile} {origin : Path} {e : LoadError}
    (h : b.add f origin = .error e) : b.tryAdd f origin = ⟨.error e, b⟩ := by
  rw [tryAdd, h]

theorem result_tryAdd_eq_error {f : IncludeFile} {origin : Path} {e : LoadError} :
    (b.tryAdd f origin).result = .error e ↔ b.add f origin = .error e := by
  rw [tryAdd]
  cases b.add f origin <;> simp

theorem result_tryAdd_eq_ok {f : IncludeFile} {origin : Path} :
    (b.tryAdd f origin).result = .ok () ↔ f.ids.Nodup ∧ b.Fresh f.ids := by
  constructor
  · intro h
    cases hadd : b.add f origin with
    | ok next =>
      obtain ⟨hnodup, hfresh, -⟩ := add_eq_ok.mp hadd
      exact ⟨hnodup, hfresh⟩
    | error e =>
      rw [tryAdd_error hadd] at h
      cases h
  · rintro ⟨hnodup, hfresh⟩
    rw [tryAdd_ok (add_eq_ok.mpr ⟨hnodup, hfresh, rfl⟩)]

/-- A call that is refused changes nothing. -/
theorem after_tryAdd_of_ne_ok {f : IncludeFile} {origin : Path}
    (h : (b.tryAdd f origin).result ≠ .ok ()) : (b.tryAdd f origin).after = b := by
  cases hadd : b.add f origin with
  | ok next =>
    rw [tryAdd_ok hadd] at h
    exact absurd rfl h
  | error e => rw [tryAdd_error hadd]

/-! ### Calls in turn -/

/-- The builder after calls in turn, whether they succeed or not. -/
def afterCalls : IncludeBuilder → List (IncludeFile × Path) → IncludeBuilder
  | b, [] => b
  | b, (f, origin) :: rest => afterCalls (b.tryAdd f origin).after rest

/-- The calls that succeed, among calls in turn. -/
def taken : IncludeBuilder → List (IncludeFile × Path) → List (IncludeFile × Path)
  | _, [] => []
  | b, (f, origin) :: rest =>
    match b.tryAdd f origin with
    | ⟨.ok (), next⟩ => (f, origin) :: taken next rest
    | ⟨.error _, left⟩ => taken left rest

/-- **Only the calls that succeed count.**  Made alone, they all succeed again and lead to the same
builder. -/
theorem addAll_taken (b : IncludeBuilder) (calls : List (IncludeFile × Path)) :
    addAll b (taken b calls) = .ok (afterCalls b calls) := by
  induction calls generalizing b with
  | nil => rfl
  | cons call rest ih =>
    obtain ⟨f, origin⟩ := call
    rw [taken, afterCalls]
    cases hadd : b.add f origin with
    | ok next =>
      rw [tryAdd_ok hadd, addAll, hadd]
      exact ih next
    | error e =>
      rw [tryAdd_error hadd]
      exact ih b

/-- A builder after any calls holds what those that succeeded brought, and no id twice in a space. -/
theorem consistsOf_afterCalls (calls : List (IncludeFile × Path)) :
    (afterCalls {} calls).registered.ConsistsOf (taken {} calls) ∧
      ∀ id, ¬ ((afterCalls {} calls).registered.inputs.contains id = true ∧
        (afterCalls {} calls).registered.outputs.contains id = true) := by
  have htaken := addAll_taken {} calls
  have hcontent := consistsOf_of_addAll htaken
  have hnodup := (nodup_allIds.mp (addAll_empty_eq_ok.mp htaken).1).1
  exact ⟨hcontent, hcontent.not_input_and_output hnodup⟩

/-- **A builder at any point of any history.**  A call succeeds exactly when the ids of the file are
distinct and new, each in its space, and one that does not succeed leaves the builder as it is.  The
builder holds the fragments of the calls that succeeded, each under its id and with the origin of
its call, and no others; no id is that of an input and of an output. -/
theorem history_of_calls (calls : List (IncludeFile × Path)) :
    (∀ f origin,
      (((afterCalls {} calls).tryAdd f origin).result = .ok () ↔
        (f.fragmentIds.Nodup ∧
          ∀ id ∈ f.fragmentIds,
            (afterCalls {} calls).registered.inputs.contains id = false ∧
              (afterCalls {} calls).registered.outputs.contains id = false) ∧
        f.groupIds.Nodup ∧
          ∀ id ∈ f.groupIds, (afterCalls {} calls).registered.taskGroups.contains id = false) ∧
      (((afterCalls {} calls).tryAdd f origin).result ≠ .ok () →
        ((afterCalls {} calls).tryAdd f origin).after = afterCalls {} calls)) ∧
    (afterCalls {} calls).registered.ConsistsOf (taken {} calls) ∧
    ∀ id, ¬ ((afterCalls {} calls).registered.inputs.contains id = true ∧
      (afterCalls {} calls).registered.outputs.contains id = true) := by
  obtain ⟨hcontent, hone⟩ := consistsOf_afterCalls calls
  refine ⟨fun f origin => ⟨?_, after_tryAdd_of_ne_ok⟩, hcontent, hone⟩
  rw [result_tryAdd_eq_ok, IncludeFile.nodup_ids, fresh_ids]
  constructor
  · rintro ⟨⟨hfragments, hgroups⟩, hnewFragments, hnewGroups⟩
    exact ⟨⟨hfragments, hnewFragments⟩, hgroups, hnewGroups⟩
  · rintro ⟨⟨hfragments, hnewFragments⟩, hgroups, hnewGroups⟩
    exact ⟨⟨hfragments, hgroups⟩, hnewFragments, hnewGroups⟩

/-- A file whose second input is taken is refused as a whole. -/
theorem history_of_calls_taken_input :
    let first : IncludeFile × Path :=
      ({ inputs := [{ id := "a", input := { files := ⟨["*.go"]⟩ } }] }, ⟨"first.toml"⟩)
    let second : IncludeFile × Path :=
      ({ inputs := [{ id := "b", input := { files := ⟨["*.c"]⟩ } },
          { id := "a", input := { files := ⟨["*.h"]⟩ } }] }, ⟨"second.toml"⟩)
    taken {} [first, second] = [first] ∧
      (afterCalls {} [first, second]).registered.ConsistsOf [first] := by
  intro first second
  exact ⟨rfl, (history_of_calls [first, second]).2.1⟩

end IncludeBuilder

end Monorepo
