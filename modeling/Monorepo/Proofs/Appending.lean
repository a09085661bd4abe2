import Monorepo.Proofs.Resolution

/-!
# Which entries a resolved task has

Completing a task appends sections; this is told here list by list, in terms of the fragments that
the task's ids name:

* `IncludeStore.inputsNamed`, `IncludeStore.outputsNamed` — the fragments that ids name, in the order
  of the ids and as often as they are named; an id of inputs never names outputs;
* `Concatenates` — a list of entries that appending puts end to end;
* `Task.Extended` — a task with the entries of its fragments behind its own, list by list;
* `Task.resolve_outcome` — resolving gives the extended task if every id has a fragment, and fails at
  the first id without one if not.
-/

namespace Monorepo

/-! ### The fragments that ids name -/

namespace IncludeStore

variable (s : IncludeStore)

/-- The output fragment that an id names. -/
def outputNamed? (id : String) : Option OutputFragment :=
  if s.inputs.contains id then none else s.outputs.fragment? id

/-- The input fragments that ids name. -/
def inputsNamed (ids : List String) : List InputFragment :=
  ids.filterMap s.inputs.fragment?

/-- The output fragments that ids name. -/
def outputsNamed (ids : List String) : List OutputFragment :=
  ids.filterMap s.outputNamed?

end IncludeStore

/-! ### Lists in sections -/

/-- A list of entries that appending puts end to end. -/
structure Concatenates {α β : Type} [Append α] (blank : α) (entries : α → List β) : Prop where
  blank : entries blank = []
  append : ∀ a b, entries (a ++ b) = entries a ++ entries b

/-- Sections appended one after another, blank ones among them, hold the entries of the sections that
are there. -/
theorem Concatenates.entries_foldr {α β γ : Type} [Append α] {blank : α} {entries : α → List β}
    (h : Concatenates blank entries) (named? : String → Option γ) (sectionOf : γ → α)
    (ids : List String) :
    entries (ids.foldr (fun id others => (named? id).elim blank sectionOf ++ others) blank) =
      (ids.filterMap named?).flatMap fun fragment => entries (sectionOf fragment) := by
  induction ids with
  | nil => exact h.blank
  | cons id rest ih =>
    rw [List.foldr_cons, h.append, ih]
    cases hid : named? id with
    | none =>
      rw [List.filterMap_cons_none hid]
      exact congrArg (· ++ _) h.blank
    | some fragment =>
      rw [List.filterMap_cons_some hid, List.flatMap_cons]
      rfl

namespace IncludeStore

variable (s : IncludeStore)

theorem outputOf_eq_elim (id : String) :
    s.outputOf id = (s.outputNamed? id).elim {} OutputFragment.output := by
  unfold outputOf outputNamed?
  split
  · rfl
  · rfl

/-- The entries of what ids stand for are those of the fragments they name. -/
theorem entries_inputsOf {β : Type} {entries : Input → List β} (h : Concatenates {} entries)
    (ids : List String) :
    entries (s.inputsOf ids) = (s.inputsNamed ids).flatMap fun f => entries f.input :=
  h.entries_foldr s.inputs.fragment? InputFragment.input ids

theorem entries_outputsOf {β : Type} {entries : Output → List β} (h : Concatenates {} entries)
    (ids : List String) :
    entries (s.outputsOf ids) = (s.outputsNamed ids).flatMap fun f => entries f.output := by
  have houtputs : s.outputsOf ids = ids.foldr
      (fun id others => (s.outputNamed? id).elim {} OutputFragment.output ++ others) {} := by
    simp only [outputsOf, outputOf_eq_elim]
  rw [houtputs]
  exact h.entries_foldr s.outputNamed? OutputFragment.output ids

theorem knows_eq_true {id : String} :
    s.knows id = true ↔ id ∈ s.ids .input ∨ id ∈ s.ids .output := by
  rw [knows, Bool.or_eq_true, Catalog.contains_eq_true, Catalog.contains_eq_true]
  rfl

end IncludeStore

/-! ### Tasks -/

theorem Attempt.value_eq_ok {α : Type} {attempt : Attempt α} {a : α} :
    attempt.value = .ok a ↔ attempt.result = .ok () ∧ attempt.after = a := by
  obtain ⟨e | u, after⟩ := attempt
  · simp [value]
  · simp [value]

theorem Attempt.value_eq_error {α : Type} {attempt : Attempt α} {e : LoadError} :
    attempt.value = .error e ↔ attempt.result = .error e := by
  obtain ⟨e' | u, after⟩ := attempt
  · simp [value]
  · simp [value]

/-! An attempt that fails at a fault, if there is one, and gives a value, if there is none. -/

section Faults

variable {α : Type} {attempt : Attempt α} {fault? : Option LoadError} {a : α}

theorem Attempt.result_eq_error (h : attempt.value = fault?.elim (.ok a) .error) {e : LoadError} :
    attempt.result = .error e ↔ fault? = some e := by
  rw [← value_eq_error, h]
  cases fault? with
  | none => simp
  | some e' => simp

theorem Attempt.eq_of_fault?_eq_none (h : attempt.value = fault?.elim (.ok a) .error)
    (hnone : fault? = none) : attempt = ⟨.ok (), a⟩ := by
  rw [hnone, Option.elim_none, value_eq_ok] at h
  exact congrArg₂ Attempt.mk h.1 h.2

theorem Attempt.result_eq_ok (h : attempt.value = fault?.elim (.ok a) .error) :
    attempt.result = .ok () ↔ fault? = none := by
  constructor
  · intro hok
    cases hfault : fault? with
    | none => rfl
    | some e => simp [(result_eq_error h).mpr hfault] at hok
  · intro hnone
    rw [eq_of_fault?_eq_none h hnone]

end Faults

namespace Task

/-- What a task is once the fragments that its ids name are merged into it: every list has the
entries of the fragments, in order, behind those of the task. -/
structure Extended (s : IncludeStore) (t u : Task) : Prop where
  name : u.name = t.name
  command : u.command = t.command
  includes : u.includes = []
  files : u.input.files.paths = t.input.files.paths ++
    (s.inputsNamed t.includes).flatMap fun f => f.input.files.paths
  gitFiles : u.input.gitFiles.paths = t.input.gitFiles.paths ++
    (s.inputsNamed t.includes).flatMap fun f => f.input.gitFiles.paths
  golangEnvironment : u.input.golangSources.environment = t.input.golangSources.environment ++
    (s.inputsNamed t.includes).flatMap fun f => f.input.golangSources.environment
  golangPaths : u.input.golangSources.paths = t.input.golangSources.paths ++
    (s.inputsNamed t.includes).flatMap fun f => f.input.golangSources.paths
  outputFiles : u.output.files = t.output.files ++
    (s.outputsNamed t.includes).flatMap fun f => f.output.files
  dockerImages : u.output.dockerImages = t.output.dockerImages ++
    (s.outputsNamed t.includes).flatMap fun f => f.output.dockerImages

variable (s : IncludeStore)

/-- Whatever list of its inputs is looked at, a completed task has the entries of the named fragments
behind its own. -/
theorem entries_input_completed {β : Type} (entries : Input → List β)
    (h : Concatenates {} entries) (t : Task) :
    entries (t.completed s).input = entries t.input ++
      (s.inputsNamed t.includes).flatMap fun f => entries f.input := by
  rw [← s.entries_inputsOf h]
  exact h.append ..

theorem entries_output_completed {β : Type} (entries : Output → List β)
    (h : Concatenates {} entries) (t : Task) :
    entries (t.completed s).output = entries t.output ++
      (s.outputsNamed t.includes).flatMap fun f => entries f.output := by
  rw [← s.entries_outputsOf h]
  exact h.append ..

theorem extended_completed (t : Task) : t.Extended s (t.completed s) where
  name := rfl
  command := rfl
  includes := rfl
  files := entries_input_completed s (·.files.paths) ⟨rfl, fun _ _ => rfl⟩ t
  gitFiles := entries_input_completed s (·.gitFiles.paths) ⟨rfl, fun _ _ => rfl⟩ t
  golangEnvironment :=
    entries_input_completed s (·.golangSources.environment) ⟨rfl, fun _ _ => rfl⟩ t
  golangPaths := entries_input_completed s (·.golangSources.paths) ⟨rfl, fun _ _ => rfl⟩ t
  outputFiles := entries_output_completed s (·.files) ⟨rfl, fun _ _ => rfl⟩ t
  dockerImages := entries_output_completed s (·.dockerImages) ⟨rfl, fun _ _ => rfl⟩ t

/-- A fault is the first id of a task that the store does not have. -/
theorem fault?_eq_some {t : Task} {e : LoadError} :
    t.fault? s = some e ↔ ∃ before id rest, t.includes = before ++ id :: rest ∧
      (∀ known ∈ before, s.knows known = true) ∧ s.knows id = false ∧ e = t.missing id := by
  simp only [fault?, Option.map_eq_some_iff, List.find?_eq_some_iff_append]
  constructor
  · intro h
    obtain ⟨id, ⟨hid, before, rest, hincludes, hbefore⟩, rfl⟩ := h
    exact ⟨before, id, rest, hincludes, by simpa using hbefore, by simpa using hid, rfl⟩
  · intro h
    obtain ⟨before, id, rest, hincludes, hbefore, hid, rfl⟩ := h
    exact ⟨id, ⟨by simpa using hid, before, rest, hincludes, by simpa using hbefore⟩, rfl⟩

theorem resolve_of_fault?_eq_none {t : Task} (h : t.fault? s = none) :
    t.resolve s = ⟨.ok (), t.completed s⟩ :=
  Attempt.eq_of_fault?_eq_none (resolve_value s t) h

theorem resolve_result_eq_error {t : Task} {e : LoadError} :
    (t.resolve s).result = .error e ↔ t.fault? s = some e :=
  Attempt.result_eq_error (resolve_value s t)

theorem resolve_result_eq_ok {t : Task} :
    (t.resolve s).result = .ok () ↔ t.fault? s = none :=
  Attempt.result_eq_ok (resolve_value s t)

/-- **What resolving a task does.**  It succeeds exactly when every id of the task is one of an input
or an output.  The task then has its name and command, no ids left, and in every list the entries of
the fragments behind its own.  Otherwise it tells the first id that is neither. -/
theorem resolve_outcome (t : Task) :
    ((t.resolve s).result = .ok () ↔ ∀ id ∈ t.includes, id ∈ s.ids .input ∨ id ∈ s.ids .output) ∧
      ((t.resolve s).result = .ok () → t.Extended s (t.resolve s).after) ∧
      ∀ e, (t.resolve s).result = .error e →
        ∃ before id rest, t.includes = before ++ id :: rest ∧
          (∀ known ∈ before, known ∈ s.ids .input ∨ known ∈ s.ids .output) ∧
          id ∉ s.ids .input ∧ id ∉ s.ids .output ∧
          e = .reference id .inputOutput ("task '" ++ t.name ++ "'") := by
  refine ⟨?_, ?_, ?_⟩
  · simp only [resolve_result_eq_ok, fault?_eq_none, s.knows_eq_true]
  · intro hok
    rw [resolve_of_fault?_eq_none s ((resolve_result_eq_ok s).mp hok)]
    exact extended_completed s t
  · intro e herror
    obtain ⟨before, id, rest, hincludes, hbefore, hid, rfl⟩ :=
      (fault?_eq_some s).mp ((resolve_result_eq_error s).mp herror)
    have hneither : ¬(id ∈ s.ids .input ∨ id ∈ s.ids .output) := by
      rw [← s.knows_eq_true, hid]
      exact Bool.false_ne_true
    rw [not_or] at hneither
    exact ⟨before, id, rest, hincludes, fun known h => s.knows_eq_true.mp (hbefore known h),
      hneither.1, hneither.2, rfl⟩

/-- A store with an id of both kinds: it counts as an input.  The first task names it between an
output and an input that comes twice; the second names two ids that are missing. -/
theorem resolve_outcome_id_of_both_kinds :
    let store : IncludeStore :=
      { inputs := ⟨[("both", ⟨{ id := "both", input := { gitFiles := ⟨["g"]⟩ } }, ⟨"a.toml"⟩⟩),
          ("in", ⟨{ id := "in", input := { files := ⟨["f"]⟩ } }, ⟨"a.toml"⟩⟩)]⟩
        outputs := ⟨[("both", ⟨{ id := "both", output := { files := [{ path := "p" }] } },
            ⟨"b.toml"⟩⟩),
          ("out", ⟨{ id := "out", output := { files := [{ path := "q" }] } }, ⟨"b.toml"⟩⟩)]⟩ }
    let t : Task :=
      { name := "build", command := "make", includes := ["out", "both", "in", "in"]
        input := { files := ⟨["own"]⟩ } }
    let u : Task := { name := "check", command := "make", includes := ["in", "x", "y"] }
    t.Extended store (t.resolve store).after ∧
      (t.resolve store).after =
        { name := "build", command := "make"
          input := { files := ⟨["own", "f", "f"]⟩, gitFiles := ⟨["g"]⟩ }
          output := { files := [{ path := "q" }] } } ∧
      ∃ before id rest, u.includes = before ++ id :: rest ∧
        (∀ known ∈ before, known ∈ store.ids .input ∨ known ∈ store.ids .output) ∧
        id ∉ store.ids .input ∧ id ∉ store.ids .output ∧
        LoadError.reference "x" .inputOutput "task 'check'" =
          .reference id .inputOutput ("task '" ++ u.name ++ "'") := by
  intro store t u
  exact ⟨(resolve_outcome store t).2.1 (by decide), by decide,
    (resolve_outcome store u).2.2 _ (by decide)⟩

end Task

end Monorepo
