import Monorepo.Proofs.References

/-!
# What a failed resolution leaves behind

Resolving changes an app in place, and it takes a list of ids out before it looks the first one up.
Where it fails, the missing id is gone from the app, and so are the ids behind it in its list:

* `Task.resolve_of_missing`, `App.resolve_of_missing_group` — a list that fails is left like one that
  ends in front of the missing id;
* `App.LeavesBehind` — the app that is left, and the error, by the place of the missing id;
* `App.resolve_eq_error_iff` — a failed resolution leaves that app, with that error;
* `App.LeavesBehind.exists_references` — which references are lost, and which are left;
* `App.resolve_leaves_behind` — the app that is left gives the failure away as long as a reference is
  left in it;
* `App.not_noticed_of_resolve` — without one it may pass for a resolved app.
-/

namespace Monorepo

section Failing

variable (s : IncludeStore)

/-! ### Tasks -/

namespace Task

/-- No task stumbles exactly if everything is found that the tasks refer to. -/
theorem forall_fault?_eq_none {tasks : List Task} :
    (∀ t ∈ tasks, t.fault? s = none) ↔ ∀ r ∈ tasks.flatMap references, r.FoundIn s := by
  simp only [fault?_eq_find?, Option.map_eq_none_iff, firstMissing?_eq_none, List.mem_flatMap]
  constructor
  · intro h r hr
    obtain ⟨t, ht, hrt⟩ := hr
    exact h t ht r hrt
  · intro h t ht r hr
    exact h r ⟨t, ht, hr⟩

theorem includeAll_append {t u : Task} {ids : List String} (h : (includeAll s t ids).value = .ok u)
    (more : List String) : includeAll s t (ids ++ more) = includeAll s u more := by
  induction ids generalizing t with
  | nil =>
    obtain rfl : t = u := Except.ok.inj h
    rfl
  | cons id rest ih =>
    rw [List.cons_append, includeAll]
    rw [includeAll] at h
    cases hid : t.includeFragment s id with
    | error e =>
      rw [hid] at h
      cases h
    | ok merged =>
      rw [hid] at h
      exact ih h

/-- A task that fails is left with the fragments of the ids in front of the missing one. -/
theorem resolve_of_missing {t : Task} {known rest : List String} {id : String}
    (hincludes : t.includes = known ++ id :: rest)
    (hknown : ∀ found ∈ known, (t.referTo found).FoundIn s) (hid : ¬ (t.referTo id).FoundIn s) :
    t.resolve s = ⟨.error (t.referTo id).missing, { t with includes := known }.completed s⟩ := by
  have hfront : (includeAll s { t with includes := [] } known).value =
      .ok ({ t with includes := known }.completed s) := by
    have hfind : (known.find? fun found => !s.knows found) = none := by
      simpa using hknown
    rw [includeAll_value, hfind]
    rfl
  have hmissing : s.knows id = false := by simpa using hid
  rw [resolve, hincludes, includeAll_append s hfront, includeAll, includeFragment_eq, hmissing]
  rfl

theorem resolveAll_append {before : List Task} (h : ∀ t ∈ before, t.fault? s = none)
    (tasks : List Task) :
    resolveAll s (before ++ tasks) =
      ⟨(resolveAll s tasks).result, before.map (completed s) ++ (resolveAll s tasks).after⟩ := by
  induction before with
  | nil => rfl
  | cons t rest ih =>
    rw [List.forall_mem_cons] at h
    rw [List.cons_append, resolveAll, resolve_of_fault?_eq_none s h.1]
    simp only [ih h.2]
    rfl

end Task

/-! ### Apps -/

namespace App

theorem includeGroups_append {a u : App} {ids : List String}
    (h : (includeGroups s a ids).value = .ok u) (more : List String) :
    includeGroups s a (ids ++ more) = includeGroups s u more := by
  induction ids generalizing a with
  | nil =>
    obtain rfl : a = u := Except.ok.inj h
    rfl
  | cons id rest ih =>
    rw [List.cons_append, includeGroups]
    rw [includeGroups] at h
    cases hgroup : s.taskGroups.fragment? id with
    | none =>
      rw [hgroup] at h
      cases h
    | some group =>
      rw [hgroup] at h
      exact ih h

/-- An app that fails at a task is left with the tasks behind it as they were. -/
theorem resolve_of_missing_in_task {a : App} {before later : List Task} {t : Task}
    {known rest : List String} {id : String} (htasks : a.tasks = before ++ t :: later)
    (hbefore : ∀ r ∈ before.flatMap Task.references, r.FoundIn s)
    (hincludes : t.includes = known ++ id :: rest)
    (hknown : ∀ found ∈ known, (t.referTo found).FoundIn s) (hid : ¬ (t.referTo id).FoundIn s) :
    a.resolve s =
      ⟨.error (t.referTo id).missing,
        { a with
          tasks := before.map (Task.completed s) ++
            { t with includes := known }.completed s :: later }⟩ := by
  have hfaultless := (Task.forall_fault?_eq_none s).mpr hbefore
  rw [resolve, htasks, Task.resolveAll_append s hfaultless, Task.resolveAll,
    Task.resolve_of_missing s hincludes hknown hid]

/-- An app that fails at a group is left like one that includes only the groups in front of it. -/
theorem resolve_of_missing_group {a : App} {known rest : List String} {id : String}
    (htasks : ∀ r ∈ a.tasks.flatMap Task.references, r.FoundIn s)
    (hincludes : a.includes = known ++ id :: rest)
    (hknown : ∀ found ∈ known, (a.referTo found).FoundIn s) (hid : ¬ (a.referTo id).FoundIn s) :
    a.resolve s = ⟨.error (a.referTo id).missing, { a with includes := known }.completed s⟩ := by
  have hown : Task.resolveAll s a.tasks = ⟨.ok (), a.tasks.map (Task.completed s)⟩ :=
    Attempt.eq_of_fault?_eq_none (Task.resolveAll_value s a.tasks)
      (List.findSome?_eq_none_iff.mpr ((Task.forall_fault?_eq_none s).mpr htasks))
  have hfront : (includeGroups s { a with includes := [], tasks := a.tasks.map (Task.completed s) }
      known).value = .ok ({ a with includes := known }.completed s) := by
    have hfind : (known.find? fun found => !s.taskGroups.contains found) = none := by
      simpa using hknown
    rw [includeGroups_value, hfind]
    rfl
  have hmissing : s.taskGroups.fragment? id = none := by
    simpa [Catalog.contains_eq_isSome] using hid
  rw [resolve, hown]
  show includeGroups s _ a.includes = _
  rw [hincludes, includeGroups_append s hfront, includeGroups, hmissing]
  rfl

/-- What a failed resolution leaves of an app, and its error.  The missing id stands in a task, and
then the tasks behind it were not reached, nor the groups; or it stands for a group, and all tasks
are complete. -/
inductive LeavesBehind (a : App) : LoadError → App → Prop
  | inTask {before later : List Task} {t : Task} {known rest : List String} {id : String} :
      a.tasks = before ++ t :: later →
      (∀ r ∈ before.flatMap Task.references, r.FoundIn s) →
      t.includes = known ++ id :: rest →
      (∀ found ∈ known, (t.referTo found).FoundIn s) →
      ¬ (t.referTo id).FoundIn s →
      LeavesBehind a (t.referTo id).missing
        { a with
          tasks := before.map (Task.completed s) ++
            { t with includes := known }.completed s :: later }
  | atGroup {known rest : List String} {id : String} :
      (∀ r ∈ a.tasks.flatMap Task.references, r.FoundIn s) →
      a.includes = known ++ id :: rest →
      (∀ found ∈ known, (a.referTo found).FoundIn s) →
      ¬ (a.referTo id).FoundIn s →
      LeavesBehind a (a.referTo id).missing ({ a with includes := known }.completed s)

theorem LeavesBehind.resolve_eq {a left : App} {e : LoadError} (h : a.LeavesBehind s e left) :
    a.resolve s = ⟨.error e, left⟩ := by
  cases h with
  | inTask htasks hbefore hincludes hknown hid =>
    exact resolve_of_missing_in_task s htasks hbefore hincludes hknown hid
  | atGroup htasks hincludes hknown hid =>
    exact resolve_of_missing_group s htasks hincludes hknown hid

theorem exists_leavesBehind {a : App} {e : LoadError} (h : a.fault? s = some e) :
    ∃ left, a.LeavesBehind s e left := by
  rcases Option.or_eq_some_iff.mp h with htask | ⟨htasks, hgroup⟩
  · obtain ⟨before, t, later, hsplit, ht, hbefore⟩ := List.findSome?_eq_some_iff.mp htask
    obtain ⟨known, id, rest, hincludes, hknown, hid, rfl⟩ := (Task.fault?_eq_some s).mp ht
    have hfaultless := (Task.forall_fault?_eq_none s).mp hbefore
    exact ⟨_, .inTask hsplit hfaultless hincludes (by simpa using hknown) (by simpa using hid)⟩
  · obtain ⟨id, hfirst, rfl⟩ := Option.map_eq_some_iff.mp hgroup
    obtain ⟨hid, known, rest, hincludes, hknown⟩ := List.find?_eq_some_iff_append.mp hfirst
    have hfaultless :=
      (Task.forall_fault?_eq_none s).mp (List.findSome?_eq_none_iff.mp htasks)
    exact ⟨_, .atGroup hfaultless hincludes (by simpa using hknown) (by simpa using hid)⟩

/-- **A failed resolution leaves exactly that.** -/
theorem resolve_eq_error_iff {a left : App} {e : LoadError} :
    a.resolve s = ⟨.error e, left⟩ ↔ a.LeavesBehind s e left := by
  constructor
  · intro h
    have hfault : a.fault? s = some e := resolve_result_eq_error.mp (congrArg Attempt.result h)
    obtain ⟨left', hleft⟩ := exists_leavesBehind s hfault
    rw [hleft.resolve_eq] at h
    obtain rfl : left' = left := congrArg Attempt.after h
    exact hleft
  · exact LeavesBehind.resolve_eq s

/-! ### Which references are left -/

theorem references_of_taskLeft {before later : List Task} {a : App} {t : Task}
    (known : List String) :
    ({ a with
        tasks := before.map (Task.completed s) ++
          { t with includes := known }.completed s :: later } : App).references =
      later.flatMap Task.references ++ a.groupReferences := by
  have hreached : (before.map (Task.completed s)).flatMap Task.references = [] := by
    rw [List.flatMap_map, List.flatMap_eq_nil_iff]
    exact fun _ _ => rfl
  rw [references, List.flatMap_append, List.flatMap_cons, hreached]
  rfl

/-- **A failure loses the references of one list**: the missing one and those behind it.  What stands
behind the list is left. -/
theorem LeavesBehind.exists_references {b : IncludeBuilder} (hs : b.build = .ok s) {a left : App}
    {e : LoadError} (h : a.LeavesBehind s e left) :
    ∃ before r lost, a.references = before ++ r :: (lost ++ left.references) ∧
      (∀ found ∈ before, found.FoundIn s) ∧ ¬ r.FoundIn s ∧ e = r.missing ∧
      ∀ l ∈ lost, l.space = r.space ∧ l.referrer = r.referrer := by
  cases h with
  | @inTask before later t known rest id htasks hbefore hincludes hknown hid =>
    refine ⟨before.flatMap Task.references ++ known.map t.referTo, t.referTo id,
      rest.map t.referTo, ?_, ?_, hid, rfl, ?_⟩
    · rw [references_of_taskLeft]
      simp [references, Task.references, htasks, hincludes]
    · exact List.forall_mem_append.mpr ⟨hbefore, List.forall_mem_map.mpr hknown⟩
    · exact List.forall_mem_map.mpr fun _ _ => ⟨rfl, rfl⟩
  | @atGroup known rest id htasks hincludes hknown hid =>
    refine ⟨a.tasks.flatMap Task.references ++ known.map a.referTo, a.referTo id,
      rest.map a.referTo, ?_, ?_, hid, rfl, ?_⟩
    · rw [references_eq_nil.mpr (resolved_completed hs _)]
      simp [references, groupReferences, hincludes]
    · exact List.forall_mem_append.mpr ⟨htasks, List.forall_mem_map.mpr hknown⟩
    · exact List.forall_mem_map.mpr fun _ _ => ⟨rfl, rfl⟩

/-! ### Whether the failure is noticed -/

/-- An app is not taken for a resolved one: it fails to resolve, or it fails the check. -/
def Noticed (mode : TaskMode) (a : App) : Prop :=
  (a.resolve s).result ≠ .ok () ∨ a.validate mode ≠ .ok ()

/-- Resolving does not notice what checking misses. -/
theorem noticed_iff {mode : TaskMode} {a : App} : a.Noticed s mode ↔ ¬ a.Valid mode := by
  constructor
  · rintro (hresolve | hcheck) hvalid
    · rw [hvalid.resolved.resolve_eq] at hresolve
      exact hresolve rfl
    · exact hcheck (validate_eq_ok.mpr hvalid)
  · intro hinvalid
    right
    rwa [ne_eq, validate_eq_ok]

theorem noticed_of_references {mode : TaskMode} {a : App} (h : a.references ≠ []) :
    a.Noticed s mode :=
  (noticed_iff s).mpr fun hvalid => h (references_eq_nil.mpr hvalid.resolved)

/-- **Whether a failed resolution is noticed.**  What is left of the app is noticed as long as a
reference is left in it.  Without one no store changes it any more, and it is noticed only for a
fault that has nothing to do with references. -/
theorem resolve_leaves_behind {a left : App} {e : LoadError} (h : a.resolve s = ⟨.error e, left⟩) :
    a.LeavesBehind s e left ∧
      (left.references ≠ [] → ∀ mode, left.Noticed s mode) ∧
      (left.references = [] → (∀ other : IncludeStore, left.resolve other = ⟨.ok (), left⟩) ∧
        ∀ mode, left.Noticed s mode ↔
          ¬ (left.name ≠ "" ∧ Task.AllValid left.tasks ∧
            (mode = .single → ∃ t, left.tasks = [t] ∧ t.name = "build"))) := by
  refine ⟨(resolve_eq_error_iff s).mp h, fun hleft _ => noticed_of_references s hleft, ?_⟩
  intro hnone
  have hresolved : left.Resolved := references_eq_nil.mp hnone
  refine ⟨hresolved.resolve_eq, fun mode => ?_⟩
  rw [noticed_iff, not_iff_not]
  constructor
  · intro hvalid
    exact ⟨hvalid.name, hvalid.tasks, hvalid.single⟩
  · rintro ⟨hname, htasks, hsingle⟩
    exact ⟨hname, hresolved.includes, hresolved.taskIncludes, htasks, hsingle⟩

/-- The app fails at its task, where it loses two ids, and once more at its group.  After that there is
nothing to be seen of it. -/
theorem resolve_leaves_behind_shop :
    let a : App :=
      { name := "shop"
        includes := ["ci"]
        tasks := [{ name := "build", command := "make", includes := ["go", "js"] }] }
    let once : App :=
      { name := "shop", includes := ["ci"], tasks := [{ name := "build", command := "make" }] }
    let twice : App := { name := "shop", tasks := [{ name := "build", command := "make" }] }
    a.resolve {} = ⟨.error (.reference "go" .inputOutput "task 'build'"), once⟩ ∧
      (∀ mode, once.Noticed {} mode) ∧
      once.resolve {} = ⟨.error (.reference "ci" .taskGroup "app 'shop'"), twice⟩ ∧
      ∀ other : IncludeStore, twice.resolve other = ⟨.ok (), twice⟩ := by
  intro a once twice
  have hfirst : a.resolve {} = ⟨.error (.reference "go" .inputOutput "task 'build'"), once⟩ := rfl
  have hsecond : once.resolve {} = ⟨.error (.reference "ci" .taskGroup "app 'shop'"), twice⟩ := rfl
  exact ⟨hfirst, (resolve_leaves_behind {} hfirst).2.1 (by decide), hsecond,
    ((resolve_leaves_behind {} hsecond).2.2 rfl).1⟩

/-- An app that includes a group which is missing passes for a resolved one once it failed. -/
theorem not_noticed_of_resolve :
    ¬ ∀ (a : App) (s : IncludeStore) (mode : TaskMode) (e : LoadError),
        (a.resolve s).result = .error e → (a.resolve s).after.Noticed s mode := by
  intro h
  let a : App :=
    { name := "shop", includes := ["ci"], tasks := [{ name := "build", command := "make" }] }
  rcases h a {} .multiple _ rfl with hresolve | hcheck
  · exact hresolve rfl
  · exact hcheck (by decide)

end App

end Failing

end Monorepo
