import Mathlib.Algebra.BigOperators.Group.List.Basic
import Mathlib.Algebra.GroupWithZero.Nat
import Mathlib.Algebra.Order.BigOperators.Group.List
import Monorepo.AppLoader.Pool
import Monorepo.Proofs.Loading

/-!
# Every schedule gives the same

A `Pool` may take its steps in many orders.  None of them matters for what the caller returns:

* `Pool.Steps` — the three kinds of steps, each with what makes it possible;
* `Pool.Sound` — what every step keeps: no permit gets lost, tasks and taken results stand in the
  order of the files, and a result is that of loading the file on its own;
* `Pool.age` — how many steps were taken, which a pool tells by where its tasks stand;
* `AppLoader.loadAll_of_schedule` — no schedule lets too many loads run, gets stuck or goes on
  forever, and what the caller returns is `AppLoader.loadAll`.
-/

namespace Monorepo

/-! ### One task -/

namespace Stage

/-- How many permits a task has. -/
def held : Stage → Nat
  | .admitted => 1
  | .running => 1
  | .loaded _ => 1
  | _ => 0

/-- How many steps were taken for a task, the one that started it included. -/
def age : Stage → Nat
  | .waiting => 1
  | .admitted => 2
  | .running => 3
  | .loaded _ => 4
  | .released _ => 5
  | .finished _ => 6

/-- The result of the load, once it is over. -/
def outcome? : Stage → Option (Except LoadError App)
  | .loaded result => some result
  | .released result => some result
  | .finished result => some result
  | _ => none

/-- What a step changes about a task and the free permits. -/
structure Advances (result : Except LoadError App) (before : Stage) (permits : Nat)
    (after : Stage) (permits' : Nat) : Prop where
  unfinished : before.result? = none
  permits : permits' + after.held = permits + before.held
  age : after.age = before.age + 1
  outcome : after.outcome? = before.outcome? ∨ after.outcome? = some result

theorem advances_of_next {result : Except LoadError App} {before after : Stage}
    {permits permits' : Nat} (h : before.next result permits = some (after, permits')) :
    before.Advances result permits after permits' := by
  cases before with
  | waiting =>
    cases permits with
    | zero => cases h
    | succ permits =>
      cases h
      exact ⟨rfl, rfl, rfl, .inl rfl⟩
  | admitted => cases h; exact ⟨rfl, rfl, rfl, .inl rfl⟩
  | running => cases h; exact ⟨rfl, rfl, rfl, .inr rfl⟩
  | loaded r => cases h; exact ⟨rfl, rfl, rfl, .inl rfl⟩
  | released r => cases h; exact ⟨rfl, rfl, rfl, .inl rfl⟩
  | finished r => cases h

/-- A task that has not ended can take a step, unless it waits for a permit and there is none. -/
theorem exists_next (result : Except LoadError App) {stage : Stage} {permits : Nat}
    (hunfinished : stage.result? = none) (hpermit : stage = .waiting → 0 < permits) :
    ∃ after permits', stage.next result permits = some (after, permits') := by
  cases stage with
  | waiting =>
    obtain ⟨n, rfl⟩ := Nat.exists_eq_succ_of_ne_zero (hpermit rfl).ne'
    exact ⟨_, _, rfl⟩
  | admitted => exact ⟨_, _, rfl⟩
  | running => exact ⟨_, _, rfl⟩
  | loaded r => exact ⟨_, _, rfl⟩
  | released r => exact ⟨_, _, rfl⟩
  | finished r => cases hunfinished

theorem age_le (stage : Stage) : stage.age ≤ 6 := by
  cases stage <;> simp [age]

theorem outcome?_of_result? {stage : Stage} {result : Except LoadError App}
    (h : stage.result? = some result) : stage.outcome? = some result := by
  cases stage <;> first | exact h | cases h

theorem held_le_one (stage : Stage) : stage.held ≤ 1 := by
  cases stage <;> simp [held]

theorem held_of_isRunning {stage : Stage} (h : stage.isRunning = true) : stage.held = 1 := by
  cases stage <;> first | rfl | cases h

theorem unfinished_of_held {stage : Stage} (h : stage.held = 1) : stage.result? = none := by
  cases stage <;> first | rfl | cases h

end Stage

/-! ### Steps -/

/-- A sum over a list in which one element is replaced. -/
theorem sum_map_set {α : Type} (f : α → Nat) {l : List α} {i : Nat} {a : α} (b : α)
    (h : l[i]? = some a) : ((l.set i b).map f).sum + f a = (l.map f).sum + f b := by
  induction l generalizing i with
  | nil => simp at h
  | cons x rest ih =>
    cases i with
    | zero =>
      simp only [List.getElem?_cons_zero, Option.some.injEq] at h
      simp only [List.set_cons_zero, List.map_cons, List.sum_cons, h]
      omega
    | succ i =>
      have hrest := ih (by simpa using h)
      simp only [List.set_cons_succ, List.map_cons, List.sum_cons]
      omega

namespace Pool

variable (loader : AppLoader) (d : Disk)

/-- The steps that a pool can take: the caller starts a task or takes a result, or a task goes on. -/
inductive Steps (p : Pool) : Actor → Pool → Prop where
  | spawn (file : Path) (hfile : p.files[p.jobs.length]? = some file) :
    Steps p .caller { p with jobs := p.jobs ++ [{ file := file }] }
  | take (file : Path) (job : Job) (result : Except LoadError App)
    (hall : p.files[p.jobs.length]? = none)
    (hnext : (p.files.zip p.jobs)[p.taken.length]? = some (file, job))
    (hresult : job.stage.result? = some result) :
    Steps p .caller { p with taken := p.taken ++ [⟨file, result⟩] }
  | task (index : Nat) (job : Job) (stage : Stage) (permits : Nat)
    (hjob : p.jobs[index]? = some job)
    (hnext : job.stage.next (loader.load d job.file) p.permits = some (stage, permits)) :
    Steps p (.task index)
      { p with permits := permits, jobs := p.jobs.set index { job with stage := stage } }

theorem step_eq_some {p q : Pool} {actor : Actor} :
    p.step loader d actor = some q ↔ p.Steps loader d actor q := by
  constructor
  · intro h
    cases actor with
    | caller =>
      rw [step, callerStep] at h
      cases hfile : p.files[p.jobs.length]? with
      | some file =>
        rw [hfile] at h
        cases h
        exact .spawn file hfile
      | none =>
        simp only [hfile, Option.bind_eq_bind, Option.bind_eq_some_iff] at h
        obtain ⟨⟨file, job⟩, hnext, result, hresult, hq⟩ := h
        cases hq
        exact .take file job result hfile hnext hresult
    | task index =>
      simp only [step, taskStep, Option.bind_eq_bind, Option.bind_eq_some_iff] at h
      obtain ⟨job, hjob, ⟨stage, permits⟩, hnext, hq⟩ := h
      cases hq
      exact .task index job stage permits hjob hnext
  · intro h
    cases h with
    | spawn file hfile => simp [step, callerStep, hfile]
    | take file job result hall hnext hresult => simp [step, callerStep, hall, hnext, hresult]
    | task index job stage permits hjob hnext => simp [step, taskStep, hjob, hnext]

/-- How many permits the tasks have. -/
def held (p : Pool) : Nat :=
  (p.jobs.map (·.stage.held)).sum

/-- How many steps were taken. -/
def age (p : Pool) : Nat :=
  (p.jobs.map (·.stage.age)).sum + p.taken.length

/-- Each step is counted. -/
theorem Steps.age {p q : Pool} {actor : Actor} (h : p.Steps loader d actor q) :
    q.age = p.age + 1 := by
  cases h with
  | spawn file hfile =>
    simp only [Pool.age, List.map_append, List.map_cons, List.map_nil, List.sum_append,
      List.sum_singleton, Stage.age]
    omega
  | take file job result hall hnext hresult =>
    simp only [Pool.age, List.length_append, List.length_singleton]
    omega
  | task index job stage permits hjob hnext =>
    have hsum := sum_map_set (·.stage.age) { job with stage := stage } hjob
    have hage := (Stage.advances_of_next hnext).age
    simp only [Pool.age] at hsum ⊢
    omega

/-! ### What every step keeps -/

/-- What is true of the loading of files at any time. -/
structure Sound (files : List Path) (parallelism : Nat) (p : Pool) : Prop where
  sameFiles : p.files = files
  permits : p.permits + p.held = max parallelism 1
  started : p.jobs.map Job.file = files.take p.jobs.length
  outcomes : ∀ job ∈ p.jobs, ∀ result,
    job.stage.outcome? = some result → result = loader.load d job.file
  taken : p.taken = (loader.loadAll d files).take p.taken.length

variable {loader d} {files : List Path} {parallelism : Nat}

theorem sound_start : (start files parallelism).Sound loader d files parallelism where
  sameFiles := rfl
  permits := rfl
  started := rfl
  outcomes := by simp [start]
  taken := rfl

/-- The task of a file stands where the file stands. -/
theorem Sound.file_eq {p : Pool} (h : p.Sound loader d files parallelism) {i : Nat} {job : Job}
    {file : Path} (hjob : p.jobs[i]? = some job) (hfile : files[i]? = some file) :
    job.file = file := by
  have hi : i < p.jobs.length := (List.getElem?_eq_some_iff.mp hjob).1
  have hmapped : (p.jobs.map Job.file)[i]? = some job.file := by rw [List.getElem?_map, hjob]; rfl
  rw [h.started, List.getElem?_take_of_lt hi, hfile] at hmapped
  exact (Option.some.inj hmapped).symm

theorem Sound.spawn {p : Pool} (h : p.Sound loader d files parallelism) {file : Path}
    (hfile : p.files[p.jobs.length]? = some file) :
    Sound loader d files parallelism { p with jobs := p.jobs ++ [{ file := file }] } where
  sameFiles := h.sameFiles
  permits := by
    simp only [held, List.map_append, List.map_cons, List.map_nil, List.sum_append,
      List.sum_singleton, Stage.held]
    exact h.permits
  started := by
    rw [h.sameFiles] at hfile
    rw [List.map_append, h.started, List.length_append, List.length_singleton, List.take_add_one,
      hfile]
    rfl
  outcomes := by
    intro job hjob result hresult
    rcases List.mem_append.mp hjob with hold | hnew
    · exact h.outcomes job hold result hresult
    · rw [List.mem_singleton.mp hnew] at hresult
      cases hresult
  taken := h.taken

theorem Sound.take {p : Pool} (h : p.Sound loader d files parallelism) {file : Path} {job : Job}
    {result : Except LoadError App}
    (hnext : (p.files.zip p.jobs)[p.taken.length]? = some (file, job))
    (hresult : job.stage.result? = some result) :
    Sound loader d files parallelism { p with taken := p.taken ++ [⟨file, result⟩] } where
  sameFiles := h.sameFiles
  permits := h.permits
  started := h.started
  outcomes := h.outcomes
  taken := by
    obtain ⟨hfile, hjob⟩ := List.getElem?_zip_eq_some.mp hnext
    rw [h.sameFiles] at hfile
    have houtcome := h.outcomes job (List.mem_of_getElem? hjob) result
      (Stage.outcome?_of_result? hresult)
    rw [h.file_eq hjob hfile] at houtcome
    have hloaded : (loader.loadAll d files)[p.taken.length]? = some ⟨file, result⟩ := by
      rw [AppLoader.loadAll, List.getElem?_map, hfile, houtcome]
      rfl
    rw [List.length_append, List.length_singleton, List.take_add_one, ← h.taken, hloaded]
    rfl

theorem Sound.task {p : Pool} (h : p.Sound loader d files parallelism) {i permits : Nat}
    {job : Job} {stage : Stage} (hjob : p.jobs[i]? = some job)
    (hnext : job.stage.next (loader.load d job.file) p.permits = some (stage, permits)) :
    Sound loader d files parallelism
      { p with permits := permits, jobs := p.jobs.set i { job with stage := stage } } where
  sameFiles := h.sameFiles
  permits := by
    have hsum := sum_map_set (·.stage.held) { job with stage := stage } hjob
    have hstage := (Stage.advances_of_next hnext).permits
    have hbefore := h.permits
    simp only [held] at hsum hbefore ⊢
    omega
  started := by
    obtain ⟨hi, hget⟩ := List.getElem?_eq_some_iff.mp hjob
    have hmapped : i < (p.jobs.map Job.file).length := by simpa using hi
    have hfile : (p.jobs.map Job.file)[i] = job.file := by simp [hget]
    rw [List.map_set, List.length_set, ← h.started]
    show (p.jobs.map Job.file).set i job.file = _
    rw [← hfile, List.set_getElem_self]
  outcomes := by
    intro other hother result hresult
    rcases List.mem_or_eq_of_mem_set hother with hold | rfl
    · exact h.outcomes other hold result hresult
    · rcases (Stage.advances_of_next hnext).outcome with hsame | hnew
      · exact h.outcomes job (List.mem_of_getElem? hjob) result (hsame ▸ hresult)
      · exact Option.some.inj (hresult.symm.trans hnew)
  taken := h.taken

theorem Sound.steps {p q : Pool} {actor : Actor} (h : p.Sound loader d files parallelism)
    (hstep : p.Steps loader d actor q) : q.Sound loader d files parallelism := by
  cases hstep with
  | spawn file hfile => exact h.spawn hfile
  | take file job result hall hnext hresult => exact h.take hnext hresult
  | task index job stage permits hjob hnext => exact h.task hjob hnext

/-- A run keeps what each step keeps, and is as long as its schedule. -/
theorem Sound.run {p q : Pool} {schedule : List Actor} (h : p.Sound loader d files parallelism)
    (hrun : p.run loader d schedule = some q) :
    q.Sound loader d files parallelism ∧ q.age = p.age + schedule.length := by
  induction schedule generalizing p with
  | nil =>
    cases hrun
    exact ⟨h, rfl⟩
  | cons actor rest ih =>
    obtain ⟨next, hnext, hrest⟩ := Option.bind_eq_some_iff.mp hrun
    have hstep := (step_eq_some loader d).mp hnext
    obtain ⟨hsound, hage⟩ := ih (h.steps hstep) hrest
    refine ⟨hsound, ?_⟩
    rw [hage, hstep.age, List.length_cons]
    omega

/-! ### What follows at any time -/

theorem countP_isRunning_le (jobs : List Job) :
    jobs.countP (·.stage.isRunning) ≤ (jobs.map (·.stage.held)).sum := by
  induction jobs with
  | nil => exact Nat.zero_le _
  | cons job rest ih =>
    rw [List.countP_cons, List.map_cons, List.sum_cons]
    split
    · rename_i hrunning
      rw [Stage.held_of_isRunning hrunning]
      omega
    · omega

/-- Loads run only with a permit. -/
theorem Sound.running_le {p : Pool} (h : p.Sound loader d files parallelism) :
    p.running ≤ max parallelism 1 := by
  have hpermits := h.permits
  have hcount : p.running ≤ p.held := countP_isRunning_le p.jobs
  omega

theorem Sound.length_jobs_le {p : Pool} (h : p.Sound loader d files parallelism) :
    p.jobs.length ≤ files.length := by
  have hlength := congrArg List.length h.started
  rw [List.length_map, List.length_take] at hlength
  omega

theorem Sound.length_taken_le {p : Pool} (h : p.Sound loader d files parallelism) :
    p.taken.length ≤ files.length := by
  have hlength := congrArg List.length h.taken
  rw [List.length_take, AppLoader.loadAll, List.length_map] at hlength
  omega

theorem sum_age_le (jobs : List Job) : (jobs.map (·.stage.age)).sum ≤ 6 * jobs.length := by
  induction jobs with
  | nil => exact Nat.le_refl 0
  | cons job rest ih =>
    have hage := job.stage.age_le
    rw [List.map_cons, List.sum_cons, List.length_cons]
    omega

theorem Sound.age_le {p : Pool} (h : p.Sound loader d files parallelism) :
    p.age ≤ 7 * files.length := by
  have hsum := sum_age_le p.jobs
  have hjobs := h.length_jobs_le
  have htaken := h.length_taken_le
  rw [age]
  omega

/-- A task that has not ended can take a step unless it waits for a permit and has none. -/
theorem exists_step_task {p : Pool} {i : Nat} {job : Job} (hjob : p.jobs[i]? = some job)
    (hunfinished : job.stage.result? = none) (hpermit : job.stage = .waiting → 0 < p.permits) :
    ∃ q, p.step loader d (.task i) = some q := by
  obtain ⟨stage, permits, hnext⟩ :=
    Stage.exists_next (loader.load d job.file) hunfinished hpermit
  exact ⟨_, (step_eq_some loader d).mpr (.task i job stage permits hjob hnext)⟩

/-- While a task waits in vain, one that has a permit goes on. -/
theorem Sound.exists_step {p : Pool} (h : p.Sound loader d files parallelism) {i : Nat} {job : Job}
    (hjob : p.jobs[i]? = some job) (hunfinished : job.stage.result? = none) :
    (∃ q, p.step loader d (.task i) = some q) ∨
      job.stage = .waiting ∧ ∃ k other q, p.jobs[k]? = some other ∧ other.stage.held = 1 ∧
        p.step loader d (.task k) = some q := by
  by_cases hpermit : job.stage = .waiting → 0 < p.permits
  · left
    exact exists_step_task hjob hunfinished hpermit
  · right
    push Not at hpermit
    obtain ⟨hwaiting, hnone⟩ := hpermit
    have hheld : (p.jobs.map (·.stage.held)).sum ≠ 0 := by
      have hpermits := h.permits
      rw [held] at hpermits
      omega
    obtain ⟨amount, hmem, hamount⟩ := List.exists_mem_ne_zero_of_sum_ne_zero hheld
    obtain ⟨other, hother, rfl⟩ := List.mem_map.mp hmem
    obtain ⟨k, hk⟩ := List.mem_iff_getElem?.mp hother
    have hone : other.stage.held = 1 := by
      have := other.stage.held_le_one
      omega
    obtain ⟨q, hq⟩ := exists_step_task hk (Stage.unfinished_of_held hone) fun hwaits => by
      simp [hwaits, Stage.held] at hone
    exact ⟨hwaiting, k, other, q, hk, hone, hq⟩

/-- The caller takes the next result once all tasks are there and that one has ended. -/
theorem Sound.exists_take {p : Pool} (h : p.Sound loader d files parallelism)
    (hall : p.jobs.length = files.length)
    (hfinished : ∀ job ∈ p.jobs, ∃ result, job.stage.result? = some result)
    (hleft : p.taken.length < files.length) :
    ∃ q, p.step loader d .caller = some q ∧ q.jobs = p.jobs ∧
      q.taken.length = p.taken.length + 1 := by
  have hjobLeft : p.taken.length < p.jobs.length := hall ▸ hleft
  obtain ⟨result, hresult⟩ := hfinished p.jobs[p.taken.length] (List.getElem_mem hjobLeft)
  refine ⟨_, (step_eq_some loader d).mpr
    (.take files[p.taken.length] p.jobs[p.taken.length] result ?_ ?_ hresult), rfl, by simp⟩
  · rw [h.sameFiles, List.getElem?_eq_none_iff]
    exact hall.ge
  · rw [List.getElem?_zip_eq_some, h.sameFiles]
    exact ⟨List.getElem?_eq_getElem hleft, List.getElem?_eq_getElem hjobLeft⟩

/-- What is returned is what loading the files one after another gives. -/
theorem Sound.returned?_eq {p : Pool} (h : p.Sound loader d files parallelism)
    {results : List LoadedApp} (hreturned : p.returned? = some results) :
    results = loader.loadAll d files := by
  rw [returned?] at hreturned
  split at hreturned
  · rename_i hdone
    cases hreturned
    rw [List.length_zip, h.sameFiles] at hdone
    rw [h.taken, List.take_of_length_le]
    rw [AppLoader.loadAll, List.length_map]
    omega
  · cases hreturned

theorem Sound.returned?_eq_none {p : Pool} (h : p.Sound loader d files parallelism)
    (hall : p.jobs.length = files.length) :
    p.returned? = none ↔ p.taken.length < files.length := by
  rw [returned?, List.length_zip, h.sameFiles]
  split
  · simp only [reduceCtorEq, false_iff]
    omega
  · simp only [true_iff]
    omega

/-- Once all tasks have ended, the caller needs no one else to return. -/
theorem Sound.exists_return {p : Pool} (h : p.Sound loader d files parallelism)
    (hall : p.jobs.length = files.length)
    (hfinished : ∀ job ∈ p.jobs, ∃ result, job.stage.result? = some result) :
    ∃ steps q, p.run loader d (List.replicate steps .caller) = some q ∧
      q.returned? = some (loader.loadAll d files) := by
  -- By induction on the number of results that the caller has not taken yet.
  induction hleft : files.length - p.taken.length generalizing p with
  | zero =>
    refine ⟨0, p, rfl, ?_⟩
    cases hreturned : p.returned? with
    | none =>
      have := (h.returned?_eq_none hall).mp hreturned
      omega
    | some results => rw [h.returned?_eq hreturned]
  | succ left ih =>
    obtain ⟨next, hstep, hjobs, htaken⟩ := h.exists_take hall hfinished (by omega)
    obtain ⟨steps, q, hrun, hreturned⟩ := ih (h.steps ((step_eq_some loader d).mp hstep))
      (hjobs ▸ hall) (hjobs ▸ hfinished) (by omega)
    exact ⟨steps + 1, q, Option.bind_eq_some_iff.mpr ⟨next, hstep, hrun⟩, hreturned⟩

/-- As long as nothing was returned, someone can take a step. -/
theorem Sound.exists_actor {p : Pool} (h : p.Sound loader d files parallelism)
    (hreturned : p.returned? = none) : ∃ actor q, p.step loader d actor = some q := by
  rcases h.length_jobs_le.lt_or_eq with hlt | hall
  · have hfile : p.files[p.jobs.length]? = some files[p.jobs.length] := by
      rw [h.sameFiles, List.getElem?_eq_getElem hlt]
    exact ⟨.caller, _, (step_eq_some loader d).mpr (.spawn _ hfile)⟩
  · by_cases hfinished : ∀ job ∈ p.jobs, ∃ result, job.stage.result? = some result
    · obtain ⟨q, hq, -⟩ := h.exists_take hall hfinished ((h.returned?_eq_none hall).mp hreturned)
      exact ⟨.caller, q, hq⟩
    · push Not at hfinished
      obtain ⟨job, hmem, hresult⟩ := hfinished
      obtain ⟨i, hjob⟩ := List.mem_iff_getElem?.mp hmem
      rcases h.exists_step hjob (Option.eq_none_iff_forall_ne_some.mpr hresult) with
        ⟨q, hq⟩ | ⟨-, k, other, q, -, -, hq⟩
      · exact ⟨.task i, q, hq⟩
      · exact ⟨.task k, q, hq⟩

/-- Whatever steps were taken, there are more with which the caller returns. -/
theorem Sound.exists_completion {p : Pool} (h : p.Sound loader d files parallelism) :
    ∃ rest q, p.run loader d rest = some q ∧ q.returned? = some (loader.loadAll d files) := by
  cases hreturned : p.returned? with
  | some results =>
    rw [h.returned?_eq hreturned] at hreturned
    exact ⟨[], p, rfl, hreturned⟩
  | none =>
    obtain ⟨actor, next, hstep⟩ := h.exists_actor hreturned
    have hsteps := (step_eq_some loader d).mp hstep
    have hage := hsteps.age
    have hbound := (h.steps hsteps).age_le
    obtain ⟨rest, q, hrun, hlast⟩ := (h.steps hsteps).exists_completion
    exact ⟨actor :: rest, q, Option.bind_eq_some_iff.mpr ⟨next, hstep, hrun⟩, hlast⟩
-- There are fewer steps left after each.
termination_by 7 * files.length - p.age

end Pool

/-- **Every schedule gives what loading the files one by one gives.**  However the caller and the
tasks take their steps, no more loads run at a time than there may be.  A task that has not ended can
go on, or waits for a permit while one that has a permit can go on; until the caller has returned,
someone can go on; and there are never more than seven steps for each file.  Once all tasks have
ended, the caller returns without them, and whatever it returns has an outcome for each file, in the
order of the files, that is the outcome of loading just that file. -/
theorem AppLoader.loadAll_of_schedule {loader : AppLoader} {d : Disk} {files : List Path}
    {parallelism : Nat} {schedule : List Actor} {p : Pool}
    (hrun : (Pool.start files parallelism).run loader d schedule = some p) :
    p.running ≤ max parallelism 1 ∧
      (∀ i job, p.jobs[i]? = some job → job.stage.result? = none →
        (∃ q, p.step loader d (.task i) = some q) ∨
          job.stage = .waiting ∧ ∃ k other q, p.jobs[k]? = some other ∧ other.stage.held = 1 ∧
            p.step loader d (.task k) = some q) ∧
      (p.returned? = none → ∃ actor q, p.step loader d actor = some q) ∧
      schedule.length ≤ 7 * files.length ∧
      (p.jobs.length = files.length →
        (∀ job ∈ p.jobs, ∃ result, job.stage.result? = some result) →
        ∃ steps q, p.run loader d (List.replicate steps .caller) = some q ∧
          q.returned? = some (files.map fun file => ⟨file, loader.load d file⟩)) ∧
      ∀ results, p.returned? = some results →
        results = files.map fun file => ⟨file, loader.load d file⟩ := by
  obtain ⟨h, hage⟩ := Pool.sound_start.run hrun
  refine ⟨h.running_le, fun i job => h.exists_step, h.exists_actor, ?_, h.exists_return,
    fun results => h.returned?_eq⟩
  have hbound := h.age_le
  have hstart : (Pool.start files parallelism).age = 0 := rfl
  omega

/-- Three tasks with one permit between them, for one file twice and one that is missing.  The second
task comes first, and the third is started while the second has its file loaded. -/
theorem AppLoader.loadAll_of_schedule_one_permit :
    let loader : AppLoader := ⟨sampleStore, .multiple⟩
    let files : List Path := [⟨"app.toml"⟩, ⟨"none.toml"⟩, ⟨"app.toml"⟩]
    let schedule : List Actor :=
      [.caller, .caller, .task 1, .task 1, .caller, .task 1, .task 1, .task 2, .task 1, .task 2,
        .task 2, .task 2, .task 0, .task 0, .task 0, .task 2, .task 0, .task 0, .caller, .caller,
        .caller]
    ∃ p results, (Pool.start files 0).run loader sampleDisk schedule = some p ∧
      p.running ≤ 1 ∧
      p.returned? = some results ∧
      results = files.map (fun file => ⟨file, loader.load sampleDisk file⟩) ∧
      (results.map fun loaded => loaded.result.toOption.isSome) = [true, false, true] := by
  intro loader files schedule
  have hreturns : ∃ results,
      ((Pool.start files 0).run loader sampleDisk schedule).bind Pool.returned? = some results :=
    Option.isSome_iff_exists.mp (by decide +kernel)
  obtain ⟨results, hresults⟩ := hreturns
  obtain ⟨p, hrun, hreturned⟩ := Option.bind_eq_some_iff.mp hresults
  obtain ⟨hrunning, -, -, -, -, hall⟩ := loadAll_of_schedule hrun
  have hresultsEq := hall results hreturned
  refine ⟨p, results, hrun, hrunning, hreturned, hresultsEq, ?_⟩
  rw [hresultsEq]
  decide +kernel

end Monorepo
