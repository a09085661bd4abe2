import Monorepo.AppLoader

/-!
# Loading many apps at once

`AppLoader.loadAll` tells what the loading of many apps gives. How it is done is told here step by
step. A caller starts a task for each file and then takes the outcomes of the tasks, both in the
order of the files. A task waits for one of a number of permits, has its file loaded, gives the
permit back and ends. The caller and the tasks act side by side: who takes the next step is left to a
schedule, and so is which of the waiting tasks gets a permit that is free. All this begins only where
there can be so many permits; `AppLoader.loadAllAtOnce` tells what becomes of the program otherwise.
-/

namespace Monorepo

/-- Where a task stands. -/
inductive Stage where
  /-- It waits for a permit. -/
  | waiting
  /-- It has a permit, and its load is handed over but has not begun. -/
  | admitted
  /-- Its file is being loaded. -/
  | running
  /-- Its file was loaded, and it still has the permit. -/
  | loaded (result : Except LoadError App)
  /-- It gave the permit back. -/
  | released (result : Except LoadError App)
  /-- It ended, and its result can be taken. -/
  | finished (result : Except LoadError App)

/-- A task that loads a file. -/
structure Job where
  file : Path
  stage : Stage := .waiting

/-- Who can take a step. -/
inductive Actor where
  | caller
  | task (index : Nat)

/-- The loading of files at some point of time. -/
structure Pool where
  /-- The files to load. -/
  files : List Path
  /-- How many permits no task has. -/
  permits : Nat
  /-- The started tasks, in the order of the files. -/
  jobs : List Job := []
  /-- What the caller took from tasks so far. -/
  taken : List LoadedApp := []

namespace Stage

/-- The step of a task whose load gives a result, with the free permits before and after it. There is
none without a permit, if the task needs one, and none from the end. -/
def next (result : Except LoadError App) : Stage → Nat → Option (Stage × Nat)
  | .waiting, 0 => none
  | .waiting, permits + 1 => some (.admitted, permits)
  | .admitted, permits => some (.running, permits)
  | .running, permits => some (.loaded result, permits)
  | .loaded result, permits => some (.released result, permits + 1)
  | .released result, permits => some (.finished result, permits)
  | .finished _, _ => none

/-- The result that can be taken. -/
def result? : Stage → Option (Except LoadError App)
  | .finished result => some result
  | _ => none

def isRunning : Stage → Bool
  | .running => true
  | _ => false

end Stage

namespace Pool

/-- The loading of files that has not begun, with a permit for each load that may run at a time. There
is always one. -/
def start (files : List Path) (parallelism : Nat) : Pool where
  files := files
  permits := max parallelism 1

/-- How many loads run. -/
def running (p : Pool) : Nat :=
  p.jobs.countP (·.stage.isRunning)

/-- The caller starts the task of the next file or, once there are all tasks, takes the result of the
next one that it has not taken. It waits while that task has not ended. -/
def callerStep (p : Pool) : Option Pool :=
  match p.files[p.jobs.length]? with
  | some file => some { p with jobs := p.jobs ++ [{ file := file }] }
  | none => do
    let (file, job) ← (p.files.zip p.jobs)[p.taken.length]?
    let result ← job.stage.result?
    return { p with taken := p.taken ++ [⟨file, result⟩] }

/-- The step of a task. -/
def taskStep (loader : AppLoader) (d : Disk) (p : Pool) (index : Nat) : Option Pool := do
  let job ← p.jobs[index]?
  let (stage, permits) ← job.stage.next (loader.load d job.file) p.permits
  return { p with permits := permits, jobs := p.jobs.set index { job with stage := stage } }

/-- The step of an actor, if it can take one. -/
def step (loader : AppLoader) (d : Disk) (p : Pool) : Actor → Option Pool
  | .caller => p.callerStep
  | .task index => p.taskStep loader d index

/-- The steps of a schedule, if each can be taken in its turn. -/
def run (loader : AppLoader) (d : Disk) (p : Pool) : List Actor → Option Pool
  | [] => some p
  | actor :: rest => (p.step loader d actor).bind (run loader d · rest)

/-- What the caller returns when there is nothing left to take. -/
def returned? (p : Pool) : Option (List LoadedApp) :=
  if p.files.length ≤ p.jobs.length ∧ (p.files.zip p.jobs).length ≤ p.taken.length then
    some p.taken
  else none

end Pool

end Monorepo
