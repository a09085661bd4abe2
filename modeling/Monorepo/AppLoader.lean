import Monorepo.ConfigFile
import Monorepo.Resolve

/-!
# Loading apps

An app file is read, its blank outputs are dropped, its includes are resolved and the result is
checked. The first error ends the loading of that app, but not that of others.

Many apps are loaded at a time, with a permit for each. There is a greatest number of permits; to ask
for more is no error that a caller is told of, but ends the program.
-/

namespace Monorepo

/-- What apps are loaded with. -/
structure AppLoader where
  store : IncludeStore
  taskMode : TaskMode
  deriving Repr, Inhabited

/-- An app file with its app, or why there is none. -/
structure LoadedApp where
  file : Path
  result : Except LoadError App

/-- What ends the program where it stands. -/
inductive Panic where
  | tooManyPermits
  deriving DecidableEq, Repr

/-- The greatest number of permits that there can be: an eighth of the greatest number of a word. -/
def permitLimit : Nat :=
  (Nat.pow 2 64 - 1) / 8

/-- What is said when the program ends. -/
def Panic.message : Panic → String
  | .tooManyPermits =>
    "a semaphore may not have more than MAX_PERMITS permits (" ++ toString permitLimit ++ ")"

namespace AppLoader

/-- The complete app of what a file holds. -/
def complete (loader : AppLoader) (file : Path) (written : App) : Except LoadError App := do
  let app ← match (written.prune.resolve loader.store).value with
    | .ok app => .ok app
    | .error error => .error (.inFile "resolving includes of" file error)
  match app.validate loader.taskMode with
  | .ok () => return app
  | .error violation => throw (.inFile "validating app config" file (.invalid violation))

/-- The app of a file. -/
def load (loader : AppLoader) (d : Disk) (file : Path) : Except LoadError App := do
  loader.complete file (← ConfigFile.read App d file)

/-- The apps of files, each with its own outcome, in the order of the files. -/
def loadAll (loader : AppLoader) (d : Disk) (files : List Path) : List LoadedApp :=
  files.map fun file => ⟨file, loader.load d file⟩

/-- The apps of files, so many of them loaded at a time. There is always one. -/
def loadAllAtOnce (loader : AppLoader) (d : Disk) (files : List Path) (parallelism : Nat) :
    Except Panic (List LoadedApp) :=
  if permitLimit < max parallelism 1 then .error .tooManyPermits
  else .ok (loader.loadAll d files)

theorem loadAllAtOnce_of_le (loader : AppLoader) (d : Disk) (files : List Path) {parallelism : Nat}
    (h : parallelism ≤ permitLimit) :
    loader.loadAllAtOnce d files parallelism = .ok (loader.loadAll d files) :=
  if_neg (Nat.not_lt_of_le (Nat.max_le.mpr ⟨h, by decide⟩))

theorem loadAllAtOnce_of_lt (loader : AppLoader) (d : Disk) (files : List Path) {parallelism : Nat}
    (h : permitLimit < parallelism) :
    loader.loadAllAtOnce d files parallelism = .error .tooManyPermits :=
  if_pos (Nat.lt_of_lt_of_le h (Nat.le_max_left _ _))

end AppLoader

end Monorepo
