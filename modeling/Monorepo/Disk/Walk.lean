import Monorepo.Disk
import Monorepo.LoadError

/-!
# Walking directories

A walk visits the entries below a directory that are no directories, in the order of their paths.
`Disk.walk` says which paths a walk meets and how it ends, and `Walk.visit` runs a visitor over
them, who may end the walk early.

Where links are followed, a walk goes on at the target of a link. A link to a directory above it
makes such a walk endless.
-/

namespace Monorepo

/-- What a walk does about links. -/
inductive LinkMode where
  /-- Go on at the target. -/
  | follow
  /-- End the walk. -/
  | refuse
  deriving DecidableEq, Repr

/-- How a walk ends. -/
inductive Ending where
  /-- There is nothing left to visit. -/
  | complete
  | failed (error : LoadError)
  /-- The walk comes back to a directory inside itself. -/
  | endless
  deriving DecidableEq, Repr

/-- The paths that a walk meets in order, and how it ends after them. -/
structure Walk where
  paths : List Path
  ending : Ending
  deriving DecidableEq, Repr

namespace Walk

/-- A walk that fails at once. -/
def failing (error : LoadError) : Walk :=
  ⟨[], .failed error⟩

/-- The walks over paths in order, up to the first that does not complete. -/
def inOrder (walkOver : Path → Walk) : List Path → Walk
  | [] => ⟨[], .complete⟩
  | path :: rest =>
    match walkOver path with
    | ⟨paths, .complete⟩ =>
      let others := inOrder walkOver rest
      ⟨paths ++ others.paths, others.ending⟩
    | stopped => stopped

/-- Visits paths in order, up to the first that the visitor rejects. -/
def visitPaths {σ : Type} (visitor : σ → Path → Except LoadError σ) :
    List Path → σ → σ × Except LoadError Unit
  | [], state => (state, .ok ())
  | path :: rest, state =>
    match visitor state path with
    | .ok next => visitPaths visitor rest next
    | .error error => (state, .error error)

/-- Visits the paths of a walk. A rejected path ends it. -/
def visit {σ : Type} (visitor : σ → Path → Except LoadError σ) (walk : Walk) (state : σ) :
    σ × Ending :=
  match visitPaths visitor walk.paths state with
  | (state, .ok ()) => (state, walk.ending)
  | (state, .error error) => (state, .failed error)

end Walk

namespace Disk

/-- The walk over one entry, where `into` walks a directory. -/
def walkEntry (d : Disk) (mode : LinkMode) (into : Path → Walk) (p : Path) : Walk :=
  match d.linkEntry p, mode with
  | .error fault, _ => .failing (.io p fault)
  | .ok (.link _), .refuse => .failing (.symlink p)
  | .ok (.link _), .follow =>
    match d.canonical p with
    | .error fault => .failing (.io p fault)
    | .ok target =>
      match d.entry target with
      | .error fault => .failing (.io target fault)
      | .ok entry => if entry.isDirectory then into target else ⟨[target], .complete⟩
  | .ok entry, _ => if entry.isDirectory then into p else ⟨[p], .complete⟩

/-- The walk over a directory whose directories are nested at most this deep. -/
def walkWithin (d : Disk) (mode : LinkMode) : Nat → Path → Walk
  | 0, _ => ⟨[], .endless⟩
  | depth + 1, dir =>
    match d.list dir with
    | .error fault => .failing (.io dir fault)
    | .ok entries =>
      .inOrder (d.walkEntry mode (d.walkWithin mode depth)) (Path.sort entries)

/-- The walk over a directory. It comes to a directory under the names that lead there from where it
starts or, behind a link, under its path without links. A walk that is nested deeper than there are
such paths has come back to a directory inside itself, and never ends. -/
def walk (d : Disk) (mode : LinkMode) (dir : Path) : Walk :=
  d.walkWithin mode (2 * (d.tree.entries.length + 1)) dir

end Disk

end Monorepo
