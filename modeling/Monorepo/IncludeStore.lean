import Monorepo.Catalog
import Monorepo.LoadError
import Monorepo.Model.Include

/-!
# The include store

All fragments that tasks and apps may include, by kind and id. Inputs and outputs share one space
of ids, so an id names at most one of them; groups of tasks have a space of their own.
-/

namespace Monorepo

/-- What an include defines. -/
inductive FragmentKind where
  | input
  | output
  | taskGroup
  deriving DecidableEq, Repr

/-- The space that the ids of a kind belong to. -/
def FragmentKind.space : FragmentKind → IdSpace
  | .input => .inputOutput
  | .output => .inputOutput
  | .taskGroup => .taskGroup

/-- The registered fragments. -/
structure IncludeStore where
  inputs : Catalog InputFragment := {}
  outputs : Catalog OutputFragment := {}
  taskGroups : Catalog TaskGroup := {}
  deriving DecidableEq, Repr, Inhabited

namespace IncludeStore

/-- Whether a kind has a fragment of an id. -/
def contains (s : IncludeStore) (kind : FragmentKind) (id : String) : Bool :=
  match kind with
  | .input => s.inputs.contains id
  | .output => s.outputs.contains id
  | .taskGroup => s.taskGroups.contains id

/-- The file that defines a fragment. -/
def origin? (s : IncludeStore) (kind : FragmentKind) (id : String) : Option Path :=
  match kind with
  | .input => s.inputs.origin? id
  | .output => s.outputs.origin? id
  | .taskGroup => s.taskGroups.origin? id

/-- The ids of a kind, ascending. -/
def ids (s : IncludeStore) (kind : FragmentKind) : List String :=
  match kind with
  | .input => s.inputs.ids
  | .output => s.outputs.ids
  | .taskGroup => s.taskGroups.ids

/-- How many fragments there are. -/
def size (s : IncludeStore) : Nat :=
  s.inputs.size + s.outputs.size + s.taskGroups.size

def isEmpty (s : IncludeStore) : Bool :=
  s.size = 0

/-- The file that defines the fragment of an id in a space. -/
def definedIn? (s : IncludeStore) (space : IdSpace) (id : String) : Option Path :=
  match space with
  | .inputOutput => (s.inputs.origin? id).or (s.outputs.origin? id)
  | .taskGroup => s.taskGroups.origin? id

end IncludeStore

end Monorepo
