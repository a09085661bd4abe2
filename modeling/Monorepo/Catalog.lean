import Monorepo.Path

/-!
# Catalogs

A `Catalog` keeps values under ids, each with the file that defines it, in the order of their ids.
Because the order does not depend on when a value came in, two catalogs with the same content are
equal.
-/

namespace Monorepo

/-- A value with the file that defines it. -/
structure Registered (α : Type) where
  fragment : α
  origin : Path
  deriving DecidableEq, Repr

/-- Values under ids, in ascending order of ids. -/
structure Catalog (α : Type) where
  entries : List (String × Registered α) := []
  deriving DecidableEq, Repr, Inhabited

namespace Catalog

variable {α : Type}

/-- Puts a value under an id into entries of ascending ids. -/
def insertEntry (id : String) (value : Registered α) :
    List (String × Registered α) → List (String × Registered α)
  | [] => [(id, value)]
  | (i, v) :: rest =>
    if id < i then (id, value) :: (i, v) :: rest
    else if id = i then (id, value) :: rest
    else (i, v) :: insertEntry id value rest

/-- The catalog with a value under an id, in the place of the one it had. -/
def insert (c : Catalog α) (id : String) (value : Registered α) : Catalog α :=
  ⟨insertEntry id value c.entries⟩

/-- The value under an id. -/
def find? (c : Catalog α) (id : String) : Option (Registered α) :=
  c.entries.lookup id

/-- The value under an id, without its origin. -/
def fragment? (c : Catalog α) (id : String) : Option α :=
  (c.find? id).map Registered.fragment

/-- The file that defines the value under an id. -/
def origin? (c : Catalog α) (id : String) : Option Path :=
  (c.find? id).map Registered.origin

def contains (c : Catalog α) (id : String) : Bool :=
  (c.find? id).isSome

/-- All ids, ascending. -/
def ids (c : Catalog α) : List String :=
  c.entries.map Prod.fst

/-- How many values there are. -/
def size (c : Catalog α) : Nat :=
  c.entries.length

/-- The catalog with every value of a list, each under its own id and of one origin. -/
def insertAll (idOf : α → String) (origin : Path) (values : List α) (c : Catalog α) : Catalog α :=
  values.foldl (fun c value => c.insert (idOf value) ⟨value, origin⟩) c

end Catalog

end Monorepo
