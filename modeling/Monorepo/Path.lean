import Monorepo.Text.Quoted

/-!
# Paths

A path is a text whose segments are separated by slashes. It is kept as written: joining, taking
the parent and making a path absolute never look at the file system and never resolve `..`.

Two paths are compared by their *components*: empty segments and `.` segments (but for a leading
`.`) do not count, so `a//b/./c` and `a/b/c` have the same components.
-/

namespace Monorepo

/-- A path, as written. -/
structure Path where
  text : String
  deriving DecidableEq, Repr, Inhabited

/-- What one step of a path does. -/
inductive Component where
  /-- Start at the root of the file system. -/
  | root
  /-- Stay where the path starts. -/
  | current
  /-- Go to the containing directory. -/
  | parent
  /-- Go to the entry of this name. -/
  | name (text : String)
  deriving DecidableEq, Repr

namespace Component

/-- The component a segment stands for; empty segments and `.` stand for none. -/
def ofSegment? (segment : String) : Option Component :=
  if segment = "" then none
  else if segment = "." then none
  else if segment = ".." then some .parent
  else some (.name segment)

/-- A component as a segment of a path. -/
def text : Component → String
  | .root => "/"
  | .current => "."
  | .parent => ".."
  | .name text => text

/-- The place of a kind of component in the order of components. -/
def rank : Component → Nat
  | .root => 0
  | .current => 1
  | .parent => 2
  | .name _ => 3

/-- Components are ordered by kind, names among each other by their text. -/
def compare : Component → Component → Ordering
  | .name a, .name b => Ord.compare a b
  | a, b => Ord.compare a.rank b.rank

end Component

/-- Lists of components are ordered by their first difference, a prefix before what extends it. -/
def Component.compareLists : List Component → List Component → Ordering
  | [], [] => .eq
  | [], _ :: _ => .lt
  | _ :: _, [] => .gt
  | a :: as, b :: bs => (a.compare b).then (compareLists as bs)

namespace Path

/-- The texts between the separators, at least one. -/
def splitSegments : List Char → List (List Char)
  | [] => [[]]
  | c :: rest =>
    if c = '/' then [] :: splitSegments rest
    else
      match splitSegments rest with
      | [] => [[c]]
      | segment :: segments => (c :: segment) :: segments

/-- The segments of a path, empty ones included. -/
def segments (p : Path) : List String :=
  (splitSegments p.text.toList).map String.ofList

/-- The path with these segments. -/
def ofSegments (segments : List String) : Path :=
  ⟨"/".intercalate segments⟩

/-- Whether a path starts at the root. -/
def isAbsolute (p : Path) : Bool :=
  p.text.toList.head? = some '/'

/-- Whether a path ends in a slash, and so can only name a directory. -/
def endsInSlash (p : Path) : Bool :=
  p.text.toList.getLast? = some '/'

/-- The components that a list of segments stands for. -/
def componentsOfSegments : List String → List Component
  | [] => []
  | first :: rest =>
    (if first = "" then (if rest.isEmpty then [] else [.root])
     else if first = "." then [.current]
     else (Component.ofSegment? first).toList)
      ++ rest.filterMap Component.ofSegment?

/-- The steps of a path. -/
def components (p : Path) : List Component :=
  componentsOfSegments p.segments

/-- Paths are ordered by their components. -/
def compare (p q : Path) : Ordering :=
  Component.compareLists p.components q.components

/-- Whether `p` comes before `q` or has the same components. -/
def le (p q : Path) : Bool :=
  (p.compare q).isLE

/-- Sorts paths by their components; paths of equal components keep their order. -/
def sort (paths : List Path) : List Path :=
  paths.mergeSort le

/-- Keeps the first of each run of paths with equal components. -/
def dedup : List Path → List Path
  | [] => []
  | p :: rest =>
    match dedup rest with
    | [] => [p]
    | q :: more => if p.components = q.components then p :: more else p :: q :: more

/-- `q` as seen from `p`: `q` itself when it is absolute, else `q` below `p`. -/
def join (p q : Path) : Path :=
  if q.isAbsolute then q
  else if p.text = "" || p.endsInSlash then ⟨p.text ++ q.text⟩
  else ⟨p.text ++ "/" ++ q.text⟩

/-- Drops from the end what stands for no component, but never the first segment. The list is
given from its end. -/
def trimReversed : List String → List String
  | [] => []
  | [first] => [first]
  | segment :: rest =>
    if (Component.ofSegment? segment).isNone then trimReversed rest else segment :: rest

/-- The path without its last component. The root and the empty path have none. -/
def parent? (p : Path) : Option Path :=
  match trimReversed p.segments.reverse with
  | [] => none
  | [first] => if first = "" then none else some ⟨""⟩
  | _ :: rest =>
    match trimReversed rest with
    | [""] => some ⟨"/"⟩
    | kept => some (ofSegments kept.reverse)

/-- The name that a path ends in, if it ends in one. -/
def fileName? (p : Path) : Option String :=
  match p.components.getLast? with
  | some (.name text) => some text
  | _ => none

/-- The part of a name behind its last dot. A name whose only dot stands first has none. -/
def extension? (p : Path) : Option String := do
  let name ← p.fileName?
  let reversed := name.toList.reverse
  let before := (reversed.dropWhile (· != '.')).drop 1
  if before.isEmpty then none
  else some (String.ofList (reversed.takeWhile (· != '.')).reverse)

/-- Whether the last components of `p` are those of `suffix`. -/
def endsWith (p suffix : Path) : Bool :=
  suffix.components.isSuffixOf p.components

/-- The segments behind the first `n` that stand for a component. -/
def dropComponents : Nat → List String → List String
  | 0, segments => segments
  | _, [] => []
  | n + 1, segment :: rest =>
    if (Component.ofSegment? segment).isNone then dropComponents (n + 1) rest
    else dropComponents n rest

/-- Drops what stands for no component from both ends. -/
def trimSegments (segments : List String) : List String :=
  let isBlank (s : String) : Bool := (Component.ofSegment? s).isNone
  ((segments.dropWhile isBlank).reverse.dropWhile isBlank).reverse

/-- What follows the components of `base` in `p`, when `p` starts with them. -/
def relativeTo? (base p : Path) : Option Path :=
  if base.components.isPrefixOf p.components then
    match base.components with
    | [] => some (ofSegments (trimReversed p.segments.reverse).reverse)
    | .root :: rest | .current :: rest =>
      some (ofSegments (trimSegments (dropComponents rest.length (p.segments.drop 1))))
    | all => some (ofSegments (trimSegments (dropComponents all.length p.segments)))
  else none

/-- The path from the root that `p` denotes for a program working in `cwd`. Only `.` segments and
repeated slashes are removed; two leading slashes and a trailing one are kept. The empty path
denotes nothing. -/
def absolute? (cwd p : Path) : Option Path :=
  if p.text = "" then none
  else
    let steps := p.components.filter (· ≠ .current)
    let start : Path × List Component :=
      if p.isAbsolute then
        if p.text.startsWith "//" && !p.text.startsWith "///" then (⟨"//"⟩, steps.drop 1)
        else (⟨""⟩, steps)
      else (cwd, steps)
    let body := start.2.foldl (fun base step => base.join ⟨step.text⟩) start.1
    some (if p.endsInSlash then body.join ⟨""⟩ else body)

/-- A path in the quotes of a message. -/
def quoted (p : Path) : String :=
  Text.quoted p.text

end Path

end Monorepo
