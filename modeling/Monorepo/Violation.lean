/-!
# Violations

A configuration that decodes may still break a rule. A `Violation` says which rule, and where: its
element path names one segment per enclosing level, outermost first, and ends in the field. A
check creates a violation at the field it looks at, and every enclosing check puts its own segment
in front.
-/

namespace Monorepo

/-- A broken rule and the element that breaks it. -/
structure Violation where
  /-- Segments of the element, outermost first. -/
  elementPath : List String
  message : String
  deriving DecidableEq, Repr

namespace Violation

/-- A violation at a field of the value under check. -/
def ofField (field message : String) : Violation :=
  ⟨[field], message⟩

/-- A violation of the value under check as a whole. -/
def whole (message : String) : Violation :=
  ⟨[], message⟩

/-- The same violation, seen from the enclosing element. -/
def within (segment : String) (v : Violation) : Violation :=
  { v with elementPath := segment :: v.elementPath }

/-- The element path in one word. -/
def path (v : Violation) : String :=
  ".".intercalate v.elementPath

/-- The violation as a sentence. -/
def text (v : Violation) : String :=
  if v.elementPath.isEmpty then v.message else v.path ++ ": " ++ v.message

end Violation

/-- The segment of an entry of a list: the section with the entry's name, if it has one. -/
def namedSegment (section_ key value : String) : String :=
  if value = "" then section_ else section_ ++ "(" ++ key ++ ": " ++ value ++ ")"

/-- The outcome of checking a value: nothing, or the first violation. -/
abbrev Check := Except Violation Unit

namespace Check

/-- Holds the value to a rule. -/
def require (holds : Bool) (otherwise : Violation) : Check :=
  if holds then .ok () else .error otherwise

/-- The outcome of a check, seen from the enclosing element. -/
def within (segment : String) : Check → Check
  | .ok () => .ok ()
  | .error v => .error (v.within segment)

/-- Checks the entries of a list in order. -/
def each {α : Type} (check : α → Check) : List α → Check
  | [] => .ok ()
  | a :: rest => do
    check a
    each check rest

end Check

end Monorepo
