import Monorepo.Yaml.Token

/-!
# The tree of a YAML text

The tokens of a text make up one tree of scalars, sequences and mappings. A node can be marked and
repeated by aliases; an alias keeps the number of the mark, so the tree stays as large as the text.
-/

namespace Monorepo.Yaml

/-- What may stand in front of a node. -/
structure Properties where
  /-- The number of its mark. -/
  mark : Option Nat := none
  tag : Option String := none
  deriving Repr, Inhabited

/-- A node of the tree. -/
inductive Node where
  | alias (mark : Nat)
  | scalar (properties : Properties) (text : String) (style : Style)
  | sequence (properties : Properties) (items : List Node)
  | mapping (properties : Properties) (entries : List (Node × Node))
  deriving Repr, Inhabited

namespace Node

/-- The scalar of a value that is left out. -/
def blank : Node :=
  .scalar {} "" .plain

def properties : Node → Properties
  | .alias _ => {}
  | .scalar p _ _ => p
  | .sequence p _ => p
  | .mapping p _ => p

mutual

/-- The marked nodes of a tree, in the order of the text. -/
def marked : Node → List (Nat × Node)
  | .alias _ => []
  | .scalar p text style => (p.mark.map fun m => (m, .scalar p text style)).toList
  | .sequence p items => (p.mark.map fun m => (m, .sequence p items)).toList ++ markedItems items
  | .mapping p entries =>
    (p.mark.map fun m => (m, .mapping p entries)).toList ++ markedEntries entries

/-- The marked nodes of the items of a sequence. -/
def markedItems : List Node → List (Nat × Node)
  | [] => []
  | n :: rest => n.marked ++ markedItems rest

/-- The marked nodes of the entries of a mapping. -/
def markedEntries : List (Node × Node) → List (Nat × Node)
  | [] => []
  | (k, v) :: rest => k.marked ++ v.marked ++ markedEntries rest

end

mutual

/-- How much text a tree stands for: one for each scalar and alias, two for each collection. -/
def weight : Node → Nat
  | .alias _ => 1
  | .scalar _ _ _ => 1
  | .sequence _ items => weightItems items + 2
  | .mapping _ entries => weightEntries entries + 2

/-- The weight of the items of a sequence. -/
def weightItems : List Node → Nat
  | [] => 0
  | n :: rest => n.weight + weightItems rest

/-- The weight of the entries of a mapping. -/
def weightEntries : List (Node × Node) → Nat
  | [] => 0
  | (k, v) :: rest => k.weight + v.weight + weightEntries rest

end

end Node

/-- Tokens that are partly read. -/
structure Reader where
  rest : List Token
  /-- The starts that tag handles stand for, the last declared first. -/
  handles : List (String × String) := []
  /-- The names of marks with the number each has now. -/
  names : List (String × Nat) := []

namespace Reader

/-- Passes a token. -/
def next (r : Reader) : Reader :=
  { r with rest := r.rest.drop 1 }

/-- Passes a token if it is the next. -/
def pass (r : Reader) (t : Token) : Option Reader :=
  if r.rest.head? = some t then some r.next else none

/-- Passes a token that has to be the next. -/
def expect (r : Reader) (t : Token) : Except Fault Reader :=
  match r.pass t with
  | some r => .ok r
  | none => .error .structure_

/-- Whether the next token is one of these. The end of the text is none. -/
def isAtAny (r : Reader) (ts : List Token) : Bool :=
  r.rest.head?.any ts.contains

/-- Gives a name to the node that follows. The number of its mark is how many names there were, so
a name that is given again can take a number that another name gets later. -/
def name (r : Reader) (name : String) : Nat × Reader :=
  let mark := r.names.length
  (mark, { r with names := (name, mark) :: r.names.filter (·.1 ≠ name) })

/-- The full form of a tag. -/
def fullTag (r : Reader) (handle suffix : String) : Except Fault String :=
  if handle = "" then .ok suffix
  else
    match r.handles.lookup handle with
    | some start => .ok (start ++ suffix)
    | none =>
      if handle = "!" then .ok ("!" ++ suffix)
      else if handle = "!!" then .ok ("tag:yaml.org,2002:" ++ suffix)
      else .error .tag

/-- Reads the anchor and the tag of a node, which come in either order. -/
def readProperties (r : Reader) :
    Except Fault (Option String × Option String × Reader) := do
  match r.rest with
  | .anchor name :: .tag handle suffix :: rest
  | .tag handle suffix :: .anchor name :: rest =>
    return (some name, some (← r.fullTag handle suffix), { r with rest })
  | .anchor name :: rest => return (some name, none, { r with rest })
  | .tag handle suffix :: rest =>
    return (none, some (← r.fullTag handle suffix), { r with rest })
  | _ => return (none, none, r)

/-- The tag of a scalar. A lone exclamation mark says no more than no tag. -/
def scalarTag : Option String → Option String
  | some "!" => none
  | tag => tag

mutual

/-- Reads a node. Only where `block` holds may it be a block collection, and only where
`indentless` holds may entries stand at the column of the mapping around them. -/
def readNode (block indentless : Bool) : Nat → Reader → Except Fault (Node × Reader)
  | 0, _ => .error .structure_
  | fuel + 1, r =>
    match r.rest with
    | .alias name :: _ =>
      match r.names.lookup name with
      | some mark => .ok (.alias mark, r.next)
      | none => .error .unknownAlias
    | _ => do
      let (anchor, tag, r) ← r.readProperties
      let (mark, r) := match anchor with
        | some name => let (m, r) := r.name name; (some m, r)
        | none => (none, r)
      let p : Properties := { mark, tag }
      match r.rest with
      | .scalar text style :: _ =>
        return (.scalar { p with tag := scalarTag tag } text style, r.next)
      | .flowSequence :: _ =>
        let (items, r) ← readFlowItems true fuel r.next
        return (.sequence p items, r)
      | .flowMapping :: _ =>
        let (entries, r) ← readFlowEntries true fuel r.next
        return (.mapping p entries, r)
      | t :: _ =>
        if t = .blockEntry && indentless then
          let (items, r) ← readIndentlessItems fuel r
          return (.sequence p items, r)
        else if t = .blockSequence && block then
          let (items, r) ← readBlockItems fuel r.next
          return (.sequence p items, r)
        else if t = .blockMapping && block then
          let (entries, r) ← readBlockEntries fuel r.next
          return (.mapping p entries, r)
        else if anchor.isSome || tag.isSome then return (.scalar p "" .plain, r)
        else throw .structure_
      | [] =>
        if anchor.isSome || tag.isSome then return (.scalar p "" .plain, r)
        else throw .structure_

/-- Reads a node unless one of these tokens follows, which leave it out. -/
def readNodeUnless (ends : List Token) (block indentless : Bool) :
    Nat → Reader → Except Fault (Node × Reader)
  | 0, _ => .error .structure_
  | fuel + 1, r =>
    if r.isAtAny ends then .ok (.blank, r) else readNode block indentless fuel r

/-- Reads the entries of a block sequence. -/
def readBlockItems : Nat → Reader → Except Fault (List Node × Reader)
  | 0, _ => .error .structure_
  | fuel + 1, r =>
    match r.pass .blockEntry with
    | some r => do
      let (item, r) ← readNodeUnless [.blockEntry, .blockEnd] true false fuel r
      let (items, r) ← readBlockItems fuel r
      return (item :: items, r)
    | none => do
      let r ← r.expect .blockEnd
      return ([], r)

/-- Reads the entries of a sequence that stand at the column of the mapping around it. -/
def readIndentlessItems : Nat → Reader → Except Fault (List Node × Reader)
  | 0, _ => .error .structure_
  | fuel + 1, r =>
    match r.pass .blockEntry with
    | some r => do
      let (item, r) ← readNodeUnless [.blockEntry, .key, .value, .blockEnd] true false fuel r
      let (items, r) ← readIndentlessItems fuel r
      return (item :: items, r)
    | none => .ok ([], r)

/-- Reads the entries of a block mapping. -/
def readBlockEntries : Nat → Reader → Except Fault (List (Node × Node) × Reader)
  | 0, _ => .error .structure_
  | fuel + 1, r =>
    match r.pass .key with
    | some r => do
      let ends : List Token := [.key, .value, .blockEnd]
      let (key, r) ← readNodeUnless ends true true fuel r
      let (value, r) ← match r.pass .value with
        | some r => readNodeUnless ends true true fuel r
        | none => pure (.blank, r)
      let (entries, r) ← readBlockEntries fuel r
      return ((key, value) :: entries, r)
    | none => do
      let r ← r.expect .blockEnd
      return ([], r)

/-- Reads the items of a flow sequence. An item may be a mapping of one entry without braces. -/
def readFlowItems (first : Bool) : Nat → Reader → Except Fault (List Node × Reader)
  | 0, _ => .error .structure_
  | fuel + 1, r =>
    match r.pass .flowSequenceEnd with
    | some r => .ok ([], r)
    | none => do
      let r ← if first then pure r else r.expect .flowEntry
      match r.pass .flowSequenceEnd with
      | some r => return ([], r)
      | none =>
        let (item, r) ← match r.pass .key with
          | some r => do
            let (key, r) ←
              if r.isAtAny [.value, .flowEntry, .flowSequenceEnd] then pure (.blank, r.next)
              else readNode false false fuel r
            let (value, r) ← match r.pass .value with
              | some r => readNodeUnless [.flowEntry, .flowSequenceEnd] false false fuel r
              | none => pure (.blank, r)
            pure (Node.mapping {} [(key, value)], r)
          | none => readNode false false fuel r
        let (items, r) ← readFlowItems false fuel r
        return (item :: items, r)

/-- Reads the entries of a flow mapping. A key may stand without a value. -/
def readFlowEntries (first : Bool) : Nat → Reader → Except Fault (List (Node × Node) × Reader)
  | 0, _ => .error .structure_
  | fuel + 1, r =>
    match r.pass .flowMappingEnd with
    | some r => .ok ([], r)
    | none => do
      let r ← if first then pure r else r.expect .flowEntry
      match r.pass .flowMappingEnd with
      | some r => return ([], r)
      | none =>
        let (entry, r) ← match r.pass .key with
          | some r => do
            let (key, r) ←
              readNodeUnless [.value, .flowEntry, .flowMappingEnd] false false fuel r
            let (value, r) ← match r.pass .value with
              | some r => readNodeUnless [.flowEntry, .flowMappingEnd] false false fuel r
              | none => pure (.blank, r)
            pure ((key, value), r)
          | none => do
            let (key, r) ← readNode false false fuel r
            pure ((key, .blank), r)
        let (entries, r) ← readFlowEntries false fuel r
        return (entry :: entries, r)

end

/-- Reads the directives of a document; the flag says that a version was given. -/
def readDirectives (versioned : Bool) (handles : List (String × String)) :
    List Token → Except Fault (List (String × String) × List Token)
  | .version major minor :: rest =>
    if versioned || major ≠ 1 || (minor ≠ 1 && minor ≠ 2) then .error .directive
    else readDirectives true handles rest
  | .tagHandle handle start :: rest =>
    if (handles.lookup handle).isSome then .error .directive
    else readDirectives versioned ((handle, start) :: handles) rest
  | rest => .ok (handles, rest)

/-- Whether a token can not start the content of a document. -/
def endsContent : Option Token → Bool
  | none => true
  | some (.version _ _) => true
  | some (.tagHandle _ _) => true
  | some t => t = .documentStart || t = .documentEnd

/-- Reads the only document of the tokens: none, or its root. -/
def readDocument (tokens : List Token) : Except Fault (Option Node) := do
  let fuel := 4 * (tokens.length + 2)
  let (handles, rest) ← readDirectives false [] tokens
  if tokens.isEmpty then return none
  let (root, r) ←
    if rest.head? = some .documentStart then
      let r : Reader := { rest := rest.drop 1, handles }
      if endsContent r.rest.head? then pure (.blank, r) else readNode true false fuel r
    else if rest.length < tokens.length then throw .structure_
    else readNode true false fuel { rest }
  if (r.rest.dropWhile (· = .documentEnd)).isEmpty then return some root
  else throw .severalDocuments

end Reader

/-- A YAML text as a tree. -/
structure Source where
  /-- The root; an empty text has none. -/
  root : Option Node
  /-- The marked nodes, in the order of the text. -/
  marked : List (Nat × Node)
  deriving Repr

namespace Source

/-- The tree of a text. -/
def parse (text : List Char) : Except Fault Source := do
  let root ← Reader.readDocument (← tokens text)
  return ⟨root, root.elim [] Node.marked⟩

/-- The node that an alias stands for: the last that has its number. -/
def target? (s : Source) (mark : Nat) : Option Node :=
  s.marked.reverse.lookup mark

/-- How many aliases may be followed while the tree is read. -/
def aliasBudget (s : Source) : Nat :=
  s.root.elim 1 Node.weight * 100

end Source

end Monorepo.Yaml
