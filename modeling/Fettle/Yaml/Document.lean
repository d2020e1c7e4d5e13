import Fettle.Yaml.Token

/-!
# Documents

A document is a tree of scalars, lists and mappings. A node may have a tag, which tells its kind,
and an anchor, under which it can be put in again further down. An alias keeps the number of its
anchor, so the tree stays finite even where an alias stands inside the node that it names.
-/

namespace Fettle.Yaml

/-- A node of a document, with the place where it starts. -/
inductive Node where
  /-- A scalar with its tag, how it is written, and its text. -/
  | scalar (mark : Mark) (tag : Option String) (style : Style) (text : String)
  /-- A list of nodes with its tag. -/
  | sequence (mark : Mark) (tag : Option String) (items : List Node)
  /-- Pairs of keys and values with their tag. -/
  | mapping (mark : Mark) (tag : Option String) (pairs : List (Node × Node))
  /-- A node that is named elsewhere, by the number of its anchor. -/
  | alias (anchor : Nat)
deriving Inhabited

/-- A document. -/
structure Document where
  /-- The outermost node, unless the text is empty. -/
  root : Option Node
  /-- The nodes that have anchors, by the numbers of these, the latest first. -/
  anchored : List (Nat × Node)
deriving Inhabited

/-- The node that an alias stands for; any other node stands for itself. -/
def Document.resolve (d : Document) : Node → Node
  | .alias n => (d.anchored.lookup n).getD (.alias n)
  | node => node

/-! ## Reading tokens -/

/-- Tokens that are being read into a document. -/
structure Parse where
  /-- The tokens ahead. -/
  tokens : List Placed
  /-- The tag handles and what they stand for. -/
  handles : List (List Char × List Char) := []
  /-- The anchors so far by name, with their numbers. -/
  names : List (List Char × Nat) := []
  /-- The nodes that have anchors, the latest first. A node that is being read has a placeholder. -/
  anchored : List (Nat × Node) := []
deriving Inhabited

/-- A reader of tokens, which may find that they are in no order. -/
abbrev Parser := StateT Parse Option

namespace Parser

/-- The next token. -/
def peek : Parser Placed := fun p => do some (← p.tokens.head?, p)

/-- Skip a token. -/
def skip : Parser Unit := modify fun p => { p with tokens := p.tokens.tail }

/-- Skip a token of a kind, and tell where it stopped; or tell that it does not come next. -/
def accept (token : Token) : Parser (Option Mark) := do
  let t ← peek
  if t.token = token then
    skip
    return some t.stop
  else return none

/-- Skip a token of a kind, which must come next. -/
def expect (token : Token) : Parser Unit := do
  if (← accept token).isNone then failure

/-- Whether one of some tokens comes next. -/
def ahead (tokens : List Token) : Parser Bool := return tokens.contains (← peek).token

/-- What a tag stands for. -/
def expandTag (handle suffix : List Char) : Parser String := do
  if handle.isEmpty then return String.ofList suffix
  else
    match (← get).handles.lookup handle with
    | some meaning => return String.ofList (meaning ++ suffix)
    | none => failure

/-- What may stand before a node: its anchor and its tag. -/
structure Properties where
  /-- The name of the anchor. -/
  anchor : Option (List Char) := none
  /-- The tag. -/
  tag : Option String := none
deriving Inhabited

/-- Read an anchor, if one comes next. -/
def anchor : Parser (Option (List Char)) := do
  match (← peek).token with
  | .anchor name =>
    skip
    return some name
  | _ => return none

/-- Read a tag, if one comes next. -/
def tag : Parser (Option String) := do
  match (← peek).token with
  | .tag handle suffix =>
    skip
    return some (← expandTag handle suffix)
  | _ => return none

/-- Read an anchor and a tag in either order, as far as they come next. -/
def properties : Parser Properties := do
  match ← anchor with
  | some name => return ⟨some name, ← tag⟩
  | none =>
    match ← tag with
    | some tag => return ⟨← anchor, some tag⟩
    | none => return {}

/-- Give an anchor a number, the number of names that are known before it, so that aliases may
refer to it. The result is the place of its node. -/
def declare (name : Option (List Char)) : Parser (Option Nat) :=
  match name with
  | none => return none
  | some name => do
    let p ← get
    let n := p.names.length
    set { p with
      names := (name, n) :: p.names.filter (·.1 ≠ name)
      anchored := (n, .alias n) :: p.anchored }
    return some p.anchored.length

/-- Put the node of an anchor into its place. -/
def define (place : Option Nat) (node : Node) : Parser Node := do
  if let some place := place then
    modify fun p =>
      let i := p.anchored.length - 1 - place
      { p with anchored := p.anchored.modify i fun (n, _) => (n, node) }
  return node

/-- A node that is left out. -/
def omitted (mark : Mark) : Node := .scalar mark none .plain ""

/-- Where a node stands, which decides what may begin there. -/
inductive Position where
  /-- Indented below something else. -/
  | block
  /-- After a key or the sign of one, where the hyphens of a list need no indentation. -/
  | member
  /-- Inside brackets. -/
  | flow
deriving DecidableEq, Inhabited, Repr

mutual

/-- Read a node. -/
def node (position : Position) : Nat → Parser Node
  | 0 => failure
  | fuel + 1 => do
    match ← peek with
    | ⟨.alias name, _, _⟩ =>
      skip
      match (← get).names.lookup name with
      | some n => return .alias n
      | none => failure
    | ⟨_, mark, _⟩ =>
      let ⟨name, tag⟩ ← properties
      let t ← peek
      let inBlock := position != .flow
      match t.token with
      | .scalar style text =>
        skip
        let tag := if tag = some "!" then none else tag
        define (← declare name) (.scalar mark tag style (String.ofList text))
      | .blockEntry =>
        if position = .member then
          let n ← declare name
          define n (.sequence mark tag (← indentlessItems fuel))
        else leaveOut name tag mark
      | .flowSequenceStart =>
        skip
        let n ← declare name
        define n (.sequence mark tag (← flowItems true fuel))
      | .flowMappingStart =>
        skip
        let n ← declare name
        define n (.mapping mark tag (← flowPairs true fuel))
      | .blockSequenceStart =>
        if inBlock then
          skip
          let n ← declare name
          define n (.sequence mark tag (← blockItems fuel))
        else leaveOut name tag mark
      | .blockMappingStart =>
        if inBlock then
          skip
          let n ← declare name
          define n (.mapping mark tag (← blockPairs fuel))
        else leaveOut name tag mark
      | _ => leaveOut name tag mark
where
  /-- A node with an anchor or a tag may be left out. -/
  leaveOut (name : Option (List Char)) (tag : Option String) (mark : Mark) : Parser Node := do
    if name.isNone ∧ tag.isNone then failure
    else define (← declare name) (.scalar mark tag .plain "")

/-- Read a node unless one of some tokens comes next. -/
def nodeUnless (stops : List Token) (position : Position) (mark : Mark) : Nat → Parser Node
  | 0 => failure
  | fuel + 1 => do
    if ← ahead stops then return omitted mark else node position fuel

/-- Read the entries of an indented list, up to its end. -/
def blockItems : Nat → Parser (List Node)
  | 0 => failure
  | fuel + 1 => do
    match ← accept .blockEntry with
    | some mark =>
      let item ← nodeUnless [.blockEntry, .blockEnd] .block mark fuel
      return item :: (← blockItems fuel)
    | none =>
      expect .blockEnd
      return []

/-- Read the entries of a list that is not indented. -/
def indentlessItems : Nat → Parser (List Node)
  | 0 => failure
  | fuel + 1 => do
    match ← accept .blockEntry with
    | some mark =>
      let item ← nodeUnless [.blockEntry, .key, .value, .blockEnd] .block mark fuel
      return item :: (← indentlessItems fuel)
    | none => return []

/-- Read the pairs of an indented mapping, up to its end. -/
def blockPairs : Nat → Parser (List (Node × Node))
  | 0 => failure
  | fuel + 1 => do
    let stops := [.key, .value, .blockEnd]
    match ← accept .key with
    | some mark =>
      let key ← nodeUnless stops .member mark fuel
      let value ← match ← accept .value with
        | some mark => nodeUnless stops .member mark fuel
        | none => pure (omitted (← peek).start)
      return (key, value) :: (← blockPairs fuel)
    | none =>
      expect .blockEnd
      return []

/-- Read the rest of a bracketed list. Between two entries stands a comma. -/
def flowItems (first : Bool) : Nat → Parser (List Node)
  | 0 => failure
  | fuel + 1 => do
    if (← accept .flowSequenceEnd).isSome then return []
    else
      if !first then expect .flowEntry
      let start := (← peek).start
      if (← accept .key).isSome then
        let pair ← pair fuel
        return .mapping start none [pair] :: (← flowItems false fuel)
      else if (← accept .flowSequenceEnd).isSome then return []
      else
        let item ← node .flow fuel
        return item :: (← flowItems false fuel)

/-- Read a single pair that is an entry of a bracketed list. Where the key is left out, the token
in its place is passed over. -/
def pair : Nat → Parser (Node × Node)
  | 0 => failure
  | fuel + 1 => do
    let t ← peek
    let key ←
      if ← ahead [.value, .flowEntry, .flowSequenceEnd] then
        skip
        pure (omitted t.stop)
      else node .flow fuel
    let start := (← peek).start
    let value ←
      if (← accept .value).isSome then
        nodeUnless [.flowEntry, .flowSequenceEnd] .flow (← peek).start fuel
      else pure (omitted start)
    return (key, value)

/-- Read the rest of a bracketed mapping. Between two pairs stands a comma. -/
def flowPairs (first : Bool) : Nat → Parser (List (Node × Node))
  | 0 => failure
  | fuel + 1 => do
    if (← accept .flowMappingEnd).isSome then return []
    else
      if !first then expect .flowEntry
      if (← accept .key).isSome then
        let key ←
          nodeUnless [.value, .flowEntry, .flowMappingEnd] .flow (← peek).start fuel
        let start := (← peek).start
        let value ←
          if (← accept .value).isSome then
            nodeUnless [.flowEntry, .flowMappingEnd] .flow (← peek).start fuel
          else pure (omitted start)
        return (key, value) :: (← flowPairs false fuel)
      else if (← accept .flowMappingEnd).isSome then return []
      else
        let key ← node .flow fuel
        let value := omitted (← peek).start
        return (key, value) :: (← flowPairs false fuel)

end

/-! ## Documents -/

/-- The handles that are known without a directive. -/
def knownHandles : List (List Char × List Char) :=
  [("!".toList, "!".toList), ("!!".toList, "tag:yaml.org,2002:".toList)]

/-- Read the directives before a document. The version is given once and must be one of two, a
handle is declared once. The result tells whether there are any. -/
def directives : Nat → Bool → Parser Bool
  | 0, versioned => return versioned
  | fuel + 1, versioned => do
    match (← peek).token with
    | .version major minor =>
      if versioned ∨ major ≠ 1 ∨ (minor ≠ 1 ∧ minor ≠ 2) then failure
      else
        skip
        let _ ← directives fuel true
        return true
    | .handle name meaning =>
      if ((← get).handles.lookup name).isSome then failure
      else
        skip
        modify fun p => { p with handles := p.handles ++ [(name, meaning)] }
        let _ ← directives fuel versioned
        return true
    | _ => return false

/-- Skip the marks after a document. -/
def skipEnds : Nat → Parser Unit
  | 0 => return
  | fuel + 1 => do
    if (← accept .documentEnd).isSome then skipEnds fuel

/-- Read the only document of a text. Without a mark or a directive before it, a document starts
with its node. -/
def document : Parser Document := do
  let size := (← get).tokens.length
  if ← ahead [.streamEnd] then return ⟨none, []⟩
  else
    let start := (← peek).token
    let isExplicit ← directives size false
    modify fun p => { p with handles := p.handles ++ knownHandles }
    let fuel := 4 * size + 4
    let root ←
      if isExplicit ∨ start = .documentStart then do
        expect .documentStart
        let t ← peek
        match t.token with
        | .version .. | .handle .. | .documentStart | .documentEnd | .streamEnd =>
          pure (omitted t.start)
        | _ => node .block fuel
      else node .block fuel
    skipEnds size
    expect .streamEnd
    return ⟨some root, (← get).anchored⟩

end Parser

/-- The document that a text spells, if it spells one and only one. -/
def Document.ofText? (text : String) : Option Document := do
  let ts ← tokens text
  let (d, _) ← Parser.document.run { tokens := ts }
  some d

end Fettle.Yaml
