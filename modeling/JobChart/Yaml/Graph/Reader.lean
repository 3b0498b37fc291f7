import JobChart.Yaml.Graph
import JobChart.Yaml.Token.Stream

/-!
# Reading nodes

The graph that the tokens of a text describe. The grammar is read from left
to right, one token ahead. An anchor names a node from there on, also inside
the node itself, and an alias is the number of the node that has the name.

Every nested node and every further item takes at least one token, so the
number of tokens bounds the depth of the reading.
-/

namespace JobChart.Yaml

/-- What is still to be read, and the names known so far. -/
structure NodeSource where
  tokens : List Token
  failure : Option Failure
  /-- What each tag handle stands for. -/
  handles : List (String × String) := []
  /-- The named nodes. -/
  names : List (String × NodeId) := []
  graph : Graph := {}

abbrev NodeReader := StateT NodeSource (Except Failure)

namespace NodeReader

/-! ## Tokens -/

def fail {α : Type} (p : Problem) (m : Mark) : NodeReader α := throw (.problem p m)

def peek : NodeReader Token := do
  match (← get).tokens, (← get).failure with
  | t :: _, _ => return t
  | [], some e => throw e
  | [], none => fail (.expectedContent TokenKind.streamEnd.name) {}

def take : NodeReader Token := do
  let t ← peek
  modify fun s => { s with tokens := s.tokens.drop 1 }
  return t

/-- Whether the next token is one of some kinds. -/
def next (p : TokenKind → Bool) : NodeReader Bool := return p (← peek).kind

/-! ## Properties of a node -/

/-- What stands in front of a node's content. -/
structure Properties where
  anchor : Option String := none
  tag : Option TagName := none
  /-- Where the properties begin. -/
  start : Option Mark := none
  tagStart : Mark := {}

/-- Reads an anchor and a tag, in either order. -/
def properties : NodeReader Properties := do
  let t ← peek
  match t.kind with
  | .anchor name =>
    let _ ← take
    let u ← peek
    match u.kind with
    | .tag g =>
      let _ ← take
      return ⟨some name, some g, some t.start, u.start⟩
    | _ => return { anchor := some name, start := some t.start }
  | .tag g =>
    let _ ← take
    match (← peek).kind with
    | .anchor name =>
      let _ ← take
      return ⟨some name, some g, some t.start, t.start⟩
    | _ => return { tag := some g, start := some t.start, tagStart := t.start }
  | _ => return {}

/-- The tag that the properties give, unless they leave it open: `!` does. -/
def givenTag (p : Properties) : NodeReader (Option String) := do
  match p.tag with
  | none => return none
  | some ⟨none, suffix⟩ => return if suffix = "!" then none else some suffix
  | some ⟨some handle, suffix⟩ =>
    match (← get).handles.lookup handle with
    | some expansion =>
      let tag := expansion ++ suffix
      return if tag = "!" then none else some tag
    | none => fail (.unknownHandle handle) p.tagStart

/-- A new node with the name it is given. -/
def add (anchor : Option String) (n : Node) : NodeReader NodeId :=
  modifyGet fun s =>
    let i := s.graph.size
    let names := match anchor with
      | some name => (name, i) :: s.names
      | none => s.names
    (i, { s with graph := s.graph.push n, names := names })

/-- A new null where nothing is written. -/
def absent (m : Mark) : NodeReader NodeId := add none (.absent m)

def fill (i : NodeId) (c : Content) : NodeReader Unit :=
  modify fun s => { s with graph := s.graph.setContent i c }

/-- A name may be given to one node only. -/
def checkName (anchor : Option String) (start : Mark) : NodeReader Unit := do
  if let some name := anchor then
    if ((← get).names.lookup name).isSome then fail .repeatedAnchor start

def aliased (name : String) (start : Mark) : NodeReader NodeId := do
  match (← get).names.lookup name with
  | some i => return i
  | none => fail (.unknownAlias name) start

/-! ## Content -/

/-- Where a node stands: as the item of a block, as key or value in a block,
where a sequence needs no indentation of its own, or in a flow collection. -/
inductive Place where
  | block
  | blockEntry
  | flow
deriving DecidableEq, Repr

/-- Ends an item of a sequence that has no indentation of its own. -/
def endsIndentless : TokenKind → Bool
  | .blockEntry | .key | .value | .blockEnd => true
  | _ => false

/-- Ends an item of a block sequence. -/
def endsItem : TokenKind → Bool
  | .blockEntry | .blockEnd => true
  | _ => false

/-- Ends a key or value of a block mapping. -/
def endsEntry : TokenKind → Bool
  | .key | .value | .blockEnd => true
  | _ => false

/-- Ends a key in a flow collection that `close` closes. -/
def endsFlowKey (close : TokenKind) (k : TokenKind) : Bool :=
  k == .value || k == .flowEntry || k == close

/-- Ends a value in a flow collection that `close` closes. -/
def endsFlowValue (close : TokenKind) (k : TokenKind) : Bool := k == .flowEntry || k == close

def comma (close : TokenKind) : NodeReader Unit := do
  let t ← peek
  if t.kind == .flowEntry then
    let _ ← take
  else fail (.unclosedFlow close.name t.kind.name) t.start

def closeBlock : NodeReader Unit := do
  let t ← peek
  if t.kind == .blockEnd then
    let _ ← take
  else fail (.unclosedBlock t.kind.name) t.start

mutual

def node : (fuel : Nat) → Place → NodeReader NodeId
  | 0, _ => do fail (.expectedContent (← peek).kind.name) (← peek).start
  | fuel + 1, place => do
    let t ← peek
    if let .aliasOf name := t.kind then
      let _ ← take
      aliased name t.start
    else
      let p ← properties
      let tag ← givenTag p
      let t ← peek
      let start := p.start.getD t.start
      checkName p.anchor start
      let sequence (items : NodeReader (List NodeId)) : NodeReader NodeId := do
        let i ← add p.anchor ⟨tag.getD Tag.seq, start, .sequence []⟩
        fill i (.sequence (← items))
        return i
      let mapping (entries : NodeReader Entries) : NodeReader NodeId := do
        let i ← add p.anchor ⟨tag.getD Tag.map, start, .mapping []⟩
        fill i (.mapping (← entries))
        return i
      let scalar (standard text : String) : NodeReader NodeId :=
        add p.anchor ⟨tag.getD standard, start, .scalar text⟩
      match t.kind, place with
      | .blockEntry, .blockEntry => sequence (indentlessItems fuel)
      | .scalar text plain, _ =>
        let _ ← take
        scalar (if plain || p.tag.isSome then Tag.ofPlain text else Tag.str) text
      | .flowSequence, _ =>
        let _ ← take
        sequence (flowItems fuel true)
      | .flowMapping, _ =>
        let _ ← take
        mapping (flowEntries fuel true)
      | .blockSequence, .block | .blockSequence, .blockEntry =>
        let _ ← take
        sequence (blockItems fuel)
      | .blockMapping, .block | .blockMapping, .blockEntry =>
        let _ ← take
        mapping (blockEntries fuel)
      | _, _ =>
        if p.start.isSome then scalar Tag.null ""
        else fail (.expectedContent t.kind.name) t.start

/-- A node, or null where a token ends it at once; `m` is the place of that null. -/
def nodeOrAbsent (ends : TokenKind → Bool) (m : Mark) : (fuel : Nat) → Place → NodeReader NodeId
  | 0, _ => absent m
  | fuel + 1, place => do
    if ← next ends then absent m else node fuel place

/-- The value behind its sign, or null where there is none. -/
def valueOrAbsent (ends : TokenKind → Bool) : (fuel : Nat) → Place → NodeReader NodeId
  | 0, _ => absent {}
  | fuel + 1, place => do
    let t ← peek
    if t.kind == .value then
      let _ ← take
      nodeOrAbsent ends t.stop fuel place
    else absent t.start

def indentlessItems : (fuel : Nat) → NodeReader (List NodeId)
  | 0 => return []
  | fuel + 1 => do
    let t ← peek
    if t.kind == .blockEntry then
      let _ ← take
      let n ← nodeOrAbsent endsIndentless t.stop fuel .block
      return n :: (← indentlessItems fuel)
    else return []

def blockItems : (fuel : Nat) → NodeReader (List NodeId)
  | 0 => return []
  | fuel + 1 => do
    let t ← peek
    if t.kind == .blockEntry then
      let _ ← take
      let n ← nodeOrAbsent endsItem t.stop fuel .block
      return n :: (← blockItems fuel)
    else
      closeBlock
      return []

def blockEntries : (fuel : Nat) → NodeReader Entries
  | 0 => return []
  | fuel + 1 => do
    let t ← peek
    if t.kind == .key then
      let _ ← take
      let k ← nodeOrAbsent endsEntry t.stop fuel .blockEntry
      let v ← valueOrAbsent endsEntry fuel .blockEntry
      return (k, v) :: (← blockEntries fuel)
    else
      closeBlock
      return []

/-- The items of a flow sequence. A key among them makes a mapping of one entry. -/
def flowItems : (fuel : Nat) → (isFirst : Bool) → NodeReader (List NodeId)
  | 0, _ => return []
  | fuel + 1, isFirst => do
    let close := TokenKind.flowSequenceEnd
    if ← next (· == close) then
      let _ ← take
      return []
    if !isFirst then comma close
    let t ← peek
    if t.kind == close then
      let _ ← take
      return []
    let n ←
      if t.kind == .key then do
        let _ ← take
        let k ← nodeOrAbsent (endsFlowKey close) t.stop fuel .flow
        let v ← valueOrAbsent (endsFlowValue close) fuel .flow
        add none ⟨Tag.map, t.start, .mapping [(k, v)]⟩
      else node fuel .flow
    return n :: (← flowItems fuel false)

def flowEntries : (fuel : Nat) → (isFirst : Bool) → NodeReader Entries
  | 0, _ => return []
  | fuel + 1, isFirst => do
    let close := TokenKind.flowMappingEnd
    if ← next (· == close) then
      let _ ← take
      return []
    if !isFirst then comma close
    let t ← peek
    if t.kind == close then
      let _ ← take
      return []
    if t.kind == .key then
      let _ ← take
      let k ← nodeOrAbsent (endsFlowKey close) t.stop fuel .flow
      let v ← valueOrAbsent (endsFlowValue close) fuel .flow
      return (k, v) :: (← flowEntries fuel false)
    else
      let k ← node fuel .flow
      let v ← absent (← peek).start
      return (k, v) :: (← flowEntries fuel false)

end

/-! ## Documents -/

/-- What the tag handles stand for when no directive says otherwise. -/
def standardHandles : List (String × String) := [("!", "!"), ("!!", Tag.standard)]

/-- The directives in front of a document; the version must be 1 and may be given once. -/
def directives : (fuel : Nat) → (hasVersion : Bool) → (handles : List (String × String)) →
    NodeReader Unit
  | 0, _, _ => return ()
  | fuel + 1, hasVersion, handles => do
    let t ← peek
    match t.kind with
    | .directive d =>
      let _ ← take
      match d with
      | .version major _ =>
        if hasVersion then fail .repeatedVersion t.start
        else if major ≠ 1 then fail .unknownVersion t.start
        else directives fuel true handles
      | .handle name expansion =>
        if (handles.lookup name).isSome then fail (.repeatedHandle name) t.start
        else directives fuel hasVersion ((name, expansion) :: handles)
      | .other => directives fuel hasVersion handles
    | _ => modify fun s => { s with handles := handles ++ standardHandles }

/-- The directives and the separator in front of a document. -/
def documentHead (fuel : Nat) : NodeReader Unit := do
  directives fuel false []
  let t ← peek
  if t.kind == .documentStart then
    let _ ← take
  else fail (.expectedDocument t.kind.name) t.start

def endsDocument : TokenKind → Bool
  | .directive _ | .documentStart | .documentEnd | .streamEnd => true
  | _ => false

def documentEnds : (fuel : Nat) → NodeReader Unit
  | 0 => return ()
  | fuel + 1 => do
    if ← next (· == .documentEnd) then
      let _ ← take
      documentEnds fuel

/-- The only document of a text; none when the text holds nothing. -/
def document (fuel : Nat) : NodeReader (Option NodeId) := do
  let t ← peek
  if t.kind == .streamEnd then return none
  let isExplicit := match t.kind with
    | .directive _ | .documentStart => true
    | _ => false
  let n ←
    if isExplicit then do
      documentHead fuel
      if ← next endsDocument then absent (← peek).start else node fuel .block
    else do
      modify fun s => { s with handles := standardHandles }
      node fuel .block
  documentEnds fuel
  let t ← peek
  if t.kind == .streamEnd then return some n
  documentHead fuel
  fail .secondDocument t.start

end NodeReader

/-- The document that a text holds: its outermost node and all nodes. -/
def Graph.ofText? (text : List Char) : Except Failure (Option NodeId × Graph) :=
  let stream := TokenStream.ofText text
  let fuel := 4 * stream.tokens.length + 16
  ((NodeReader.document fuel).run { tokens := stream.tokens, failure := stream.failure }).map
    fun r => (r.1, r.2.graph)

end JobChart.Yaml
