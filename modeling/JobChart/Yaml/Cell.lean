import JobChart.Yaml.Graph.Merge

/-!
# Cells

What the nodes of a document come to: a scalar becomes a value as its tag
says, and a collection holds its nodes, with the keys of a mapping as values.

A node is made once, where it is met first. A collection is made empty and
filled later, after all that were made before it, so a document is made
level by level and the first failure on that way counts. A mapping is merged
when it is filled, or when another one merges it before that.
-/

namespace JobChart.Yaml

open Text

/-! ## Scalars -/

/-- The text of a scalar. A mapping has one when a key stands for it. -/
def Graph.scalarText (g : Graph) : (fuel : Nat) → NodeId → Except Failure String
  | fuel, i =>
    let n := g.node i
    match fuel, n.content with
    | _, .scalar s => .ok s
    | fuel + 1, .mapping es =>
      match es.find? fun e => g.tag e.1 = Tag.value with
      | some (_, v) => scalarText g fuel v
      | none => .error (.problem (.expectedNode "scalar" n.content.kind) n.start)
    | _, _ => .error (.problem (.expectedNode "scalar" n.content.kind) n.start)

def readBinary (m : Mark) (s : String) : Except Failure Value :=
  let cs := s.toList
  match cs.dropWhile (·.toNat < 128) with
  | [] =>
    match decodeBase64 cs with
    | .ok bs => .ok (.bytes bs)
    | .error e => .error (.problem (.badBase64 e) m)
  | c :: rest =>
    let first := cs.length - (rest.length + 1)
    let more := (rest.takeWhile (128 ≤ ·.toNat)).length
    .error (.problem (.nonAsciiBase64 first (first + more) c) m)

def readScalar (n : Node) (s : String) : Except Failure Value :=
  let typed (r : Scalar Value) : Except Failure Value :=
    match r with
    | .ok v => .ok v
    | .error e => .error (.scalar e)
  let t := n.tag
  if t = Tag.str then .ok (.str s)
  else if t = Tag.null then .ok .null
  else if t = Tag.bool then typed (readBool s)
  else if t = Tag.int then typed (readInt s)
  else if t = Tag.float then typed (readFloat s)
  else if t = Tag.binary then readBinary n.start s
  else
    match n.content with
    | .scalar _ => typed (readTimestamp s)
    | _ => .error (.scalar .timestampNotText)

def scalarTags : List String :=
  [Tag.str, Tag.null, Tag.bool, Tag.int, Tag.float, Tag.binary, Tag.timestamp]

def collectionTags : List String := [Tag.seq, Tag.map, Tag.set, Tag.omap, Tag.pairs]

/-! ## Keys -/

/-- A scalar as a key. -/
structure Key where
  value : Value
  /-- The node that spells it, unless the standard word for what is not a number does. -/
  speller : Option NodeId

/-- Whether two scalars are the same key. What is not a number equals
nothing; as a key it is the same only where one node spells both, or where
both are the standard word. -/
def Key.same (a b : Key) : Bool :=
  a.value.sameKey b.value
    || (a.value.isNaN && b.value.isNaN && a.speller == b.speller)

/-- The entries with one more put in. A key that is there already keeps its
place and its spelling. -/
def putEntry (k : Key) (v : NodeId) : List (Key × NodeId) → List (Key × NodeId)
  | [] => [(k, v)]
  | e :: es => if k.same e.1 then (e.1, v) :: es else e :: putEntry k v es

/-! ## Making -/

inductive Cell where
  | scalar (k : Key)
  | list (items : List NodeId)
  | map (entries : List (Key × NodeId))
  | set (items : List Key)
  | pairs (items : List (NodeId × NodeId))
deriving Inhabited

/-- The state of making the cells of a document. -/
structure Making where
  graph : Graph
  /-- The cells by the number of their node, as far as they are made. -/
  cells : Array (Option Cell)
  /-- The collections that are still to be filled, the latest first. -/
  waiting : List NodeId := []

abbrev Maker := StateT Making (Except Failure)

namespace Maker

def fail {α : Type} (p : Problem) (i : NodeId) : Maker α := do
  throw (.problem p ((← get).graph.node i).start)

def node (i : NodeId) : Maker Node := return (← get).graph.node i

def put (i : NodeId) (c : Cell) : Maker Unit :=
  modify fun s => { s with cells := s.cells.setIfInBounds i (some c) }

/-- A collection of this tag with nothing in it. -/
def emptyCell (tag : String) : Cell :=
  if tag = Tag.seq then .list []
  else if tag = Tag.map then .map []
  else if tag = Tag.set then .set []
  else .pairs []

/-- The cell of a node, which is made unless it is there. -/
def make (i : NodeId) : Maker Cell := do
  let s ← get
  if let some c := s.cells.getD i none then return c
  let n := s.graph.node i
  let c ←
    if collectionTags.contains n.tag then do
      modify fun s => { s with waiting := i :: s.waiting }
      pure (emptyCell n.tag)
    else if scalarTags.contains n.tag then do
      let text ← s.graph.scalarText s.graph.size i
      let v ← readScalar n text
      pure (.scalar ⟨v, if isNaNWord text then none else some i⟩)
    else fail (.unknownTag n.tag) i
  put i c
  return c

/-- The cell of a node as a key: it must be a scalar. -/
def makeKey (i : NodeId) : Maker Key := do
  match ← make i with
  | .scalar k => return k
  | _ => fail .unusableKey i

/-- The entries of a mapping, which is merged before. -/
def entries (bound : Nat) (i : NodeId) : Maker (List (Key × NodeId)) := do
  let n ← node i
  match n.content with
  | .mapping _ => do
    let ((), graph) ← (Graph.merge bound i).run (← get).graph
    modify fun s => { s with graph := graph }
    (graph.entries i).foldlM (fun es e => do
      let k ← makeKey e.1
      let _ ← make e.2
      return putEntry k e.2 es) []
  | c => fail (.expectedNode "mapping" c.kind) i

/-- The only entry of a node that is an item of an ordered mapping. -/
def pair (i : NodeId) : Maker (NodeId × NodeId) := do
  match (← node i).content with
  | .mapping [e] =>
    let _ ← make e.1
    let _ ← make e.2
    return e
  | .mapping es => fail (.expectedOneItem es.length) i
  | c => fail (.expectedPair c.kind) i

def contents (bound : Nat) (i : NodeId) : Maker Cell := do
  let n ← node i
  if n.tag = Tag.map then return .map (← entries bound i)
  else if n.tag = Tag.set then return .set ((← entries bound i).map (·.1))
  else
    match n.content with
    | .sequence items =>
      if n.tag = Tag.seq then
        items.forM fun i => do let _ ← make i
        return .list items
      else return .pairs (← items.mapM pair)
    | c =>
      if n.tag = Tag.seq then fail (.expectedNode "sequence" c.kind) i
      else fail (.expectedSequence c.kind) i

/-- Fills the collections that wait, and those that are made on the way, in
turn. -/
def fillAll (bound : Nat) : (rounds : Nat) → Maker Unit
  | 0 => return ()
  | rounds + 1 => do
    let waiting := (← get).waiting.reverse
    if waiting.isEmpty then return ()
    modify fun s => { s with waiting := [] }
    waiting.forM fun i => do put i (← contents bound i)
    fillAll bound rounds

end Maker

/-- The cells of all nodes that are reached from one. In each round at least
one collection is filled. -/
def cellsFrom (g : Graph) (root : NodeId) : Except Failure (Array (Option Cell)) := do
  let steps : Maker Unit := do
    let _ ← Maker.make root
    Maker.fillAll g.entryCount (g.size + 1)
  let ((), s) ← steps.run { graph := g, cells := Array.replicate g.size none }
  return s.cells

end JobChart.Yaml
