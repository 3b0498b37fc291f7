import JobChart.Fault
import JobChart.Yaml.Cell
import JobChart.Yaml.Graph.Reader

/-!
# Documents

The value of a document, read off from the cells of its nodes. A collection
may be met inside itself. It is then marked as met again, and followed
further only as deep as a workflow is read.
-/

namespace JobChart.Yaml

/-- The collections around a node, from the inside; a pair of an ordered
mapping is none of the nodes. -/
abbrev Around := List (Option NodeId)

/-- A value, and whether it holds no collection met inside itself. Such a
value does not depend on what is around it. -/
structure Unfolded where
  value : Value
  isFinite : Bool

/-- The values known so far, by the number of their node. -/
abbrev Unfolding := StateM (Array (Option Value))

/-- A collection of the same type with nothing in it. -/
def Cell.emptied : Cell → Value
  | map _ => .map []
  | set _ => .set []
  | _ => .list []

/-- How many collections there are around the innermost value that a workflow
is read from. -/
def workflowDepth : Nat := 5

namespace Unfolding

/-- The value of a collection; `inside` and `insidePair` give those of the
nodes in it and in its pairs. -/
def collection (inside insidePair : NodeId → Unfolding Unfolded) : Cell → Unfolding Unfolded
  | .scalar k => return ⟨k.value, true⟩
  | .set ks => return ⟨.set (ks.map (·.value)), true⟩
  | .list items => do
    let us ← items.mapM inside
    return ⟨.list (us.map (·.value)), us.all (·.isFinite)⟩
  | .map es => do
    let us ← es.mapM fun e => inside e.2
    return ⟨.map ((es.map (·.1.value)).zip (us.map (·.value))), us.all (·.isFinite)⟩
  | .pairs items => do
    let us ← items.mapM fun e => do
      let a ← insidePair e.1
      let b ← insidePair e.2
      return (⟨.tuple [a.value, b.value], a.isFinite && b.isFinite⟩ : Unfolded)
    return ⟨.list (us.map (·.value)), us.all (·.isFinite)⟩

/-- The value of a node inside the collections `around` it. A collection met
inside itself is followed again while what it was met in before is still
among the levels a workflow is read from; `fuel` bounds how deep the value is. -/
def node (cells : Array (Option Cell)) : (fuel : Nat) → Around → NodeId → Unfolding Unfolded
  | 0, _, _ => return ⟨.null, false⟩
  | fuel + 1, around, i => do
    if let some v := (← get).getD i none then return ⟨v, true⟩
    let cell := (cells.getD i none).getD default
    let inside := node cells fuel (some i :: around)
    let insidePair := node cells fuel (none :: some i :: around)
    match around.idxOf? (some i) with
    | none =>
      let u ← collection inside insidePair cell
      if u.isFinite then modify fun known => known.setIfInBounds i (some u.value)
      return u
    | some up =>
      if workflowDepth + up < around.length then
        return ⟨.again (up + 1) cell.emptied, false⟩
      else
        let u ← collection inside insidePair cell
        return ⟨.again (up + 1) u.value, false⟩

end Unfolding

/-- The value of the document that a text holds. Below the levels a workflow
is read from, all collections around a node are different ones, so their
number bounds how deep the value is. -/
def load (text : String) : Except Failure Value := do
  match ← Graph.ofText? text.toList with
  | (none, _) => return .null
  | (some root, g) =>
    let cells ← cellsFrom g root
    let known := Array.replicate g.size none
    return ((Unfolding.node cells (workflowDepth + g.size + 2) [] root).run known).1.value

/-- How a failure is told to whoever wants the document. -/
def Failure.loadError : Failure → LoadError
  | scalar e => .fault ⟨e.kind, e.message⟩
  | e => .problem e.message

/-- The reader of documents. -/
def loader : Loader := fun text => (load text).mapError Failure.loadError

end JobChart.Yaml
