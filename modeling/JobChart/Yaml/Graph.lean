import JobChart.Yaml.Schema

/-!
# Graphs

A document as a graph. Its nodes are numbered, and a collection holds the
numbers of its nodes. An alias is one more occurrence of the node it names,
which may even stand inside that node. Every node has a tag, which says of
what type it is, and the place where it begins.
-/

namespace JobChart.Yaml

abbrev NodeId := Nat

abbrev Entries := List (NodeId × NodeId)

inductive Content where
  | scalar (text : String)
  | sequence (items : List NodeId)
  | mapping (entries : Entries)
deriving DecidableEq, Repr

def Content.kind : Content → String
  | scalar _ => "scalar"
  | sequence _ => "sequence"
  | mapping _ => "mapping"

structure Node where
  tag : String
  start : Mark
  content : Content
deriving DecidableEq, Repr

/-- The null that stands where nothing is written. -/
def Node.absent (m : Mark) : Node := ⟨Tag.null, m, .scalar ""⟩

structure Graph where
  nodes : Array Node := #[]
deriving Repr

namespace Graph

def size (g : Graph) : Nat := g.nodes.size

def node (g : Graph) (i : NodeId) : Node := g.nodes.getD i (.absent {})

def tag (g : Graph) (i : NodeId) : String := (g.node i).tag

/-- The entries of a mapping; other nodes have none. -/
def entries (g : Graph) (i : NodeId) : Entries :=
  match (g.node i).content with
  | .mapping es => es
  | _ => []

/-- How many entries all mappings have together. -/
def entryCount (g : Graph) : Nat :=
  g.nodes.foldl (fun count n => match n.content with
    | .mapping es => count + es.length
    | _ => count) 0

/-! ## Changes -/

/-- The graph with one more node, whose number is the former size. -/
def push (g : Graph) (n : Node) : Graph := ⟨g.nodes.push n⟩

def setContent (g : Graph) (i : NodeId) (c : Content) : Graph :=
  ⟨g.nodes.modify i fun n => { n with content := c }⟩

def setTag (g : Graph) (i : NodeId) (t : String) : Graph :=
  ⟨g.nodes.modify i fun n => { n with tag := t }⟩

end Graph

end JobChart.Yaml
