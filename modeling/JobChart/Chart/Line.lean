import JobChart.Chart.Direction

/-!
# Lines of a flowchart

A flowchart is a list of lines, each an indent and an item: the header, the
two ends of a box, a node, an edge, or the definition of a class. Text is
made from them last; until then a line is data.
-/

namespace JobChart.Chart

open Text

/-- How a node is drawn; a badge names the class that colours it. -/
inductive Shape where
  | box
  | stadium (className : String)
  | diamond (className : String)
deriving DecidableEq, Repr

/-- A node; its label is already escaped. -/
structure Node where
  id : String
  label : String
  shape : Shape := .box
deriving DecidableEq, Repr

def Node.text (n : Node) : String :=
  match n.shape with
  | .box => n.id ++ "[\"" ++ n.label ++ "\"]"
  | .stadium cls => n.id ++ "([\"" ++ n.label ++ "\"]):::" ++ cls
  | .diamond cls => n.id ++ "\x7b\"" ++ n.label ++ "\"\x7d:::" ++ cls

/-- The arrow of an edge that is taken on success. -/
def solid : String := "-->"

/-- The arrow of an edge that is taken on failure. -/
def dashed : String := "-.->"

/-- An edge between two ids; an empty label is no label. -/
structure Edge where
  source : String
  target : String
  label : Option String := none
  arrow : String := solid
deriving DecidableEq, Repr

def Edge.text (e : Edge) : String :=
  match e.label.filter (· ≠ "") with
  | some label => e.source ++ " " ++ e.arrow ++ "|" ++ label ++ "| " ++ e.target
  | none => e.source ++ " " ++ e.arrow ++ " " ++ e.target

structure ClassDef where
  name : String
  props : List (String × String)
deriving DecidableEq, Repr

/-- The definition of a class; property names are written with hyphens. -/
def ClassDef.text (d : ClassDef) : String :=
  let prop (p : String × String) : String :=
    p.1.map (fun c => if c = '_' then '-' else c) ++ ":" ++ p.2
  "classDef " ++ d.name ++ " " ++ joinWith "," (d.props.map prop)

inductive Item where
  | header (direction : Direction)
  | boxOpen (id title : String)
  | boxClose
  | node (n : Node)
  | edge (e : Edge)
  | classDef (d : ClassDef)
deriving DecidableEq, Repr

/-- The text of an item; a box's title is already escaped. -/
def Item.text : Item → String
  | header d => "flowchart " ++ d.name
  | boxOpen id title => "subgraph " ++ id ++ " [\"" ++ title ++ "\"]"
  | boxClose => "end"
  | node n => n.text
  | edge e => e.text
  | classDef d => d.text

/-- A line: an item behind an indent. -/
structure Line where
  indent : String
  item : Item
deriving DecidableEq, Repr

def Line.text (l : Line) : String := l.indent ++ l.item.text

/-- The indent of boxes, of edges between boxes and of class definitions. -/
def outerIndent : String := "  "

/-- The indent of what stands in a box. -/
def innerIndent : String := "    "

namespace Line

def header (d : Direction) : Line := ⟨"", .header d⟩

def boxOpen (id title : String) : Line := ⟨outerIndent, .boxOpen id title⟩

def boxClose : Line := ⟨outerIndent, .boxClose⟩

def classDef (d : ClassDef) : Line := ⟨outerIndent, .classDef d⟩

def box (id label : String) : Line := ⟨innerIndent, .node ⟨id, label, .box⟩⟩

def node (indent : String) (n : Node) : Line := ⟨indent, .node n⟩

def edge (indent : String) (e : Edge) : Line := ⟨indent, .edge e⟩

end Line

def textOf (lines : List Line) : String := joinWith "\n" (lines.map Line.text)

end JobChart.Chart
