import JobChart.Text.Join

/-!
# Ids and labels

What may stand as a node id in a flowchart, and how free text becomes an id
or a quoted label. An id is made of ASCII letters, digits and `_`; a label
holds no double quote and no line break, and it is cut to eighty characters.

Different names may get the same id (`build-app` and `build.app`).
-/

namespace JobChart.Chart

open Text

/-- A character that may stand in an id. -/
def isIdChar (c : Char) : Bool := c.isAlphanum || c == '_'

/-- The id of a name: what may not stand in an id becomes `_`. -/
def idOf (name : String) : String := name.map fun c => if isIdChar c then c else '_'

/-- The longest label that is drawn. -/
def labelLimit : Nat := 80

/-- How a character is written inside a quoted label. -/
def escapeChar (c : Char) : List Char :=
  if c = '"' then "#quot;".toList else if c = '\n' then "<br/>".toList else [c]

/-- The text as it may stand inside a quoted label, cut to the limit. -/
def escapeLabel (s : String) : String :=
  String.ofList ((s.toList.flatMap escapeChar).take labelLimit)

end JobChart.Chart
