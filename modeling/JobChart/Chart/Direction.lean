import JobChart.Text.Join
import JobChart.Text.Quoted

/-!
# Directions

The five directions a flowchart can grow in.
-/

namespace JobChart.Chart

open Text

inductive Direction where
  | topDown
  | topBottom
  | leftRight
  | rightLeft
  | bottomTop
deriving DecidableEq, Repr

namespace Direction

def name : Direction → String
  | topDown => "TD"
  | topBottom => "TB"
  | leftRight => "LR"
  | rightLeft => "RL"
  | bottomTop => "BT"

/-- All directions, in the order they are listed to the user. -/
def choices : List Direction := [topDown, topBottom, leftRight, rightLeft, bottomTop]

/-- What a chart uses when nothing is asked for. -/
def standard : Direction := topDown

def ofName? (s : String) : Option Direction := choices.find? (·.name == s)

def unknownMessage (s : String) : String :=
  "unknown flowchart direction " ++ quoted s ++ " (expected one of "
    ++ joinWith ", " (choices.map name) ++ ")"

theorem ofName?_name (d : Direction) : ofName? d.name = some d := by
  cases d <;> decide

end Direction

end JobChart.Chart
