import JobChart.Text.Blank
import JobChart.Value

/-!
# Workflows

A workflow as the diagram sees it: jobs by name in the order they are
declared, each with the jobs it needs, an optional guard and its steps.
-/

namespace JobChart

open Text

structure Step where
  name : Option String := none
  uses : Option String := none
  run : Option String := none
  guard : Option String := none
deriving DecidableEq, Repr, Inhabited

structure Job where
  name : Option String := none
  runsOn : Value := .null
  needs : List String := []
  guard : Option String := none
  steps : List Step := []
  uses : Option String := none
deriving Inhabited

/-- A workflow; its triggers are kept as they were written. -/
structure Workflow where
  jobs : List (String × Job)
  name : Option String := none
  triggers : Value := .null
deriving Inhabited

/-- What is given, an empty text counting as nothing. -/
def given (s : Option String) : Option String := s.filter (· ≠ "")

/-! ## Steps -/

/-- The longest line of a script that is shown in full. -/
def scriptLimit : Nat := 60

/-- The first line of a script, shortened when it is too long. -/
def scriptTitle (script : String) : String :=
  let line := strip (firstPiece '\n' script)
  if scriptLimit < line.length then cut (scriptLimit - 3) line ++ "..." else line

/-- What a step is called: its name, else its action, else its script. -/
def Step.label (s : Step) : String :=
  match given s.name, given s.uses, given s.run with
  | some name, _, _ => name
  | none, some action, _ => action
  | none, none, some script => scriptTitle script
  | none, none, none => "(unnamed step)"

/-! ## Workflows -/

namespace Workflow

def hasTriggers (w : Workflow) : Bool :=
  match w.triggers with
  | .null => false
  | .str s => s != ""
  | _ => true

/-- The jobs that need no other job, in declared order. -/
def roots (w : Workflow) : List String :=
  (w.jobs.filter fun j => j.2.needs.isEmpty).map (·.1)

end Workflow

end JobChart
