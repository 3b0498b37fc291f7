import JobChart.Diagram.Flow
import JobChart.Fault
import JobChart.Workflow.Spelling

/-!
# Conversion

From a document, or the text of one, to its flowchart. A failure is a value
here: what went wrong, and the text that is shown to the user. A failure
about the document as a whole speaks for itself; any other is shown as an
error of reading.

Drawing takes the texts of many values (`Workflow.spelled`, `spelledInChart`)
and fails where one of them is overlong. All such failures are the same one,
so it does not matter which value is met first.
-/

namespace JobChart

open Chart

/-- How a failure is shown: the two that concern the whole document have a
text of their own. -/
inductive FailureKind where
  | notMapping
  | noJobs
  | other
deriving DecidableEq, Repr

namespace FailureKind

def standardMessage : FailureKind → String
  | notMapping => WorkflowError.notMapping.message
  | noJobs => WorkflowError.noJobs.message
  | other => ""

/-- What the user is shown of a failure that says `message`. -/
def report (k : FailureKind) (message : String) : String :=
  match k with
  | notMapping | noJobs => message
  | other => "Parse error: " ++ message

end FailureKind

/-- Why a document, or the text of one, has no flowchart. -/
inductive DrawError where
  | text (e : LoadError)
  | workflow (e : WorkflowError)
  /-- A text would show an integer that cannot be written. -/
  | overlong
  | join (e : JoinError)
deriving DecidableEq, Repr

namespace DrawError

def kind : DrawError → FailureKind
  | workflow .notMapping => .notMapping
  | workflow .noJobs => .noJobs
  | join _ | overlong | text _ => .other

def message : DrawError → String
  | text e => e.message
  | workflow e => e.message
  | overlong => Fault.overlong.message
  | join e => e.message

def report (e : DrawError) : String := e.kind.report e.message

end DrawError

def draw (d : Direction) (data : Value) : Except DrawError String :=
  match Workflow.ofValue data with
  | .error e => .error (.workflow e)
  | .ok w =>
    if w.isOverlong data then .error .overlong
    else
      match Diagram.flowchart d w with
      | .error e => .error (.join e)
      | .ok code => .ok code

def drawText (load : Loader) (d : Direction) (text : String) : Except DrawError String :=
  match load text with
  | .error e => .error (.text e)
  | .ok data => draw d data

end JobChart
