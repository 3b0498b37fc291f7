import JobChart.Workflow.Reader

/-!
# Triggers

The events that start a workflow, one entry each: a name, and for events
with filters a short summary of them.
-/

namespace JobChart

open Text

/-- An event and a summary of its filters. -/
structure Trigger where
  name : String
  detail : Option String := none
deriving DecidableEq, Repr

namespace Trigger

/-- The filters that are summed up, in the order they are shown. -/
def filters : List String := ["branches", "tags", "paths", "types"]

/-- The times of a schedule's entries. -/
def times (entries : List Value) : List String :=
  ((entries.map (·.field "cron")).filter Value.isTruthy).map Value.text

/-- One filter of an event, when it is set. -/
def filterText? (config : Value) (key : String) : Option String :=
  match (config.field key).texts with
  | [] => none
  | values => some (key ++ ": " ++ joinWith ", " values)

def ofConfig (name : String) (config : Value) : Trigger :=
  match config with
  | .list _ =>
    if name = "schedule" then ⟨name, given (some (joinWith ", " (times config.items)))⟩
    else ⟨name, none⟩
  | _ => ⟨name, given (some (joinWith ", " (filters.filterMap (filterText? config))))⟩

def ofValue (triggers : Value) : List Trigger :=
  match triggers with
  | .str s => [⟨s, none⟩]
  | .list _ => triggers.items.map fun v => ⟨v.text, none⟩
  | v =>
    match v.entries? with
    | some es => es.map fun e => ofConfig e.1.text e.2
    | none => [⟨"unknown", none⟩]

end Trigger

end JobChart
