import JobChart.Workflow.Trigger

/-!
# What is spelled out

The values of a document whose texts are taken when it is drawn, in two
rounds: first everything that makes up the workflow, jobs that a later key
replaces included, then the runners and the triggers, which are kept as they
were written until they are drawn.

Each list goes with the function that takes the texts: a step, a job, a
workflow, the runners of a job, the triggers. Where one of these values is
overlong, taking its text fails.
-/

namespace JobChart

def Step.spelled : Value → List Value
  | .map es =>
    let raw := Value.map es
    [raw.field "name", raw.field "uses", raw.field "run", raw.field "if"]
  | _ => []

def Job.spelled : Value → List Value
  | .map es =>
    let raw := Value.map es
    [raw.field "name", raw.field "uses", raw.field "if"] ++ (raw.field "needs").members
      ++ (raw.field "steps").items.flatMap Step.spelled
  | _ => []

/-- The values whose texts are the runners of a job. -/
def Job.spelledRunners (j : Job) : List Value :=
  if !j.runsOn.isTruthy then []
  else
    match j.runsOn with
    | .map es =>
      let raw := Value.map es
      (raw.field "group").members ++ (raw.field "labels").members
    | v => v.members

namespace Trigger

/-- The values whose texts sum up an event with its configuration. -/
def spelledConfig (name : String) (config : Value) : List Value :=
  match config with
  | .list _ =>
    if name = "schedule" then (config.items.map (·.field "cron")).filter Value.isTruthy else []
  | _ => filters.flatMap fun key => (config.field key).members

def spelled (triggers : Value) : List Value :=
  match triggers with
  | .str _ => []
  | .list _ => triggers.items
  | v =>
    match v.entries? with
    | some es => es.flatMap fun e => e.1 :: spelledConfig e.1.text e.2
    | none => []

end Trigger

namespace Workflow

/-- The values whose texts make up the workflow of a document. -/
def spelled (data : Value) : List Value :=
  ((jobEntries? data).getD []).flatMap (fun e => e.1 :: Job.spelled e.2) ++ [data.field "name"]

/-- The values whose texts are taken when the workflow is drawn. -/
def spelledInChart (w : Workflow) : List Value :=
  w.jobs.flatMap (·.2.spelledRunners)
    ++ if w.hasTriggers then Trigger.spelled w.triggers else []

/-- Whether a text would show an integer that cannot be written, when the
workflow is read from this document and drawn. -/
def isOverlong (data : Value) (w : Workflow) : Bool :=
  (spelled data ++ w.spelledInChart).any Value.isOverlong

end Workflow

end JobChart
