import JobChart.Diagram.JobBox
import JobChart.Workflow.Order
import JobChart.Workflow.Trigger

/-!
# The flowchart of a workflow

From top to bottom: the box of the triggers, the badges in front of the
jobs, the boxes of the jobs in an order that puts each after what it needs,
the edges from the triggers and between the jobs, and the classes of the
badges.

The chain in front of a job is compiled once (`gates`); all edges into the
job go to the entry of that chain.
-/

namespace JobChart.Diagram

open Chart

/-! ## Triggers -/

/-- The node of a trigger; its filters stand below its name. -/
def triggerLine (t : Trigger) : Line :=
  let label := match given t.detail with
    | some detail => t.name ++ "<br/>" ++ escapeLabel detail
    | none => t.name
  Line.box (triggerId t.name) label

def triggerBox (triggers : Value) : List Line :=
  Line.boxOpen triggersId "Triggers" :: (Trigger.ofValue triggers).map triggerLine
    ++ [Line.boxClose]

/-! ## Guards of jobs -/

/-- The chains in front of the guarded jobs, in declared order. -/
def gates : List (String × Job) → Except JoinError (List (String × Gate))
  | [] => .ok []
  | (name, job) :: jobs => do
    match ← gate? (jobGuardId name) job.guard with
    | some c => return (name, c) :: (← gates jobs)
    | none => gates jobs

/-- The badges of the chains in front of the jobs. -/
def gateLines (gs : List (String × Gate)) : List Line :=
  gs.flatMap fun g => g.2.lines outerIndent

/-! ## Edges between boxes -/

/-- The edges into a job: from each source to where the job is entered, and
after the first of them the chain's own edges into the job's box. -/
def edgesInto (gs : List (String × Gate)) (sources : List String) (job : String) : List Edge :=
  match gs.lookup job with
  | none => sources.map fun s => ⟨s, jobId job, none, solid⟩
  | some c =>
    match sources with
    | [] => []
    | s :: rest =>
      ⟨s, c.entry, none, solid⟩ :: c.exitEdges (jobId job)
        ++ rest.map fun s => ⟨s, c.entry, none, solid⟩

def rootEdges (w : Workflow) (gs : List (String × Gate)) : List Edge :=
  w.roots.flatMap (edgesInto gs [triggersId])

def needEdges (w : Workflow) (gs : List (String × Gate)) : List Edge :=
  w.jobs.flatMap fun j => edgesInto gs (j.2.needs.map jobId) j.1

/-! ## The whole chart -/

def jobBoxes (w : Workflow) : List String → Except JoinError (List Line)
  | [] => .ok []
  | name :: names => do
    let box ← match w.jobs.lookup name with
      | some job => jobBox name job
      | none => .ok []
    return box ++ (← jobBoxes w names)

def lines (d : Direction) (w : Workflow) : Except JoinError (List Line) := do
  let gs ← gates w.jobs
  let boxes ← jobBoxes w w.order
  let onlyTriggered (ls : List Line) : List Line := if w.hasTriggers then ls else []
  return [Line.header d]
    ++ onlyTriggered (triggerBox w.triggers)
    ++ gateLines gs
    ++ boxes
    ++ onlyTriggered ((rootEdges w gs).map (Line.edge outerIndent))
    ++ (needEdges w gs).map (Line.edge outerIndent)
    ++ Badge.classes.map Line.classDef

def flowchart (d : Direction) (w : Workflow) : Except JoinError String :=
  (lines d w).map textOf

end JobChart.Diagram
