import JobChart.Chain.Compile
import JobChart.Diagram.Ident
import JobChart.Workflow.Reader

/-!
# The box of a job

A job is drawn as a box. A job that calls another workflow shows the call,
a job without steps says so, and any other job shows its steps one below the
other, each with the badges of its guard in front.

The guards are compiled first (`stepStops`); the lines are then made from
what came out (`stepLines`).
-/

namespace JobChart.Diagram

open Chart

abbrev Gate := Chain Node Edge

def gate? (base : String) (guard : Option String) : Except JoinError (Option Gate) :=
  match given guard with
  | none => .ok none
  | some text => (Chain.ofText base text).map some

/-- A step in its place: its node and the chain in front of it. -/
structure Stop where
  id : String
  label : String
  gate : Option Gate

/-- Where one gets to a stop: at its chain, or at its node. -/
def Stop.entry (s : Stop) : String :=
  match s.gate with
  | some c => c.entry
  | none => s.id

def stepStops (job : String) : (index : Nat) → List Step → Except JoinError (List Stop)
  | _, [] => .ok []
  | i, s :: steps => do
    let gate ← gate? (stepGuardId job i) s.guard
    let stops ← stepStops job (i + 1) steps
    return ⟨stepId job i, s.label, gate⟩ :: stops

def Stop.nodeLines (s : Stop) : List Line :=
  (match s.gate with
    | some c => c.lines innerIndent
    | none => [])
    ++ [Line.box s.id (escapeLabel s.label)]

/-- The edges from a stop's chain into its node. -/
def Stop.passEdges (s : Stop) : List Edge :=
  match s.gate with
  | some c => c.exitEdges s.id
  | none => []

/-- The edges from a stop's chain past its node to the next stop. -/
def Stop.skipEdges (s next : Stop) : List Edge :=
  match s.gate with
  | some c => if c.always then [] else c.skipEdges next.entry "Skip"
  | none => []

/-- The edges of a row of stops that follows the node `previous`. -/
def stopEdges (previous : Option String) : List Stop → List Edge
  | [] => []
  | s :: stops =>
    s.passEdges
      ++ (match previous with
        | some p => [⟨p, s.entry, none, solid⟩]
        | none => [])
      ++ (match stops with
        | next :: _ => s.skipEdges next
        | [] => [])
      ++ stopEdges (some s.id) stops

/-- The nodes of the stops, then the edges between them. -/
def stopLines (stops : List Stop) : List Line :=
  stops.flatMap Stop.nodeLines ++ (stopEdges none stops).map (Line.edge innerIndent)

def jobTitle (name : String) (job : Job) : String :=
  let title := escapeLabel ((given job.name).getD name)
  let runners := job.runners
  if runners = "" then title else title ++ " (" ++ runners ++ ")"

def jobContent (name : String) (job : Job) : Except JoinError (List Line) :=
  match given job.uses with
  | some call => .ok [Line.box (jobId name ++ "_uses") ("uses: " ++ escapeLabel call)]
  | none =>
    if job.steps.isEmpty then .ok [Line.box (jobId name ++ "_empty") "(no steps)"]
    else (stepStops name 0 job.steps).map stopLines

def jobBox (name : String) (job : Job) : Except JoinError (List Line) := do
  let content ← jobContent name job
  return Line.boxOpen (jobId name) (jobTitle name job) :: content ++ [Line.boxClose]

end JobChart.Diagram
