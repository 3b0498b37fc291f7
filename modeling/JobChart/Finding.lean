import JobChart.Text.Quoted

/-!
# Findings

What may look wrong in a document, with the code, the text and the place that
a report of it has. Two findings say that there is no workflow to draw; all
others are slips in a workflow that is drawn nevertheless.
-/

namespace JobChart

open Text

inductive Severity where
  | error
  | warning
deriving DecidableEq, Repr

def Severity.name : Severity → String
  | error => "error"
  | warning => "warning"

inductive GuardSite where
  | job (job : String)
  | step (job : String) (index : Nat)
deriving DecidableEq, Repr

def jobPath (job : String) : String := "/jobs/" ++ job

def stepPath (job : String) (index : Nat) : String :=
  jobPath job ++ "/steps/" ++ toString index

def GuardSite.path : GuardSite → String
  | job j => jobPath j ++ "/if"
  | step j i => stepPath j i ++ "/if"

def GuardSite.owner : GuardSite → String
  | job j => "job " ++ quoted j
  | step j i => "job " ++ quoted j ++ " step " ++ toString i

inductive Finding where
  | notMapping
  | jobsMissing
  | idCollision (first job id : String)
  | jobNotMapping (job : String)
  | unknownNeed (job dep : String)
  | unbalanced (site : GuardSite) (guard : String)
  | emptyOperand (site : GuardSite) (guard : String)
  | stepsNotList (job : String)
  | stepNotMapping (job : String) (index : Nat)
deriving DecidableEq, Repr

namespace Finding

def code : Finding → String
  | notMapping => "E_WORKFLOW_NOT_MAPPING"
  | jobsMissing => "E_JOBS_MISSING"
  | idCollision .. => "W_JOB_ID_COLLISION"
  | jobNotMapping _ => "W_JOB_NOT_MAPPING"
  | unknownNeed .. => "W_NEEDS_UNKNOWN_JOB"
  | unbalanced .. => "W_CONDITION_UNBALANCED_PARENS"
  | emptyOperand .. => "W_CONDITION_EMPTY_OPERAND"
  | stepsNotList _ => "W_STEPS_NOT_LIST"
  | stepNotMapping .. => "W_STEP_NOT_MAPPING"

def severity : Finding → Severity
  | notMapping | jobsMissing => .error
  | _ => .warning

def message : Finding → String
  | notMapping => "workflow must be a YAML mapping"
  | jobsMissing => "workflow has no jobs"
  | idCollision first job id =>
    "jobs " ++ quoted first ++ " and " ++ quoted job ++ " both map to node id " ++ quoted id
      ++ "; their nodes will be merged in the diagram"
  | jobNotMapping job =>
    "job " ++ quoted job ++ " is not a mapping; it will be drawn without steps"
  | unknownNeed job dep => "job " ++ quoted job ++ " needs unknown job " ++ quoted dep
  | unbalanced site guard =>
    site.owner ++ " condition " ++ quoted guard ++ " has unbalanced parentheses; "
      ++ "it will be drawn as a single custom badge"
  | emptyOperand site guard =>
    site.owner ++ " condition " ++ quoted guard ++ " has an operator with a missing operand"
  | stepsNotList job => "job " ++ quoted job ++ " steps must be a list; ignoring"
  | stepNotMapping job _ =>
    "job " ++ quoted job ++ " contains a non-mapping step; "
      ++ "it will be drawn as an unnamed step"

def path : Finding → String
  | notMapping => ""
  | jobsMissing => "/jobs"
  | idCollision _ job _ => jobPath job
  | jobNotMapping job => jobPath job
  | unknownNeed job _ => jobPath job ++ "/needs"
  | unbalanced site _ => site.path
  | emptyOperand site _ => site.path
  | stepsNotList job => jobPath job ++ "/steps"
  | stepNotMapping job i => stepPath job i

def hint : Finding → Option String
  | jobsMissing => some "Add a `jobs:` mapping with at least one job"
  | idCollision .. => some "Rename one of the jobs"
  | _ => none

end Finding

end JobChart
