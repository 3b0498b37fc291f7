import JobChart.Chart.Ident
import JobChart.Fault
import JobChart.Finding
import JobChart.Guard.Check
import JobChart.Workflow.Reader

/-!
# Reviews

A review goes through a document from top to bottom and reports what looks
wrong in it. A job or a step that is no mapping is reported and passed over,
and of a guard the first of the two checks that fails.

The options say which codes are not reported and which warnings are reported
as errors. They are looked at where something is reported (`report`) and
nowhere else.

Where a text that a review takes would show an integer that cannot be written,
there is no review (`examine`).
-/

namespace JobChart

open Chart

/-- A finding with the severity it is reported at. -/
structure Issue where
  severity : Severity
  finding : Finding
deriving DecidableEq, Repr

structure ReviewOptions where
  ignore : List String := []
  escalate : List String := []
deriving DecidableEq, Repr

def ReviewOptions.severityOf (o : ReviewOptions) (f : Finding) : Severity :=
  if f.code ∈ o.escalate then .error else f.severity

/-- Work under the options of a review, with the issues reported so far. -/
abbrev Reviewing := ReaderT ReviewOptions (StateM (List Issue))

namespace Reviewing

/-- Reports a finding, unless its code is ignored. -/
def report (f : Finding) : Reviewing Unit := do
  let o ← read
  if f.code ∈ o.ignore then return
  modify (· ++ [⟨o.severityOf f, f⟩])

def checkGuard (site : GuardSite) (raw : Value) : Reviewing Unit :=
  match raw.guard? with
  | none => return
  | some text =>
    if !Guard.balanced text then report (.unbalanced site text)
    else if Guard.lacksOperand text then report (.emptyOperand site text)
    else return

def checkStep (job : String) (index : Nat) (step : Value) : Reviewing Unit :=
  match step with
  | .map _ => checkGuard (.step job index) (step.field "if")
  | _ => report (.stepNotMapping job index)

def checkSteps (job : String) : (index : Nat) → List Value → Reviewing Unit
  | _, [] => return
  | i, s :: steps => do
    checkStep job i s
    checkSteps job (i + 1) steps

def checkNeeds (names : List String) (job : String) : List String → Reviewing Unit
  | [] => return
  | dep :: deps => do
    if dep ∉ names then report (.unknownNeed job dep)
    checkNeeds names job deps

def checkJob (names : List String) (job : String) (raw : Value) : Reviewing Unit :=
  match raw with
  | .map _ => do
    checkNeeds names job (raw.field "needs").texts
    checkGuard (.job job) (raw.field "if")
    let steps := raw.field "steps"
    match steps with
    | .list _ => checkSteps job 0 steps.items
    | v => if v.isTruthy then report (.stepsNotList job)
  | _ => report (.jobNotMapping job)

/-- Checks the id of a job against `seen`, the ids so far, each with the job
that had it first. A new id is kept there. -/
def checkId (seen : List (String × String)) (job : String) :
    Reviewing (List (String × String)) :=
  let id := idOf job
  match seen.lookup id with
  | some first => do
    report (.idCollision first job id)
    return seen
  | none => return (id, job) :: seen

def checkJobs (names : List String) : (seen : List (String × String)) →
    List (Value × Value) → Reviewing Unit
  | _, [] => return
  | seen, (key, raw) :: jobs => do
    let seen ← checkId seen key.text
    checkJob names key.text raw
    checkJobs names seen jobs

def checkDocument (data : Value) : Reviewing Unit :=
  match data with
  | .map _ =>
    match Workflow.jobEntries? data with
    | some jobs => checkJobs (jobs.map (·.1.text)) [] jobs
    | none => report .jobsMissing
  | _ => report .notMapping

end Reviewing

def review (o : ReviewOptions) (data : Value) : List Issue :=
  (((Reviewing.checkDocument data).run o).run []).2

/-! ## Documents that cannot be reviewed -/

namespace Reviewing

/-- The values of a step whose texts are looked at. -/
def spelledInStep : Value → List Value
  | .map es => [(Value.map es).field "if"]
  | _ => []

/-- The values of a job whose texts are looked at. -/
def spelledInJob : Value → List Value
  | .map es =>
    let raw := Value.map es
    raw.field "if" :: (raw.field "needs").members
      ++ (raw.field "steps").items.flatMap spelledInStep
  | _ => []

/-- The values of a document whose texts are looked at. -/
def spelled (data : Value) : List Value :=
  ((Workflow.jobEntries? data).getD []).flatMap fun e => e.1 :: spelledInJob e.2

end Reviewing

/-- The issues reported of a document, unless a text in it cannot be taken. -/
def examine (o : ReviewOptions) (data : Value) : Except Fault (List Issue) :=
  if (Reviewing.spelled data).any Value.isOverlong then .error .overlong else .ok (review o data)

end JobChart
