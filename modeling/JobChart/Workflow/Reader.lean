import JobChart.Workflow.Basic

/-!
# Reading a workflow

A document value read as a workflow. The document must be a mapping with a
mapping of jobs that is not empty (`Workflow.ofValue`); below that level
everything is tolerated: a job or step that is no mapping has no content,
steps that are no list are no steps, and a field of any kind is shown as
text.

Two job keys with the same text are one job, in the place of the first and
with the content of the last.
-/

namespace JobChart

open Text

/-! ## Fields -/

namespace Value

/-- What a field is made of that holds one text or several: absent and empty
hold none, and null items of a list are left out. -/
def members : Value → List Value
  | null => []
  | str s => if s = "" then [] else [str s]
  | list vs | tuple vs => vs.filter fun v => !v.isNull
  | v => [v]

/-- The texts of a field that holds one or several. -/
def texts (v : Value) : List String := v.members.map text

/-- A field that holds one text; absent and empty hold none. -/
def text? : Value → Option String
  | null => none
  | v => given (some v.text)

/-- The text of a guard, unless it is absent or blank; a truth value is
written in lower case. -/
def guard? : Value → Option String
  | null => none
  | bool b => some (if b then "true" else "false")
  | v => if allBlank v.text then none else some v.text

end Value

/-! ## Steps and jobs -/

def Step.ofValue : Value → Step
  | .map es =>
    let raw := Value.map es
    { name := (raw.field "name").text?
      uses := (raw.field "uses").text?
      run := (raw.field "run").text?
      guard := (raw.field "if").guard? }
  | _ => {}

def Job.ofValue : Value → Job
  | .map es =>
    let raw := Value.map es
    { name := (raw.field "name").text?
      runsOn := raw.field "runs-on"
      needs := (raw.field "needs").texts
      guard := (raw.field "if").guard?
      steps := (raw.field "steps").items.map Step.ofValue
      uses := (raw.field "uses").text? }
  | _ => {}

/-! ## Workflows -/

inductive WorkflowError where
  | notMapping
  | noJobs
deriving DecidableEq, Repr

def WorkflowError.message : WorkflowError → String
  | notMapping => "Failed to parse YAML. Please enter valid YAML."
  | noJobs => "No jobs section found. Please enter a GitHub Actions workflow YAML."

namespace Workflow

/-- The jobs with one more put in. A name that is there keeps its place. -/
def putJob (name : String) (job : Job) : List (String × Job) → List (String × Job)
  | [] => [(name, job)]
  | j :: js => if j.1 = name then (name, job) :: js else j :: putJob name job js

/-- The entries of the `jobs` field, when it is a mapping that is not empty. -/
def jobEntries? (data : Value) : Option (List (Value × Value)) :=
  match (data.field "jobs").entries? with
  | some (e :: es) => some (e :: es)
  | _ => none

def jobsOf (entries : List (Value × Value)) : List (String × Job) :=
  entries.foldl (fun js e => putJob e.1.text (Job.ofValue e.2) js) []

/-- The triggers: the field `on`, or the one whose key is the truth value,
which is how a document spells a bare `on`. -/
def triggersOf (data : Value) : Value :=
  (data.entry? (.str "on")).getD ((data.entry? (.bool true)).getD .null)

def ofValue (data : Value) : Except WorkflowError Workflow :=
  match data with
  | .map _ =>
    match jobEntries? data with
    | some entries =>
      .ok { jobs := jobsOf entries
            name := (data.field "name").text?
            triggers := triggersOf data }
    | none => .error .noJobs
  | _ => .error .notMapping

end Workflow

/-! ## Runners -/

/-- The runners of a job as shown in its title; a mapping names a group and labels. -/
def Job.runners (j : Job) : String :=
  if !j.runsOn.isTruthy then ""
  else
    match j.runsOn with
    | .map es =>
      let raw := Value.map es
      joinWith ", " ((raw.field "group").texts ++ (raw.field "labels").texts)
    | v => joinWith ", " v.texts

end JobChart
