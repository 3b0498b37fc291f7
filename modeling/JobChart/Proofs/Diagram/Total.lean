import JobChart.Convert
import JobChart.Proofs.Chain.Walk

/-!
# Drawing never fails

Joining the chains of a group without members is the one way in which drawing
can fail, and no text is read as such a group (`ofText_eq`). So each function
on the way from a workflow to its lines always has a result, and this module
writes it down without the failure: `chart` is the list of lines that
`lines` gives (`lines_eq`).

What is proved about a drawn chart is proved about `chart`, which is made of
concatenations only.
-/

namespace JobChart.Diagram

open Chart Chain

/-! ## Chains -/

def chain (base text : String) : Gate :=
  match ofText base text with
  | .ok c => c
  | .error _ => ofAtom base text

theorem ofText_eq (base text : String) : ofText base text = .ok (chain base text) := by
  obtain ⟨c, hc, -⟩ := leads_ofText base text fun _ => true
  rw [chain, hc]

theorem wired_chain (base text : String) :
    Wired (textBadges base (Guard.parse text)) (chain base text) := by
  obtain ⟨c, hc, hwired, -⟩ := leads_ofText base text fun _ => true
  obtain rfl := Except.ok.inj (hc.symm.trans (ofText_eq base text))
  exact hwired

/-- Every chain leads from its entry to one of its exits: that is the way when all
of its badges are true. -/
theorem chain_leads_on (base text : String) :
    Leads (chain base text).links (fun _ => true) (chain base text) true := by
  obtain ⟨c, hc, -, hleads⟩ := leads_ofText base text fun _ => true
  obtain rfl := Except.ok.inj (hc.symm.trans (ofText_eq base text))
  obtain ⟨id, hpath, hval, hway⟩ := hleads fun _ _ _ => rfl
  rw [← hval] at hway
  exact ⟨id, hpath, rfl, hway⟩

def gate (base : String) (guard : Option String) : Option Gate := (given guard).map (chain base)

theorem gate?_eq (base : String) (guard : Option String) :
    gate? base guard = .ok (gate base guard) := by
  rw [gate?, gate]
  cases given guard with
  | none => rfl
  | some text => simp only [ofText_eq]; rfl

/-! ## Boxes -/

def stops (job : String) : (index : Nat) → List Step → List Stop
  | _, [] => []
  | i, s :: steps =>
    ⟨stepId job i, s.label, gate (stepGuardId job i) s.guard⟩ :: stops job (i + 1) steps

theorem stepStops_eq (job : String) : ∀ (i : Nat) (steps : List Step),
    stepStops job i steps = .ok (stops job i steps)
  | _, [] => rfl
  | i, s :: steps => by
      rw [stepStops, gate?_eq, stepStops_eq job (i + 1) steps]
      rfl

def content (name : String) (job : Job) : List Line :=
  match given job.uses with
  | some call => [Line.box (jobId name ++ "_uses") ("uses: " ++ escapeLabel call)]
  | none =>
    if job.steps.isEmpty then [Line.box (jobId name ++ "_empty") "(no steps)"]
    else stopLines (stops name 0 job.steps)

theorem jobContent_eq (name : String) (job : Job) :
    jobContent name job = .ok (content name job) := by
  rw [jobContent, content]
  cases given job.uses with
  | some call => rfl
  | none =>
      rw [stepStops_eq]
      cases job.steps <;> rfl

def box (name : String) (job : Job) : List Line :=
  Line.boxOpen (jobId name) (jobTitle name job) :: content name job ++ [Line.boxClose]

theorem jobBox_eq (name : String) (job : Job) : jobBox name job = .ok (box name job) := by
  rw [jobBox, jobContent_eq]
  rfl

def boxes (w : Workflow) (names : List String) : List Line :=
  names.flatMap fun name => ((w.jobs.lookup name).map (box name)).getD []

theorem jobBoxes_eq (w : Workflow) : ∀ names : List String,
    jobBoxes w names = .ok (boxes w names)
  | [] => rfl
  | name :: names => by
      rw [jobBoxes, jobBoxes_eq w names]
      cases hjob : w.jobs.lookup name with
      | none => simp only [boxes, List.flatMap_cons, hjob]; rfl
      | some job => simp only [boxes, List.flatMap_cons, hjob, jobBox_eq]; rfl

/-! ## The whole chart -/

def jobGate? (j : String × Job) : Option (String × Gate) :=
  (gate (jobGuardId j.1) j.2.guard).map fun c => (j.1, c)

theorem mem_jobGates {jobs : List (String × Job)} {g : String × Gate} :
    g ∈ jobs.filterMap jobGate?
      ↔ ∃ job, (g.1, job) ∈ jobs ∧ gate (jobGuardId g.1) job.guard = some g.2 := by
  rw [List.mem_filterMap]
  constructor
  · rintro ⟨⟨name, job⟩, hjob, hgate⟩
    obtain ⟨c, hc, rfl⟩ := Option.map_eq_some_iff.mp hgate
    exact ⟨job, hjob, hc⟩
  · rintro ⟨job, hjob, hgate⟩
    exact ⟨_, hjob, by rw [jobGate?, hgate]; rfl⟩

theorem gates_eq : ∀ jobs : List (String × Job), gates jobs = .ok (jobs.filterMap jobGate?)
  | [] => rfl
  | (name, job) :: jobs => by
      rw [gates, gate?_eq, gates_eq jobs, List.filterMap_cons, jobGate?]
      cases gate (jobGuardId name) job.guard <;> rfl

/-- These lines, when something triggers the workflow. -/
def onlyTriggered (w : Workflow) (ls : List Line) : List Line := if w.hasTriggers then ls else []

def chart (d : Direction) (w : Workflow) : List Line :=
  let gs := w.jobs.filterMap jobGate?
  [Line.header d]
    ++ onlyTriggered w (triggerBox w.triggers)
    ++ gateLines gs
    ++ boxes w w.order
    ++ onlyTriggered w ((rootEdges w gs).map (Line.edge outerIndent))
    ++ (needEdges w gs).map (Line.edge outerIndent)
    ++ Badge.classes.map Line.classDef

theorem lines_eq (d : Direction) (w : Workflow) : lines d w = .ok (chart d w) := by
  rw [lines, gates_eq, jobBoxes_eq]
  rfl

theorem flowchart_eq (d : Direction) (w : Workflow) :
    flowchart d w = .ok (textOf (chart d w)) := by
  rw [flowchart, lines_eq]
  rfl

end JobChart.Diagram

namespace JobChart

open Chart

theorem draw_of_unread (d : Direction) {data : Value} {e : WorkflowError}
    (h : Workflow.ofValue data = .error e) : draw d data = .error (.workflow e) := by
  rw [draw, h]

variable {data : Value} {w : Workflow}

/-- A document is drawn as soon as a workflow can be read from it, unless an
integer in it cannot be written. -/
theorem draw_of_workflow (d : Direction) (h : Workflow.ofValue data = .ok w)
    (hshort : w.isOverlong data = false) : draw d data = .ok (textOf (Diagram.chart d w)) := by
  rw [draw, h]
  simp only [hshort, Diagram.flowchart_eq]
  rfl

theorem draw_of_overlong (d : Direction) (h : Workflow.ofValue data = .ok w)
    (hlong : w.isOverlong data = true) : draw d data = .error .overlong := by
  rw [draw, h]
  exact if_pos hlong

theorem exists_workflow_of_draw {d : Direction} {code : String} (h : draw d data = .ok code) :
    ∃ w, Workflow.ofValue data = .ok w ∧ w.isOverlong data = false
      ∧ code = textOf (Diagram.chart d w) := by
  cases hw : Workflow.ofValue data with
  | error e => cases (draw_of_unread d hw).symm.trans h
  | ok w =>
      cases hlong : w.isOverlong data with
      | true => cases (draw_of_overlong d hw hlong).symm.trans h
      | false => exact ⟨w, rfl, hlong, Except.ok.inj (h.symm.trans (draw_of_workflow d hw hlong))⟩

end JobChart
