import JobChart.Proofs.Diagram.Escaping
import JobChart.Proofs.Diagram.StepWalk

/-!
# The ids and the edges of a chart

A node and the start of a box define an id; edges only name ids that are defined
elsewhere. The ids of a chain are those of its badges (`definedIds_lines`),
the ids of a box are its own and those of what stands in it, and so on up to the
whole chart (`definedIds_chart`). Its edges are those inside the chains and the
boxes and those between boxes (`edgesOf_chart`).
-/

namespace JobChart.Diagram

open Chart Chain

/-- The id that a line defines, if it defines one. -/
def definedId? (l : Line) : Option String :=
  match l.item with
  | .boxOpen id _ => some id
  | .node n => some n.id
  | _ => none

/-- The ids that these lines define, each as often as it is defined. -/
def definedIds (ls : List Line) : List String := ls.filterMap definedId?

theorem definedIds_append (as bs : List Line) :
    definedIds (as ++ bs) = definedIds as ++ definedIds bs :=
  List.filterMap_append

theorem definedIds_flatMap {α : Type} (f : α → List Line) (as : List α) :
    definedIds (as.flatMap f) = as.flatMap fun a => definedIds (f a) :=
  List.filterMap_flatMap

theorem definedIds_edges (indent : String) (es : List Edge) :
    definedIds (es.map (Line.edge indent)) = [] := by
  rw [definedIds, List.filterMap_map]
  exact List.filterMap_eq_nil_iff.mpr fun _ _ => rfl

theorem definedIds_nodes (indent : String) (ns : List Node) :
    definedIds (ns.map (Line.node indent)) = ns.map (·.id) := by
  rw [definedIds, List.filterMap_map]
  exact List.filterMap_eq_map_iff_forall_eq_some.mpr fun _ _ => rfl

/-! ## Chains -/

/-- A chain defines the ids of its badges. -/
theorem definedIds_lines {bs : List (String × String)} {c : Gate} (h : Wired bs c)
    (indent : String) : definedIds (c.lines indent) = bs.map (·.1) := by
  rw [Chain.lines, definedIds_append, definedIds_edges, definedIds_nodes, List.append_nil, h.nodes,
    List.map_map]
  exact List.map_congr_left fun b _ => Badge.id_node b.1 b.2

/-- The badges that a guard has in front of what is called `base`, each by its id
and its text. -/
def guardBadges (base : String) (guard : Option String) : List (String × String) :=
  match given guard with
  | some text => textBadges base (Guard.parse text)
  | none => []

/-- The ids of these badges. -/
def guardIds (base : String) (guard : Option String) : List String :=
  (guardBadges base guard).map (·.1)

section

variable {base : String} {guard : Option String} {c : Gate}

theorem wired_of_gate (h : gate base guard = some c) : Wired (guardBadges base guard) c := by
  obtain ⟨text, htext, rfl⟩ := Option.map_eq_some_iff.mp h
  rw [guardBadges, htext]
  exact wired_chain base text

theorem guardIds_of_gate_none (h : gate base guard = none) : guardIds base guard = [] := by
  rw [guardIds, guardBadges, Option.map_eq_none_iff.mp h]
  rfl

end

/-! ## The box of a job -/

theorem definedIds_nodeLines (id label base : String) (guard : Option String) :
    definedIds (Stop.nodeLines ⟨id, label, gate base guard⟩) = guardIds base guard ++ [id] := by
  rw [Stop.nodeLines, definedIds_append]
  cases hgate : gate base guard with
  | none => rw [guardIds_of_gate_none hgate]; rfl
  | some c => rw [definedIds_lines (wired_of_gate hgate)]; rfl

/-- The ids of a row of steps and of the badges in front of them, the first step
standing at this place. -/
def rowIds (job : String) : (index : Nat) → List Step → List String
  | _, [] => []
  | i, s :: steps =>
    guardIds (stepGuardId job i) s.guard ++ [stepId job i] ++ rowIds job (i + 1) steps

theorem definedIds_stopLines (job : String) (i : Nat) (steps : List Step) :
    definedIds (stopLines (stops job i steps)) = rowIds job i steps := by
  rw [stopLines, definedIds_append, definedIds_edges, List.append_nil, definedIds_flatMap]
  induction steps generalizing i with
  | nil => rfl
  | cons s steps ih => rw [stops, List.flatMap_cons, definedIds_nodeLines, ih, rowIds]

/-- The ids of what stands in a job's box. -/
def contentIds (name : String) (job : Job) : List String :=
  match given job.uses with
  | some _ => [jobId name ++ "_uses"]
  | none => if job.steps.isEmpty then [jobId name ++ "_empty"] else rowIds name 0 job.steps

theorem definedIds_content (name : String) (job : Job) :
    definedIds (content name job) = contentIds name job := by
  rw [content, contentIds]
  cases given job.uses with
  | some call => rfl
  | none =>
      cases job.steps with
      | nil => rfl
      | cons s steps => exact definedIds_stopLines name 0 (s :: steps)

def boxIds (name : String) (job : Job) : List String := jobId name :: contentIds name job

theorem definedIds_box (name : String) (job : Job) :
    definedIds (box name job) = boxIds name job := by
  rw [box, definedIds_append, show definedIds [Line.boxClose] = [] from rfl, List.append_nil,
    boxIds, ← definedIds_content]
  rfl

/-! ## The whole chart -/

theorem definedIds_gateLines (jobs : List (String × Job)) :
    definedIds (gateLines (jobs.filterMap jobGate?))
      = jobs.flatMap fun j => guardIds (jobGuardId j.1) j.2.guard := by
  rw [gateLines, definedIds_flatMap]
  induction jobs with
  | nil => rfl
  | cons j jobs ih =>
      rw [List.filterMap_cons, List.flatMap_cons, jobGate?]
      cases hgate : gate (jobGuardId j.1) j.2.guard with
      | none =>
          rw [guardIds_of_gate_none hgate, List.nil_append]
          exact ih
      | some c =>
          rw [Option.map_some, List.flatMap_cons, ih, definedIds_lines (wired_of_gate hgate)]
          rfl

theorem definedIds_boxes (w : Workflow) (names : List String) :
    definedIds (boxes w names)
      = names.flatMap fun name => ((w.jobs.lookup name).map (boxIds name)).getD [] := by
  rw [boxes, definedIds_flatMap]
  congr 1
  funext name
  cases w.jobs.lookup name with
  | none => rfl
  | some job => exact definedIds_box name job

theorem definedIds_onlyTriggered (w : Workflow) (ls : List Line) :
    definedIds (onlyTriggered w ls) = if w.hasTriggers then definedIds ls else [] := by
  rw [onlyTriggered]
  split <;> rfl

/-- A chart defines the ids of its triggers, of the chains in front of its jobs
and of their boxes. -/
theorem definedIds_chart (d : Direction) (w : Workflow) :
    definedIds (chart d w)
      = (if w.hasTriggers then definedIds (triggerBox w.triggers) else [])
        ++ definedIds (gateLines (w.jobs.filterMap jobGate?) ++ boxes w w.order) := by
  have hclasses : definedIds (Badge.classes.map Line.classDef) = [] := rfl
  have hheader : definedIds [Line.header d] = [] := rfl
  simp only [chart, definedIds_append, hheader, definedIds_onlyTriggered, definedIds_edges,
    hclasses, ite_self, List.nil_append, List.append_nil, List.append_assoc]

/-! ## The edges of the whole chart -/

theorem edgesOf_flatMap {α : Type} (f : α → List Line) (as : List α) :
    edgesOf (as.flatMap f) = as.flatMap fun a => edgesOf (f a) :=
  List.filterMap_flatMap

theorem edgesOf_lines (c : Gate) (indent : String) : edgesOf (c.lines indent) = c.links := by
  have hnodes : edgesOf (c.nodes.map (Line.node indent)) = [] := by
    rw [edgesOf, List.filterMap_map]
    exact List.filterMap_eq_nil_iff.mpr fun _ _ => rfl
  rw [Chain.lines, edgesOf_append, hnodes, edgesOf_edges, List.nil_append]

/-- The edges that a chart has only when something triggers its workflow. -/
theorem edgesOf_onlyTriggered (w : Workflow) (ls : List Line) :
    edgesOf (onlyTriggered w ls) = if w.hasTriggers then edgesOf ls else [] := by
  rw [onlyTriggered]
  split <;> rfl

theorem edgesOf_triggerBox (triggers : Value) : edgesOf (triggerBox triggers) = [] := by
  have hlines : edgesOf ((Trigger.ofValue triggers).map triggerLine) = [] := by
    rw [edgesOf, List.filterMap_map]
    exact List.filterMap_eq_nil_iff.mpr fun _ _ => rfl
  rw [triggerBox, edgesOf_append, ← List.singleton_append, edgesOf_append, hlines]
  rfl

/-- A chart has the edges inside the chains in front of its jobs, those in the
boxes, and those from the triggers and from the jobs that are needed. -/
theorem edgesOf_chart (d : Direction) (w : Workflow) :
    edgesOf (chart d w)
      = (w.jobs.filterMap jobGate?).flatMap (fun g => g.2.links)
        ++ edgesOf (boxes w w.order)
        ++ (if w.hasTriggers then rootEdges w (w.jobs.filterMap jobGate?) else [])
        ++ needEdges w (w.jobs.filterMap jobGate?) := by
  have hclasses : edgesOf (Badge.classes.map Line.classDef) = [] := rfl
  have hheader : edgesOf [Line.header d] = [] := rfl
  have hgates : ∀ gs : List (String × Gate),
      edgesOf (gateLines gs) = gs.flatMap fun g => g.2.links := by
    intro gs
    rw [gateLines, edgesOf_flatMap]
    congr 1
    funext g
    exact edgesOf_lines g.2 outerIndent
  simp only [chart, edgesOf_append, hheader, edgesOf_onlyTriggered, edgesOf_triggerBox,
    edgesOf_edges, hclasses, hgates, ite_self, List.nil_append, List.append_nil]

end JobChart.Diagram
