import JobChart.Proofs.Convert.Agreement
import JobChart.Proofs.Diagram.Outline
import JobChart.Proofs.Workflow.Reviewed

/-!
# No edge dangles

Both ends of every edge of a chart are ids that the same chart defines, as long
as every job needs declared jobs only.

The edges are taken in the order they are made. Those inside a chain, into what
it guards and past it start at its badges and lead to its badges or to an entry
(`joins_links`, `joins_stopEdges`). Between boxes an edge starts at the triggers
or at a job that is needed, and leads to where a job is entered
(`joins_edgesInto`); of these only a job that is not declared has no box.
-/

namespace JobChart.Diagram

open Chart Chain

/-- Both ends of the edge are among these ids. -/
def Joins (ids : List String) (e : Edge) : Prop := e.source ∈ ids ∧ e.target ∈ ids

section Chains

variable {ids : List String} {base target label : String} {guard : Option String} {c : Gate}

theorem joins_links (h : gate base guard = some c) (hids : ∀ id ∈ guardIds base guard, id ∈ ids) :
    ∀ e ∈ c.links, Joins ids e := by
  intro e he
  have hwired := wired_of_gate h
  exact ⟨hids _ (hwired.link_source he), hids _ (hwired.links e he).2⟩

theorem joins_exitEdges (h : gate base guard = some c) (hids : ∀ id ∈ guardIds base guard, id ∈ ids)
    (htarget : target ∈ ids) : ∀ e ∈ c.exitEdges target, Joins ids e := by
  intro e he
  obtain ⟨x, hx, rfl⟩ := List.mem_map.mp he
  exact ⟨hids _ ((wired_of_gate h).exit_source hx), htarget⟩

theorem joins_skipEdges (h : gate base guard = some c) (hids : ∀ id ∈ guardIds base guard, id ∈ ids)
    (htarget : target ∈ ids) : ∀ e ∈ c.skipEdges target label, Joins ids e := by
  intro e he
  obtain ⟨s, hs, rfl⟩ := List.mem_map.mp he
  exact ⟨hids _ ((wired_of_gate h).skip_mem hs), htarget⟩

theorem entry_mem_of_gate (h : gate base guard = some c)
    (hids : ∀ id ∈ guardIds base guard, id ∈ ids) : c.entry ∈ ids :=
  hids _ (wired_of_gate h).entry_mem

end Chains

/-! ## Inside a box -/

section Box

variable {ids : List String} {job : String}

theorem entry_mem_of_stop {i : Nat} {s : Step}
    (hids : ∀ id ∈ guardIds (stepGuardId job i) s.guard ++ [stepId job i], id ∈ ids) :
    Stop.entry ⟨stepId job i, s.label, gate (stepGuardId job i) s.guard⟩ ∈ ids := by
  rw [List.forall_mem_append] at hids
  rw [Stop.entry]
  split
  · next c hc => exact entry_mem_of_gate hc hids.1
  · exact hids.2 _ List.mem_cons_self

/-- The edges of a row of steps, with the node before it. -/
theorem joins_stopEdges : ∀ {previous : Option String} {i : Nat} {steps : List Step},
    (∀ p, previous = some p → p ∈ ids) → (∀ id ∈ rowIds job i steps, id ∈ ids) →
      ∀ e ∈ stopEdges previous (stops job i steps), Joins ids e
  | _, _, [], _, _, e, he => by cases he
  | previous, i, s :: steps, hprevious, hids, e, he => by
      rw [rowIds, List.forall_mem_append] at hids
      obtain ⟨hstop, hrest⟩ := hids
      have hentry := entry_mem_of_stop hstop
      rw [List.forall_mem_append] at hstop
      obtain ⟨hguard, hid⟩ := hstop
      have hstep : stepId job i ∈ ids := hid _ List.mem_cons_self
      simp only [stops, stopEdges, List.mem_append] at he
      rcases he with ((he | he) | he) | he
      · rw [Stop.passEdges] at he
        split at he
        · next c hc => exact joins_exitEdges hc hguard hstep e he
        · cases he
      · cases previous with
        | none => cases he
        | some p =>
            rw [List.mem_singleton.mp he]
            exact ⟨hprevious p rfl, hentry⟩
      · cases steps with
        | nil => cases he
        | cons next steps =>
            rw [rowIds, List.forall_mem_append] at hrest
            have hnext := entry_mem_of_stop hrest.1
            simp only [stops, Stop.skipEdges] at he
            split at he
            · next c hc =>
              split at he
              · cases he
              · exact joins_skipEdges hc hguard hnext e he
            · cases he
      · exact joins_stopEdges (fun p hp => Option.some.inj hp ▸ hstep) hrest e he

theorem joins_row_links {i : Nat} {steps : List Step} (hids : ∀ id ∈ rowIds job i steps, id ∈ ids) :
    ∀ e ∈ (stops job i steps).flatMap Stop.links, Joins ids e := by
  induction steps generalizing i with
  | nil => exact List.forall_mem_nil _
  | cons s steps ih =>
      rw [rowIds, List.forall_mem_append, List.forall_mem_append] at hids
      rw [stops, List.flatMap_cons, List.forall_mem_append]
      refine ⟨fun e he => ?_, ih hids.2⟩
      rw [Stop.links] at he
      split at he
      · next c hc => exact joins_links hc hids.1.1 e he
      · cases he

theorem joins_box {name : String} {job : Job} (hids : ∀ id ∈ boxIds name job, id ∈ ids) :
    ∀ e ∈ edgesOf (box name job), Joins ids e := by
  have hcontent : ∀ id ∈ contentIds name job, id ∈ ids :=
    fun id hid => hids id (List.mem_cons_of_mem _ hid)
  have hbox : edgesOf (box name job) = edgesOf (content name job) := by
    rw [box, edgesOf_append, show edgesOf [Line.boxClose] = [] from rfl, List.append_nil]
    rfl
  rw [hbox, content]
  rw [contentIds] at hcontent
  cases huses : given job.uses with
  | some call => exact List.forall_mem_nil _
  | none =>
      simp only [huses] at hcontent
      cases hsteps : job.steps with
      | nil => exact List.forall_mem_nil _
      | cons s steps =>
          rw [hsteps] at hcontent
          show ∀ e ∈ edgesOf (stopLines (stops name 0 (s :: steps))), Joins ids e
          rw [edgesOf_stopLines, List.forall_mem_append]
          exact ⟨joins_row_links hcontent, joins_stopEdges (fun p hp => by cases hp) hcontent⟩

end Box

/-! ## Between boxes -/

/-- The edges into a job whose chain, if it has one, and whose box are there. -/
theorem joins_edgesInto {ids : List String} {gs : List (String × Gate)} {sources : List String}
    {name : String} (hsources : ∀ s ∈ sources, s ∈ ids) (hjob : jobId name ∈ ids)
    (hgate : ∀ c, gs.lookup name = some c → c.entry ∈ ids ∧ ∀ e ∈ c.exitEdges (jobId name),
      Joins ids e) : ∀ e ∈ edgesInto gs sources name, Joins ids e := by
  have hplain : ∀ {target : String} {ss : List String}, target ∈ ids → (∀ s ∈ ss, s ∈ ids) →
      ∀ e ∈ ss.map (fun s => (⟨s, target, none, solid⟩ : Edge)), Joins ids e := by
    intro target ss htarget hss e he
    obtain ⟨s, hs, rfl⟩ := List.mem_map.mp he
    exact ⟨hss s hs, htarget⟩
  rw [edgesInto]
  split
  · exact hplain hjob hsources
  · next c hc =>
    obtain ⟨hentry, hexits⟩ := hgate c hc
    cases sources with
    | nil => exact List.forall_mem_nil _
    | cons s rest =>
        rw [List.forall_mem_cons] at hsources
        refine List.forall_mem_append.mpr ⟨List.forall_mem_cons.mpr ⟨?_, hexits⟩, ?_⟩
        · exact ⟨hsources.1, hentry⟩
        · exact hplain hentry hsources.2

/-! ## The whole chart -/

section Chart

variable {d : Direction} {w : Workflow} {name : String} {job : Job} {c : Gate}

/-- The chain that edges into a job are led to is the job's own. -/
theorem gate_of_lookup (h : (w.jobs.filterMap jobGate?).lookup name = some c) :
    ∃ job, (name, job) ∈ w.jobs ∧ gate (jobGuardId name) job.guard = some c :=
  mem_jobGates.mp (Workflow.mem_of_lookup h)

/-- The chain in front of a job is drawn. -/
theorem guardIds_subset_chart (h : (name, job) ∈ w.jobs) :
    ∀ id ∈ guardIds (jobGuardId name) job.guard, id ∈ definedIds (chart d w) := by
  intro id hid
  rw [definedIds_chart, definedIds_append, definedIds_gateLines]
  exact List.mem_append_right _ (List.mem_append_left _ (List.mem_flatMap.mpr ⟨_, h, hid⟩))

/-- The box of a job is drawn. -/
theorem boxIds_subset_chart (h : w.jobs.lookup name = some job) :
    ∀ id ∈ boxIds name job, id ∈ definedIds (chart d w) := by
  intro id hid
  have horder : name ∈ w.order :=
    Workflow.mem_order.mpr (Workflow.declared_of_lookup h)
  rw [definedIds_chart, definedIds_append, definedIds_boxes]
  refine List.mem_append_right _ (List.mem_append_right _ (List.mem_flatMap.mpr ⟨name, horder, ?_⟩))
  rw [h]
  exact hid

theorem jobId_mem_chart (h : name ∈ w.jobs.map (·.1)) : jobId name ∈ definedIds (chart d w) := by
  obtain ⟨job, hjob⟩ := Workflow.exists_lookup h
  exact boxIds_subset_chart hjob _ List.mem_cons_self

theorem triggersId_mem_chart (h : w.hasTriggers = true) :
    triggersId ∈ definedIds (chart d w) := by
  rw [definedIds_chart, if_pos h]
  exact List.mem_append_left _ List.mem_cons_self

/-- The edges into a declared job, from any ids of the chart. -/
theorem joins_edgesInto_chart {sources : List String} (hname : name ∈ w.jobs.map (·.1))
    (hsources : ∀ s ∈ sources, s ∈ definedIds (chart d w)) :
    ∀ e ∈ edgesInto (w.jobs.filterMap jobGate?) sources name, Joins (definedIds (chart d w)) e := by
  refine joins_edgesInto hsources (jobId_mem_chart hname) fun c hc => ?_
  obtain ⟨job, hjob, hgate⟩ := gate_of_lookup hc
  have hids := guardIds_subset_chart (d := d) hjob
  exact ⟨entry_mem_of_gate hgate hids, joins_exitEdges hgate hids (jobId_mem_chart hname)⟩

/-- Where the jobs need declared jobs only, no edge of the chart dangles. -/
theorem joins_chart (hneeds : ∀ j ∈ w.jobs, ∀ dep ∈ j.2.needs, dep ∈ w.jobs.map (·.1)) :
    ∀ e ∈ edgesOf (chart d w), Joins (definedIds (chart d w)) e := by
  rw [edgesOf_chart]
  simp only [List.forall_mem_append]
  refine ⟨⟨⟨fun e he => ?_, fun e he => ?_⟩, fun e he => ?_⟩, fun e he => ?_⟩
  · obtain ⟨g, hg, he⟩ := List.mem_flatMap.mp he
    obtain ⟨job, hjob, hgate⟩ := mem_jobGates.mp hg
    exact joins_links hgate (guardIds_subset_chart hjob) e he
  · rw [boxes, edgesOf_flatMap] at he
    obtain ⟨name, -, he⟩ := List.mem_flatMap.mp he
    cases hjob : w.jobs.lookup name with
    | none => rw [hjob] at he; cases he
    | some job =>
        rw [hjob] at he
        exact joins_box (boxIds_subset_chart hjob) e he
  · split at he
    · next htriggers =>
      obtain ⟨name, hname, he⟩ := List.mem_flatMap.mp he
      obtain ⟨j, hj, rfl⟩ := List.mem_map.mp hname
      refine joins_edgesInto_chart (List.mem_map_of_mem (List.mem_filter.mp hj).1) (fun s hs => ?_)
        e he
      rw [List.mem_singleton.mp hs]
      exact triggersId_mem_chart htriggers
    · cases he
  · obtain ⟨j, hj, he⟩ := List.mem_flatMap.mp he
    refine joins_edgesInto_chart (List.mem_map_of_mem hj) (fun s hs => ?_) e he
    obtain ⟨dep, hdep, rfl⟩ := List.mem_map.mp hs
    exact jobId_mem_chart (hneeds j hj dep hdep)

end Chart

/-- **No edge dangles.** Every document with jobs has a chart, and where a review
that ignores nothing reports no unknown need, both ends of each edge of the chart
are ids that a node or a box of the chart defines. -/
theorem edges_join_defined_ids (d : Direction) {o : ReviewOptions} {data : Value}
    (hjobs : data.HasJobs) (hignore : o.ignore = [])
    (hreview : ∀ i ∈ review o data, i.finding.code ≠ "W_NEEDS_UNKNOWN_JOB") :
    ∃ w ls, Workflow.ofValue data = .ok w ∧ lines d w = .ok ls
      ∧ ∀ e ∈ edgesOf ls, e.source ∈ definedIds ls ∧ e.target ∈ definedIds ls := by
  obtain ⟨w, hw⟩ := Workflow.exists_of_hasJobs hjobs
  exact ⟨w, chart d w, hw, lines_eq d w,
    joins_chart (declared_of_review hw hignore hreview)⟩

/-- Two jobs of which one needs the other, both with guards, and steps that may be
skipped. -/
def guardedSteps : Value :=
  .map [(.str "on", .str "push"), (.str "jobs", .map [
    (.str "a", .map [(.str "if", .str "x || y"), (.str "steps", .list [
      .map [(.str "if", .str "p && q"), (.str "run", .str "make")], .null])]),
    (.str "b", .map [(.str "needs", .list [.str "a"]), (.str "if", .bool false)])])]

theorem guardedSteps_joined :
    ∃ w ls, Workflow.ofValue guardedSteps = .ok w ∧ lines .topDown w = .ok ls
      ∧ ∀ e ∈ edgesOf ls, e.source ∈ definedIds ls ∧ e.target ∈ definedIds ls :=
  edges_join_defined_ids .topDown (o := {}) ⟨_, _, rfl⟩ rfl (by decide +kernel)

end JobChart.Diagram
