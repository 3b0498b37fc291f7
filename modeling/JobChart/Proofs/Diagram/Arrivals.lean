import Mathlib.Data.List.Count
import JobChart.Proofs.Diagram.Endpoints
import JobChart.Proofs.Diagram.JobIds

/-!
# The ways into a guarded job

How often the edges from a job's chain into its box are drawn. The edges into a
job are made from its sources, the triggers or the jobs that it needs, and the
first of these brings the chain's own edges with it (`count_edgesInto`). So they
are drawn once where the job has a source, and not at all where it has none:
that is when it needs nothing and nothing triggers the workflow
(`count_sourceEdges`).

What is counted are the texts of lines. No other line has the text of such an
edge: a line that shows a text as it is has quotes, and of the other lines the
text gives the line back (`eq_edge_of_text`). An edge inside of a box may well
go between the same ids, but it stands behind a wider indent (`drawn_content`).
-/

namespace JobChart.Diagram

open Chart Chain

/-! ## The edges into one job -/

section

variable {gs : List (String × Gate)} {sources : List String} {name : String} {c : Gate} {e : Edge}

/-- An edge that starts at no source is one of the chain's own, if it leads to
this job at all. -/
theorem not_mem_edgesInto (htarget : e.target ≠ jobId name)
    (hsources : ∀ s ∈ sources, s ≠ e.source) : e ∉ edgesInto gs sources name := by
  have hplain : ∀ {target : String} {ss : List String}, (∀ s ∈ ss, s ≠ e.source) →
      e ∉ ss.map fun s => (⟨s, target, none, solid⟩ : Edge) := by
    intro target ss hss hmem
    obtain ⟨s, hs, rfl⟩ := List.mem_map.mp hmem
    exact hss s hs rfl
  rw [edgesInto]
  split
  · exact hplain hsources
  · next c _ =>
    cases sources with
    | nil => exact List.not_mem_nil
    | cons s rest =>
        rw [List.forall_mem_cons] at hsources
        simp only [List.mem_append, List.mem_cons, not_or]
        refine ⟨⟨?_, fun hexit => ?_⟩, hplain hsources.2⟩
        · rintro rfl
          exact hsources.1 rfl
        · obtain ⟨x, -, rfl⟩ := List.mem_map.mp hexit
          exact htarget rfl

/-- Each of the chain's own edges comes with the first source. -/
theorem count_edgesInto (hc : gs.lookup name = some c)
    (hnodup : (c.exitEdges (jobId name)).Nodup) (he : e ∈ c.exitEdges (jobId name))
    (hsources : ∀ s ∈ sources, s ≠ e.source) :
    (edgesInto gs sources name).count e = if sources = [] then 0 else 1 := by
  simp only [edgesInto, hc]
  cases sources with
  | nil => rfl
  | cons s rest =>
      rw [List.forall_mem_cons] at hsources
      have hfirst : (⟨s, c.entry, none, solid⟩ : Edge) ≠ e := fun h => hsources.1 (h ▸ rfl)
      have hrest : e ∉ rest.map fun s => (⟨s, c.entry, none, solid⟩ : Edge) := by
        intro hmem
        obtain ⟨s', hs', rfl⟩ := List.mem_map.mp hmem
        exact hsources.2 s' hs' rfl
      rw [List.count_append, List.count_cons_of_ne hfirst, List.count_eq_zero.mpr hrest,
        List.count_eq_one_of_mem hnodup he, if_neg (List.cons_ne_nil s rest)]

/-- In rows of which only one has the element it is as often as in that one. -/
theorem count_flatMap_of_unique {α β : Type} [BEq β] [LawfulBEq β] {f : α → List β} {l : List α}
    {a : α} {b : β} (hl : l.Nodup) (ha : a ∈ l) (hother : ∀ a' ∈ l, a' ≠ a → b ∉ f a') :
    (l.flatMap f).count b = (f a).count b := by
  have hnone : ∀ {m : List α}, (∀ a' ∈ m, a' ∈ l) → a ∉ m → (m.flatMap f).count b = 0 := by
    intro m hsub hnew
    refine List.count_eq_zero.mpr fun hmem => ?_
    obtain ⟨a', ha', hb⟩ := List.mem_flatMap.mp hmem
    exact hother a' (hsub a' ha') (fun heq => hnew (heq ▸ ha')) hb
  obtain ⟨front, back, rfl⟩ := List.append_of_mem ha
  rw [List.nodup_middle, List.nodup_cons, List.mem_append, not_or] at hl
  rw [List.flatMap_append, List.flatMap_cons, List.count_append, List.count_append,
    hnone (by simp +contextual) hl.1.1, hnone (by simp +contextual) hl.1.2, Nat.zero_add,
    Nat.add_zero]

end

/-! ## The chain in front of a job -/

section

variable {w : Workflow} {name text : String} {job : Job} {guard : Option String} {c : Gate}

/-- Edges into a job are led to its own chain. -/
theorem lookup_jobGates (hnames : (w.jobs.map (·.1)).Nodup) (hjob : (name, job) ∈ w.jobs) :
    (w.jobs.filterMap jobGate?).lookup name = gate (jobGuardId name) job.guard := by
  have hlookup := Workflow.lookup_of_mem hnames hjob
  cases hgs : (w.jobs.filterMap jobGate?).lookup name with
  | some c =>
      obtain ⟨job', hjob', hgate⟩ := gate_of_lookup hgs
      obtain rfl := Option.some.inj (hlookup.symm.trans (Workflow.lookup_of_mem hnames hjob'))
      exact hgate.symm
  | none =>
      cases hgate : gate (jobGuardId name) job.guard with
      | none => rfl
      | some c =>
          simpa using List.lookup_eq_none_iff.mp hgs (name, c) (mem_jobGates.mpr ⟨job, hjob, hgate⟩)

theorem gate_of_given {base : String} (h : given guard = some text) :
    gate base guard = some (chain base text) := by
  rw [gate, h]
  rfl

/-- The chain's own edges start at its badges, so not at the triggers or at a job. -/
theorem exitEdges_source (h : gate (jobGuardId name) guard = some c) :
    ∀ e ∈ c.exitEdges (jobId name), ∃ t, e.source = "cond_" ++ t := by
  intro e he
  obtain ⟨x, hx, rfl⟩ := List.mem_map.mp he
  have hsource : x.source ∈ guardIds (jobGuardId name) guard := (wired_of_gate h).exit_source hx
  rw [jobGuardId_eq, show jobId name = Spot.job.id name from rfl, guardIds_eq] at hsource
  obtain ⟨r, hr, hid⟩ := List.mem_map.mp hsource
  obtain ⟨part, rfl⟩ := eq_badge_of_mem hr
  exact ⟨_, hid.symm⟩

theorem nodup_exitEdges (h : gate (jobGuardId name) guard = some c) (target : String) :
    (c.exitEdges target).Nodup := by
  obtain ⟨text, -, rfl⟩ := Option.map_eq_some_iff.mp h
  have hsources : (passSources (chain (jobGuardId name) text)).Nodup :=
    (wired_chain _ text).pass.nodup_iff.mpr (nodup_textBadges _ _)
  refine List.Nodup.of_map (·.source) ?_
  rw [exitEdges, List.map_map]
  exact hsources.of_append_right

theorem exitEdges_label (h : gate (jobGuardId name) guard = some c) :
    ∀ e ∈ c.exitEdges (jobId name), e.isAnd = false ∧ e.isOr = false := by
  intro e he
  obtain ⟨x, hx, rfl⟩ := List.mem_map.mp he
  rcases (wired_of_gate h).labels x hx with hlabel | hlabel <;> simp [Edge.isAnd, Edge.isOr, hlabel]

end

/-! ## The edges from the triggers and between jobs -/

section

variable {w : Workflow} {name : String} {job : Job} {c : Gate} {e : Edge}

theorem mem_roots {j : String × Job} :
    j ∈ w.jobs.filter (fun j => j.2.needs.isEmpty) ↔ j ∈ w.jobs ∧ j.2.needs = [] := by
  rw [List.mem_filter, List.isEmpty_iff]

/-- The chain of a job leads into no other job. -/
theorem exitEdges_target (hids : (w.jobs.map fun j => idOf j.1).Nodup)
    (hjob : (name, job) ∈ w.jobs) (he : e ∈ c.exitEdges (jobId name)) {j : String × Job}
    (hj : j ∈ w.jobs) (hne : j ≠ (name, job)) : e.target ≠ jobId j.1 := by
  intro heq
  obtain ⟨x, -, rfl⟩ := List.mem_map.mp he
  exact hne (List.inj_on_of_nodup_map hids hj hjob (idOf_eq_of_jobId heq).symm)

theorem count_needEdges (hids : (w.jobs.map fun j => idOf j.1).Nodup)
    (hjob : (name, job) ∈ w.jobs) (hgate : gate (jobGuardId name) job.guard = some c)
    (he : e ∈ c.exitEdges (jobId name)) :
    (needEdges w (w.jobs.filterMap jobGate?)).count e = if job.needs = [] then 0 else 1 := by
  have hnames := Workflow.nodup_names_of_map hids
  have hlookup := (lookup_jobGates hnames hjob).trans hgate
  have hsources : ∀ deps : List String, ∀ s ∈ deps.map jobId, s ≠ e.source := by
    intro deps s hs
    obtain ⟨dep, -, rfl⟩ := List.mem_map.mp hs
    obtain ⟨t, hsource⟩ := exitEdges_source hgate e he
    rw [hsource]
    exact job_ne_cond _ _
  rw [needEdges, count_flatMap_of_unique hnames.of_map hjob fun j hj hne =>
      not_mem_edgesInto (exitEdges_target hids hjob he hj hne) (hsources _),
    count_edgesInto hlookup (nodup_exitEdges hgate _) he (hsources _)]
  simp only [List.map_eq_nil_iff]

theorem count_rootEdges (hids : (w.jobs.map fun j => idOf j.1).Nodup)
    (hjob : (name, job) ∈ w.jobs) (hgate : gate (jobGuardId name) job.guard = some c)
    (he : e ∈ c.exitEdges (jobId name)) :
    (rootEdges w (w.jobs.filterMap jobGate?)).count e = if job.needs = [] then 1 else 0 := by
  have hnames := Workflow.nodup_names_of_map hids
  have hlookup := (lookup_jobGates hnames hjob).trans hgate
  have hsources : ∀ s ∈ [triggersId], s ≠ e.source := by
    intro s hs
    obtain ⟨t, hsource⟩ := exitEdges_source hgate e he
    rw [List.mem_singleton.mp hs, hsource]
    intro heq
    simpa [triggersId] using congrArg String.toList heq
  have hother : ∀ j ∈ w.jobs.filter (fun j => j.2.needs.isEmpty), j ≠ (name, job) →
      e ∉ edgesInto (w.jobs.filterMap jobGate?) [triggersId] j.1 := fun j hj hne =>
    not_mem_edgesInto (exitEdges_target hids hjob he (mem_roots.mp hj).1 hne) hsources
  rw [rootEdges, Workflow.roots, List.flatMap_map]
  by_cases hroot : job.needs = []
  · rw [count_flatMap_of_unique (hnames.of_map.filter _) (mem_roots.mpr ⟨hjob, hroot⟩) hother,
      count_edgesInto hlookup (nodup_exitEdges hgate _) he hsources, if_pos hroot]
    rfl
  · rw [if_neg hroot, List.count_eq_zero]
    intro hmem
    obtain ⟨j, hj, hej⟩ := List.mem_flatMap.mp hmem
    refine hother j hj ?_ hej
    rintro rfl
    exact hroot (mem_roots.mp hj).2

/-- The chain's own edges are drawn once where the job has a source, else never. -/
theorem count_sourceEdges (hids : (w.jobs.map fun j => idOf j.1).Nodup)
    (hjob : (name, job) ∈ w.jobs) (hgate : gate (jobGuardId name) job.guard = some c)
    (he : e ∈ c.exitEdges (jobId name)) :
    (if w.hasTriggers then rootEdges w (w.jobs.filterMap jobGate?) else []).count e
        + (needEdges w (w.jobs.filterMap jobGate?)).count e
      = if w.hasTriggers = true ∨ job.needs ≠ [] then 1 else 0 := by
  rw [count_needEdges hids hjob hgate he]
  by_cases htriggers : w.hasTriggers = true
  · rw [if_pos htriggers, count_rootEdges hids hjob hgate he, if_pos (Or.inl htriggers)]
    split <;> rfl
  · rw [if_neg htriggers]
    by_cases hroot : job.needs = [] <;> simp [hroot, htriggers]

end

/-! ## Texts of lines -/

section

variable {d : Direction} {w : Workflow} {l : Line} {e : Edge} {name : String} {job : Job} {c : Gate}

/-- Of the lines of a chart only an edge has the text of this edge. -/
theorem eq_edge_of_text (hl : l ∈ chart d w) (he : e.Sound)
    (htext : l.text = (Line.edge outerIndent e).text) : l = Line.edge outerIndent e := by
  have hclasses : ∀ cls ∈ badgeClasses, IsId cls := by decide
  rcases sound_or_shows hl with hsound | ⟨label, t, -, hshows⟩
  · exact hsound.eq_edge hclasses spaces_outer he htext
  · obtain ⟨front, hframed⟩ := hshows.framed
    have hindent : Plain outerIndent := by decide
    have hedge : Plain (Line.edge outerIndent e).text :=
      plain_append.mpr ⟨hindent, he.made.plain (by decide) (by decide)⟩
    have hquotes := hframed.count
    rw [htext, List.count_eq_zero.mpr (hedge.not_mem (by decide))] at hquotes
    omega

theorem count_texts (he : e.Sound) :
    ((chart d w).map Line.text).count (Line.edge outerIndent e).text
      = (chart d w).count (Line.edge outerIndent e) := by
  rw [List.count, List.countP_map, List.count]
  refine List.countP_congr fun l hl => ?_
  simp only [Function.comp, beq_iff_eq]
  exact ⟨eq_edge_of_text hl he, fun h => h ▸ rfl⟩

theorem mem_edgesOf {ls : List Line} {indent : String} (h : Line.edge indent e ∈ ls) :
    e ∈ edgesOf ls :=
  List.mem_filterMap.mpr ⟨_, h, rfl⟩

theorem not_mem_gateLines (hand : e.isAnd = false) (hor : e.isOr = false) :
    Line.edge outerIndent e ∉ gateLines (w.jobs.filterMap jobGate?) := by
  intro hmem
  have hlink := mem_edgesOf hmem
  rw [gateLines, edgesOf_flatMap] at hlink
  obtain ⟨g, hg, hlink⟩ := List.mem_flatMap.mp hlink
  rw [edgesOf_lines] at hlink
  obtain ⟨job, -, hgate⟩ := mem_jobGates.mp hg
  rcases ((wired_of_gate hgate).links e hlink).1 with h | h
  · rw [hand] at h; cases h
  · rw [hor] at h; cases h

theorem not_mem_boxes {names : List String} : Line.edge outerIndent e ∉ boxes w names := by
  intro hmem
  have hwider : outerIndent ≠ innerIndent := by decide
  obtain ⟨name, -, job, -, hmem⟩ := mem_boxes.mp hmem
  rcases List.mem_append.mp hmem with hmem | hmem
  · rcases List.mem_cons.mp hmem with heq | hmem
    · cases heq
    · exact hwider (drawn_content _ hmem).1
  · cases List.mem_singleton.mp hmem

/-- An edge from a chain into the box of its job is drawn only with the edges
from the triggers and those between jobs. -/
theorem count_chart (hand : e.isAnd = false) (hor : e.isOr = false) :
    (chart d w).count (Line.edge outerIndent e)
      = (if w.hasTriggers then rootEdges w (w.jobs.filterMap jobGate?) else []).count e
        + (needEdges w (w.jobs.filterMap jobGate?)).count e := by
  have hedges : ∀ es : List Edge, (es.map (Line.edge outerIndent)).count (Line.edge outerIndent e)
      = es.count e := by
    refine fun es => List.count_map_of_injective es _ (fun x y hxy => ?_) e
    cases hxy
    rfl
  have hnone : ∀ {ls : List Line}, edgesOf ls = [] → ls.count (Line.edge outerIndent e) = 0 := by
    intro ls hls
    refine List.count_eq_zero.mpr fun hmem => ?_
    simpa [hls] using mem_edgesOf hmem
  have hheader : [Line.header d].count (Line.edge outerIndent e) = 0 := hnone rfl
  have htriggers : (onlyTriggered w (triggerBox w.triggers)).count (Line.edge outerIndent e) = 0 :=
    hnone (by rw [edgesOf_onlyTriggered, edgesOf_triggerBox, ite_self])
  have hclasses : (Badge.classes.map Line.classDef).count (Line.edge outerIndent e) = 0 := hnone rfl
  have hroots : (onlyTriggered w ((rootEdges w (w.jobs.filterMap jobGate?)).map
      (Line.edge outerIndent))).count (Line.edge outerIndent e)
      = (if w.hasTriggers then rootEdges w (w.jobs.filterMap jobGate?) else []).count e := by
    rw [onlyTriggered]
    split
    · exact hedges _
    · rfl
  simp only [chart, List.count_append, hheader, htriggers, hclasses, hroots, hedges,
    List.count_eq_zero.mpr (not_mem_gateLines hand hor), List.count_eq_zero.mpr not_mem_boxes]
  omega

/-- How often the line of an edge from a job's chain into its box is drawn. -/
theorem count_exitEdge (hids : (w.jobs.map fun j => idOf j.1).Nodup)
    (hjob : (name, job) ∈ w.jobs) (hgate : gate (jobGuardId name) job.guard = some c)
    (he : e ∈ c.exitEdges (jobId name)) :
    ((chart d w).map Line.text).count (Line.edge outerIndent e).text
      = if w.hasTriggers = true ∨ job.needs ≠ [] then 1 else 0 := by
  have hsound : e.Sound :=
    (soundGate_of_gate (isId_jobGuardId name) hgate).exitEdges (isId_jobId name) e he
  obtain ⟨hand, hor⟩ := exitEdges_label hgate e he
  rw [count_texts hsound, count_chart hand hor, count_sourceEdges hids hjob hgate he]

end

/-- Every chain has an exit. -/
theorem exits_ne_nil (base text : String) : (chain base text).exits ≠ [] := by
  obtain ⟨id, -, -, hway⟩ := chain_leads_on base text
  obtain ⟨x, hx, -⟩ := List.mem_map.mp hway
  exact List.ne_nil_of_mem hx

/-- **When a chain leads into its job.** Where the names of the jobs have distinct
ids: the chain of a guarded job has exits, and the line from each of them into the
box of the job is one of the lines of the chart exactly once if something triggers
the workflow or the job needs other jobs, and is missing if not. -/
theorem exits_drawn_once_iff (d : Direction) {w : Workflow} {name text : String} {job : Job}
    (hids : (w.jobs.map fun j => idOf j.1).Nodup) (hjob : (name, job) ∈ w.jobs)
    (hguard : given job.guard = some text) :
    ∃ ls c, lines d w = .ok ls ∧ Chain.ofText (jobGuardId name) text = .ok c ∧ c.exits ≠ []
      ∧ ∀ e ∈ c.exitEdges (jobId name), (ls.map Line.text).count (Line.edge outerIndent e).text
        = if w.hasTriggers = true ∨ job.needs ≠ [] then 1 else 0 :=
  ⟨chart d w, chain (jobGuardId name) text, lines_eq d w, ofText_eq _ text, exits_ne_nil _ text,
    fun _ he => count_exitEdge hids hjob (gate_of_given hguard) he⟩

/-- Two jobs that need each other, the second one also needs itself twice and a job
that is not declared. -/
def guardedCycle : Workflow where
  jobs := [("a", { needs := ["b"], guard := some "x" }),
    ("b", { needs := ["a", "b", "c", "b"], guard := some "x || y" })]

theorem guardedCycle_drawn_once :
    ∃ ls c, lines .topDown guardedCycle = .ok ls
      ∧ Chain.ofText (jobGuardId "b") "x || y" = .ok c ∧ c.exits ≠ []
      ∧ ∀ e ∈ c.exitEdges (jobId "b"),
        (ls.map Line.text).count (Line.edge outerIndent e).text = 1 := by
  obtain ⟨ls, c, hls, hc, hexits, hcount⟩ := exits_drawn_once_iff .topDown (w := guardedCycle)
    (by decide +kernel) (.tail _ (.head _)) rfl
  exact ⟨ls, c, hls, hc, hexits, fun e he => (hcount e he).trans (by decide)⟩

/-- A guarded job that needs nothing, in a workflow that nothing triggers. -/
def untriggered : Workflow where
  jobs := [("a", { guard := some "x" })]

/-- Its chain leads nowhere. -/
theorem untriggered_exit_missing :
    (untriggered.jobs.map fun j => idOf j.1).Nodup
      ∧ ∃ ls c, lines .topDown untriggered = .ok ls
        ∧ Chain.ofText (jobGuardId "a") "x" = .ok c
        ∧ ∃ e ∈ c.exitEdges (jobId "a"),
          (ls.map Line.text).count (Line.edge outerIndent e).text = 0 := by
  have hids : (untriggered.jobs.map fun j => idOf j.1).Nodup := by decide +kernel
  have hjob : ("a", { guard := some "x" }) ∈ untriggered.jobs := .head _
  refine ⟨hids, _, _, lines_eq .topDown untriggered, ofText_eq (jobGuardId "a") "x", ?_⟩
  obtain ⟨x, hx⟩ := List.exists_mem_of_ne_nil _ (exits_ne_nil (jobGuardId "a") "x")
  have he : ⟨x.source, jobId "a", x.label, solid⟩
      ∈ (chain (jobGuardId "a") "x").exitEdges (jobId "a") := List.mem_map_of_mem hx
  exact ⟨_, he, (count_exitEdge hids hjob (gate_of_given rfl) he).trans (by decide)⟩

end JobChart.Diagram
