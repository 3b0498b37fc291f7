import JobChart.Proofs.Diagram.StepEdges
import JobChart.Proofs.Diagram.StepIds

/-!
# Walking through a job

The edges in the box of a job, walked from its first step on, lead past
exactly the steps that run.

Every edge put down for a step starts at the step's badges or its node, so
what leaves a node is decided within one step (`leaving_of_owns`). The walk
through a row of steps is built from its end (`walk_row`).
-/

namespace JobChart.Diagram

open Text Chart Chain Relation

/-! ## Rows of stops -/

/-- The badges in front of the step at this place, by id and text. -/
def stepBadges (job : String) (i : Nat) (s : Step) : List (String × String) :=
  match given s.guard with
  | some text => textBadges (stepGuardId job i) (Guard.parse text)
  | none => []

/-- Whether the step at this place runs: it has no guard, or its guard holds
for the values of its badges. -/
def stepRuns (val : String → Bool) (job : String) (i : Nat) (s : Step) : Bool :=
  match given s.guard with
  | some text => (Guard.parse text).holdsOn val (stepBadges job i s)
  | none => true

/-- The nodes of the steps that run, the first step standing at this place. -/
def runningSteps (val : String → Bool) (job : String) : Nat → List Step → List String
  | _, [] => []
  | i, s :: steps =>
    (if stepRuns val job i s then [stepId job i] else []) ++ runningSteps val job (i + 1) steps

/-- What the stop made from the step at this place is like. -/
structure StopFits (job : String) (val : String → Bool) (i : Nat) (s : Step) (stop : Stop) :
    Prop where
  id : stop.id = stepId job i
  gate : stop.gate = none ∧ stepRuns val job i s = true ∨
    ∃ c, stop.gate = some c ∧ Wired (stepBadges job i s) c
      ∧ (AlwaysTrue val (stepBadges job i s) → Leads c.links val c (stepRuns val job i s))

/-- The stops made from a row of steps, the first step standing at this place. -/
def RowFits (job : String) (val : String → Bool) : Nat → List Step → List Stop → Prop
  | _, [], [] => True
  | i, s :: steps, stop :: stops =>
    StopFits job val i s stop ∧ RowFits job val (i + 1) steps stops
  | _, _, _ => False

theorem gate?_fits (job : String) (val : String → Bool) (i : Nat) (s : Step) :
    ∃ gate, gate? (stepGuardId job i) s.guard = .ok gate
      ∧ StopFits job val i s ⟨stepId job i, s.label, gate⟩ := by
  cases hguard : given s.guard with
  | none =>
      exact ⟨none, by simp only [gate?, hguard], rfl, Or.inl ⟨rfl, by simp only [stepRuns, hguard]⟩⟩
  | some text =>
      obtain ⟨c, hc, hwired, hleads⟩ := leads_ofText (stepGuardId job i) text val
      refine ⟨some c, by simp only [gate?, hguard, hc, Except.map], rfl, Or.inr ⟨c, rfl, ?_⟩⟩
      simp only [stepRuns, stepBadges, hguard]
      exact ⟨hwired, hleads⟩

/-- Every row of steps has its stops. -/
theorem stepStops_fits (job : String) (val : String → Bool) : ∀ (i : Nat) (steps : List Step),
    ∃ stops, stepStops job i steps = .ok stops ∧ RowFits job val i steps stops
  | _, [] => ⟨[], rfl, trivial⟩
  | i, s :: steps => by
      obtain ⟨gate, hgate, hfits⟩ := gate?_fits job val i s
      obtain ⟨stops, hstops, hrow⟩ := stepStops_fits job val (i + 1) steps
      refine ⟨⟨stepId job i, s.label, gate⟩ :: stops, ?_, hfits, hrow⟩
      rw [stepStops, hgate, hstops]
      rfl

theorem isStepBadge_of_stepBadges {job : String} {i : Nat} {s : Step} {id : String}
    (h : id ∈ (stepBadges job i s).map (·.1)) : IsStepBadge job i id := by
  rw [stepBadges] at h
  split at h
  · exact isStepBadge_of_mem h
  · cases h

theorem nodup_stepBadges (job : String) (i : Nat) (s : Step) :
    ((stepBadges job i s).map (·.1)).Nodup := by
  rw [stepBadges]
  split
  · exact nodup_textBadges _ _
  · exact List.nodup_nil

/-- Where the walk goes behind a stop: to the next stop if there is one. -/
def Onward (edges : List Edge) (steps : List String) (val : String → Bool)
    (stops : List Stop) (path : List String) : Prop :=
  match stops with
  | [] => path = []
  | next :: _ => Walk edges steps val next.entry path

theorem Onward.append_left {edges edges' : List Edge} {steps : List String}
    {val : String → Bool} {stops : List Stop} {path : List String}
    (h : Onward edges steps val stops path) (hother : ∀ x ∈ path, ∀ e ∈ edges', e.source ≠ x) :
    Onward (edges' ++ edges) steps val stops path := by
  cases stops with
  | nil => exact h
  | cons next stops => exact Walk.append_left h hother

theorem Onward.walk {edges : List Edge} {steps : List String} {val : String → Bool}
    {stops : List Stop} {path : List String} {a : String}
    (h : Onward edges steps val stops path)
    (hnone : stops = [] → leaving edges steps val a = [])
    (hsome : ∀ next, stops.head? = some next →
      ∃ e, leaving edges steps val a = [e] ∧ e.target = next.entry) :
    Walk edges steps val a (a :: path) := by
  cases stops with
  | nil =>
      rw [Onward] at h
      rw [h]
      exact .stop (hnone rfl)
  | cons next stops =>
      obtain ⟨e, he, htarget⟩ := hsome next rfl
      exact .step he (htarget ▸ h)

section Rows

variable {job : String} {val : String → Bool} {steps : List String}

/-- Before the way out of its chain the walk is at badges of the stop. -/
theorem Gated.walk_badges {i : Nat} {s : Step} {stop : Stop} {c : Gate} {edges : List Edge}
    {after : Option Stop} {a z : String} {path : List String}
    (h : Gated steps stop c (stepBadges job i s))
    (hedges : ∀ a, Owns job i a →
      leaving edges steps val a = leaving (stop.localEdges after) steps val a)
    (hpath : ReflTransGen (Hop c.links val) a z) (hwalk : Walk edges steps val z path) :
    ∃ front, (∀ x ∈ front, IsStepBadge job i x) ∧ Walk edges steps val a (front ++ path) := by
  induction hpath using ReflTransGen.head_induction_on with
  | refl => exact ⟨[], fun _ hx => (List.not_mem_nil hx).elim, hwalk⟩
  | head hop _ ih =>
      obtain ⟨e, he, rfl, rfl, hfollow⟩ := hop
      obtain ⟨front, hfront, hrest⟩ := ih
      obtain ⟨hbadge, hleaving⟩ := h.leaving_link after he hfollow
      have hown := isStepBadge_of_stepBadges hbadge
      refine ⟨e.source :: front, List.forall_mem_cons.mpr ⟨hown, hfront⟩, .step ?_ hrest⟩
      rw [hedges _ (Or.inr hown), hleaving]

theorem StopFits.badge_source {i : Nat} {s : Step} {stop : Stop}
    (h : StopFits job val i s stop) (after : Option Stop) {e : Edge}
    (he : e ∈ stop.badgeEdges after) : IsStepBadge job i e.source := by
  rcases h.gate with ⟨hgate, -⟩ | ⟨c, hgate, hwired, -⟩
  · cases after <;>
      simp [Stop.badgeEdges, Stop.links, Stop.passEdges, Stop.skipsTo, Stop.skipEdges, hgate] at he
  · refine isStepBadge_of_stepBadges (s := s) ?_
    simp only [Stop.badgeEdges, Stop.links, Stop.passEdges, hgate] at he
    rcases List.mem_append.mp he with he | he
    · rcases List.mem_append.mp he with he | he
      · exact hwired.link_source he
      · obtain ⟨x, hx, rfl⟩ := List.mem_map.mp he
        exact hwired.exit_source hx
    · cases after with
      | none => cases he
      | some next =>
          rw [Stop.skipsTo, skipEdges_of_wired hgate hwired] at he
          obtain ⟨id, hid, rfl⟩ := List.mem_map.mp he
          exact hwired.skip_mem hid

/-- The edges put down for a stop start at its badges or its node. -/
theorem StopFits.owns_source {i : Nat} {s : Step} {stop : Stop}
    (h : StopFits job val i s stop) (after : Option Stop) {e : Edge}
    (he : e ∈ stop.localEdges after) : Owns job i e.source := by
  rcases List.mem_append.mp he with he | he
  · exact Or.inr (h.badge_source after he)
  · cases after with
    | none => cases he
    | some next =>
        rw [List.mem_singleton.mp he]
        exact Or.inl h.id

theorem RowFits.owns_source : ∀ {i : Nat} {row : List Step} {stops : List Stop} {e : Edge},
    RowFits job val i row stops → e ∈ rowEdges stops → ∃ j, i ≤ j ∧ Owns job j e.source
  | _, [], [], _, _, he => by simp [rowEdges] at he
  | i, s :: row, stop :: stops, e, hfits, he => by
      rcases List.mem_append.mp he with he | he
      · exact ⟨i, Nat.le_refl i, hfits.1.owns_source _ he⟩
      · obtain ⟨j, hj, hown⟩ := RowFits.owns_source hfits.2 he
        exact ⟨j, by omega, hown⟩

/-- What leaves a node of a stop is decided by the edges put down for it. -/
theorem leaving_of_owns {i : Nat} {row : List Step} {stop : Stop} {stops : List Stop}
    {a : String} (hrow : RowFits job val (i + 1) row stops) (ha : Owns job i a) :
    leaving (stop.localEdges stops.head? ++ rowEdges stops) steps val a
      = leaving (stop.localEdges stops.head?) steps val a := by
  have hrest : leaving (rowEdges stops) steps val a = [] := by
    refine leaving_eq_nil ?_
    rintro e he rfl
    obtain ⟨j, hj, hown⟩ := hrow.owns_source he
    have := owns_unique ha hown
    omega
  rw [leaving_append, hrest, List.append_nil]

/-- The node of a stop is left to the next stop. -/
theorem StopFits.leaving_node {i : Nat} {s : Step} {stop : Stop}
    (h : StopFits job val i s stop) (hstep : stepId job i ∈ steps) (after : Option Stop) :
    leaving (stop.localEdges after) steps val stop.id = stop.stepEdges after := by
  have hbadge : leaving (stop.badgeEdges after) steps val stop.id = [] := by
    refine leaving_eq_nil fun e he heq => ?_
    have hsource := h.badge_source after he
    rw [heq, h.id] at hsource
    exact stepId_not_badge hsource
  rw [Stop.localEdges, leaving_append, hbadge, List.nil_append]
  cases after with
  | none => rfl
  | some next =>
      refine List.filter_eq_self.mpr fun e he => ?_
      rw [List.mem_singleton.mp he, taken, if_pos (by simpa only [h.id] using hstep)]
      simp

section Stop

variable {i : Nat} {s : Step} {row : List Step} {stop : Stop} {stops : List Stop}
  {path : List String}

/-- From its node the walk goes on behind the stop. -/
theorem StopFits.walk_node (h : StopFits job val i s stop)
    (hrow : RowFits job val (i + 1) row stops) (hstep : stepId job i ∈ steps)
    (honward : Onward (stop.localEdges stops.head? ++ rowEdges stops) steps val stops path) :
    Walk (stop.localEdges stops.head? ++ rowEdges stops) steps val stop.id (stop.id :: path) := by
  have hleaving := (leaving_of_owns hrow (Or.inl h.id)).trans
    (h.leaving_node hstep stops.head?)
  refine honward.walk (fun hnil => ?_) fun next hnext => ?_
  · rw [hleaving, hnil]
    rfl
  · rw [hleaving, hnext]
    exact ⟨_, rfl, rfl⟩

/-- From a true exit the walk goes to the node. -/
theorem StopFits.walk_exit {c : Gate} {x : Exit} (h : StopFits job val i s stop)
    (hgated : Gated steps stop c (stepBadges job i s))
    (hrow : RowFits job val (i + 1) row stops) (hstep : stepId job i ∈ steps)
    (honward : Onward (stop.localEdges stops.head? ++ rowEdges stops) steps val stops path)
    (hx : x ∈ c.exits) (hval : val x.source = true) :
    IsStepBadge job i x.source ∧ Walk (stop.localEdges stops.head? ++ rowEdges stops) steps val
      x.source (x.source :: stop.id :: path) := by
  obtain ⟨hbadge, hleaving⟩ := hgated.leaving_exit stops.head? hx hval
  have hown := isStepBadge_of_stepBadges hbadge
  exact ⟨hown, .step ((leaving_of_owns hrow (Or.inr hown)).trans hleaving)
    (h.walk_node hrow hstep honward)⟩

/-- From a false skip the walk goes past the node. -/
theorem walk_skip {c : Gate} {a : String} (hgated : Gated steps stop c (stepBadges job i s))
    (hrow : RowFits job val (i + 1) row stops)
    (honward : Onward (stop.localEdges stops.head? ++ rowEdges stops) steps val stops path)
    (hskip : a ∈ c.skips) (hval : val a = false) :
    IsStepBadge job i a ∧
      Walk (stop.localEdges stops.head? ++ rowEdges stops) steps val a (a :: path) := by
  have hown := isStepBadge_of_stepBadges (hgated.leaving_last_skip hskip hval).1
  refine ⟨hown, honward.walk (fun hnil => ?_) fun next hnext => ?_⟩
  · rw [leaving_of_owns hrow (Or.inr hown), hnil]
    exact (hgated.leaving_last_skip hskip hval).2
  · rw [leaving_of_owns hrow (Or.inr hown), hnext]
    exact ⟨_, (hgated.leaving_skip hskip hval).2, rfl⟩

variable (hbadges : ∀ i id, IsStepBadge job i id → id ∉ steps)

include hbadges

theorem StopFits.gated {c : Gate} (h : StopFits job val i s stop) (hgate : stop.gate = some c)
    (hwired : Wired (stepBadges job i s) c) : Gated steps stop c (stepBadges job i s) where
  gate := hgate
  wired := hwired
  nodup := nodup_stepBadges job i s
  fresh := fun id hid => by
    have hbadge := isStepBadge_of_stepBadges hid
    refine ⟨hbadges i id hbadge, fun heq => ?_⟩
    rw [h.id] at heq
    exact stepId_not_badge (heq ▸ hbadge)

/-- From where it is entered the walk goes over badges of the stop, then over
its node if the step runs, and then on. -/
theorem StopFits.walk (h : StopFits job val i s stop)
    (hrow : RowFits job val (i + 1) row stops) (hstep : stepId job i ∈ steps)
    (halways : AlwaysTrue val (stepBadges job i s))
    (honward : Onward (stop.localEdges stops.head? ++ rowEdges stops) steps val stops path) :
    ∃ front, (∀ x ∈ front, IsStepBadge job i x) ∧
      Walk (stop.localEdges stops.head? ++ rowEdges stops) steps val stop.entry
        (front ++ ((if stepRuns val job i s then [stepId job i] else []) ++ path)) := by
  rcases h.gate with ⟨hgate, hruns⟩ | ⟨c, hgate, hwired, hleads⟩
  · refine ⟨[], fun _ hx => (List.not_mem_nil hx).elim, ?_⟩
    rw [hruns, Stop.entry, hgate, ← h.id]
    exact h.walk_node hrow hstep honward
  have hgated := h.gated hbadges hgate hwired
  obtain ⟨z, hpath, hval, hway⟩ := hleads halways
  have hout : IsStepBadge job i z ∧
      Walk (stop.localEdges stops.head? ++ rowEdges stops) steps val z
        (z :: ((if stepRuns val job i s then [stepId job i] else []) ++ path)) := by
    cases hruns : stepRuns val job i s with
    | true =>
        rw [hruns] at hval hway
        obtain ⟨x, hx, rfl⟩ := List.mem_map.mp hway
        rw [← h.id]
        exact h.walk_exit hgated hrow hstep honward hx hval
    | false =>
        rw [hruns] at hval hway
        exact walk_skip hgated hrow honward hway hval
  obtain ⟨hown, hlast⟩ := hout
  obtain ⟨front, hfront, hwalk⟩ := hgated.walk_badges
    (fun a => leaving_of_owns hrow) hpath hlast
  refine ⟨front ++ [z], fun y hy => ?_, ?_⟩
  · rcases List.mem_append.mp hy with hy | hy
    · exact hfront y hy
    · exact List.mem_singleton.mp hy ▸ hown
  · rw [Stop.entry, hgate, List.append_assoc]
    exact hwalk

end Stop

/-- Behind any stop the walk goes over the steps of the rest that run. -/
theorem walk_row (hbadges : ∀ i id, IsStepBadge job i id → id ∉ steps) :
    ∀ {i : Nat} {row : List Step} {stops : List Stop},
    RowFits job val i row stops →
    (∀ j < row.length, stepId job (i + j) ∈ steps) →
    (∀ j s, row[j]? = some s → AlwaysTrue val (stepBadges job (i + j) s)) →
    ∃ path, Onward (rowEdges stops) steps val stops path
      ∧ path.filter (· ∈ steps) = runningSteps val job i row
      ∧ ∀ x ∈ path, ∃ j, i ≤ j ∧ Owns job j x
  | _, [], [], _, _, _ => ⟨[], rfl, rfl, fun _ hx => (List.not_mem_nil hx).elim⟩
  | i, s :: row, stop :: stops, hfits, hsteps, halways => by
      have hplace : ∀ j, i + (j + 1) = i + 1 + j := fun j => by omega
      obtain ⟨path, honward, hrunning, hown⟩ := walk_row hbadges hfits.2
        (fun j hj => hplace j ▸ hsteps (j + 1) (Nat.succ_lt_succ hj))
        (fun j s' hs => hplace j ▸ halways (j + 1) s' hs)
      have hstep : stepId job i ∈ steps := hsteps 0 (Nat.succ_pos _)
      have hother : ∀ x ∈ path, ∀ e ∈ stop.localEdges stops.head?, e.source ≠ x := by
        rintro x hx e he rfl
        obtain ⟨j, hj, hx⟩ := hown _ hx
        have := owns_unique (hfits.1.owns_source _ he) hx
        omega
      obtain ⟨front, hfront, hwalk⟩ := hfits.1.walk hbadges hfits.2 hstep
        (halways 0 s rfl) (Onward.append_left honward hother)
      refine ⟨_, hwalk, ?_, fun x hx => ?_⟩
      · have hskipped : front.filter (· ∈ steps) = [] :=
          List.filter_eq_nil_iff.mpr fun x hx => by simpa using hbadges i x (hfront x hx)
        rw [List.filter_append, List.filter_append, hskipped, hrunning, runningSteps]
        cases stepRuns val job i s <;> simp [hstep]
      · rcases List.mem_append.mp hx with hx | hx
        · exact ⟨i, Nat.le_refl i, Or.inr (hfront x hx)⟩
        · rcases List.mem_append.mp hx with hx | hx
          · refine ⟨i, Nat.le_refl i, Or.inl ?_⟩
            cases hruns : stepRuns val job i s <;> simp [hruns] at hx
            exact hx
          · obtain ⟨j, hj, hx⟩ := hown x hx
            exact ⟨j, by omega, hx⟩

end Rows

/-! ## The box of a job -/

theorem edgesOf_append (as bs : List Line) : edgesOf (as ++ bs) = edgesOf as ++ edgesOf bs :=
  List.filterMap_append

theorem edgesOf_edges (indent : String) (es : List Edge) :
    edgesOf (es.map (Line.edge indent)) = es := by
  rw [edgesOf, List.filterMap_map]
  exact List.filterMap_some

theorem edgesOf_nodeLines (s : Stop) : edgesOf s.nodeLines = s.links := by
  have hnodes : ∀ ns : List Node, edgesOf (ns.map (Line.node innerIndent)) = [] := fun ns => by
    rw [edgesOf, List.filterMap_map]
    exact List.filterMap_eq_nil_iff.mpr fun _ _ => rfl
  have hbox : edgesOf [Line.box s.id (escapeLabel s.label)] = [] := rfl
  rw [Stop.nodeLines, edgesOf_append, hbox, List.append_nil, Stop.links]
  cases s.gate with
  | none => rfl
  | some c => simp only [Chain.lines, edgesOf_append, hnodes, edgesOf_edges, List.nil_append]

theorem edgesOf_stopLines (stops : List Stop) :
    edgesOf (stopLines stops) = stops.flatMap Stop.links ++ stopEdges none stops := by
  have hnodes : edgesOf (stops.flatMap Stop.nodeLines) = stops.flatMap Stop.links := by
    induction stops with
    | nil => rfl
    | cons s stops ih =>
        rw [List.flatMap_cons, edgesOf_append, edgesOf_nodeLines, ih, List.flatMap_cons]
  rw [stopLines, edgesOf_append, edgesOf_edges, hnodes]

def stepIds (name : String) (job : Job) : List String :=
  (List.range job.steps.length).map (stepId name)

/-- The box of a job with steps of its own has the edges of its stops. -/
theorem jobBox_edges {name : String} {job : Job} {stops : List Stop}
    (huses : given job.uses = none) (hsteps : job.steps ≠ [])
    (hstops : stepStops name 0 job.steps = .ok stops) :
    ∃ lines, jobBox name job = .ok lines ∧ (rowEdges stops).Perm (edgesOf lines) := by
  refine ⟨Line.boxOpen (jobId name) (jobTitle name job) :: stopLines stops ++ [Line.boxClose],
    ?_, ?_⟩
  · have hcontent : jobContent name job = .ok (stopLines stops) := by
      simp [jobContent, huses, hsteps, hstops, Except.map]
    rw [jobBox, hcontent]
    rfl
  · have hopen : edgesOf [Line.boxOpen (jobId name) (jobTitle name job)] = [] := rfl
    have hclose : edgesOf [Line.boxClose] = [] := rfl
    rw [← List.singleton_append, edgesOf_append, edgesOf_append, hopen, hclose,
      edgesOf_stopLines, List.append_nil, List.nil_append]
    exact (stopEdges_perm none stops).symm

/-- **The walk through a job's box runs its steps.** For every job with steps
of its own and all values of its badges, as long as no plain `always()` is
false: from where the first step is entered there is one walk over the edges
in the box, it comes to an end, and the step nodes it visits are those of the
steps without a guard or with one that holds, in their order. -/
theorem job_walk_runs_steps (name : String) (job : Job) (val : String → Bool)
    (huses : given job.uses = none) (hsteps : job.steps ≠ [])
    (halways : ∀ i s, job.steps[i]? = some s → AlwaysTrue val (stepBadges name i s)) :
    ∃ lines first rest path, jobBox name job = .ok lines
      ∧ stepStops name 0 job.steps = .ok (first :: rest)
      ∧ Walk (edgesOf lines) (stepIds name job) val first.entry path
      ∧ (∀ path', Walk (edgesOf lines) (stepIds name job) val first.entry path' → path' = path)
      ∧ path.filter (· ∈ stepIds name job) = runningSteps val name 0 job.steps := by
  obtain ⟨stops, hstops, hfits⟩ := stepStops_fits name val 0 job.steps
  obtain ⟨lines, hlines, hperm⟩ := jobBox_edges huses hsteps hstops
  have hbadges : ∀ i id, IsStepBadge name i id → id ∉ stepIds name job := by
    intro i id hid hmem
    obtain ⟨j, -, rfl⟩ := List.mem_map.mp hmem
    exact stepId_not_badge hid
  obtain ⟨path, honward, hrunning, -⟩ := walk_row hbadges hfits
    (fun j hj => List.mem_map_of_mem (by simpa using hj))
    (fun i s hs => by simpa using halways i s hs)
  cases stops with
  | nil =>
      cases hrow : job.steps with
      | nil => exact absurd hrow hsteps
      | cons s row => rw [hrow] at hfits; exact hfits.elim
  | cons first rest =>
      have hwalk := honward.perm hperm
      exact ⟨lines, first, rest, path, hlines, hstops, hwalk, fun _ => hwalk.unique, hrunning⟩

/-- A job with a step without a guard, one with fallbacks, one that always runs
and a last one with two parts. -/
def mixedJob : Job where
  steps := [{ run := some "make" }, { run := some "test", guard := some "a || b" },
    { guard := some "always()" }, { guard := some "c && d" }]

/-- The first part of every guard with parts is false. -/
def mixedValue (id : String) : Bool := id ∉ ["cond_build_s1_p0", "cond_build_s3_p0"]

/-- The second fallback holds, and the last step is skipped. -/
theorem job_walk_runs_mixed_steps :
    ∃ lines first rest path, jobBox "build" mixedJob = .ok lines
      ∧ stepStops "build" 0 mixedJob.steps = .ok (first :: rest)
      ∧ Walk (edgesOf lines) (stepIds "build" mixedJob) mixedValue first.entry path
      ∧ path.filter (· ∈ stepIds "build" mixedJob) = ["build_s0", "build_s1", "build_s2"] := by
  have halways : ∀ i s, mixedJob.steps[i]? = some s →
      AlwaysTrue mixedValue (stepBadges "build" i s) := by
    intro i s hs
    unfold AlwaysTrue
    match i, hs with
    | 0, rfl => decide +kernel
    | 1, rfl => decide +kernel
    | 2, rfl => decide +kernel
    | 3, rfl => decide +kernel
  obtain ⟨lines, first, rest, path, hlines, hstops, hwalk, -, hrunning⟩ :=
    job_walk_runs_steps "build" mixedJob mixedValue rfl (by decide) halways
  exact ⟨lines, first, rest, path, hlines, hstops, hwalk, hrunning.trans (by decide +kernel)⟩

end JobChart.Diagram
