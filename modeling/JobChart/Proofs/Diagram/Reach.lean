import Mathlib.Data.Fintype.Card
import Mathlib.Data.Set.Finite.Basic
import JobChart.Proofs.Diagram.Arrivals
import JobChart.Proofs.Diagram.Ways

/-!
# Everything hangs below the triggers

Where something triggers a workflow and its needs are declared and free of
cycles, the edges of its chart lead from the triggers to every job.

That goes along the needs (`needs_induction`): a job that needs nothing has the
triggers for its source, any other job a job that was reached before. From each
of its sources an edge leads to where the job is entered, and if that is the
entry of a chain, there is a way through the chain and out of it into the job
(`reached_of_source`).
-/

namespace JobChart

open Relation

/-- Without cycles: what holds of a job as soon as it holds of the declared jobs
that it needs, holds of every job. -/
theorem Workflow.needs_induction {w : Workflow} (hacyclic : ∀ n, ¬TransGen w.Requires n n)
    {P : String → Prop} (h : ∀ n ∈ w.jobs.map (·.1), (∀ d, w.Requires n d → P d) → P n) :
    ∀ n ∈ w.jobs.map (·.1), P n := by
  have hfinite : Finite {n // n ∈ w.jobs.map (·.1)} := (List.finite_toSet _).to_subtype
  have hwf : WellFounded fun d n : {n // n ∈ w.jobs.map (·.1)} => TransGen w.Requires n.1 d.1 :=
    @Finite.wellFounded_of_trans_of_irrefl _ hfinite _
      ⟨fun _ _ _ hab hbc => hbc.trans hab⟩ ⟨fun n => hacyclic n.1⟩
  intro n hn
  refine hwf.induction (C := fun n => P n.1) ⟨n, hn⟩ ?_
  intro m ih
  refine h m.1 m.2 fun d hd => ?_
  have hdeclared : d ∈ w.jobs.map (·.1) := hd.choose_spec.2.2
  exact ih ⟨d, hdeclared⟩ (.single hd)

namespace Diagram

open Chart Chain

/-! ## Ways through a chain -/

/-- The job is reached from the triggers through its chain, from the entry of the
chain to one of its exits. -/
structure ReachedThrough (es : List Edge) (c : Gate) (job : String) : Prop where
  entry : Reaches es triggersId c.entry
  links : ∀ e ∈ c.links, e ∈ es
  through : ∃ x ∈ c.exits, Reaches c.links c.entry x.source
    ∧ ⟨x.source, jobId job, x.label, solid⟩ ∈ es

section

variable {es : List Edge} {s name text : String} {c : Gate} {job : Job}
  {gs : List (String × Gate)} {sources : List String}

theorem ReachedThrough.reaches (h : ReachedThrough es c name) :
    Reaches es triggersId (jobId name) := by
  obtain ⟨x, -, hpath, hexit⟩ := h.through
  exact (h.entry.trans (hpath.mono h.links)).tail ⟨_, hexit, rfl, rfl⟩

/-- There is a way through every chain. -/
theorem exists_reaches_exit (base text : String) : ∃ x ∈ (chain base text).exits,
    Reaches (chain base text).links (chain base text).entry x.source := by
  obtain ⟨id, hpath, -, hway⟩ := chain_leads_on base text
  obtain ⟨x, hx, rfl⟩ := List.mem_map.mp hway
  refine ⟨x, hx, ReflTransGen.mono ?_ _ _ hpath⟩
  rintro a b ⟨e, he, hsource, htarget, -⟩
  exact ⟨e, he, hsource, htarget⟩

/-! ## The edges into a job -/

theorem follows_job (hnone : gs.lookup name = none) (hs : s ∈ sources) :
    Follows (edgesInto gs sources name) s (jobId name) := by
  simp only [edgesInto, hnone]
  exact ⟨_, List.mem_map_of_mem hs, rfl, rfl⟩

/-- From every source of a guarded job an edge leads to its chain, and the chain's
own edges are among those into the job. -/
theorem follows_entry (hc : gs.lookup name = some c) (hs : s ∈ sources) :
    Follows (edgesInto gs sources name) s c.entry
      ∧ ∀ e ∈ c.exitEdges (jobId name), e ∈ edgesInto gs sources name := by
  simp only [edgesInto, hc]
  cases sources with
  | nil => cases hs
  | cons first rest =>
      refine ⟨?_, fun e he => List.mem_append_left _ (List.mem_cons_of_mem _ he)⟩
      rcases List.mem_cons.mp hs with rfl | hs
      · exact ⟨_, List.mem_append_left _ List.mem_cons_self, rfl, rfl⟩
      · exact ⟨_, List.mem_append_right _ (List.mem_map_of_mem hs), rfl, rfl⟩

/-- A job with a source that is reached is reached itself, through its chain if
it has one. -/
theorem reached_of_source (hlookup : gs.lookup name = gate (jobGuardId name) job.guard)
    (hedges : ∀ e ∈ edgesInto gs sources name, e ∈ es)
    (hlinks : ∀ c, gate (jobGuardId name) job.guard = some c → ∀ e ∈ c.links, e ∈ es)
    (hs : s ∈ sources) (hreach : Reaches es triggersId s) :
    Reaches es triggersId (jobId name)
      ∧ ∀ text, given job.guard = some text →
        ReachedThrough es (chain (jobGuardId name) text) name := by
  cases hguard : given job.guard with
  | none =>
      have hnone : gs.lookup name = none := by rw [hlookup, gate, hguard]; rfl
      refine ⟨hreach.tail ((follows_job hnone hs).mono hedges), fun text heq => ?_⟩
      cases heq
  | some text =>
      have hgate : gate (jobGuardId name) job.guard = some (chain (jobGuardId name) text) :=
        gate_of_given hguard
      obtain ⟨hentry, hexits⟩ := follows_entry (hlookup.trans hgate) hs
      obtain ⟨x, hx, hpath⟩ := exists_reaches_exit (jobGuardId name) text
      have hthrough : ReachedThrough es (chain (jobGuardId name) text) name :=
        ⟨hreach.tail (hentry.mono hedges), hlinks _ hgate, x, hx, hpath,
          hedges _ (hexits _ (List.mem_map_of_mem hx))⟩
      refine ⟨hthrough.reaches, fun text' heq => ?_⟩
      obtain rfl := Option.some.inj heq
      exact hthrough

end

/-! ## The edges of the whole chart -/

section

variable {d : Direction} {w : Workflow} {name : String} {job : Job} {c : Gate} {e : Edge}

theorem link_mem_chart (hjob : (name, job) ∈ w.jobs)
    (hgate : gate (jobGuardId name) job.guard = some c) (he : e ∈ c.links) :
    e ∈ edgesOf (chart d w) := by
  have hmem : (name, c) ∈ w.jobs.filterMap jobGate? := mem_jobGates.mpr ⟨job, hjob, hgate⟩
  rw [edgesOf_chart]
  simp only [List.mem_append]
  exact Or.inl (Or.inl (Or.inl (List.mem_flatMap.mpr ⟨_, hmem, he⟩)))

theorem rootEdge_mem_chart (htriggers : w.hasTriggers = true) (hjob : (name, job) ∈ w.jobs)
    (hroot : job.needs = []) (he : e ∈ edgesInto (w.jobs.filterMap jobGate?) [triggersId] name) :
    e ∈ edgesOf (chart d w) := by
  rw [edgesOf_chart, if_pos htriggers]
  simp only [List.mem_append]
  exact Or.inl (Or.inr (List.mem_flatMap.mpr
    ⟨name, List.mem_map_of_mem (f := (·.1)) (mem_roots.mpr ⟨hjob, hroot⟩), he⟩))

theorem needEdge_mem_chart (hjob : (name, job) ∈ w.jobs)
    (he : e ∈ edgesInto (w.jobs.filterMap jobGate?) (job.needs.map jobId) name) :
    e ∈ edgesOf (chart d w) := by
  rw [edgesOf_chart]
  exact List.mem_append_right _ (List.mem_flatMap.mpr ⟨_, hjob, he⟩)

end

/-- **Everything hangs below the triggers.** Where something triggers a workflow,
the jobs need declared jobs only, and no job needs itself in the end, the edges of
the chart lead from the triggers to every job; and where the job has a guard, they
lead through its chain, from the entry of the chain to an exit and into the job. -/
theorem jobs_below_triggers (d : Direction) {w : Workflow}
    (hnames : (w.jobs.map (·.1)).Nodup) (htriggers : w.hasTriggers = true)
    (hneeds : ∀ j ∈ w.jobs, ∀ dep ∈ j.2.needs, dep ∈ w.jobs.map (·.1))
    (hacyclic : ∀ n, ¬TransGen w.Requires n n) :
    ∃ ls, lines d w = .ok ls ∧ ∀ name job, (name, job) ∈ w.jobs →
      Reaches (edgesOf ls) triggersId (jobId name)
        ∧ ∀ text, given job.guard = some text →
          ∃ c, Chain.ofText (jobGuardId name) text = .ok c
            ∧ ReachedThrough (edgesOf ls) c name := by
  have hstep : ∀ {name job s sources}, (name, job) ∈ w.jobs →
      (∀ e ∈ edgesInto (w.jobs.filterMap jobGate?) sources name, e ∈ edgesOf (chart d w)) →
      s ∈ sources → Reaches (edgesOf (chart d w)) triggersId s →
      Reaches (edgesOf (chart d w)) triggersId (jobId name)
        ∧ ∀ text, given job.guard = some text →
          ReachedThrough (edgesOf (chart d w)) (chain (jobGuardId name) text) name :=
    fun hjob hedges => reached_of_source (lookup_jobGates hnames hjob) hedges
      fun _ hgate _ => link_mem_chart hjob hgate
  have hall : ∀ n ∈ w.jobs.map (·.1), ∀ job, (n, job) ∈ w.jobs →
      Reaches (edgesOf (chart d w)) triggersId (jobId n)
        ∧ ∀ text, given job.guard = some text →
          ReachedThrough (edgesOf (chart d w)) (chain (jobGuardId n) text) n := by
    refine Workflow.needs_induction hacyclic fun n _ ih job hjob => ?_
    cases hdeps : job.needs with
    | nil =>
        exact hstep hjob (fun e => rootEdge_mem_chart htriggers hjob hdeps) List.mem_cons_self .refl
    | cons dep rest =>
        have hdep : dep ∈ job.needs := hdeps ▸ List.mem_cons_self
        have hdeclared := hneeds _ hjob dep hdep
        obtain ⟨⟨dep, depJob⟩, hdepJob, rfl⟩ := List.mem_map.mp hdeclared
        have hrequires : w.Requires n _ :=
          ⟨job, Workflow.lookup_of_mem hnames hjob, hdep, hdeclared⟩
        exact hstep hjob (fun e => needEdge_mem_chart hjob) (List.mem_map_of_mem hdep)
          (ih _ hrequires depJob hdepJob).1
  refine ⟨chart d w, lines_eq d w, fun name job hjob => ?_⟩
  obtain ⟨hreach, hthrough⟩ := hall name (List.mem_map_of_mem hjob) job hjob
  exact ⟨hreach, fun text hguard => ⟨_, ofText_eq _ text, hthrough text hguard⟩⟩

/-- A guarded job, one that needs it twice, and one that needs both. -/
def guardedNeeds : Workflow where
  jobs := [("c", { needs := ["b", "a"] }), ("a", { guard := some "x && (y || z)" }),
    ("b", { needs := ["a", "a"], guard := some "always()" })]
  triggers := .str "push"

theorem guardedNeeds_below_triggers :
    ∃ ls, lines .topDown guardedNeeds = .ok ls
      ∧ Reaches (edgesOf ls) triggersId (jobId "c")
      ∧ ∃ c, Chain.ofText (jobGuardId "b") "always()" = .ok c
        ∧ ReachedThrough (edgesOf ls) c "b" := by
  have hrow : ∀ j ∈ guardedNeeds.jobs, ∀ dep ∈ j.2.needs,
      ["a", "b", "c"].idxOf dep < ["a", "b", "c"].idxOf j.1 := by decide
  have hfalls : ∀ {n m}, TransGen guardedNeeds.Requires n m →
      ["a", "b", "c"].idxOf m < ["a", "b", "c"].idxOf n := by
    have hneed : ∀ {n m}, guardedNeeds.Requires n m →
        ["a", "b", "c"].idxOf m < ["a", "b", "c"].idxOf n := by
      rintro n m ⟨job, hjob, hm, -⟩
      exact hrow _ (Workflow.mem_of_lookup hjob) m hm
    intro n m h
    induction h with
    | single h => exact hneed h
    | tail _ h ih => exact (hneed h).trans ih
  have hacyclic : ∀ n, ¬TransGen guardedNeeds.Requires n n :=
    fun n h => absurd (hfalls h) (Nat.lt_irrefl _)
  obtain ⟨ls, hls, hjobs⟩ := jobs_below_triggers .topDown (w := guardedNeeds) (by decide) rfl
    (by decide) hacyclic
  obtain ⟨-, hthrough⟩ := hjobs "b" _ (.tail _ (.tail _ (.head _)))
  exact ⟨ls, hls, (hjobs "c" _ (.head _)).1, hthrough "always()" rfl⟩

end Diagram

end JobChart
