import Mathlib.Data.List.Pairwise
import JobChart.Proofs.Diagram.JobIds
import JobChart.Proofs.Workflow.Order
import JobChart.Proofs.Workflow.Reviewed

/-!
# When jobs keep their ids apart

A review that reports no collision makes sure that the names of the jobs have
distinct ids. The ids in a chart are made from those with fronts and backs, and
the review does not look at these: a job `a` that calls another workflow and a
job `a_uses` both have the id `job_a_uses`.

Within one job all ids are distinct (`nodup_jobIds`), and those of two jobs are
disjoint unless two of their roles meet (`disjoint_jobIds_iff`). So the jobs of
a chart keep their ids apart iff no two of them clash.
-/

namespace JobChart.Diagram

open Chart Chain

/-! ## The ids of one job -/

section

variable {name : String} {s : Spot} {r : Role} {guard : Option String} {i : Nat}
  {steps : List Step} {job : Job}

theorem nodup_guardRoles : (guardRoles s guard).Nodup := by
  have hparts : ∀ n : Nat, ((List.range n).map fun k => Role.badge s (some k)).Nodup := by
    intro n
    refine List.nodup_range.map fun k l h => ?_
    injection h with _ hpart
    exact Option.some.inj hpart
  rw [guardRoles]
  split
  · next text _ =>
    cases Guard.parse text with
    | atom t => exact List.nodup_singleton _
    | all gs => exact hparts _
    | any gs => exact hparts _
  · exact List.nodup_nil

/-- In a row of steps every id belongs to a step at its place or behind it. -/
theorem step_of_mem_row (h : r ∈ rowRoles i steps) :
    ∃ l, i ≤ l ∧ (r = .spot (.step l) ∨ ∃ part, r = .badge (.step l) part) := by
  induction steps generalizing i with
  | nil => cases h
  | cons s steps ih =>
      rw [rowRoles, List.mem_append, List.mem_append] at h
      rcases h with (h | h) | h
      · exact ⟨i, Nat.le_refl i, Or.inr (eq_badge_of_mem h)⟩
      · exact ⟨i, Nat.le_refl i, Or.inl (List.mem_singleton.mp h)⟩
      · obtain ⟨l, hl, hr⟩ := ih h
        exact ⟨l, Nat.le_of_succ_le hl, hr⟩

theorem nodup_rowRoles : (rowRoles i steps).Nodup := by
  induction steps generalizing i with
  | nil => exact List.nodup_nil
  | cons s steps ih =>
      have hguard : Role.spot (.step i) ∉ guardRoles (.step i) s.guard := by
        intro h
        obtain ⟨part, heq⟩ := eq_badge_of_mem h
        cases heq
      have hstop : (guardRoles (.step i) s.guard ++ [Role.spot (.step i)]).Nodup :=
        List.concat_eq_append ▸ nodup_guardRoles.concat hguard
      refine hstop.append ih fun r hr hrest => ?_
      obtain ⟨l, hl, hplace⟩ := step_of_mem_row hrest
      rcases List.mem_append.mp hr with hr | hr
      · obtain ⟨part, rfl⟩ := eq_badge_of_mem hr
        rcases hplace with heq | ⟨_, heq⟩
        · cases heq
        · cases heq; omega
      · obtain rfl := List.mem_singleton.mp hr
        rcases hplace with heq | ⟨_, heq⟩
        · cases heq; omega
        · cases heq

theorem nodup_roles : (roles job).Nodup := by
  have hcontent : (contentRoles job).Nodup ∧ ∀ r ∈ contentRoles job,
      r ≠ .spot .job ∧ ∀ part, r ≠ .badge .job part := by
    unfold contentRoles
    split
    · exact ⟨List.nodup_singleton _, by simp⟩
    · split
      · exact ⟨List.nodup_singleton _, by simp⟩
      · refine ⟨nodup_rowRoles, fun r hr => ?_⟩
        obtain ⟨l, -, rfl | ⟨part, rfl⟩⟩ := step_of_mem_row hr <;> simp
  obtain ⟨hnodup, hother⟩ := hcontent
  refine nodup_guardRoles.append (hnodup.cons fun h => (hother _ h).1 rfl) fun r hr hrest => ?_
  obtain ⟨part, rfl⟩ := eq_badge_of_mem hr
  rcases List.mem_cons.mp hrest with heq | hrest
  · cases heq
  · exact (hother _ hrest).2 part rfl

/-- The ids in a job's part of a chart: those of the chain in front of it, of its
box and of what stands in the box. -/
def jobIds (j : String × Job) : List String :=
  guardIds (jobGuardId j.1) j.2.guard ++ boxIds j.1 j.2

/-- Within one job no two ids are the same. -/
theorem nodup_jobIds (j : String × Job) : (jobIds j).Nodup := by
  rw [jobIds, jobIds_eq]
  refine nodup_roles.map_on fun r _ s _ h => ?_
  rcases coincide_of_id_eq h with ⟨-, heq⟩ | hmeet | hmeet
  · exact heq
  · exact absurd hmeet not_meets_self
  · exact absurd hmeet not_meets_self

end

theorem nodup_box (name : String) (job : Job) : (definedIds (box name job)).Nodup := by
  rw [definedIds_box]
  exact (nodup_jobIds (name, job)).of_append_right

/-- **The ids in a box are distinct.** Whatever a job is called and whatever its
steps and their guards are, its box is drawn. The lines of the box define the id
of the job, those of its steps, and those of the badges in front of the steps,
and none of them twice. -/
theorem box_ids_distinct (name : String) (job : Job) :
    ∃ ls, jobBox name job = .ok ls ∧ definedIds ls = boxIds name job
      ∧ (definedIds ls).Nodup :=
  ⟨box name job, jobBox_eq name job, definedIds_box name job, nodup_box name job⟩

example : boxIds "cond_job_s0" { steps := [{ guard := some "a && b" }, { guard := some "c" }] }
    = ["job_cond_job_s0", "cond_cond_job_s0_s0_p0", "cond_cond_job_s0_s0_p1", "cond_job_s0_s0",
      "cond_cond_job_s0_s1", "cond_job_s0_s1"] := by
  decide +kernel

/-! ## The ids of two jobs -/

/-- A role of the first job meets one of the second. -/
def Clash (a b : String × Job) : Prop :=
  ∃ r ∈ roles a.2, ∃ s ∈ roles b.2, Meets a.1 b.1 r s

theorem mem_jobIds {id : String} {j : String × Job} :
    id ∈ jobIds j ↔ ∃ r ∈ roles j.2, r.id j.1 = id := by
  rw [jobIds, jobIds_eq]
  exact List.mem_map

theorem disjoint_jobIds_iff {a b : String × Job} (hne : idOf a.1 ≠ idOf b.1) :
    (jobIds a).Disjoint (jobIds b) ↔ ¬Clash a b ∧ ¬Clash b a := by
  constructor
  · intro h
    refine ⟨?_, ?_⟩
    · rintro ⟨r, hr, s, hs, hmeet⟩
      exact h (mem_jobIds.mpr ⟨r, hr, rfl⟩) (mem_jobIds.mpr ⟨s, hs, hmeet.id_eq.symm⟩)
    · rintro ⟨r, hr, s, hs, hmeet⟩
      exact h (mem_jobIds.mpr ⟨s, hs, rfl⟩) (mem_jobIds.mpr ⟨r, hr, hmeet.id_eq⟩)
  · rintro ⟨hab, hba⟩ id ha hb
    obtain ⟨r, hr, rfl⟩ := mem_jobIds.mp ha
    obtain ⟨s, hs, heq⟩ := mem_jobIds.mp hb
    rcases coincide_of_id_eq heq.symm with ⟨hid, -⟩ | hmeet | hmeet
    · exact hne hid
    · exact hab ⟨r, hr, s, hs, hmeet⟩
    · exact hba ⟨s, hs, r, hr, hmeet⟩

/-! ## The ids of all jobs -/

section

variable {w : Workflow}

/-- The chart has the ids of its jobs, the chains first and the boxes in their
own order. -/
theorem jobIds_perm (hnames : (w.jobs.map (·.1)).Nodup) :
    (definedIds (gateLines (w.jobs.filterMap jobGate?) ++ boxes w w.order)).Perm
      (w.jobs.flatMap jobIds) := by
  have hboxes : (w.jobs.map (·.1)).flatMap
      (fun name => ((w.jobs.lookup name).map (boxIds name)).getD [])
      = w.jobs.flatMap fun j => boxIds j.1 j.2 := by
    rw [List.flatMap_map]
    refine List.flatMap_congr fun j hj => ?_
    rw [Workflow.lookup_of_mem hnames hj]
    rfl
  rw [definedIds_append, definedIds_gateLines, definedIds_boxes]
  refine List.Perm.trans ?_ (List.flatMap_append_perm w.jobs _ _)
  rw [← hboxes]
  exact ((Workflow.order_perm hnames).flatMap_right _).append_left _

/-- Where the names of the jobs have distinct ids, the jobs keep their ids apart
iff no two of them clash. -/
theorem nodup_jobs_iff (hids : (w.jobs.map fun j => idOf j.1).Nodup) :
    (definedIds (gateLines (w.jobs.filterMap jobGate?) ++ boxes w w.order)).Nodup
      ↔ ∀ a ∈ w.jobs, ∀ b ∈ w.jobs, a.1 ≠ b.1 → ¬Clash a b := by
  have hnames := Workflow.nodup_names_of_map hids
  have hinj : ∀ {a b}, a ∈ w.jobs → b ∈ w.jobs → a.1 ≠ b.1 → idOf a.1 ≠ idOf b.1 :=
    fun ha hb hne heq => hne (congrArg Prod.fst (List.inj_on_of_nodup_map hids ha hb heq))
  rw [(jobIds_perm hnames).nodup_iff, List.nodup_flatMap]
  constructor
  · rintro ⟨-, hapart⟩ a ha b hb hne
    have hsymm : Std.Symm (Function.onFun List.Disjoint jobIds) := ⟨fun _ _ h x hb ha => h ha hb⟩
    have hdisjoint : (jobIds a).Disjoint (jobIds b) :=
      hapart.forall ha hb fun heq => hne (congrArg Prod.fst heq)
    exact ((disjoint_jobIds_iff (hinj ha hb hne)).mp hdisjoint).1
  · intro h
    refine ⟨fun j _ => nodup_jobIds j, hnames.of_map.pairwise_of_forall_ne ?_⟩
    intro a ha b hb hab
    have hne : a.1 ≠ b.1 := fun heq => hab (List.inj_on_of_nodup_map hnames ha hb heq)
    exact (disjoint_jobIds_iff (hinj ha hb hne)).mpr ⟨h a ha b hb hne, h b hb a ha hne.symm⟩

end

/-- **When ids are kept apart.** Every document with jobs has a chart: the box of
the triggers, if there are any, and the chains and the boxes of the jobs. Where a
review that ignores nothing reports no collision, the ids of the jobs' part are
distinct iff no two jobs clash. -/
theorem ids_distinct_iff_no_clash (d : Direction) {o : ReviewOptions} {data : Value}
    (hjobs : data.HasJobs) (hignore : o.ignore = [])
    (hreview : ∀ i ∈ review o data, i.finding.code ≠ "W_JOB_ID_COLLISION") :
    ∃ w ls gs bs, Workflow.ofValue data = .ok w ∧ lines d w = .ok ls
      ∧ gates w.jobs = .ok gs ∧ jobBoxes w w.order = .ok bs
      ∧ definedIds ls = (if w.hasTriggers then definedIds (triggerBox w.triggers) else [])
        ++ definedIds (gateLines gs ++ bs)
      ∧ ((definedIds (gateLines gs ++ bs)).Nodup
        ↔ ∀ a ∈ w.jobs, ∀ b ∈ w.jobs, a.1 ≠ b.1 → ¬Clash a b) := by
  obtain ⟨w, hw⟩ := Workflow.exists_of_hasJobs hjobs
  exact ⟨w, chart d w, _, _, hw, lines_eq d w, gates_eq w.jobs, jobBoxes_eq w w.order,
    definedIds_chart d w, nodup_jobs_iff (nodup_ids_of_review hw hignore hreview)⟩

/-- Names that look alike, of jobs that do not clash: the first job calls nothing,
and its steps are fewer than the name of the third would need. -/
def lookAlikes : Value :=
  .map [(.str "jobs", .map [
    (.str "job", .map [(.str "if", .str "x && y"), (.str "steps", .list [.null])]),
    (.str "job_uses", .map [(.str "uses", .str "z")]),
    (.str "s1", .map [(.str "if", .str "x")])])]

theorem lookAlikes_distinct :
    ∃ w gs bs, Workflow.ofValue lookAlikes = .ok w ∧ gates w.jobs = .ok gs
      ∧ jobBoxes w w.order = .ok bs ∧ (definedIds (gateLines gs ++ bs)).Nodup := by
  have hjobs : lookAlikes.HasJobs := ⟨_, _, rfl⟩
  obtain ⟨w, ls, gs, bs, hw, -, hgs, hbs, -, hiff⟩ :=
    ids_distinct_iff_no_clash .topDown (o := {}) hjobs rfl (by decide +kernel)
  refine ⟨w, gs, bs, hw, hgs, hbs, hiff.mpr ?_⟩
  have hids : ∀ w ∈ (Workflow.ofValue lookAlikes).toOption, ∀ a ∈ w.jobs, ∀ b ∈ w.jobs,
      a.1 ≠ b.1 → ∀ r ∈ roles a.2, ∀ s ∈ roles b.2, r.id a.1 ≠ s.id b.1 := by decide +kernel
  rintro a ha b hb hne ⟨r, hr, s, hs, hmeet⟩
  exact hids w (by rw [hw]; rfl) a ha b hb hne r hr s hs hmeet.id_eq

/-- A call, and a job with the name of the node that stands for it. -/
def mergedCall : Value :=
  .map [(.str "jobs", .map [
    (.str "a", .map [(.str "uses", .str "x")]), (.str "a_uses", .map [])])]

/-- The node of the call is merged with the box of the other job, and the review
has nothing to say about it. -/
theorem call_merges_with_job :
    (∀ i ∈ review {} mergedCall, i.finding.code ≠ "W_JOB_ID_COLLISION")
      ∧ ∃ w gs bs, Workflow.ofValue mergedCall = .ok w ∧ gates w.jobs = .ok gs
        ∧ jobBoxes w w.order = .ok bs ∧ ¬(definedIds (gateLines gs ++ bs)).Nodup := by
  have hreview : ∀ i ∈ review {} mergedCall, i.finding.code ≠ "W_JOB_ID_COLLISION" := by
    decide +kernel
  have hw : Workflow.ofValue mergedCall
      = .ok { jobs := [("a", { uses := some "x" }), ("a_uses", {})] } := rfl
  refine ⟨hreview, _, _, _, hw, gates_eq _, jobBoxes_eq _ _, ?_⟩
  rw [nodup_jobs_iff (nodup_ids_of_review hw rfl hreview)]
  have hclash : Clash ("a_uses", {}) ("a", { uses := some "x" }) :=
    ⟨.spot .job, by decide, .call, by decide, .call (by decide +kernel)⟩
  intro h
  exact h _ (.tail _ (.head _)) _ (.head _) (by decide) hclash

end JobChart.Diagram
