import JobChart.Proofs.Workflow.Findings
import JobChart.Proofs.Workflow.Spelled

/-!
# Drawing and reviewing agree

A document is drawn or it is not, and a review says which. Both look at the
document by themselves: reading a workflow stops at the first thing that is
missing, a review lists findings. They are compared here on every document.

- A document without a workflow has no chart, and the review names the reason
  in one finding, an error (`Refused`).
- A document with jobs in which a text to be taken would show an integer that
  cannot be written has no chart either. The review may be hit by that integer
  too, or it has only warnings (`Unwritable`).
- Any other document has a chart, whatever stands in its fields, and the review
  has only warnings for it (`Accepted`): below the level of the jobs no finding
  is an error (`warning_of_inJobs`), and drawing never fails.
-/

namespace JobChart

open Chart

/-! ## Documents with and without a workflow -/

def Value.IsMapping (data : Value) : Prop := ∃ es, data = .map es

/-- The document has a mapping of jobs with at least one entry. -/
def Value.HasJobs (data : Value) : Prop := ∃ e es, data.field "jobs" = .map (e :: es)

theorem Value.HasJobs.isMapping {data : Value} (h : data.HasJobs) : data.IsMapping := by
  obtain ⟨e, es, hfield⟩ := h
  cases data with
  | map entries => exact ⟨entries, rfl⟩
  | _ => cases hfield

namespace Workflow

theorem jobEntries?_of_hasJobs {data : Value} (h : data.HasJobs) :
    ∃ jobs, jobEntries? data = some jobs := by
  obtain ⟨e, es, hfield⟩ := h
  refine ⟨(e.1, e.2.opened) :: es.map fun e => (e.1, e.2.opened), ?_⟩
  rw [jobEntries?, hfield]
  rfl

theorem hasJobs_of_jobEntries? {data : Value} {jobs : List (Value × Value)}
    (h : jobEntries? data = some jobs) : data.HasJobs := by
  rw [jobEntries?] at h
  cases hfield : data.field "jobs" with
  | map es =>
      cases es with
      | nil => rw [hfield] at h; cases h
      | cons e es => exact ⟨e, es, hfield⟩
  | _ => rw [hfield] at h; cases h

theorem jobEntries?_eq_none {data : Value} (h : ¬data.HasJobs) : jobEntries? data = none := by
  cases hjobs : jobEntries? data with
  | none => rfl
  | some jobs => exact absurd (hasJobs_of_jobEntries? hjobs) h

end Workflow

/-! ## Findings in a workflow -/

namespace Finding

/-- The finding is about the content of a job, and not about the document or
the ids of the jobs. -/
def OfContent : Finding → Prop
  | notMapping | jobsMissing | idCollision .. => False
  | _ => True

theorem ofContent_of_inGuard {site : GuardSite} {raw : Value} {f : Finding}
    (h : f ∈ inGuard site raw) : f.OfContent := by
  rw [inGuard] at h
  split at h
  · cases h
  · split at h
    · rw [List.mem_singleton.mp h]; trivial
    · split at h
      · rw [List.mem_singleton.mp h]; trivial
      · cases h

theorem ofContent_of_inSteps {job : String} {f : Finding} : ∀ {i : Nat} {steps : List Value},
    f ∈ inSteps job i steps → f.OfContent
  | _, [], h => by cases h
  | i, s :: steps, h => by
      rcases List.mem_append.mp h with h | h
      · unfold inStep at h
        split at h
        · exact ofContent_of_inGuard h
        · rw [List.mem_singleton.mp h]; trivial
      · exact ofContent_of_inSteps h

theorem ofContent_of_inJob {names : List String} {job : String} {raw : Value} {f : Finding}
    (h : f ∈ inJob names job raw) : f.OfContent := by
  unfold inJob at h
  split at h
  · rcases List.mem_append.mp h with h | h
    · rcases List.mem_append.mp h with h | h
      · obtain ⟨dep, -, rfl⟩ := List.mem_map.mp h
        trivial
      · exact ofContent_of_inGuard h
    · dsimp only at h
      split at h
      · exact ofContent_of_inSteps h
      · split at h
        · rw [List.mem_singleton.mp h]; trivial
        · cases h
  · rw [List.mem_singleton.mp h]; trivial

theorem OfContent.warning {f : Finding} (h : f.OfContent) : f.severity = .warning := by
  cases f <;> first | rfl | cases h

/-- Whatever the jobs are like, nothing in them is an error. -/
theorem warning_of_inJobs {names : List String} {f : Finding} :
    ∀ {seen : List (String × String)} {jobs : List (Value × Value)},
      f ∈ inJobs names seen jobs → f.severity = .warning
  | _, [], h => by cases h
  | seen, (key, raw) :: jobs, h => by
      rw [inJobs] at h
      split at h
      · rcases List.mem_append.mp h with h | h
        · rcases List.mem_cons.mp h with rfl | h
          · rfl
          · exact (ofContent_of_inJob h).warning
        · exact warning_of_inJobs h
      · rcases List.mem_append.mp h with h | h
        · exact (ofContent_of_inJob h).warning
        · exact warning_of_inJobs h

end Finding

/-- By default every finding is reported as grave as it is. -/
theorem review_default (data : Value) :
    review {} data = (Finding.inDocument data).map fun f => ⟨f.severity, f⟩ := by
  rw [review_eq, reported_default]

/-! ## The kinds of documents -/

/-- The document has no chart, for the reason the user is shown, and the
review reports that one error. -/
structure Refused (d : Direction) (data : Value) (shown code : String) : Prop where
  drawn : ∃ e, draw d data = .error e ∧ e.report = shown
  reviewed : ∃ f, examine {} data = .ok [⟨.error, f⟩] ∧ f.code = code

/-- The review has nothing worse than warnings. -/
def Warned (data : Value) : Prop :=
  ∃ issues, examine {} data = .ok issues ∧ ∀ i ∈ issues, i.severity = .warning

/-- The document has a chart, and the review has nothing worse than warnings. -/
structure Accepted (d : Direction) (data : Value) : Prop where
  drawn : ∃ code, draw d data = .ok code ∧ code ≠ ""
  reviewed : Warned data

/-- The document has no chart because an integer cannot be written. The review
fails for it as well, or it has nothing worse than warnings. -/
structure Unwritable (d : Direction) (data : Value) : Prop where
  drawn : ∃ e, draw d data = .error e ∧ e.report = "Parse error: " ++ Fault.overlong.message
  reviewed : examine {} data = .error .overlong ∨ Warned data

theorem jobEntries?_of_not_mapping {data : Value} (h : ¬data.IsMapping) :
    Workflow.jobEntries? data = none :=
  Workflow.jobEntries?_eq_none fun hjobs => h hjobs.isMapping

/-- A review looks only at the jobs. -/
theorem examine_of_no_jobs {data : Value} (o : ReviewOptions)
    (h : Workflow.jobEntries? data = none) : examine o data = .ok (review o data) := by
  rw [examine, Reviewing.spelled, h]
  rfl

theorem refused_of_not_mapping (d : Direction) {data : Value} (h : ¬data.IsMapping) :
    Refused d data "Failed to parse YAML. Please enter valid YAML." "E_WORKFLOW_NOT_MAPPING" := by
  have hread : Workflow.ofValue data = .error .notMapping := by
    cases data with
    | map es => exact absurd ⟨es, rfl⟩ h
    | _ => rfl
  have hfound : Finding.inDocument data = [.notMapping] := by
    cases data with
    | map es => exact absurd ⟨es, rfl⟩ h
    | _ => rfl
  refine ⟨⟨_, draw_of_unread d hread, rfl⟩, ⟨.notMapping, ?_, rfl⟩⟩
  rw [examine_of_no_jobs _ (jobEntries?_of_not_mapping h), review_default, hfound]
  rfl

theorem refused_of_no_jobs (d : Direction) {data : Value} (hmap : data.IsMapping)
    (h : ¬data.HasJobs) :
    Refused d data "No jobs section found. Please enter a GitHub Actions workflow YAML."
      "E_JOBS_MISSING" := by
  obtain ⟨es, rfl⟩ := hmap
  have hjobs := Workflow.jobEntries?_eq_none h
  have hread : Workflow.ofValue (.map es) = .error .noJobs := by rw [Workflow.ofValue, hjobs]
  refine ⟨⟨_, draw_of_unread d hread, rfl⟩, ⟨.jobsMissing, ?_, rfl⟩⟩
  rw [examine_of_no_jobs _ hjobs, review_default, Finding.inDocument, hjobs]
  rfl

/-- A chart is never empty: it starts with its header. -/
theorem textOf_chart_ne_empty (d : Direction) (w : Workflow) :
    textOf (Diagram.chart d w) ≠ "" := by
  intro h
  obtain ⟨rest, hrest⟩ : ∃ rest, Diagram.chart d w = Line.header d :: rest := ⟨_, rfl⟩
  rw [hrest, textOf, List.map_cons] at h
  have hchars := congrArg String.toList h
  cases hlines : rest.map Line.text with
  | nil => simp [hlines, Text.joinWith, Line.header, Line.text, Item.text] at hchars
  | cons l ls => simp [hlines, Text.joinWith, Line.header, Line.text, Item.text] at hchars

theorem exists_workflow_of_jobs {data : Value} (h : data.HasJobs) :
    ∃ w, Workflow.ofValue data = .ok w := by
  obtain ⟨jobs, hjobs⟩ := Workflow.jobEntries?_of_hasJobs h
  obtain ⟨es, rfl⟩ := h.isMapping
  rw [Workflow.ofValue, hjobs]
  exact ⟨_, rfl⟩

theorem warning_of_jobs {data : Value} (h : data.HasJobs) :
    ∀ i ∈ review {} data, i.severity = .warning := by
  obtain ⟨jobs, hjobs⟩ := Workflow.jobEntries?_of_hasJobs h
  obtain ⟨es, rfl⟩ := h.isMapping
  rw [review_default, Finding.inDocument, hjobs]
  intro i hi
  obtain ⟨f, hf, rfl⟩ := List.mem_map.mp hi
  exact Finding.warning_of_inJobs hf

/-- A text that is taken when the document is drawn would show an integer that
cannot be written. -/
def Value.IsUnwritable (data : Value) : Prop :=
  ∃ w, Workflow.ofValue data = .ok w ∧ w.isOverlong data = true

theorem accepted_of_jobs (d : Direction) {data : Value} (h : data.HasJobs)
    (hshort : ¬data.IsUnwritable) : Accepted d data := by
  obtain ⟨w, hw⟩ := exists_workflow_of_jobs h
  have hshort : w.isOverlong data = false := Bool.eq_false_iff.mpr fun hlong =>
    hshort ⟨w, hw, hlong⟩
  exact ⟨⟨_, draw_of_workflow d hw hshort, textOf_chart_ne_empty d w⟩,
    ⟨_, examine_of_short {} hshort, warning_of_jobs h⟩⟩

theorem unwritable_of_jobs (d : Direction) {data : Value} (h : data.HasJobs)
    (hlong : data.IsUnwritable) : Unwritable d data := by
  obtain ⟨w, hw, hlong⟩ := hlong
  refine ⟨⟨_, draw_of_overlong d hw hlong, rfl⟩, (examine_cases {} data).imp id fun hok => ?_⟩
  exact ⟨_, hok, warning_of_jobs h⟩

def RefusedShape (d : Direction) (data : Value) : Prop :=
  ¬data.IsMapping
    ∧ Refused d data "Failed to parse YAML. Please enter valid YAML." "E_WORKFLOW_NOT_MAPPING"

def RefusedJobs (d : Direction) (data : Value) : Prop :=
  (data.IsMapping ∧ ¬data.HasJobs)
    ∧ Refused d data "No jobs section found. Please enter a GitHub Actions workflow YAML."
      "E_JOBS_MISSING"

def AcceptedJobs (d : Direction) (data : Value) : Prop :=
  (data.HasJobs ∧ ¬data.IsUnwritable) ∧ Accepted d data

/-- The document has jobs and cannot be written out. -/
def UnwritableJobs (d : Direction) (data : Value) : Prop :=
  (data.HasJobs ∧ data.IsUnwritable) ∧ Unwritable d data

/-- **Drawing and reviewing agree.** In any direction exactly one of four things
holds of a document: it is no mapping, it is a mapping without jobs, and either
way both refuse it for that reason alone, or it has jobs and both accept it, or
it has jobs and a text to be taken from it would show an integer of more than
4300 digits: drawing fails for that, and the review does or has only warnings. -/
theorem draw_and_review_agree (d : Direction) (data : Value) :
    (RefusedShape d data ∧ ¬RefusedJobs d data ∧ ¬AcceptedJobs d data ∧ ¬UnwritableJobs d data)
    ∨ (¬RefusedShape d data ∧ RefusedJobs d data ∧ ¬AcceptedJobs d data ∧ ¬UnwritableJobs d data)
    ∨ (¬RefusedShape d data ∧ ¬RefusedJobs d data ∧ AcceptedJobs d data ∧ ¬UnwritableJobs d data)
    ∨ (¬RefusedShape d data ∧ ¬RefusedJobs d data ∧ ¬AcceptedJobs d data
      ∧ UnwritableJobs d data) := by
  by_cases hmap : data.IsMapping
  · by_cases hjobs : data.HasJobs
    · by_cases hlong : data.IsUnwritable
      · exact Or.inr (Or.inr (Or.inr ⟨fun h => h.1 hmap, fun h => h.1.2 hjobs,
          fun h => h.1.2 hlong, ⟨hjobs, hlong⟩, unwritable_of_jobs d hjobs hlong⟩))
      · exact Or.inr (Or.inr (Or.inl ⟨fun h => h.1 hmap, fun h => h.1.2 hjobs,
          ⟨⟨hjobs, hlong⟩, accepted_of_jobs d hjobs hlong⟩, fun h => hlong h.1.2⟩))
    · exact Or.inr (Or.inl ⟨fun h => h.1 hmap, ⟨⟨hmap, hjobs⟩, refused_of_no_jobs d hmap hjobs⟩,
        fun h => hjobs h.1.1, fun h => hjobs h.1.1⟩)
  · exact Or.inl ⟨⟨hmap, refused_of_not_mapping d hmap⟩, fun h => hmap h.1.1,
      fun h => hmap h.1.1.isMapping, fun h => hmap h.1.1.isMapping⟩

/-- A workflow whose job is named by the least number that cannot be written. -/
def overlongName : Value :=
  .map [(.str "jobs", .map [(.str "a", .map [(.str "name", .int Value.overlongBound)])])]

/-- A document with jobs and nothing to find fault with that is not drawn: it is
neither refused by both nor accepted by both. -/
theorem overlong_name_not_drawn :
    overlongName.HasJobs ∧ examine {} overlongName = .ok []
      ∧ draw .topDown overlongName = .error .overlong
      ∧ DrawError.overlong.report = "Parse error: " ++ Fault.overlong.message
      ∧ ¬(RefusedShape .topDown overlongName ∨ RefusedJobs .topDown overlongName
        ∨ Accepted .topDown overlongName) := by
  have hjobs : overlongName.HasJobs := ⟨_, _, rfl⟩
  have hexamined : examine {} overlongName = .ok [] := by decide +kernel
  have hlong : (Workflow.ofValue overlongName).map (·.isOverlong overlongName) = .ok true := by
    decide +kernel
  cases hw : Workflow.ofValue overlongName with
  | error e => rw [hw] at hlong; cases hlong
  | ok w =>
      rw [hw] at hlong
      have hdraw := draw_of_overlong .topDown hw (Except.ok.inj hlong)
      refine ⟨hjobs, hexamined, hdraw, rfl, ?_⟩
      rintro (hshape | hrefused | haccepted)
      · exact hshape.1 hjobs.isMapping
      · exact hrefused.1.2 hjobs
      · obtain ⟨code, hcode, -⟩ := haccepted.drawn
        cases hdraw.symm.trans hcode

end JobChart
