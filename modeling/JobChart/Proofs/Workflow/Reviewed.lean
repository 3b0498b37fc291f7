import Mathlib.Data.List.Nodup
import JobChart.Proofs.Convert.Agreement
import JobChart.Proofs.Workflow.Names

/-!
# What a review says of the workflow

A review looks at the entries of the document, a chart is drawn from the jobs
read from them. Two keys of the same text are one job, with the content of the
later entry; so every job comes from one of the entries (`exists_entry_of_mem`)
and has the name of it, and what the review finds in all entries it finds in
all jobs.

Two findings are followed here. Without a collision the ids of the names are
distinct (`nodup_ids_of_review`), and without an unknown need the jobs need
declared jobs only (`declared_of_review`).
-/

namespace JobChart

open Text Chart

/-! ## Jobs and the entries they are read from -/

namespace Workflow

variable {name : String} {job : Job} {j : String × Job} {js : List (String × Job)}
  {entries : List (Value × Value)} {data : Value} {w : Workflow}

theorem mem_putJob (h : j ∈ putJob name job js) : j = (name, job) ∨ j ∈ js := by
  induction js with
  | nil => exact Or.inl (List.mem_singleton.mp h)
  | cons k js ih =>
      rw [putJob] at h
      split at h
      · exact (List.mem_cons.mp h).imp_right fun h => List.mem_cons_of_mem k h
      · rcases List.mem_cons.mp h with rfl | h
        · exact Or.inr List.mem_cons_self
        · exact (ih h).imp_right fun h => List.mem_cons_of_mem k h

/-- Every job is the content of an entry of its name. -/
theorem exists_entry_of_mem (h : j ∈ jobsOf entries) :
    ∃ e ∈ entries, e.1.text = j.1 ∧ Job.ofValue e.2 = j.2 := by
  have hfold : ∀ (es : List (Value × Value)) (js : List (String × Job)),
      j ∈ es.foldl (fun js e => putJob e.1.text (Job.ofValue e.2) js) js →
        j ∈ js ∨ ∃ e ∈ es, e.1.text = j.1 ∧ Job.ofValue e.2 = j.2 := by
    intro es
    induction es with
    | nil => exact fun _ h => Or.inl h
    | cons e es ih =>
        intro js h
        rcases ih _ h with h | ⟨e', he', hj⟩
        · rcases mem_putJob h with rfl | h
          · exact Or.inr ⟨e, List.mem_cons_self, rfl, rfl⟩
          · exact Or.inl h
        · exact Or.inr ⟨e', List.mem_cons_of_mem e he', hj⟩
  exact (hfold entries [] h).resolve_left (List.not_mem_nil)

theorem mem_names_putJob {n : String} :
    n ∈ (putJob name job js).map (·.1) ↔ n = name ∨ n ∈ js.map (·.1) := by
  rw [names_putJob]
  split
  · next hmem => exact ⟨Or.inr, fun h => h.elim (fun h => h ▸ hmem) id⟩
  · rw [List.mem_append, List.mem_singleton, or_comm]

/-- Every entry declares a job of its name. -/
theorem declared_of_entry {e : Value × Value} (h : e ∈ entries) :
    e.1.text ∈ (jobsOf entries).map (·.1) := by
  have hfold : ∀ (es : List (Value × Value)) (js : List (String × Job)) (n : String),
      n ∈ js.map (·.1) ∨ n ∈ es.map (·.1.text) →
        n ∈ (es.foldl (fun js e => putJob e.1.text (Job.ofValue e.2) js) js).map (·.1) := by
    intro es
    induction es with
    | nil => exact fun _ _ h => h.resolve_right List.not_mem_nil
    | cons e es ih =>
        intro js n h
        refine ih _ n ?_
        rw [mem_names_putJob]
        rcases h with h | h
        · exact Or.inl (Or.inr h)
        · exact (List.mem_cons.mp h).imp_left Or.inl
  exact hfold entries [] _ (Or.inr (List.mem_map_of_mem h))

theorem exists_of_hasJobs (h : data.HasJobs) : ∃ w, ofValue data = .ok w := by
  obtain ⟨entries, hentries⟩ := jobEntries?_of_hasJobs h
  obtain ⟨es, rfl⟩ := h.isMapping
  rw [ofValue, hentries]
  exact ⟨_, rfl⟩

/-- A workflow is read from the entries of the jobs. -/
theorem exists_entries (h : ofValue data = .ok w) :
    ∃ entries, jobEntries? data = some entries ∧ w.jobs = jobsOf entries
      ∧ Finding.inDocument data = Finding.inJobs (entries.map (·.1.text)) [] entries := by
  unfold ofValue at h
  split at h
  · split at h
    · next entries hentries =>
      cases h
      exact ⟨entries, hentries, rfl, by rw [Finding.inDocument, hentries]⟩
    · cases h
  · cases h

end Workflow

/-! ## Findings in the entries -/

namespace Finding

variable {names : List String} {entries : List (Value × Value)} {e : Value × Value} {f : Finding}

theorem mem_inJobs : ∀ {entries : List (Value × Value)} {seen : List (String × String)},
    e ∈ entries → f ∈ inJob names e.1.text e.2 → f ∈ inJobs names seen entries
  | (key, raw) :: entries, seen, he, hf => by
      rw [inJobs]
      rcases List.mem_cons.mp he with rfl | he
      · split
        · exact List.mem_append_left _ (List.mem_cons_of_mem _ hf)
        · exact List.mem_append_left _ hf
      · split <;> exact List.mem_append_right _ (mem_inJobs he hf)

/-- Without a collision the ids of the names are new, each to those before it. -/
theorem nodup_ids_of_inJobs : ∀ {entries : List (Value × Value)} {seen : List (String × String)},
    (∀ f ∈ inJobs names seen entries, f.code ≠ "W_JOB_ID_COLLISION") →
      (∀ e ∈ entries, seen.lookup (idOf e.1.text) = none)
        ∧ (entries.map fun e => idOf e.1.text).Nodup
  | [], _, _ => ⟨fun _ he => (List.not_mem_nil he).elim, List.nodup_nil⟩
  | (key, raw) :: entries, seen, h => by
      rw [inJobs] at h
      cases hseen : seen.lookup (idOf key.text) with
      | some first =>
          simp only [hseen] at h
          exact absurd rfl (h (idCollision first key.text (idOf key.text)) (by simp))
      | none =>
          simp only [hseen] at h
          obtain ⟨hnew, hnodup⟩ :=
            nodup_ids_of_inJobs fun f hf => h f (List.mem_append_right _ hf)
          have hsplit : ∀ e ∈ entries,
              idOf e.1.text ≠ idOf key.text ∧ seen.lookup (idOf e.1.text) = none := by
            intro e he
            have hlookup := hnew e he
            rw [List.lookup_cons] at hlookup
            split at hlookup
            · cases hlookup
            · next hne => exact ⟨fun heq => by simp [heq] at hne, hlookup⟩
          refine ⟨List.forall_mem_cons.mpr ⟨hseen, fun e he => (hsplit e he).2⟩, ?_⟩
          rw [List.map_cons, List.nodup_cons]
          refine ⟨fun hmem => ?_, hnodup⟩
          obtain ⟨e, he, heq⟩ := List.mem_map.mp hmem
          exact (hsplit e he).1 heq

/-- What the job of an entry needs without being declared is found. -/
theorem unknownNeed_mem_inJob (job : String) {dep : String} {raw : Value}
    (hdep : dep ∈ (Job.ofValue raw).needs) (hnew : dep ∉ names) :
    unknownNeed job dep ∈ inJob names job raw := by
  unfold inJob
  cases raw with
  | map es =>
      have hmem : dep ∈ ((Value.map es).field "needs").texts.filter (· ∉ names) :=
        List.mem_filter.mpr ⟨hdep, by simpa using hnew⟩
      exact List.mem_append_left _ (List.mem_append_left _ (List.mem_map_of_mem hmem))
  | _ => cases hdep

end Finding

/-! ## Reviewed workflows -/

section

variable {o : ReviewOptions} {data : Value} {w : Workflow}

/-- Where nothing is ignored, what a review does not report is not found. -/
theorem code_ne_of_review {code : String} (hignore : o.ignore = [])
    (h : ∀ i ∈ review o data, i.finding.code ≠ code) :
    ∀ f ∈ Finding.inDocument data, f.code ≠ code := by
  intro f hf
  have hkept : f ∈ (Finding.inDocument data).filter (·.code ∉ o.ignore) :=
    List.mem_filter.mpr ⟨hf, by simp [hignore]⟩
  rw [review_eq] at h
  exact h ⟨o.severityOf f, f⟩ (List.mem_map_of_mem hkept)

/-- Without a collision no two jobs have the same id. -/
theorem nodup_ids_of_review (hw : Workflow.ofValue data = .ok w) (hignore : o.ignore = [])
    (h : ∀ i ∈ review o data, i.finding.code ≠ "W_JOB_ID_COLLISION") :
    (w.jobs.map fun j => idOf j.1).Nodup := by
  have hnames := Workflow.nodup_names hw
  obtain ⟨entries, -, hjobs, hfound⟩ := Workflow.exists_entries hw
  have hfree := code_ne_of_review hignore h
  rw [hfound] at hfree
  have hids := List.inj_on_of_nodup_map (Finding.nodup_ids_of_inJobs hfree).2
  rw [show (fun j : String × Job => idOf j.1) = idOf ∘ (·.1) from rfl, ← List.map_map]
  refine hnames.map_on fun n hn m hm heq => ?_
  obtain ⟨j, hj, rfl⟩ := List.mem_map.mp hn
  obtain ⟨k, hk, rfl⟩ := List.mem_map.mp hm
  obtain ⟨e, he, htext, -⟩ := Workflow.exists_entry_of_mem (hjobs ▸ hj)
  obtain ⟨e', he', htext', -⟩ := Workflow.exists_entry_of_mem (hjobs ▸ hk)
  rw [← htext, ← htext', hids he he' (by rw [htext, htext', heq])]

/-- Without an unknown need every job needs declared jobs only. -/
theorem declared_of_review (hw : Workflow.ofValue data = .ok w) (hignore : o.ignore = [])
    (h : ∀ i ∈ review o data, i.finding.code ≠ "W_NEEDS_UNKNOWN_JOB") :
    ∀ j ∈ w.jobs, ∀ dep ∈ j.2.needs, dep ∈ w.jobs.map (·.1) := by
  intro j hj dep hdep
  obtain ⟨entries, -, hjobs, hfound⟩ := Workflow.exists_entries hw
  have hfree := code_ne_of_review hignore h
  rw [hfound] at hfree
  obtain ⟨e, he, -, hjob⟩ := Workflow.exists_entry_of_mem (hjobs ▸ hj)
  have hknown : dep ∈ entries.map (·.1.text) := by
    by_contra hnew
    exact hfree _ (Finding.mem_inJobs he
      (Finding.unknownNeed_mem_inJob e.1.text (hjob ▸ hdep) hnew)) rfl
  obtain ⟨e', he', rfl⟩ := List.mem_map.mp hknown
  rw [hjobs]
  exact Workflow.declared_of_entry he'

end

end JobChart
