import Mathlib.Data.Finset.Card
import Mathlib.Data.Finset.Dedup
import JobChart.Diagram.Ident
import JobChart.Proofs.Workflow.Reviewed

/-!
# Counting the collisions of ids

A key of the document goes through two maps before it names a node: its text,
under which the jobs are kept, and the id of the text. Either may send two keys
to one place. Of the keys with one text only the last has its content kept, and
jobs with one id are drawn as one node.

The review looks at the ids only, and that is enough: keys of one text have one
id too. It reports every entry but the first of each id, however many share it
(`count_collisions_inJobs`). So a review with nothing to report says that every
entry is a job of its own.
-/

namespace JobChart

open Text Chart Diagram

/-! ## Counting -/

namespace Finding

variable {names : List String} {entries : List (Value × Value)}

theorem OfContent.code_ne {f : Finding} (h : f.OfContent) : f.code ≠ "W_JOB_ID_COLLISION" := by
  cases f <;> first | exact False.elim h | simp [code]

def collisions (fs : List Finding) : Nat := fs.countP (·.code = "W_JOB_ID_COLLISION")

@[simp] theorem collisions_append (fs gs : List Finding) :
    collisions (fs ++ gs) = collisions fs + collisions gs :=
  List.countP_append

@[simp] theorem collisions_inJob (names : List String) (job : String) (raw : Value) :
    collisions (inJob names job raw) = 0 :=
  List.countP_eq_zero.mpr fun _ hf => by simpa using (ofContent_of_inJob hf).code_ne

theorem collisions_cons_idCollision (first job id : String) (fs : List Finding) :
    collisions (idCollision first job id :: fs) = collisions fs + 1 :=
  List.countP_cons_of_pos rfl

/-- An entry is reported or brings a new id, and never both. -/
theorem count_collisions_inJobs (names : List String) (seen : List (String × String))
    (entries : List (Value × Value)) :
    collisions (inJobs names seen entries)
        + ((seen.map (·.1)).toFinset ∪ (entries.map fun e => idOf e.1.text).toFinset).card
      = entries.length + (seen.map (·.1)).toFinset.card := by
  induction entries generalizing seen with
  | nil => simp [inJobs, collisions]
  | cons e entries ih =>
      obtain ⟨key, raw⟩ := e
      rw [inJobs, List.map_cons, List.toFinset_cons, Finset.union_insert, List.length_cons]
      cases hseen : seen.lookup (idOf key.text) with
      | some first =>
          have hmem := List.mem_toFinset.mpr (Workflow.declared_of_lookup hseen)
          rw [Finset.insert_eq_of_mem (Finset.mem_union_left _ hmem)]
          have hrest := ih seen
          simp only [List.cons_append, collisions_cons_idCollision, collisions_append,
            collisions_inJob]
          omega
      | none =>
          have hnew := mt List.mem_toFinset.mp (Workflow.undeclared_of_lookup hseen)
          have hrest := ih ((idOf key.text, key.text) :: seen)
          simp only [List.map_cons, List.toFinset_cons, Finset.insert_union,
            Finset.card_insert_of_notMem hnew] at hrest
          simp only [collisions_append, collisions_inJob]
          omega

end Finding

/-! ## Jobs of their own -/

namespace Workflow

variable {name : String} {job : Job} {js : List (String × Job)} {entries : List (Value × Value)}

/-- A job of a new name goes behind the others. -/
theorem putJob_of_new (h : name ∉ js.map (·.1)) : putJob name job js = js ++ [(name, job)] := by
  induction js with
  | nil => rfl
  | cons j js ih =>
      rw [List.map_cons, List.mem_cons, not_or] at h
      rw [putJob, if_neg (Ne.symm h.1), ih h.2, List.cons_append]

/-- Where no two keys have one text, every entry is a job, in the same order. -/
theorem jobsOf_of_nodup (h : (entries.map (·.1.text)).Nodup) :
    jobsOf entries = entries.map fun e => (e.1.text, Job.ofValue e.2) := by
  have hfold : ∀ (es : List (Value × Value)) (js : List (String × Job)),
      (js.map (·.1) ++ es.map (·.1.text)).Nodup →
        es.foldl (fun js e => putJob e.1.text (Job.ofValue e.2) js) js
          = js ++ es.map fun e => (e.1.text, Job.ofValue e.2) := by
    intro es
    induction es with
    | nil => exact fun js _ => (List.append_nil js).symm
    | cons e es ih =>
        intro js hnodup
        rw [List.map_cons, List.append_cons] at hnodup
        have hnew : e.1.text ∉ js.map (·.1) := by
          have hfront := (List.nodup_append.mp hnodup).1
          rw [List.nodup_append] at hfront
          exact fun hmem => hfront.2.2 _ hmem _ (List.mem_singleton_self _) rfl
        rw [List.foldl_cons, putJob_of_new hnew, ih _ (by simpa using hnodup), List.append_assoc]
        rfl
  exact hfold entries [] h

end Workflow

/-! ## Reviewed documents -/

variable {o : ReviewOptions} {data : Value}

theorem countP_review (hignore : o.ignore = []) :
    (review o data).countP (·.finding.code = "W_JOB_ID_COLLISION")
      = Finding.collisions (Finding.inDocument data) := by
  rw [review_eq, ReviewOptions.reported, hignore, List.countP_map,
    List.filter_eq_self.mpr fun f _ => by simp]
  rfl

/-- **Collisions are counted, and without one no job is lost.** Where nothing is
ignored, a review of a document with jobs reports as many collisions as there
are entries beyond the first of each id. Where it reports none, the workflow
has a job for every entry, in the same order and with its own content, and the
ids of their nodes are distinct. -/
theorem collisions_counted (hjobs : data.HasJobs) (hignore : o.ignore = []) :
    ∃ entries w, Workflow.jobEntries? data = some entries ∧ Workflow.ofValue data = .ok w
      ∧ (review o data).countP (·.finding.code = "W_JOB_ID_COLLISION")
          + (entries.map fun e => idOf e.1.text).toFinset.card = entries.length
      ∧ ((∀ i ∈ review o data, i.finding.code ≠ "W_JOB_ID_COLLISION") →
        w.jobs = entries.map (fun e => (e.1.text, Job.ofValue e.2))
          ∧ (w.jobs.map fun j => jobId j.1).Nodup) := by
  obtain ⟨w, hw⟩ := Workflow.exists_of_hasJobs hjobs
  obtain ⟨entries, hentries, hread, hfound⟩ := Workflow.exists_entries hw
  refine ⟨entries, w, hentries, hw, ?_, fun hnone => ⟨?_, ?_⟩⟩
  · have hcount := Finding.count_collisions_inJobs (entries.map (·.1.text)) [] entries
    rw [countP_review hignore, hfound]
    simpa using hcount
  · have hfree := code_ne_of_review hignore hnone
    rw [hfound] at hfree
    have hids := (Finding.nodup_ids_of_inJobs hfree).2
    rw [hread]
    refine Workflow.jobsOf_of_nodup (List.Nodup.of_map idOf ?_)
    rwa [List.map_map]
  · have hids := (nodup_ids_of_review hw hignore hnone).map fun _ _ h =>
      (String.append_right_inj "job_").mp h
    rwa [List.map_map] at hids

/-- Two keys of one text, and two texts of one id. -/
def lookAlikeKeys : Value :=
  .map [(.str "jobs", .map [(.int 1, .null), (.str "1", .map []), (.str "a-b", .null),
    (.str "a.b", .null)])]

/-- The document without the keys that are reported. -/
def distinctKeys : Value :=
  .map [(.str "jobs", .map [(.int 1, .null), (.str "a-b", .map [(.str "name", .str "A")])])]

/-- Of four entries two are reported, and where they are gone nothing is lost. -/
theorem collisions_counted_lookAlikes :
    (review {} lookAlikeKeys).countP (·.finding.code = "W_JOB_ID_COLLISION") = 2
      ∧ ∃ w, Workflow.ofValue distinctKeys = .ok w
        ∧ w.jobs = [("1", {}), ("a-b", { name := some "A" })]
        ∧ (w.jobs.map fun j => jobId j.1).Nodup := by
  constructor
  · have hjobs : lookAlikeKeys.HasJobs := ⟨_, _, rfl⟩
    obtain ⟨entries, w, hentries, -, hcount, -⟩ := collisions_counted (o := {}) hjobs rfl
    have hids : (entries.map fun e => idOf e.1.text) = ["1", "1", "a_b", "a_b"] := by
      obtain rfl := Option.some.inj hentries
      decide +kernel
    have hlength : entries.length = 4 := by simpa using congrArg List.length hids
    rw [hids, hlength] at hcount
    exact Nat.add_right_cancel hcount
  · have hjobs : distinctKeys.HasJobs := ⟨_, _, rfl⟩
    obtain ⟨entries, w, hentries, hw, -, hkept⟩ := collisions_counted (o := {}) hjobs rfl
    obtain rfl := Option.some.inj hentries
    obtain ⟨hjobs, hids⟩ := hkept (by decide +kernel)
    exact ⟨w, hw, hjobs, hids⟩

end JobChart
