import JobChart.Proofs.Diagram.Total
import JobChart.Review

/-!
# Documents that cannot be written out

Drawing takes the texts of more values than a review does: a review leaves out
names, actions, scripts, runners and triggers. So a document that is drawn can
be reviewed (`examine_of_drawn`), while a review may well succeed where drawing
meets an integer that cannot be written.
-/

namespace JobChart

open Chart

/-! ## What a review looks at -/

namespace Reviewing

theorem spelledInStep_subset (raw : Value) : spelledInStep raw ⊆ Step.spelled raw := by
  cases raw with
  | map es => simp [spelledInStep, Step.spelled]
  | _ => exact List.nil_subset _

theorem spelledInJob_subset (raw : Value) : spelledInJob raw ⊆ Job.spelled raw := by
  intro v hv
  cases raw with
  | map es =>
      simp only [spelledInJob, List.mem_append, List.mem_cons, List.mem_flatMap] at hv
      simp only [Job.spelled, List.mem_append, List.mem_cons, List.mem_flatMap]
      rcases hv with (hguard | hneeds) | ⟨s, hs, hstep⟩
      · exact Or.inl (Or.inl (Or.inr (Or.inr (Or.inl hguard))))
      · exact Or.inl (Or.inr hneeds)
      · exact Or.inr ⟨s, hs, spelledInStep_subset s hstep⟩
  | _ => cases hv

theorem spelled_subset (data : Value) : spelled data ⊆ Workflow.spelled data := by
  intro v hv
  obtain ⟨e, he, hv⟩ := List.mem_flatMap.mp hv
  refine List.mem_append_left _ (List.mem_flatMap.mpr ⟨e, he, ?_⟩)
  exact List.cons_subset_cons e.1 (spelledInJob_subset e.2) hv

end Reviewing

/-! ## Drawing and reviewing -/

variable {data : Value}

theorem examine_of_short {w : Workflow} (o : ReviewOptions) (h : w.isOverlong data = false) :
    examine o data = .ok (review o data) := by
  refine if_neg fun hlong => ?_
  obtain ⟨v, hv, hvlong⟩ := List.any_eq_true.mp hlong
  have hall := List.any_eq_false.mp h
  exact hall v (List.mem_append_left _ (Reviewing.spelled_subset data hv)) hvlong

theorem examine_of_drawn {d : Direction} {code : String} (o : ReviewOptions)
    (h : draw d data = .ok code) : examine o data = .ok (review o data) := by
  obtain ⟨w, -, hshort, -⟩ := exists_workflow_of_draw h
  exact examine_of_short o hshort

/-- Where a document can be reviewed, it is. -/
theorem examine_cases (o : ReviewOptions) (data : Value) :
    examine o data = .error .overlong ∨ examine o data = .ok (review o data) := by
  rw [examine]
  split
  · exact Or.inl rfl
  · exact Or.inr rfl

end JobChart
