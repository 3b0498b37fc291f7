import JobChart.Proofs.Workflow.Reviewed

/-!
# Guards that a review looks at

A review checks the guards that stand in the document, a chart draws those of
the workflow read from it. Reading passes over a job or a step that is no
mapping and over steps that are no list, and a later entry takes the place of
an earlier one with the same name. None of this keeps a guard from its check:
what there is to find in a guard of the workflow (`onGuard`) is found in the
document, and at the place of that guard (`found_on_job`, `found_on_step`).
-/

namespace JobChart

/-- The guard is absent, or its parentheses pair up and none of its operators
lacks an operand. -/
def GuardPasses (guard : Option String) : Prop :=
  ∀ text, guard = some text → Guard.balanced text = true ∧ Guard.lacksOperand text = false

namespace Finding

/-! ## Guards as they are read -/

/-- Findings about a guard as it was read. -/
def onGuard (site : GuardSite) : Option String → List Finding
  | none => []
  | some text =>
    if !Guard.balanced text then [unbalanced site text]
    else if Guard.lacksOperand text then [emptyOperand site text]
    else []

theorem inGuard_eq (site : GuardSite) (raw : Value) :
    inGuard site raw = onGuard site raw.guard? := by
  rw [inGuard]
  cases raw.guard? <;> rfl

theorem guardPasses_of_onGuard {site : GuardSite} {guard : Option String}
    (hparens : ∀ f ∈ onGuard site guard, f.code ≠ "W_CONDITION_UNBALANCED_PARENS")
    (hoperand : ∀ f ∈ onGuard site guard, f.code ≠ "W_CONDITION_EMPTY_OPERAND") :
    GuardPasses guard := by
  rintro text rfl
  rw [onGuard] at hparens hoperand
  cases hbalanced : Guard.balanced text with
  | false => simp [hbalanced, code] at hparens
  | true =>
      refine ⟨rfl, ?_⟩
      cases hlacks : Guard.lacksOperand text with
      | false => rfl
      | true => simp [hbalanced, hlacks, code] at hoperand

/-! ## Jobs and steps -/

variable {names : List String} {job : String} {raw : Value} {s : Step} {i : Nat}

theorem onGuard_subset_inStep (job : String) (i : Nat) (raw : Value) :
    onGuard (.step job i) (Step.ofValue raw).guard ⊆ inStep job i raw := by
  cases raw with
  | map es =>
      rw [inStep, inGuard_eq]
      exact List.Subset.refl _
  | _ => exact List.nil_subset _

theorem inStep_subset_inSteps {v : Value} : ∀ {k i : Nat} {steps : List Value},
    steps[k]? = some v → inStep job (i + k) v ⊆ inSteps job i steps
  | _, _, [], h => by cases h
  | 0, i, v' :: steps, h => by
      obtain rfl := Option.some.inj h
      exact List.subset_append_left _ _
  | k + 1, i, v' :: steps, h => by
      have hrest : inStep job (i + 1 + k) v ⊆ inSteps job (i + 1) steps :=
        inStep_subset_inSteps (by simpa using h)
      rw [show i + (k + 1) = i + 1 + k by omega]
      exact List.subset_append_of_subset_right _ hrest

/-- A job's guard is checked as it is read. -/
theorem onGuard_job_subset_inJob (names : List String) (job : String) (raw : Value) :
    onGuard (.job job) (Job.ofValue raw).guard ⊆ inJob names job raw := by
  cases raw with
  | map es =>
      rw [inJob, inGuard_eq]
      exact List.subset_append_of_subset_left _ (List.subset_append_right _ _)
  | _ => exact List.nil_subset _

/-- A step is checked under the index that it is read under. -/
theorem onGuard_step_subset_inJob (names : List String) (job : String)
    (h : (Job.ofValue raw).steps[i]? = some s) :
    onGuard (.step job i) s.guard ⊆ inJob names job raw := by
  cases raw with
  | map es =>
      obtain ⟨v, hv, rfl⟩ := Option.map_eq_some_iff.mp (List.getElem?_map.symm.trans h)
      have hstep : inStep job (0 + i) v ⊆ inSteps job 0 ((Value.map es).field "steps").items :=
        inStep_subset_inSteps hv
      rw [Nat.zero_add] at hstep
      refine List.Subset.trans (onGuard_subset_inStep job i v) ?_
      rw [inJob]
      refine List.subset_append_of_subset_right _ ?_
      cases hsteps : (Value.map es).field "steps" with
      | list vs => rwa [hsteps] at hstep
      | _ => rw [hsteps] at hv; cases hv
  | _ => cases h

/-! ## Workflows -/

variable {data : Value} {w : Workflow} {j : String × Job}

/-- Every job is read from a value that is checked under the job's name. -/
theorem exists_inJob_subset (hw : Workflow.ofValue data = .ok w) (hj : j ∈ w.jobs) :
    ∃ names raw, Job.ofValue raw = j.2 ∧ inJob names j.1 raw ⊆ inDocument data := by
  obtain ⟨entries, -, hjobs, hfound⟩ := Workflow.exists_entries hw
  obtain ⟨e, he, htext, hread⟩ := Workflow.exists_entry_of_mem (hjobs ▸ hj)
  refine ⟨entries.map (·.1.text), e.2, hread, fun f hf => ?_⟩
  rw [hfound]
  exact mem_inJobs he (htext ▸ hf)

theorem found_on_job (hw : Workflow.ofValue data = .ok w) (hj : j ∈ w.jobs) :
    onGuard (.job j.1) j.2.guard ⊆ inDocument data := by
  obtain ⟨names, raw, hread, hsub⟩ := exists_inJob_subset hw hj
  rw [← hread]
  exact List.Subset.trans (onGuard_job_subset_inJob names j.1 raw) hsub

theorem found_on_step (hw : Workflow.ofValue data = .ok w) (hj : j ∈ w.jobs)
    (hs : j.2.steps[i]? = some s) : onGuard (.step j.1 i) s.guard ⊆ inDocument data := by
  obtain ⟨names, raw, hread, hsub⟩ := exists_inJob_subset hw hj
  rw [← hread] at hs
  exact List.Subset.trans (onGuard_step_subset_inJob names j.1 hs) hsub

end Finding

variable {o : ReviewOptions} {data : Value}

/-- **No guard that is drawn escapes its check.** Where a review of a document
with jobs ignores nothing and reports neither unpaired parentheses nor a missing
operand, the guards of all jobs of the workflow and of all their steps are absent
or pass both checks. -/
theorem drawn_guards_checked (hjobs : data.HasJobs) (hignore : o.ignore = [])
    (hparens : ∀ i ∈ review o data, i.finding.code ≠ "W_CONDITION_UNBALANCED_PARENS")
    (hoperand : ∀ i ∈ review o data, i.finding.code ≠ "W_CONDITION_EMPTY_OPERAND") :
    ∃ w, Workflow.ofValue data = .ok w ∧
      ∀ j ∈ w.jobs, GuardPasses j.2.guard ∧ ∀ s ∈ j.2.steps, GuardPasses s.guard := by
  obtain ⟨w, hw⟩ := Workflow.exists_of_hasJobs hjobs
  have hpass : ∀ {site guard}, Finding.onGuard site guard ⊆ Finding.inDocument data →
      GuardPasses guard := fun hsub =>
    Finding.guardPasses_of_onGuard (fun f hf => code_ne_of_review hignore hparens f (hsub hf))
      (fun f hf => code_ne_of_review hignore hoperand f (hsub hf))
  refine ⟨w, hw, fun j hj => ⟨hpass (Finding.found_on_job hw hj), fun s hs => ?_⟩⟩
  obtain ⟨i, hi⟩ := List.mem_iff_getElem?.mp hs
  exact hpass (Finding.found_on_step hw hj hi)

/-- Jobs and steps of all shapes: keys of one text, guards that are no texts, a
step and a job that are no mappings, steps that are no list. -/
def oddShapes : Value :=
  .map [(.str "jobs", .map [
    (.int 1, .map [(.str "if", .bool false), (.str "steps", .str "make")]),
    (.str "1", .map [(.str "if", .str "(a || b) && !c"), (.str "steps", .list [
      .str "make", .map [(.str "if", .str "contains(x, '(') || y")], .map [(.str "if", .int 3)]])]),
    (.str "b", .list [])])]

theorem drawn_guards_checked_oddShapes :
    (∀ i ∈ review {} oddShapes, i.finding.code ≠ "W_CONDITION_UNBALANCED_PARENS")
      ∧ (∀ i ∈ review {} oddShapes, i.finding.code ≠ "W_CONDITION_EMPTY_OPERAND")
      ∧ ∃ w, Workflow.ofValue oddShapes = .ok w
        ∧ w.jobs.map (fun j => (j.1, j.2.guard, j.2.steps.map (·.guard)))
          = [("1", some "(a || b) && !c", [none, some "contains(x, '(') || y", some "3"]),
            ("b", none, [])]
        ∧ ∀ j ∈ w.jobs, GuardPasses j.2.guard ∧ ∀ s ∈ j.2.steps, GuardPasses s.guard := by
  have hparens : ∀ i ∈ review {} oddShapes, i.finding.code ≠ "W_CONDITION_UNBALANCED_PARENS" := by
    decide +kernel
  have hoperand : ∀ i ∈ review {} oddShapes, i.finding.code ≠ "W_CONDITION_EMPTY_OPERAND" := by
    decide +kernel
  have hjobs : oddShapes.HasJobs := ⟨_, _, rfl⟩
  obtain ⟨w, hw, hpass⟩ := drawn_guards_checked (o := {}) hjobs rfl hparens hoperand
  refine ⟨hparens, hoperand, w, hw, ?_, hpass⟩
  obtain rfl := Except.ok.inj hw
  decide +kernel

end JobChart
