import JobChart.Review

/-!
# What a review finds

A review reports while it goes through the document, and each report hangs on
the options. What is found does not. Every piece of the review finds the same
under all options (`Finds`): it adds the reports of one list of findings to
those before it, and hands on one outcome, such as the ids seen so far. For a
piece put together this follows from its parts, so the lists below give the
findings of each check, and of a whole document (`review_eq`).

With that the options can be taken out of a review: to ignore is to filter what
the review without options has, and to escalate is to relabel it.
-/

namespace JobChart

open Chart

/-! ## Findings of each check -/

namespace Finding

def inGuard (site : GuardSite) (raw : Value) : List Finding :=
  match raw.guard? with
  | none => []
  | some text =>
    if !Guard.balanced text then [unbalanced site text]
    else if Guard.lacksOperand text then [emptyOperand site text]
    else []

def inStep (job : String) (index : Nat) (step : Value) : List Finding :=
  match step with
  | .map _ => inGuard (.step job index) (step.field "if")
  | _ => [stepNotMapping job index]

/-- Findings about the steps of a job, the first with this index. -/
def inSteps (job : String) : (index : Nat) → List Value → List Finding
  | _, [] => []
  | i, s :: steps => inStep job i s ++ inSteps job (i + 1) steps

/-- Findings about a job, apart from its id. -/
def inJob (names : List String) (job : String) (raw : Value) : List Finding :=
  match raw with
  | .map _ =>
    (((raw.field "needs").texts.filter (· ∉ names)).map (unknownNeed job))
      ++ inGuard (.job job) (raw.field "if")
      ++ (let steps := raw.field "steps"
        match steps with
        | .list _ => inSteps job 0 steps.items
        | v => if v.isTruthy then [stepsNotList job] else [])
  | _ => [jobNotMapping job]

/-- Findings about the jobs; `seen` holds the ids so far, each with the job
that had it first. -/
def inJobs (names : List String) : (seen : List (String × String)) →
    List (Value × Value) → List Finding
  | _, [] => []
  | seen, (key, raw) :: jobs =>
    let job := key.text
    let id := idOf job
    match seen.lookup id with
    | some first => idCollision first job id :: inJob names job raw ++ inJobs names seen jobs
    | none => inJob names job raw ++ inJobs names ((id, job) :: seen) jobs

def inDocument (data : Value) : List Finding :=
  match data with
  | .map _ =>
    match Workflow.jobEntries? data with
    | some jobs => inJobs (jobs.map (·.1.text)) [] jobs
    | none => [jobsMissing]
  | _ => [notMapping]

end Finding

/-! ## Reports -/

/-- What these options report of a list of findings. -/
def ReviewOptions.reported (o : ReviewOptions) (fs : List Finding) : List Issue :=
  (fs.filter (·.code ∉ o.ignore)).map fun f => ⟨o.severityOf f, f⟩

theorem ReviewOptions.reported_append (o : ReviewOptions) (fs gs : List Finding) :
    o.reported (fs ++ gs) = o.reported fs ++ o.reported gs := by
  rw [reported, List.filter_append, List.map_append]
  rfl

namespace Reviewing

/-- Under all options, and whatever was reported before, the work comes to this
outcome and finds these findings. -/
def Finds {α : Type} (work : Reviewing α) (outcome : α) (fs : List Finding) : Prop :=
  ∀ (o : ReviewOptions) (before : List Issue),
    (work.run o).run before = (outcome, before ++ o.reported fs)

section

variable {α β : Type} {a : α} {b : β} {fs gs : List Finding}

theorem finds_pure (a : α) : Finds (pure a) a [] := by
  intro o before
  exact congrArg (Prod.mk a) (List.append_nil before).symm

theorem run_report (f : Finding) (o : ReviewOptions) (before : List Issue) :
    ((report f).run o).run before
      = ((), if f.code ∈ o.ignore then before else before ++ [⟨o.severityOf f, f⟩]) := by
  show (ite (f.code ∈ o.ignore) (pure ()) (modify _) : Reviewing Unit) o before = _
  split <;> rfl

theorem finds_report (f : Finding) : Finds (report f) () [f] := by
  intro o before
  rw [run_report]
  split
  · next hignored => simp [ReviewOptions.reported, hignored]
  · next hkept => simp [ReviewOptions.reported, hkept]

theorem finds_if (p : Bool) (f : Finding) :
    Finds (if p then report f else pure ()) () (if p then [f] else []) := by
  cases p with
  | false => exact finds_pure ()
  | true => exact finds_report f

theorem Finds.bind {work : Reviewing α} {next : α → Reviewing β} (h : Finds work a fs)
    (hnext : Finds (next a) b gs) : Finds (work >>= next) b (fs ++ gs) := by
  intro o before
  have hwork := h o before
  have hrest := hnext o (before ++ o.reported fs)
  rw [ReaderT.run_bind, StateT.run_bind, hwork, o.reported_append, ← List.append_assoc]
  exact hrest

end

theorem finds_checkGuard (site : GuardSite) (raw : Value) :
    Finds (checkGuard site raw) () (Finding.inGuard site raw) := by
  rw [checkGuard, Finding.inGuard]
  cases raw.guard? with
  | none => exact finds_pure ()
  | some text =>
      dsimp only
      split
      · exact finds_report _
      · split
        · exact finds_report _
        · exact finds_pure ()

theorem finds_checkStep (job : String) (i : Nat) (step : Value) :
    Finds (checkStep job i step) () (Finding.inStep job i step) := by
  cases step with
  | map es => exact finds_checkGuard _ _
  | _ => exact finds_report _

theorem finds_checkSteps (job : String) : ∀ (i : Nat) (steps : List Value),
    Finds (checkSteps job i steps) () (Finding.inSteps job i steps)
  | _, [] => finds_pure ()
  | i, s :: steps => (finds_checkStep job i s).bind (finds_checkSteps job (i + 1) steps)

theorem finds_checkNeeds (names : List String) (job : String) : ∀ deps : List String,
    Finds (checkNeeds names job deps) ()
      ((deps.filter (· ∉ names)).map (Finding.unknownNeed job))
  | [] => finds_pure ()
  | dep :: deps => by
      have hrest := finds_checkNeeds names job deps
      rw [checkNeeds]
      split
      · next hnew =>
        rw [List.filter_cons_of_pos (by simpa using hnew)]
        exact (finds_report _).bind hrest
      · next hknown =>
        rw [List.filter_cons_of_neg (by simpa using hknown)]
        exact hrest

theorem finds_checkJob (names : List String) (job : String) (raw : Value) :
    Finds (checkJob names job raw) () (Finding.inJob names job raw) := by
  cases raw with
  | map es =>
      rw [checkJob, Finding.inJob, List.append_assoc]
      refine (finds_checkNeeds names job _).bind ((finds_checkGuard _ _).bind ?_)
      dsimp only
      cases (Value.map es).field "steps" with
      | list steps => exact finds_checkSteps job 0 _
      | _ => exact finds_if _ _
  | _ => exact finds_report _

theorem finds_checkId_seen {seen : List (String × String)} {job first : String}
    (h : seen.lookup (idOf job) = some first) :
    Finds (checkId seen job) seen [.idCollision first job (idOf job)] := by
  rw [checkId, h]
  exact (finds_report _).bind (finds_pure seen)

theorem finds_checkId_new {seen : List (String × String)} {job : String}
    (h : seen.lookup (idOf job) = none) :
    Finds (checkId seen job) ((idOf job, job) :: seen) [] := by
  rw [checkId, h]
  exact finds_pure _

theorem finds_checkJobs (names : List String) : ∀ (seen : List (String × String))
    (jobs : List (Value × Value)),
    Finds (checkJobs names seen jobs) () (Finding.inJobs names seen jobs)
  | _, [] => finds_pure ()
  | seen, (key, raw) :: jobs => by
      have hjob := finds_checkJob names key.text raw
      rw [checkJobs, Finding.inJobs]
      cases hseen : seen.lookup (idOf key.text) with
      | some first =>
          exact (finds_checkId_seen hseen).bind (hjob.bind (finds_checkJobs names seen jobs))
      | none => exact (finds_checkId_new hseen).bind (hjob.bind (finds_checkJobs names _ jobs))

theorem finds_checkDocument (data : Value) :
    Finds (checkDocument data) () (Finding.inDocument data) := by
  cases data with
  | map es =>
      rw [checkDocument, Finding.inDocument]
      cases Workflow.jobEntries? (.map es) with
      | none => exact finds_report _
      | some jobs => exact finds_checkJobs _ _ jobs
  | _ => exact finds_report _

end Reviewing

/-! ## Whole reviews -/

/-- A review reports what its options let through of the findings. -/
theorem review_eq (o : ReviewOptions) (data : Value) :
    review o data = o.reported (Finding.inDocument data) := by
  rw [review, Reviewing.finds_checkDocument data o []]
  rfl

/-- Without options every finding is reported as grave as it is. -/
theorem reported_default (fs : List Finding) :
    ReviewOptions.reported {} fs = fs.map fun f => ⟨f.severity, f⟩ := by
  rw [ReviewOptions.reported, List.filter_eq_self.mpr fun f _ => by simp]
  exact List.map_congr_left fun f _ => by simp [ReviewOptions.severityOf]

/-- The issue, as an error if it is a warning of one of these codes. -/
def Issue.escalated (codes : List String) (i : Issue) : Issue :=
  if i.severity = .warning ∧ i.finding.code ∈ codes then { i with severity := .error } else i

theorem escalated_default (o : ReviewOptions) (f : Finding) :
    Issue.escalated o.escalate ⟨f.severity, f⟩ = ⟨o.severityOf f, f⟩ := by
  rw [Issue.escalated, ReviewOptions.severityOf]
  by_cases hcode : f.code ∈ o.escalate
  · cases hsev : f.severity <;> simp [hcode]
  · simp [hcode]

/-- **The options filter and relabel, and nothing more.** Whatever the document,
a review under some options has the issues of the review without options, in
the same order, but those of the codes to ignore, and of the warnings left those
of the codes to escalate as errors. -/
theorem options_filter_and_relabel (o : ReviewOptions) (data : Value) :
    review o data = ((review {} data).filter fun i => i.finding.code ∉ o.ignore).map
      (Issue.escalated o.escalate) := by
  rw [review_eq, review_eq, reported_default, List.filter_map, List.map_map,
    ReviewOptions.reported]
  exact List.map_congr_left fun f _ => (escalated_default o f).symm

end JobChart
