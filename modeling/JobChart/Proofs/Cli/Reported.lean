import JobChart.Cli.Run
import JobChart.Proofs.Convert.Agreement
import JobChart.Proofs.Text.Utf8

/-!
# What a run plans

One equation for each way a run goes: how far the workflow was read, whether
it has a chart, whether its issues are fatal. A document that has a chart can be
reviewed, so the review itself never ends a run. Proofs about runs go through
these and leave `report` and `plan` closed.
-/

namespace JobChart.Cli

open Text

/-! ## One document -/

section

variable {o : Options} {data : Value} {code : String}

theorem reportOn_of_undrawn {e : DrawError} (h : draw o.direction data = .error e) :
    reportOn o data = .ok (failed e.report) := by
  rw [reportOn, h]

def issuesOn (o : Options) (data : Value) : List Issue :=
  review { escalate := codesOf o.escalate } data

theorem reportOn_of_drawn (h : draw o.direction data = .ok code) :
    reportOn o data =
      if isFatal o.strict (issuesOn o data) then
        .ok
          { code := 2
            deeds := [.complain
              (issueLines .warning (issuesOn o data) ++ issueLines .error (issuesOn o data))] }
      else
        .ok
          { deeds := [.complain (issueLines .warning (issuesOn o data)),
              delivery o (pageTitle data o.workflow) code] } := by
  rw [reportOn, h]
  simp only [examine_of_drawn _ h]
  rfl

theorem reportOn_of_fatal (h : draw o.direction data = .ok code)
    (hfatal : isFatal o.strict (issuesOn o data) = true) :
    ∃ err, reportOn o data = .ok { code := 2, deeds := [.complain err] } := by
  rw [reportOn_of_drawn h, if_pos hfatal]
  exact ⟨_, rfl⟩

theorem reportOn_of_sound (h : draw o.direction data = .ok code)
    (hfatal : isFatal o.strict (issuesOn o data) = false) :
    reportOn o data = .ok
      { deeds := [.complain (issueLines .warning (issuesOn o data)),
          delivery o (pageTitle data o.workflow) code] } := by
  rw [reportOn_of_drawn h, if_neg (Bool.eq_false_iff.mp hfatal)]

theorem isFatal_eq_false_iff {strict : Bool} {is : List Issue} :
    isFatal strict is = false ↔ ∀ i ∈ is, i.severity ≠ .error ∧ strict = false := by
  simp [isFatal, not_or]

/-- No codes are escalated by default. -/
theorem codesOf_standard : codesOf "" = [] := by decide

theorem hasJobs_of_drawn {d : Chart.Direction} (h : draw d data = .ok code) : data.HasJobs := by
  obtain ⟨w, hw, -, -⟩ := exists_workflow_of_draw h
  by_contra hjobs
  cases data with
  | map es =>
      rw [Workflow.ofValue, Workflow.jobEntries?_eq_none hjobs] at hw
      cases hw
  | _ => cases hw

/-- By default nothing that is found stops a run with a chart. -/
theorem not_fatal_of_drawn (h : draw o.direction data = .ok code) (hstrict : o.strict = false)
    (hescalate : o.escalate = "") : isFatal o.strict (issuesOn o data) = false := by
  have hwarnings := warning_of_jobs (hasJobs_of_drawn h)
  rw [issuesOn, hescalate, codesOf_standard]
  refine isFatal_eq_false_iff.mpr fun i hi => ⟨?_, hstrict⟩
  rw [hwarnings i hi]
  decide

end

/-! ## The text of a workflow -/

section

variable {load : Loader} {o : Options} {text : String}

theorem report_of_unread (load : Loader) (o : Options) (e : ReadError) :
    report load o (.error e) = .ok (failed e.message) :=
  rfl

theorem report_of_loaded {data : Value} (h : load text = .ok data) :
    report load o (.ok text) = reportOn o data := by
  rw [report]
  simp only [h]

/-- A fault of the reader ends the run. -/
theorem report_of_fault {f : Fault} (h : load text = .error (.fault f)) :
    report load o (.ok text) = .error (.fault f) := by
  rw [report]
  simp only [h]

theorem report_of_problem {m : String} (h : load text = .error (.problem m)) :
    report load o (.ok text) = .ok (failed (DrawError.text (.problem m)).report) := by
  rw [report]
  simp only [h]

/-- A text with a workflow in which nothing is found has a chart, and it is put out. -/
theorem report_of_no_findings {title : String}
    (h : ((load text).toOption.bind fun data => (Workflow.ofValue data).toOption.map fun w =>
      (w.isOverlong data, issuesOn o data, pageTitle data o.workflow)) = some (false, [], title)) :
    ∃ code, report load o (.ok text)
      = .ok { deeds := [.complain "", delivery o title code] } := by
  cases hload : load text with
  | error e => rw [hload] at h; cases h
  | ok data =>
      cases hw : Workflow.ofValue data with
      | error e => simp [hload, hw, Except.toOption] at h
      | ok w =>
          simp only [hload, hw, Except.toOption, Option.bind_some, Option.map_some,
            Option.some.injEq, Prod.mk.injEq] at h
          obtain ⟨hshort, hissues, htitle⟩ := h
          have hdraw := draw_of_workflow o.direction hw hshort
          refine ⟨Chart.textOf (Diagram.chart o.direction w), ?_⟩
          rw [report_of_loaded hload, reportOn_of_sound hdraw (hissues ▸ rfl), hissues, htitle]
          rfl

/-- How far a run gets with its workflow does not depend on the options. -/
theorem report_cases (load : Loader) (source : Except ReadError String) :
    (∃ message, ∀ o, report load o source = .ok (failed message))
      ∨ (∃ f, ∀ o, report load o source = .error (.fault f))
      ∨ ∃ data, ∀ o, report load o source = reportOn o data := by
  cases source with
  | error e => exact Or.inl ⟨_, fun o => report_of_unread load o e⟩
  | ok text =>
      cases hload : load text with
      | ok data => exact Or.inr (Or.inr ⟨data, fun o => report_of_loaded hload⟩)
      | error e =>
          cases e with
          | problem m => exact Or.inl ⟨_, fun o => report_of_problem hload⟩
          | fault f => exact Or.inr (Or.inl ⟨f, fun o => report_of_fault hload⟩)

end

/-! ## Command lines -/

section

variable {host : Host} {words : List String} {files : FileTree} {stdin : List UInt8}

theorem planned_of_stop {stop : Stop} (h : Options.ofWords words = .error stop) :
    planned host words files stdin = .ok (stopped stop) := by
  rw [planned, plan, h]
  rfl

theorem planned_of_options {o : Options} (h : Options.ofWords words = .ok o) :
    planned host words files stdin = report host.load o (host.read files stdin o.workflow) := by
  rw [planned, plan, h]
  rfl

theorem decodeFile_toUTF8 (text : String) : decodeFile text.toUTF8.toList = .ok text := by
  rw [decodeFile, decodeUtf8_toUTF8]
  rfl

theorem read_of_file {name text : String} (hname : name ≠ stdinName)
    (h : files.read? (Path.ofText name) = some text.toUTF8.toList) :
    host.read files stdin name = .ok (sourceText text) := by
  rw [Host.read, if_neg hname, h, fileSource, decodeFile_toUTF8]
  rfl

theorem read_of_stdin {text : String} (h : host.decodeInput stdin = .ok text) :
    host.read files stdin stdinName = .ok (sourceText text) := by
  rw [Host.read, if_pos rfl, h]
  rfl

/-- A workflow on the standard input in which nothing is found is put out. -/
theorem planned_of_no_findings {o : Options} {text title : String}
    (hwords : Options.ofWords words = .ok o) (hstdin : o.workflow = stdinName)
    (hinput : host.decodeInput stdin = .ok text)
    (h : ((host.load (sourceText text)).toOption.bind fun data =>
      (Workflow.ofValue data).toOption.map fun w =>
        (w.isOverlong data, issuesOn o data, pageTitle data o.workflow)) = some (false, [], title)) :
    ∃ code, planned host words files stdin
      = .ok { deeds := [.complain "", delivery o title code] } := by
  obtain ⟨code, hreport⟩ := report_of_no_findings h
  refine ⟨code, ?_⟩
  rw [planned_of_options hwords, hstdin, read_of_stdin hinput]
  exact hreport

end

/-! ## Shapes of reports -/

/-- What is reported: a complaint alone, the help, or some text that goes out in the
way the options say. -/
inductive Settled (words : List String) : Report → Prop
  | complaint {code : Nat} (text : String) (hcode : code ≠ 0) :
    Settled words { code := code, deeds := [.complain text] }
  | help (hwords : Options.ofWords words = .error .help) :
    Settled words { deeds := [.print helpText] }
  | delivered {o : Options} {data : Value} {code : String} (warnings : String)
    (hwords : Options.ofWords words = .ok o) (hdrawn : draw o.direction data = .ok code) :
    Settled words { deeds := [.complain warnings, delivery o (pageTitle data o.workflow) code] }

section

variable {words : List String} {r : Report}

theorem settled_reportOn {o : Options} {data : Value} (hwords : Options.ofWords words = .ok o)
    (h : reportOn o data = .ok r) : Settled words r := by
  cases hdraw : draw o.direction data with
  | error e =>
      rw [reportOn_of_undrawn hdraw] at h
      cases h
      exact .complaint _ Nat.one_ne_zero
  | ok code =>
      cases hfatal : isFatal o.strict (issuesOn o data) with
      | true =>
          obtain ⟨err, hreport⟩ := reportOn_of_fatal hdraw hfatal
          cases hreport.symm.trans h
          exact .complaint err (Nat.succ_ne_zero 1)
      | false =>
          rw [reportOn_of_sound hdraw hfatal] at h
          cases h
          exact .delivered _ hwords hdraw

theorem settled_planned {host : Host} {files : FileTree} {stdin : List UInt8}
    (h : planned host words files stdin = .ok r) : Settled words r := by
  cases hwords : Options.ofWords words with
  | error stop =>
      rw [planned_of_stop hwords] at h
      cases h
      cases stop with
      | help => exact .help hwords
      | refused e => exact .complaint _ (Nat.succ_ne_zero 1)
  | ok o =>
      rw [planned_of_options hwords] at h
      rcases report_cases host.load (host.read files stdin o.workflow) with
        ⟨message, hfailed⟩ | ⟨f, hfault⟩ | ⟨data, hdata⟩
      · cases (hfailed o).symm.trans h
        exact .complaint _ Nat.one_ne_zero
      · cases (hfault o).symm.trans h
      · exact settled_reportOn hwords ((hdata o).symm.trans h)

end

end JobChart.Cli
