import JobChart.Cli.Standard
import JobChart.Proofs.Cli.Performed
import JobChart.Proofs.Cli.Words

/-!
# Strictness only gates

The options on strictness decide whether a run that has a chart may end with
it. A run is compared here with the run on the same command line without
them (`withoutGates`) in the same process, first on a document, then on the text
of a workflow, then on files.

At each level the two plan the same, or the first is vetoed (`Gated`): it is to
end with exit code 2, and then the other one is not to fail with exit code 1.
That the two plan the same when nothing is vetoed rests on the review:
escalation makes errors of warnings, so where no issue is an error, none was
escalated (`review_escalate_eq`). What is planned decides the run.
-/

namespace JobChart.Cli

/-! ## Reviews -/

/-- Where no issue is an error, escalation changed nothing. -/
theorem review_escalate_eq {escalate : List String} {data : Value}
    (h : ∀ i ∈ review { escalate := escalate } data, i.severity ≠ .error) :
    review { escalate := escalate } data = review {} data := by
  rw [review_eq] at h
  rw [review_eq, review_eq]
  refine List.map_congr_left fun f hf => ?_
  have hsev := h _ (List.mem_map_of_mem hf)
  simp only [ReviewOptions.severityOf, List.not_mem_nil, if_false] at hsev ⊢
  split at hsev
  · exact absurd rfl hsev
  · next hcode => rw [if_neg hcode]

variable {o : Options} {data : Value}

theorem issuesOn_ungated (o : Options) (data : Value) :
    issuesOn o.ungated data = review {} data := by
  rw [issuesOn, Options.ungated, codesOf_standard]

theorem issuesOn_eq_of_not_fatal (h : isFatal o.strict (issuesOn o data) = false) :
    issuesOn o data = issuesOn o.ungated data := by
  rw [issuesOn_ungated]
  exact review_escalate_eq fun i hi => (isFatal_eq_false_iff.mp h i hi).1

/-- A run that is not fatal is not fatal without gates. -/
theorem not_fatal_ungated (h : isFatal o.strict (issuesOn o data) = false) :
    isFatal o.ungated.strict (issuesOn o.ungated data) = false := by
  rw [← issuesOn_eq_of_not_fatal h]
  exact isFatal_eq_false_iff.mpr fun i hi => ⟨(isFatal_eq_false_iff.mp h i hi).1, rfl⟩

/-! ## Plans -/

/-- Two plans are the same, or the first ends with exit code 2 and the second
does not end with exit code 1. -/
def Gated (planned ungated : Except Crash Report) : Prop :=
  planned = ungated
    ∨ (∃ r, planned = .ok r ∧ r.code = 2) ∧ ∃ r, ungated = .ok r ∧ r.code ≠ 1

theorem code_ne_one_of_drawn {code : String} (h : draw o.direction data = .ok code) :
    ∃ r, reportOn o data = .ok r ∧ r.code ≠ 1 := by
  cases hfatal : isFatal o.strict (issuesOn o data) with
  | true =>
      obtain ⟨err, hreport⟩ := reportOn_of_fatal h hfatal
      exact ⟨_, hreport, Nat.succ_succ_ne_one 0⟩
  | false => exact ⟨_, reportOn_of_sound h hfatal, Nat.zero_ne_one⟩

theorem gated_reportOn (o : Options) (data : Value) :
    Gated (reportOn o data) (reportOn o.ungated data) := by
  cases hdraw : draw o.direction data with
  | error e =>
      have hshort : draw o.ungated.direction data = .error e := hdraw
      exact Or.inl ((reportOn_of_undrawn hdraw).trans (reportOn_of_undrawn hshort).symm)
  | ok code =>
      have hshort : draw o.ungated.direction data = .ok code := hdraw
      cases hfatal : isFatal o.strict (issuesOn o data) with
      | true =>
          obtain ⟨err, hvetoed⟩ := reportOn_of_fatal hdraw hfatal
          exact Or.inr ⟨⟨_, hvetoed, rfl⟩, code_ne_one_of_drawn hshort⟩
      | false =>
          left
          rw [reportOn_of_sound hdraw hfatal, reportOn_of_sound hshort (not_fatal_ungated hfatal),
            issuesOn_eq_of_not_fatal hfatal]
          rfl

theorem gated_report (load : Loader) (o : Options) (source : Except ReadError String) :
    Gated (report load o source) (report load o.ungated source) := by
  rcases report_cases load source with ⟨message, hfailed⟩ | ⟨f, hfault⟩ | ⟨data, hdata⟩
  · exact Or.inl ((hfailed o).trans (hfailed o.ungated).symm)
  · exact Or.inl ((hfault o).trans (hfault o.ungated).symm)
  · rw [hdata, hdata]
    exact gated_reportOn o data

variable {host : Host} {words words' : List String} {files : FileTree} {stdin : List UInt8}

/-- A command line that is not refused plans the same without gates, or it is
vetoed and would not fail by itself. -/
theorem gated_planned (h : Unrefused (Options.ofWords words)) :
    Gated (planned host words files stdin) (planned host (withoutGates words) files stdin) := by
  have hshort := ofWords_withoutGates h
  cases hwords : Options.ofWords words with
  | error stop =>
      rw [hwords] at hshort
      exact Or.inl ((planned_of_stop hwords).trans (planned_of_stop hshort).symm)
  | ok o =>
      rw [hwords] at hshort
      rw [planned_of_options hwords, planned_of_options hshort]
      exact gated_report host.load o _

/-! ## Runs -/

theorem unrefused_of_ending (hending : (run host words files stdin).ending = .ok 0) :
    Unrefused (Options.ofWords words) := by
  intro e he
  exact absurd (code_eq_of_ending (planned_of_stop he) hending) (Nat.succ_ne_zero 1)

/-- **Strictness only gates.** Taking the options on strictness out of a
command line takes out words and resets those options, nothing else. A run
that ends well with them ends the same without them: the same exit code, both
outputs and all files. And where the run without them fails with exit code 1,
the one with them fails the same way, unless its command line is refused. -/
theorem strictness_only_gates (host : Host) (words : List String) (files : FileTree)
    (stdin : List UInt8) :
    ((withoutGates words).Sublist words
      ∧ ∀ o, Options.ofWords words = .ok o →
        Options.ofWords (withoutGates words) = .ok { o with strict := false, escalate := "" })
    ∧ ((run host words files stdin).ending = .ok 0 →
        run host (withoutGates words) files stdin = run host words files stdin)
    ∧ ((∀ e, Options.ofWords words ≠ .error (.refused e)) →
        (run host (withoutGates words) files stdin).ending = .ok 1 →
          run host words files stdin = run host (withoutGates words) files stdin) := by
  have hread : ∀ o, Options.ofWords words = .ok o →
      Options.ofWords (withoutGates words) = .ok o.ungated := by
    intro o ho
    rw [ofWords_withoutGates (ho ▸ unrefused_ok o), ho]
    rfl
  refine ⟨⟨withoutGates_sublist words, hread⟩, fun hending => ?_, fun hparsed hending => ?_⟩
  · rcases gated_planned (unrefused_of_ending hending) with heq | ⟨⟨r, hr, hcode⟩, -⟩
    · exact run_congr heq.symm
    · cases hcode.symm.trans (code_eq_of_ending hr hending)
  · rcases gated_planned hparsed with heq | ⟨-, r, hr, hcode⟩
    · exact run_congr heq
    · exact absurd (code_eq_of_ending hr hending) hcode

/-- A workflow whose only job has nothing to find fault with. -/
def plainText : String := "jobs:\n a:\n  name: b\n"

/-- A strict run on a workflow without findings ends well, and so does the
plain run; a file that is missing fails both. -/
theorem strict_run_ends_well :
    (∃ text, run .passing ["--strict", "--escalate", "W_STEPS_NOT_LIST", "-"] {}
        plainText.toUTF8.toList = ⟨{ out := text, files := {} }, .ok 0⟩
      ∧ run .passing ["-"] {} plainText.toUTF8.toList = ⟨{ out := text, files := {} }, .ok 0⟩)
    ∧ (∃ err, run .passing ["a.yml"] {} [] = ⟨{ err := err, files := {} }, .ok 1⟩
      ∧ run .passing ["--strict", "a.yml"] {} [] = ⟨{ err := err, files := {} }, .ok 1⟩)
    ∧ Options.ofWords ["-"] = .ok { workflow := "-" } := by
  let o : Options := { workflow := "-", strict := true, escalate := "W_STEPS_NOT_LIST" }
  let gates := strictness_only_gates .passing
  have hwords : Options.ofWords ["--strict", "--escalate", "W_STEPS_NOT_LIST", "-"] = .ok o := rfl
  have hmissing : Options.ofWords ["--strict", "a.yml"]
      = .ok { workflow := "a.yml", strict := true } := rfl
  refine ⟨?_, ?_, (gates _ {} []).1.2 _ hwords⟩
  · have hfound : ((Host.passing.load (sourceText plainText)).toOption.bind fun data =>
        (Workflow.ofValue data).toOption.map fun w =>
          (w.isOverlong data, issuesOn o data, pageTitle data o.workflow))
            = some (false, [], "Workflow") := by decide +kernel
    obtain ⟨code, hplanned⟩ :=
      planned_of_no_findings hwords rfl (decodeFile_toUTF8 plainText) hfound
    have hplanned : planned .passing ["--strict", "--escalate", "W_STEPS_NOT_LIST", "-"] {}
        plainText.toUTF8.toList = .ok { deeds := [.complain "", .print (code ++ "\n")] } := hplanned
    have hrun := run_of_printed hplanned rfl
    have hplain := (gates _ {} plainText.toUTF8.toList).2.1 (congrArg Outcome.ending hrun)
    exact ⟨_, hrun, hplain.trans hrun⟩
  · let missing : ReadError := .missing (Path.ofText "a.yml")
    have hplain : Options.ofWords ["a.yml"] = .ok { workflow := "a.yml" } := rfl
    have hplanned : planned .passing ["a.yml"] {} [] = .ok (failed missing.message) :=
      planned_of_options hplain
    have hrun := run_of_complaint hplanned
    have hstrict := (gates ["--strict", "a.yml"] {} []).2.2 (hmissing ▸ unrefused_ok _)
      (congrArg Outcome.ending hrun)
    exact ⟨_, hrun, hstrict.trans hrun⟩

end JobChart.Cli
