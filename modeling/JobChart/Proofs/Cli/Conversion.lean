import JobChart.Cli.Standard
import JobChart.Proofs.Cli.Performed
import JobChart.Proofs.Cli.Words

/-!
# A plain run is the conversion

The run on one file, with no options, is compared with the conversion of the
file's text, once its line ends are made one. Both read the document with the
reader of the process and draw it in the same way, and the review that the run
makes in between stops nothing: without options it has only warnings for a
document that has a chart (`not_fatal_of_drawn`). So the run prints the chart,
or it fails with what the conversion says (`Agrees`).

There are two ways for them to part. A fault of the reader makes the conversion
report an error of reading, as a problem of the text does; the run ends with
that fault instead, without a report of its own. And a chart that cannot be
encoded for the standard output is one that the conversion has and the run does
not print.
-/

namespace JobChart.Cli

open Text

/-! ## One word -/

/-- The options of a command line whose only word is no option. -/
theorem ofWords_plain {name : String} (h : classify name = .ok .plain) :
    Options.ofWords [name] = .ok { workflow := name } := by
  have hdashes : name ≠ "--" := by
    rintro rfl
    exact absurd h (by decide)
  have hcut : cutAtDashes [name] = ([name], none) := by
    rw [cutAtDashes, if_neg hdashes, cutAtDashes]
  have hall : classifyAll [name] = .ok [(name, .plain)] :=
    classifyAll_eq_ok_iff.mpr ⟨rfl, List.forall_mem_singleton.mpr h⟩
  exact ofWords_of_classified hcut hall

/-! ## Runs -/

/-- A run leaves the files alone, and it prints the chart that the conversion
has, or it fails with what the conversion says. -/
def Agrees (files : FileTree) (done : Outcome) (drawn : Except DrawError String) : Prop :=
  done.world.files = files ∧
    match drawn with
    | .ok code => done.ending = .ok 0 ∧ done.world.out = code ++ "\n"
    | .error e =>
      done.ending = .ok 1 ∧ done.world.out = ""
        ∧ done.world.err = "error: " ++ e.report ++ "\n"

section

variable {host : Host} {words : List String} {files : FileTree} {stdin : List UInt8}
  {o : Options} {data : Value}

theorem agrees_of_failed {e : DrawError}
    (h : planned host words files stdin = .ok (failed e.report)) :
    Agrees files (run host words files stdin) (.error e) := by
  rw [run_of_complaint h]
  exact ⟨rfl, rfl, rfl, rfl⟩

theorem planned_of_drawn {code : String} (ho : o = { workflow := o.workflow })
    (h : planned host words files stdin = reportOn o data)
    (hdraw : draw o.direction data = .ok code) :
    ∃ warnings, planned host words files stdin
      = .ok { deeds := [.complain warnings, .print (code ++ "\n")] } := by
  have hstrict : o.strict = false := ho ▸ rfl
  have hescalate : o.escalate = "" := ho ▸ rfl
  have hprint (title : String) : delivery o title code = .print (code ++ "\n") := ho ▸ rfl
  rw [h, reportOn_of_sound hdraw (not_fatal_of_drawn hdraw hstrict hescalate), hprint]
  exact ⟨_, rfl⟩

theorem agrees_of_data (ho : o = { workflow := o.workflow })
    (h : planned host words files stdin = reportOn o data) :
    Agrees files (run host words files stdin) (draw o.direction data)
      ↔ ∀ code, draw o.direction data = .ok code → host.printFault? (code ++ "\n") = none := by
  cases hdraw : draw o.direction data with
  | error e =>
      rw [reportOn_of_undrawn hdraw] at h
      exact iff_of_true (agrees_of_failed h) nofun
  | ok code =>
      obtain ⟨warnings, hplanned⟩ := planned_of_drawn ho h hdraw
      cases hfault : host.printFault? (code ++ "\n") with
      | none =>
          rw [run_of_printed hplanned hfault]
          exact iff_of_true ⟨rfl, rfl, rfl⟩ fun code' hcode' => by
            cases hcode'
            exact hfault
      | some f =>
          rw [run_of_unprinted hplanned hfault]
          refine iff_of_false (fun hagrees => ?_) fun hprints => ?_
          · cases hagrees.2.1
          · cases hfault.symm.trans (hprints code rfl)

end

/-- **A plain run is the conversion.** On a file of any text, the run agrees with
the conversion of the text just in case the reader has no fault and the standard
output has bytes for the chart, if there is one. A fault of the reader ends the
run and is reported by the conversion. A chart that cannot be encoded ends the
run as well. Either way nothing is printed. -/
theorem run_agrees_iff (host : Host) {files : FileTree} (stdin : List UInt8) {name text : String}
    (hplain : classify name = .ok .plain) (hname : name ≠ stdinName)
    (hfile : files.read? (Path.ofText name) = some text.toUTF8.toList) :
    let done := run host [name] files stdin
    let drawn := drawText host.load .standard (sourceText text)
    (Agrees files done drawn ↔
        (∀ f, host.load (sourceText text) ≠ .error (.fault f))
          ∧ ∀ code, drawn = .ok code → host.printFault? (code ++ "\n") = none)
      ∧ (∀ f, host.load (sourceText text) = .error (.fault f) →
        done = ⟨{ files }, .error (.fault f)⟩ ∧ drawn = .error (.text (.fault f)))
      ∧ ∀ code f, drawn = .ok code → host.printFault? (code ++ "\n") = some f →
        done.ending = .error (.fault f) ∧ done.world.out = "" ∧ done.world.files = files := by
  intro done drawn
  let o : Options := { workflow := name }
  have hplanned : planned host [name] files stdin = report host.load o (.ok (sourceText text)) := by
    rw [planned_of_options (ofWords_plain hplain), read_of_file hname hfile]
  cases hload : host.load (sourceText text) with
  | ok data =>
      have hdrawn : drawn = draw o.direction data := by simp only [drawn, drawText, hload, o]
      rw [report_of_loaded hload] at hplanned
      rw [hdrawn]
      refine ⟨(agrees_of_data rfl hplanned).trans (and_iff_right nofun).symm, nofun, ?_⟩
      intro code f hcode hfault
      obtain ⟨warnings, hprints⟩ := planned_of_drawn rfl hplanned hcode
      have hdone : done = ⟨{ err := warnings, files }, .error (.fault f)⟩ :=
        run_of_unprinted hprints hfault
      rw [hdone]
      exact ⟨rfl, rfl, rfl⟩
  | error e =>
      have hdrawn : drawn = .error (.text e) := by simp only [drawn, drawText, hload]
      rw [hdrawn]
      cases e with
      | problem m =>
          rw [report_of_problem hload] at hplanned
          exact ⟨iff_of_true (agrees_of_failed hplanned) ⟨nofun, nofun⟩, nofun, nofun⟩
      | fault f =>
          have hdone : done = ⟨{ files }, .error (.fault f)⟩ :=
            run_of_crash (hplanned.trans (report_of_fault hload))
          refine ⟨iff_of_false (fun hagrees => ?_) fun h => h.1 f rfl, ?_, nofun⟩
          · rw [hdone] at hagrees
            cases hagrees.2.1
          · intro f' hf'
            cases hf'
            exact ⟨hdone, rfl⟩

/-- The run and the conversion agree on a file with a workflow. -/
theorem plain_run_of_workflow :
    let text := "jobs:\n a:\n  name: b\n"
    let files : FileTree := { files := [(["srv", "a.yml"], text.toUTF8.toList)] }
    Agrees files (run .passing ["/srv/a.yml"] files [])
      (drawText Yaml.loader .standard (sourceText text)) := by
  intro text files
  have hloads : (Yaml.loader (sourceText text)).toOption.isSome = true := by decide +kernel
  have hplain : classify "/srv/a.yml" = .ok .plain := rfl
  have hfile : files.read? (Path.ofText "/srv/a.yml") = some text.toUTF8.toList := rfl
  have hload : Host.passing.load = Yaml.loader := rfl
  have hiff := (run_agrees_iff .passing [] hplain (by decide) hfile).1
  rw [hload] at hiff
  refine hiff.mpr ⟨fun f hf => ?_, fun code _ => rfl⟩
  rw [hf] at hloads
  cases hloads

/-- A date with a thirteenth month: the conversion reports it, the run ends
without a report. -/
theorem bad_month_ends_run :
    let text := "a: 2001-13-01\n"
    let files : FileTree := { files := [(["a.yml"], text.toUTF8.toList)] }
    let drawn := drawText Yaml.loader .standard (sourceText text)
    let badMonth : Fault := ⟨"ValueError", "month must be in 1..12"⟩
    (run .standard ["a.yml"] files []).ending = .error (.fault badMonth)
      ∧ drawn = .error (.text (.fault badMonth))
      ∧ (DrawError.text (.fault badMonth)).report = "Parse error: month must be in 1..12"
      ∧ ¬Agrees files (run .standard ["a.yml"] files []) drawn := by
  intro text files drawn badMonth
  have hread : (Yaml.loader (sourceText text)).map (fun _ => ()) = .error (.fault badMonth) := by
    decide +kernel
  have hload : Yaml.loader (sourceText text) = .error (.fault badMonth) := by
    cases hloaded : Yaml.loader (sourceText text) with
    | ok data => rw [hloaded] at hread; cases hread
    | error e => rw [hloaded] at hread; cases hread; rfl
  have hhost : Host.standard.load = Yaml.loader := rfl
  have hplanned : planned .standard ["a.yml"] files [] = .error (.fault badMonth) := by
    have hplain : classify "a.yml" = .ok .plain := rfl
    have hfile : files.read? (Path.ofText "a.yml") = some text.toUTF8.toList := rfl
    rw [planned_of_options (ofWords_plain hplain), read_of_file (by decide) hfile, hhost]
    exact report_of_fault hload
  have hending := congrArg Outcome.ending (run_of_crash hplanned)
  have hdrawn : drawn = .error (.text (.fault badMonth)) := by simp only [drawn, drawText, hload]
  refine ⟨hending, hdrawn, rfl, fun hagrees => ?_⟩
  rw [hdrawn] at hagrees
  cases hending.symm.trans hagrees.2.1

end JobChart.Cli
