import JobChart.Proofs.Cli.Files
import JobChart.Proofs.Cli.Reported

/-!
# What a run leaves behind

A report has one of few rows of deeds, and each row comes to a world and an end
that can be written down. A complaint always goes through. A text that cannot be
encoded is not printed at all. One that was to be saved leaves its file empty.
-/

namespace JobChart.Cli

variable {host : Host} {words words' : List String} {files : FileTree} {stdin : List UInt8}
  {code : Nat} {err text : String} {p : Path}

theorem run_of_crash {e : Crash} (h : planned host words files stdin = .error e) :
    run host words files stdin = ⟨{ files }, .error e⟩ := by
  rw [run, h]

theorem run_of_report {r : Report} (h : planned host words files stdin = .ok r) :
    run host words files stdin =
      ⟨(host.perform { files } r.deeds).1,
        (host.perform { files } r.deeds).2.elim (.ok r.code) .error⟩ := by
  rw [run, h]

theorem run_congr (h : planned host words files stdin = planned host words' files stdin) :
    run host words files stdin = run host words' files stdin := by
  rw [run, run, h]

/-- A run that ends with an exit code has the one it was planned with. -/
theorem code_eq_of_ending {r : Report} {code : Nat} (h : planned host words files stdin = .ok r)
    (hending : (run host words files stdin).ending = .ok code) : r.code = code := by
  rw [run_of_report h] at hending
  dsimp only at hending
  cases hfailure : (host.perform { files } r.deeds).2 with
  | none => rw [hfailure] at hending; exact Except.ok.inj hending
  | some e => rw [hfailure] at hending; cases hending

theorem run_of_complaint
    (h : planned host words files stdin = .ok { code, deeds := [.complain err] }) :
    run host words files stdin = ⟨{ err, files }, .ok code⟩ := by
  rw [run_of_report h]
  simp only [Host.perform, Host.act, String.empty_append]
  rfl

theorem run_of_printed
    (h : planned host words files stdin = .ok { code, deeds := [.complain err, .print text] })
    (hfault : host.printFault? text = none) :
    run host words files stdin = ⟨{ out := text, err, files }, .ok code⟩ := by
  rw [run_of_report h]
  simp only [Host.perform, Host.act, hfault, String.empty_append]
  rfl

theorem run_of_unprinted {f : Fault}
    (h : planned host words files stdin = .ok { code, deeds := [.complain err, .print text] })
    (hfault : host.printFault? text = some f) :
    run host words files stdin = ⟨{ err, files }, .error (.fault f)⟩ := by
  rw [run_of_report h]
  simp only [Host.perform, Host.act, hfault, String.empty_append]
  rfl

/-- The world after a save, if the file can be opened. -/
theorem run_of_opened
    (h : planned host words files stdin = .ok { code, deeds := [.complain err, .save p text] })
    (hopen : (files.write p (host.bytesOf text)).2 = none) :
    run host words files stdin =
      ⟨{ err, files := (files.write p (host.bytesOf text)).1 },
        (host.saveFault? text).elim (.ok code) fun f => .error (.fault f)⟩ := by
  rw [run_of_report h]
  simp only [Host.perform, Host.act, String.empty_append]
  obtain ⟨written, hwritten⟩ : ∃ written, files.write p (host.bytesOf text) = (written, none) :=
    ⟨_, Prod.ext rfl hopen⟩
  cases hfault : host.saveFault? text with
  | none => simp only [hwritten, Option.map_none]; rfl
  | some f => simp only [hwritten, Option.map_some]; rfl

/-- A text with bytes is saved where a file can be opened. -/
theorem run_of_saved
    (h : planned host words files stdin = .ok { code, deeds := [.complain err, .save p text] })
    (hwritable : files.Writable p) (hfault : host.saveFault? text = none) :
    ∃ after, run host words files stdin = ⟨{ err, files := after }, .ok code⟩
      ∧ files.Stored after p text.toUTF8.toList := by
  have hbytes : host.bytesOf text = text.toUTF8.toList := by rw [Host.bytesOf, hfault]; rfl
  obtain ⟨hopen, hstored⟩ := files.write_of_writable hwritable (host.bytesOf text)
  have hrun := run_of_opened h hopen
  rw [hfault] at hrun
  exact ⟨_, hrun, hbytes ▸ hstored⟩

/-- A text without bytes leaves a file empty that can be opened. -/
theorem run_of_unencoded {f : Fault}
    (h : planned host words files stdin = .ok { code, deeds := [.complain err, .save p text] })
    (hwritable : files.Writable p) (hfault : host.saveFault? text = some f) :
    ∃ after, run host words files stdin = ⟨{ err, files := after }, .error (.fault f)⟩
      ∧ files.Stored after p [] := by
  have hbytes : host.bytesOf text = [] := by rw [Host.bytesOf, hfault]; rfl
  obtain ⟨hopen, hstored⟩ := files.write_of_writable hwritable (host.bytesOf text)
  have hrun := run_of_opened h hopen
  rw [hfault] at hrun
  exact ⟨_, hrun, hbytes ▸ hstored⟩

theorem run_of_unopened {e : WriteError}
    (h : planned host words files stdin = .ok { code, deeds := [.complain err, .save p text] })
    (hopen : (files.write p (host.bytesOf text)).2 = some e) :
    run host words files stdin =
      ⟨{ err, files := (files.write p (host.bytesOf text)).1 }, .error (.write e)⟩ := by
  rw [run_of_report h]
  simp only [Host.perform, Host.act, String.empty_append]
  obtain ⟨written, hwritten⟩ : ∃ written, files.write p (host.bytesOf text) = (written, some e) :=
    ⟨_, Prod.ext rfl hopen⟩
  simp only [hwritten]
  rfl

end JobChart.Cli
