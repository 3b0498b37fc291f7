import JobChart.Cli.Standard
import JobChart.Proofs.Cli.Performed
import JobChart.Proofs.Cli.Words
import JobChart.Proofs.Text.Blank
import JobChart.Proofs.Text.Join
import JobChart.Proofs.Text.Surrogate

/-!
# One text for both outputs

A chart is printed as it is, with a line feed behind it. For a file its
trailing blanks are dropped first. Nothing is lost by that: whatever the
labels hold, the last line of a chart defines the class of the custom badges,
and this line is the same for all charts and ends in no blank
(`stripEnd_drawn`). So the two outputs hold one text (`delivery_of_drawn`).

To compare two runs, the option that names a file is put in front of a command
line. What is read then is what was read before, with a file to save to unless
one is named anyway (`ofWords_savingTo`).

A file is always written as UTF-8, and the standard output as the process is
set to. What is printed can be saved as long as UTF-8 has bytes for it; a text
with a surrogate may be printed and has none.
-/

namespace JobChart

open Text Chart Diagram

/-! ## The end of a chart -/

theorem chart_eq_concat (d : Direction) (w : Workflow) :
    ∃ ls, chart d w = ls ++ [Line.classDef (Badge.filledClass customStyle)] := by
  rw [chart, Badge.classes, List.map_append, ← List.append_assoc]
  exact ⟨_, rfl⟩

/-- A chart does not end in a blank. -/
theorem stripEnd_drawn {d : Direction} {data : Value} {code : String}
    (h : draw d data = .ok code) : stripEnd code = code := by
  obtain ⟨w, -, -, rfl⟩ := exists_workflow_of_draw h
  obtain ⟨ls, hls⟩ := chart_eq_concat d w
  let last := Line.classDef (Badge.filledClass customStyle)
  have hlast : last.text.toList.getLast? = some 'f' := by decide +kernel
  obtain ⟨front, hfront⟩ := exists_joinWith_concat "\n" last.text (ls.map Line.text)
  have htext : textOf (chart d w) = front ++ last.text := by
    rw [textOf, hls, List.map_append, ← hfront]
    rfl
  rw [stripEnd, trimEnd_of_last, String.ofList_toList]
  intro c hc
  rw [htext, String.toList_append, List.getLast?_append, hlast] at hc
  cases hc
  rfl

namespace Cli

/-! ## What is written -/

/-- What a chart comes to in a format, on either output. -/
def Format.text : Format → String → String → String
  | chart, _, code => Page.bare code
  | page, title, code => Page.titled title code

/-- A chart is put out in one text, printed or saved. -/
theorem delivery_of_drawn {o : Options} {data : Value} {code : String}
    (h : draw o.direction data = .ok code) (title : String) :
    delivery o title code =
      match o.out with
      | none => .print (o.format.text title code)
      | some p => .save (Path.ofText p) (o.format.text title code) := by
  rw [delivery]
  cases o.out <;> cases o.format
  · simp only [Format.text, Page.bare, stripEnd_drawn h]
  all_goals rfl

/-! ## Saving what is printed -/

/-- Options with a file to save to, unless they name one. -/
def Options.savingTo (p : String) (o : Options) : Options := { o with out := o.out.or (some p) }

/-- A draft with a file to save to, unless it names one. -/
def Draft.savingTo (p : String) (d : Draft) : Draft := { d with out := d.out.or (some p) }

theorem revision_savingTo (p : String) : Revision (Draft.savingTo p) (Options.savingTo p) :=
  ⟨fun _ => rfl, fun _ => rfl, fun _ _ => rfl, fun _ _ => rfl, fun _ _ => rfl⟩

/-! ## Command lines with a file in front -/

theorem classify_out (p : String) : classify ("--out=" ++ p) = .ok (.flag .out (some p)) := by
  have hchars : ("--out=" ++ p).toList = '-' :: '-' :: 'o' :: 'u' :: 't' :: '=' :: p.toList := by
    rw [String.toList_append]
    rfl
  have hcut : cutAtEquals ('-' :: '-' :: 'o' :: 'u' :: 't' :: '=' :: p.toList)
      = ("--out".toList, some p.toList) := rfl
  have hflag : Flag.spellings.lookup "--out" = some .out := rfl
  rw [classify, hchars]
  simp only [classifyDashed, hchars, hcut, hflag, Option.map_some, String.ofList_toList]
  rfl

section

variable {p : String} {ws : List (String × Word)}

theorem savingTo_takeValue (d : Draft) (f : Flag) (v : String) :
    (d.savingTo p).takeValue f v = (d.takeValue f v).map (Draft.savingTo p) := by
  cases f with
  | format =>
      rw [Draft.takeValue, Draft.takeValue]
      cases Format.ofName? v <;> rfl
  | direction =>
      rw [Draft.takeValue, Draft.takeValue]
      cases Direction.ofName? v <;> rfl
  | _ => rfl

theorem readWords_savingTo (d : Draft) (ws : List (String × Word)) :
    readWords (d.savingTo p) ws = (readWords d ws).map (Draft.savingTo p) := by
  fun_induction readWords d ws with
  | case1 d => rfl
  | case2 d w ws ih => rw [readWords, ← (revision_savingTo p).takeWord, ih]
  | case3 d w ws ih => exact ih
  | case4 d w letters ws => rfl
  | case5 d w f v ws ih =>
      rw [readWords, savingTo_takeValue]
      cases htaken : d.takeValue f v with
      | error e => rfl
      | ok taken => exact ih taken
  | case6 d w ws => rfl
  | case7 d w ws ih => exact ih
  | case8 d w f v ws hhelp hstrict ih =>
      rw [readWords_apart hhelp hstrict, savingTo_takeValue]
      cases htaken : d.takeValue f v with
      | error e => rfl
      | ok taken => exact ih taken
  | case9 d w f ws =>
      rw [readWords]
      · rfl
      all_goals assumption

/-- The words with the option that names a file in front. -/
def outFirst (p : String) (ws : List (String × Word)) : List (String × Word) :=
  ("--out=" ++ p, .flag .out (some p)) :: ws

theorem readWords_outFirst (ws : List (String × Word)) :
    readWords {} (outFirst p ws) = (readWords {} ws).map (Draft.savingTo p) :=
  readWords_savingTo {} ws

theorem endsWithWorkflow_outFirst (ws : List (String × Word)) :
    endsWithWorkflow (outFirst p ws) = endsWithWorkflow ws := by
  cases ws with
  | nil => rfl
  | cons w ws =>
      have hinit : (outFirst p (w :: ws)).dropLast = outFirst p (w :: ws).dropLast := rfl
      rw [endsWithWorkflow, endsWithWorkflow, hinit, readWords_outFirst, readWords_outFirst]
      cases readWords {} (w :: ws).dropLast with
      | error e => rfl
      | ok before => cases readWords {} (w :: ws) <;> rfl

theorem readLine_outFirst (ws : List (String × Word)) (rest : Option (List String)) :
    readLine (outFirst p ws) rest = (readLine ws rest).map (Options.savingTo p) :=
  (revision_savingTo p).readLine (readWords_outFirst ws) fun d r _ _ => by
    rw [endsWithWorkflow_outFirst]

end

/-- What a command line reads as with the option that names a file in front. -/
theorem ofWords_savingTo (p : String) (words : List String) :
    Options.ofWords (("--out=" ++ p) :: words)
      = (Options.ofWords words).map (Options.savingTo p) := by
  have hdashes : "--out=" ++ p ≠ "--" := by
    intro h
    have hkind := classify_out p
    rw [h] at hkind
    cases hkind
  obtain ⟨front, rest, hcut⟩ : ∃ front rest, cutAtDashes words = (front, rest) := ⟨_, _, rfl⟩
  have hcut' : cutAtDashes (("--out=" ++ p) :: words) = (("--out=" ++ p) :: front, rest) := by
    rw [cutAtDashes, if_neg hdashes, hcut]
  cases hall : classifyAll front with
  | error e =>
      have hall' : classifyAll (("--out=" ++ p) :: front) = .error e := by
        rw [classifyAll, classify_out, hall]
        rfl
      rw [Options.ofWords, Options.ofWords, hcut, hcut']
      simp only [hall, hall']
      rfl
  | ok ws =>
      have hall' : classifyAll (("--out=" ++ p) :: front) = .ok (outFirst p ws) := by
        rw [classifyAll, classify_out, hall]
        rfl
      rw [ofWords_of_classified hcut hall, ofWords_of_classified hcut' hall', readLine_outFirst]

/-! ## Two runs -/

variable {host : Host} {words : List String} {files : FileTree} {stdin : List UInt8} {o : Options}

/-- A run that ends well has read a document with a chart and found nothing fatal. -/
theorem drawn_of_ending (hwords : Options.ofWords words = .ok o)
    (hending : (run host words files stdin).ending = .ok 0) :
    ∃ data code,
      (∀ o', report host.load o' (host.read files stdin o.workflow) = reportOn o' data)
        ∧ draw o.direction data = .ok code ∧ isFatal o.strict (issuesOn o data) = false := by
  have hplanned : planned host words files stdin
      = report host.load o (host.read files stdin o.workflow) := planned_of_options hwords
  rcases report_cases host.load (host.read files stdin o.workflow) with
    ⟨message, hfailed⟩ | ⟨f, hfault⟩ | ⟨data, hdata⟩
  · rw [hfailed] at hplanned
    exact absurd (code_eq_of_ending hplanned hending) Nat.one_ne_zero
  · rw [hfault] at hplanned
    rw [run_of_crash hplanned] at hending
    cases hending
  · rw [hdata] at hplanned
    cases hdraw : draw o.direction data with
    | error e =>
        rw [reportOn_of_undrawn hdraw] at hplanned
        exact absurd (code_eq_of_ending hplanned hending) Nat.one_ne_zero
    | ok code =>
        cases hfatal : isFatal o.strict (issuesOn o data) with
        | true =>
            obtain ⟨err, hreport⟩ := reportOn_of_fatal hdraw hfatal
            rw [hreport] at hplanned
            exact absurd (code_eq_of_ending hplanned hending) (Nat.succ_ne_zero 1)
        | false => exact ⟨data, code, hdata, hdraw, hfatal⟩

/-- **Both outputs carry the same text.** Where a run without an output file ends
well, naming a file that can be written makes it print nothing and save what it
printed, all else being the same, as long as UTF-8 has bytes for that text. Then
the file holds the text, byte for byte, and no other file is new or changed. The
option can stand in front of the other words; any other command line that reads
as the same options does the same. -/
theorem saved_text_is_printed_text {p : String}
    (hwords : Options.ofWords words = .ok o) (hout : o.out = none)
    (hending : (run host words files stdin).ending = .ok 0)
    (hwritable : files.Writable (Path.ofText p))
    (hencodes : host.saveFault? (run host words files stdin).world.out = none) :
    Options.ofWords (("--out=" ++ p) :: words) = .ok { o with out := some p }
      ∧ ∀ words', Options.ofWords words' = .ok { o with out := some p } →
        let printed := (run host words files stdin).world
        let saved := run host words' files stdin
        saved.ending = .ok 0 ∧ saved.world.out = "" ∧ saved.world.err = printed.err
          ∧ ∀ parts, saved.world.files.file? parts =
            if parts = files.place (Path.ofText p) then some printed.out.toUTF8.toList
            else files.file? parts := by
  have hsaving : o.savingTo p = { o with out := some p } := by rw [Options.savingTo, hout]; rfl
  refine ⟨by rw [ofWords_savingTo, hwords, ← hsaving]; rfl, fun words' hwords' => ?_⟩
  obtain ⟨data, code, hdata, hdraw, hfatal⟩ := drawn_of_ending hwords hending
  have hdraw' : draw { o with out := some p }.direction data = .ok code := hdraw
  have hprint : planned host words files stdin = .ok
      { deeds := [.complain (issueLines .warning (issuesOn o data)),
          .print (o.format.text (pageTitle data o.workflow) code)] } := by
    rw [planned_of_options hwords, hdata, reportOn_of_sound hdraw hfatal,
      delivery_of_drawn hdraw, hout]
  have hsave : planned host words' files stdin = .ok
      { deeds := [.complain (issueLines .warning (issuesOn o data)),
          .save (Path.ofText p) (o.format.text (pageTitle data o.workflow) code)] } := by
    rw [planned_of_options hwords']
    exact (hdata _).trans ((reportOn_of_sound hdraw' hfatal).trans
      (by rw [delivery_of_drawn hdraw']; rfl))
  cases hfault : host.printFault? (o.format.text (pageTitle data o.workflow) code) with
  | some f =>
      rw [run_of_unprinted hprint hfault] at hending
      cases hending
  | none =>
      rw [run_of_printed hprint hfault] at hencodes ⊢
      obtain ⟨after, hrun, hstored⟩ := run_of_saved hsave hwritable hencodes
      rw [hrun]
      exact ⟨rfl, rfl, rfl, hstored.file?_eq⟩

/-- A process that encodes every text, as every process does without surrogates. -/
def Host.lenient : Host := { Host.passing with saveFault? := fun _ => none }

/-- A workflow with a guarded job that nothing is to be found in. -/
def guardedText : String := "on: push\njobs:\n a:\n  if: x\n"

theorem planned_guardedText (files : FileTree) (hwords : Options.ofWords words = .ok o)
    (hstdin : o.workflow = stdinName) (hescalate : o.escalate = "") :
    ∃ code, planned .lenient words files guardedText.toUTF8.toList
      = .ok { deeds := [.complain "", delivery o "Workflow" code] } := by
  have hfound : ((Host.lenient.load (sourceText guardedText)).toOption.bind fun data =>
      (Workflow.ofValue data).toOption.map fun w =>
        (w.isOverlong data, issuesOn { workflow := "-" } data, pageTitle data stdinName))
          = some (false, [], "Workflow") := by decide +kernel
  refine planned_of_no_findings hwords hstdin (decodeFile_toUTF8 guardedText) ?_
  rw [hstdin]
  simp only [issuesOn, hescalate] at hfound ⊢
  exact hfound

/-- A page with the chart of that workflow, printed and saved below a directory
that has to be made. -/
theorem saved_page_is_printed_page :
    ∃ text, Options.ofWords ["--format", "markdown", "-"]
        = .ok { workflow := "-", format := .page }
      ∧ run .lenient ["--format", "markdown", "-"] {} guardedText.toUTF8.toList
        = ⟨{ out := text, files := {} }, .ok 0⟩
      ∧ (run .lenient ["--out=charts/a.md", "--format", "markdown", "-"] {}
        guardedText.toUTF8.toList).ending = .ok 0
      ∧ (run .lenient ["--out=charts/a.md", "--format", "markdown", "-"] {}
        guardedText.toUTF8.toList).world.files.file? ["charts", "a.md"]
          = some text.toUTF8.toList := by
  let o : Options := { workflow := "-", format := .page }
  have hwords : Options.ofWords ["--format", "markdown", "-"] = .ok o := rfl
  obtain ⟨code, hplanned⟩ := planned_guardedText {} hwords rfl rfl
  have hplanned : planned .lenient ["--format", "markdown", "-"] {} guardedText.toUTF8.toList
      = .ok { deeds := [.complain "", .print (Page.titled "Workflow" code)] } := hplanned
  have hrun := run_of_printed hplanned rfl
  have hwritable : FileTree.Writable {} (Path.ofText "charts/a.md") := ⟨[], rfl⟩
  obtain ⟨hfirst, hsaved⟩ := saved_text_is_printed_text hwords rfl
    (congrArg Outcome.ending hrun) hwritable rfl
  obtain ⟨hending, -, -, hfile⟩ := hsaved _ hfirst
  rw [hrun] at hfile
  exact ⟨_, hwords, hrun, hending, (hfile ["charts", "a.md"]).trans (if_pos rfl)⟩

/-- A workflow whose name is a lone surrogate. -/
def surrogateName : String := "name: \"\\udc80\"\njobs:\n a: \x7b\x7d\n"

def surrogateTitle : String := String.singleton (standIn 0xDC80)

/-- Options that ask for a page of what comes from the standard input. -/
def pageOptions (out : Option String) : Options := { workflow := "-", out := out, format := .page }

theorem planned_surrogateName (host : Host) (hload : host.load = Yaml.loader)
    (hinput : host.decodeInput = decodeFile) {out : Option String} (files : FileTree)
    (hwords : Options.ofWords words = .ok (pageOptions out)) :
    ∃ code, planned host words files surrogateName.toUTF8.toList = .ok
      { deeds := [.complain "", delivery (pageOptions out) surrogateTitle code] } := by
  have hfound : ((Yaml.loader (sourceText surrogateName)).toOption.bind fun data =>
      (Workflow.ofValue data).toOption.map fun w =>
        (w.isOverlong data, issuesOn { workflow := "-" } data, pageTitle data "-"))
          = some (false, [], surrogateTitle) := by decide +kernel
  rw [← hload] at hfound
  have hdecoded : host.decodeInput surrogateName.toUTF8.toList = .ok surrogateName :=
    hinput ▸ decodeFile_toUTF8 surrogateName
  exact planned_of_no_findings hwords rfl hdecoded hfound

theorem exists_fault_surrogateTitle (code : String) :
    ∃ f, utf8Fault? (Page.titled surrogateTitle code) = some f := by
  have hmem : standIn 0xDC80 ∈ (Page.titled surrogateTitle code).toList := by
    simp [Page.titled, surrogateTitle]
  exact exists_utf8Fault hmem (by decide)

/-- What a run leaves behind that cannot save the page of this workflow. -/
theorem run_surrogateName (host : Host) (hload : host.load = Yaml.loader)
    (hinput : host.decodeInput = decodeFile) (hsave : host.saveFault? = utf8Fault?) {p : String}
    (hwords : Options.ofWords words = .ok (pageOptions (some p)))
    (hwritable : files.Writable (Path.ofText p)) :
    ∃ f, (run host words files surrogateName.toUTF8.toList).ending = .error (.fault f)
      ∧ ∀ parts, (run host words files surrogateName.toUTF8.toList).world.files.file? parts
        = if parts = files.place (Path.ofText p) then some [] else files.file? parts := by
  obtain ⟨code, hplanned⟩ := planned_surrogateName host hload hinput files hwords
  have hplanned : planned host words files surrogateName.toUTF8.toList = .ok
      { deeds := [.complain "", .save (Path.ofText p) (Page.titled surrogateTitle code)] } :=
    hplanned
  obtain ⟨f, hfault⟩ := exists_fault_surrogateTitle code
  rw [← hsave] at hfault
  obtain ⟨after, hrun, hstored⟩ := run_of_unencoded hplanned hwritable hfault
  rw [hrun]
  exact ⟨f, rfl, hstored.file?_eq⟩

/-- A page that is printed where surrogates are passed through and cannot be saved. -/
theorem surrogate_printed_not_saved :
    let printed := run .passing ["--format", "markdown", "-"] {} surrogateName.toUTF8.toList
    let saved := run .passing ["--out=a.md", "--format", "markdown", "-"] {}
      surrogateName.toUTF8.toList
    (printed.ending = .ok 0 ∧ ∃ code, printed.world.out = Page.titled surrogateTitle code)
      ∧ FileTree.Writable {} (Path.ofText "a.md")
      ∧ (∃ f, saved.ending = .error (.fault f))
      ∧ saved.world.files.file? ["a.md"] = some [] := by
  have hwords : Options.ofWords ["--format", "markdown", "-"] = .ok (pageOptions none) := rfl
  have hwords' : Options.ofWords ["--out=a.md", "--format", "markdown", "-"]
      = .ok (pageOptions (some "a.md")) := rfl
  have hwritable : FileTree.Writable {} (Path.ofText "a.md") := ⟨[], rfl⟩
  obtain ⟨code, hplanned⟩ := planned_surrogateName .passing rfl rfl {} hwords
  have hplanned : planned .passing ["--format", "markdown", "-"] {} surrogateName.toUTF8.toList
      = .ok { deeds := [.complain "", .print (Page.titled surrogateTitle code)] } := hplanned
  have hprinted := run_of_printed hplanned rfl
  obtain ⟨f, hending, hfiles⟩ := run_surrogateName .passing rfl rfl rfl hwords' hwritable
  exact ⟨⟨congrArg Outcome.ending hprinted, code, congrArg (·.world.out) hprinted⟩, hwritable,
    ⟨f, hending⟩, (hfiles ["a.md"]).trans (if_pos rfl)⟩

end Cli

end JobChart
