import JobChart.Proofs.Cli.Sinks

/-!
# Output is all or nothing

A run that fails should leave nothing behind, and one that ends well its text
in one place (`AllOrNothing`). What is reported has one of few shapes
(`Settled`), and each is followed through its deeds. Whatever may fail comes
last: a complaint never fails, and a run prints or saves one text.

A text that is printed is encoded before any of it is put out, but a file is
emptied before the text that is to go there is encoded. So there is one way to
fail that leaves its mark: where a file can be opened and the text cannot be
encoded, the file is left empty (`Spoils`). In all other runs output is all or
nothing.
-/

namespace JobChart.Cli

variable {host : Host} {words : List String} {files : FileTree} {stdin : List UInt8} {o : Options}

/-! ## What a run should leave behind -/

/-- A text has come out in the place that the options name, and nothing anywhere else. -/
def Delivered (files : FileTree) (o : Options) (text : String) (w : World) : Prop :=
  match o.out with
  | none => w.out = text ∧ w.files = files
  | some p =>
    w.out = "" ∧ ∀ parts, w.files.file? parts =
      if parts = files.place (Path.ofText p) then some text.toUTF8.toList else files.file? parts

/-- A run that fails has printed nothing and left all files as they were; one
that ends well has printed the help it was asked for, or delivered some text. -/
structure AllOrNothing (words : List String) (files : FileTree) (done : Outcome) : Prop where
  failed : done.ending ≠ .ok 0 →
    done.world.out = "" ∧ ∀ parts, done.world.files.file? parts = files.file? parts
  ended : done.ending = .ok 0 →
    (Options.ofWords words = .error .help ∧ done.world.out = helpText ∧ done.world.files = files)
      ∨ ∃ o text, Options.ofWords words = .ok o ∧ text ≠ "" ∧ Delivered files o text done.world

/-- A run is to save a text that cannot be encoded, in a file that can be opened
and is not empty already. -/
def Spoils (host : Host) (words : List String) (files : FileTree) (stdin : List UInt8) : Prop :=
  ∃ r p text, planned host words files stdin = .ok r ∧ Deed.save p text ∈ r.deeds
    ∧ files.Writable p ∧ (host.saveFault? text).isSome ∧ files.file? (files.place p) ≠ some []

/-- A run has ended with a fault and printed nothing. The file at this path is
empty, and all others are as they were. -/
structure Emptied (files : FileTree) (p : Path) (done : Outcome) : Prop where
  ending : ∃ f, done.ending = .error (.fault f)
  out : done.world.out = ""
  files : ∀ parts, done.world.files.file? parts =
    if parts = files.place p then some [] else files.file? parts

theorem allOrNothing_of_unchanged {done : Outcome} (hending : done.ending ≠ .ok 0)
    (hout : done.world.out = "") (hfiles : files.SameFiles done.world.files) :
    AllOrNothing words files done :=
  ⟨fun _ => ⟨hout, hfiles.file?_eq⟩, fun h => absurd h hending⟩

theorem allOrNothing_of_crash {w : World} {e : Crash} (hout : w.out = "")
    (hfiles : files.SameFiles w.files) : AllOrNothing words files ⟨w, .error e⟩ :=
  allOrNothing_of_unchanged (fun h => by cases h) hout hfiles

theorem allOrNothing_of_delivered {done : Outcome} {text : String}
    (hwords : Options.ofWords words = .ok o) (hending : done.ending = .ok 0) (htext : text ≠ "")
    (h : Delivered files o text done.world) : AllOrNothing words files done :=
  ⟨fun hfailed => absurd hending hfailed, fun _ => Or.inr ⟨o, text, hwords, htext, h⟩⟩

theorem not_spoils_of_no_save (h : ∀ r, planned host words files stdin = .ok r →
    ∀ p text, Deed.save p text ∉ r.deeds) : ¬Spoils host words files stdin := by
  rintro ⟨r, p, text, hr, hsave, -⟩
  exact h r hr p text hsave

/-! ## The shapes of reports -/

theorem text_ne_empty (f : Format) (title code : String) : f.text title code ≠ "" := by
  cases f <;> simp [Format.text, Page.bare, Page.titled, Page.block]

theorem allOrNothing_of_complaint {code : Nat} {err : String} (hcode : code ≠ 0)
    (h : planned host words files stdin = .ok { code, deeds := [.complain err] }) :
    AllOrNothing words files (run host words files stdin) := by
  rw [run_of_complaint h]
  exact allOrNothing_of_unchanged (fun hending => hcode (Except.ok.inj hending)) rfl (.refl files)

theorem allOrNothing_of_help (hwords : Options.ofWords words = .error .help) :
    AllOrNothing words files (run host words files stdin) := by
  rw [run_of_report (planned_of_stop hwords)]
  simp only [stopped, Host.perform, Host.act, String.empty_append]
  cases host.printFault? helpText with
  | some f => exact allOrNothing_of_crash rfl (.refl files)
  | none => exact ⟨fun hending => absurd rfl hending, fun _ => Or.inl ⟨hwords, rfl, rfl⟩⟩

theorem allOrNothing_of_print {err text : String} (hwords : Options.ofWords words = .ok o)
    (hout : o.out = none) (htext : text ≠ "")
    (h : planned host words files stdin = .ok { deeds := [.complain err, .print text] }) :
    AllOrNothing words files (run host words files stdin) := by
  cases hfault : host.printFault? text with
  | some f =>
      rw [run_of_unprinted h hfault]
      exact allOrNothing_of_crash rfl (.refl files)
  | none =>
      rw [run_of_printed h hfault]
      refine allOrNothing_of_delivered hwords rfl htext ?_
      rw [Delivered, hout]
      exact ⟨rfl, rfl⟩

section

variable {p err text : String}

/-- Before a text is saved nothing is done that could fail. -/
theorem spoils_of_save_iff
    (h : planned host words files stdin
      = .ok { deeds := [.complain err, .save (Path.ofText p) text] }) :
    Spoils host words files stdin ↔ files.Writable (Path.ofText p)
      ∧ (host.saveFault? text).isSome ∧ files.file? (files.place (Path.ofText p)) ≠ some [] := by
  constructor
  · rintro ⟨r, p', text', hr, hsave, hspoils⟩
    cases h.symm.trans hr
    simp only [List.mem_cons, reduceCtorEq, Deed.save.injEq, List.not_mem_nil, or_false,
      false_or] at hsave
    obtain ⟨rfl, rfl⟩ := hsave
    exact hspoils
  · intro hspoils
    exact ⟨_, _, _, h, List.mem_cons_of_mem _ List.mem_cons_self, hspoils⟩

theorem allOrNothing_of_save (hwords : Options.ofWords words = .ok o) (hout : o.out = some p)
    (htext : text ≠ "")
    (h : planned host words files stdin
      = .ok { deeds := [.complain err, .save (Path.ofText p) text] })
    (hsound : ¬(files.Writable (Path.ofText p) ∧ (host.saveFault? text).isSome)) :
    AllOrNothing words files (run host words files stdin) := by
  by_cases hwritable : files.Writable (Path.ofText p)
  · have hfault : host.saveFault? text = none := by
      cases hfault : host.saveFault? text with
      | none => rfl
      | some f => exact absurd ⟨hwritable, hfault ▸ rfl⟩ hsound
    obtain ⟨after, hrun, hstored⟩ := run_of_saved h hwritable hfault
    rw [hrun]
    refine allOrNothing_of_delivered hwords rfl htext ?_
    rw [Delivered, hout]
    exact ⟨rfl, hstored.file?_eq⟩
  · obtain ⟨hsame, e, hopen⟩ := files.sameFiles_of_unwritable hwritable (host.bytesOf text)
    rw [run_of_unopened h hopen]
    exact allOrNothing_of_crash rfl hsame

theorem emptied_of_save
    (h : planned host words files stdin
      = .ok { deeds := [.complain err, .save (Path.ofText p) text] })
    (hwritable : files.Writable (Path.ofText p)) (hfault : (host.saveFault? text).isSome) :
    Emptied files (Path.ofText p) (run host words files stdin) := by
  obtain ⟨f, hf⟩ := Option.isSome_iff_exists.mp hfault
  obtain ⟨after, hrun, hstored⟩ := run_of_unencoded h hwritable hf
  rw [hrun]
  exact ⟨⟨f, rfl⟩, rfl, hstored.file?_eq⟩

end

/-- A file that is left empty was empty before, or something has been lost. -/
theorem Emptied.allOrNothing_iff {p : Path} {done : Outcome} (h : Emptied files p done) :
    AllOrNothing words files done ↔ files.file? (files.place p) = some [] := by
  obtain ⟨f, hf⟩ := h.ending
  have hending : done.ending ≠ .ok 0 := fun hok => by cases hf.symm.trans hok
  constructor
  · intro hall
    rw [← (hall.failed hending).2, h.files, if_pos rfl]
  · intro hempty
    refine ⟨fun _ => ⟨h.out, fun parts => (h.files parts).trans ?_⟩, fun hok => absurd hok hending⟩
    split
    · next hplace => rw [hplace, hempty]
    · rfl

/-! ## All or nothing -/

/-- How a run comes out: all or nothing, or with a file that it has spoilt. -/
def CameOut (host : Host) (words : List String) (files : FileTree) (stdin : List UInt8) : Prop :=
  (AllOrNothing words files (run host words files stdin) ∧ ¬Spoils host words files stdin)
    ∨ Spoils host words files stdin ∧ ∃ o p, Options.ofWords words = .ok o ∧ o.out = some p
      ∧ files.file? (files.place (Path.ofText p)) ≠ some []
      ∧ Emptied files (Path.ofText p) (run host words files stdin)

theorem cameOut_of_save {p err text : String} (hwords : Options.ofWords words = .ok o)
    (hout : o.out = some p) (htext : text ≠ "")
    (h : planned host words files stdin
      = .ok { deeds := [.complain err, .save (Path.ofText p) text] }) :
    CameOut host words files stdin := by
  have hspoils := spoils_of_save_iff h
  by_cases hfails : files.Writable (Path.ofText p) ∧ (host.saveFault? text).isSome
  · have hemptied := emptied_of_save h hfails.1 hfails.2
    by_cases hempty : files.file? (files.place (Path.ofText p)) = some []
    · exact Or.inl ⟨hemptied.allOrNothing_iff.mpr hempty, fun hs => (hspoils.mp hs).2.2 hempty⟩
    · exact Or.inr ⟨hspoils.mpr ⟨hfails.1, hfails.2, hempty⟩, o, p, hwords, hout, hempty, hemptied⟩
  · exact Or.inl ⟨allOrNothing_of_save hwords hout htext h hfails,
      fun hs => hfails ⟨(hspoils.mp hs).1, (hspoils.mp hs).2.1⟩⟩

theorem cameOut (host : Host) (words : List String) (files : FileTree) (stdin : List UInt8) :
    CameOut host words files stdin := by
  cases hplanned : planned host words files stdin with
  | error e =>
      refine Or.inl ⟨?_, not_spoils_of_no_save fun r hr => by cases hplanned.symm.trans hr⟩
      rw [run_of_crash hplanned]
      exact allOrNothing_of_crash rfl (.refl files)
  | ok r =>
      have hnone (hsave : ∀ p text, Deed.save p text ∉ r.deeds) :
          ¬Spoils host words files stdin := not_spoils_of_no_save fun r' hr' => by
        cases hplanned.symm.trans hr'
        exact hsave
      cases settled_planned hplanned with
      | complaint err hcode =>
          exact Or.inl ⟨allOrNothing_of_complaint hcode hplanned, hnone (by simp)⟩
      | help hwords => exact Or.inl ⟨allOrNothing_of_help hwords, hnone (by simp)⟩
      | @delivered o data code warnings hwords hdrawn =>
          have htext := text_ne_empty o.format (pageTitle data o.workflow) code
          rw [delivery_of_drawn hdrawn] at hplanned hnone
          cases hout : o.out with
          | none =>
              rw [hout] at hplanned hnone
              exact Or.inl ⟨allOrNothing_of_print hwords hout htext hplanned, hnone (by simp)⟩
          | some p =>
              rw [hout] at hplanned
              exact cameOut_of_save hwords hout htext hplanned

/-- **Output is all or nothing, but for texts that cannot be encoded.** A run that
fails has printed nothing and left all files as they were, and one that ends well
has put out its text in one place, just in case it does not come to saving a text
that cannot be encoded in a file with something in it, or in a new one. Where it
does come to that, the run ends with a fault and nothing printed, and the file
that the options name is left empty; no other file is new or changed. -/
theorem output_all_or_nothing_iff (host : Host) (words : List String) (files : FileTree)
    (stdin : List UInt8) :
    (AllOrNothing words files (run host words files stdin) ↔ ¬Spoils host words files stdin)
      ∧ (Spoils host words files stdin →
        ∃ o p, Options.ofWords words = .ok o ∧ o.out = some p
          ∧ Emptied files (Path.ofText p) (run host words files stdin)) := by
  rcases cameOut host words files stdin with
    ⟨hall, hsound⟩ | ⟨hspoils, o, p, hwords, hout, hfull, hemptied⟩
  · exact ⟨iff_of_true hall hsound, fun hspoils => absurd hspoils hsound⟩
  · have hnot : ¬AllOrNothing words files (run host words files stdin) := fun hall =>
      hfull (hemptied.allOrNothing_iff.mp hall)
    exact ⟨iff_of_false hnot (not_not_intro hspoils), fun _ => ⟨o, p, hwords, hout, hemptied⟩⟩

theorem not_spoils_lenient (words : List String) (files : FileTree) (stdin : List UInt8) :
    ¬Spoils .lenient words files stdin := by
  rintro ⟨r, p, text, -, -, -, hfault, -⟩
  cases hfault

/-- A tree with one file, of the two bytes `hi`. -/
def greeted : FileTree := { files := [(["a.md"], [104, 105])] }

theorem spoils_surrogateName :
    Spoils .standard ["--out=a.md", "--format", "markdown", "-"] greeted
      surrogateName.toUTF8.toList := by
  have hwords : Options.ofWords ["--out=a.md", "--format", "markdown", "-"]
      = .ok (pageOptions (some "a.md")) := rfl
  obtain ⟨code, hplanned⟩ := planned_surrogateName .standard rfl rfl greeted hwords
  have hplanned : planned .standard ["--out=a.md", "--format", "markdown", "-"] greeted
      surrogateName.toUTF8.toList = .ok
        { deeds := [.complain "", .save (Path.ofText "a.md") (Page.titled surrogateTitle code)] } :=
    hplanned
  obtain ⟨f, hfault⟩ := exists_fault_surrogateTitle code
  have hsave : Host.standard.saveFault? = Text.utf8Fault? := rfl
  have hfails : (Host.standard.saveFault? (Page.titled surrogateTitle code)).isSome = true := by
    rw [hsave, hfault]
    rfl
  exact (spoils_of_save_iff hplanned).mpr ⟨⟨[], rfl⟩, hfails, by decide⟩

/-- A chart is saved, or lost where the path it is to go to is a directory; a
page that cannot be encoded leaves its file empty. -/
theorem chart_saved_or_lost :
    let saved := run .lenient ["--out=charts/a.mmd", "-"] {} guardedText.toUTF8.toList
    let lost := run .lenient ["--out=charts/..", "-"] {} guardedText.toUTF8.toList
    (saved.ending = .ok 0 ∧ AllOrNothing ["--out=charts/a.mmd", "-"] {} saved)
      ∧ (lost.ending = .error (.write (.isDirectory (Path.ofText "charts/..")))
        ∧ AllOrNothing ["--out=charts/..", "-"] {} lost)
      ∧ Emptied greeted (Path.ofText "a.md")
        (run .standard ["--out=a.md", "--format", "markdown", "-"] greeted
          surrogateName.toUTF8.toList) := by
  have hplanned {words : List String} {p : String}
      (hwords : Options.ofWords words = .ok { workflow := "-", out := some p }) :
      ∃ code, planned .lenient words {} guardedText.toUTF8.toList
        = .ok { deeds := [.complain "", .save (Path.ofText p) (Page.bare code)] } :=
    planned_guardedText {} hwords rfl rfl
  have hsaving : Options.ofWords ["--out=charts/a.mmd", "-"]
      = .ok { workflow := "-", out := some "charts/a.mmd" } := rfl
  have hlosing : Options.ofWords ["--out=charts/..", "-"]
      = .ok { workflow := "-", out := some "charts/.." } := rfl
  have hsound (words : List String) := (output_all_or_nothing_iff .lenient words {}
    guardedText.toUTF8.toList).1.mpr (not_spoils_lenient words _ _)
  refine ⟨⟨?_, hsound _⟩, ⟨?_, hsound _⟩, ?_⟩
  · obtain ⟨code, hsave⟩ := hplanned hsaving
    obtain ⟨after, hrun, -⟩ := run_of_saved hsave ⟨[], rfl⟩ rfl
    exact congrArg Outcome.ending hrun
  · obtain ⟨code, hsave⟩ := hplanned hlosing
    exact congrArg Outcome.ending (run_of_unopened hsave rfl)
  · have hends := (output_all_or_nothing_iff .standard _ _ _).2 spoils_surrogateName
    obtain ⟨o, p, hwords, hout, hemptied⟩ := hends
    cases hwords
    cases hout
    exact hemptied

/-- A run that ends with a fault and takes what was in a file along. -/
theorem unencodable_page_empties_file :
    let done := run .standard ["--out=a.md", "--format", "markdown", "-"] greeted
      surrogateName.toUTF8.toList
    (∃ f, done.ending = .error (.fault f))
      ∧ greeted.file? ["a.md"] = some [104, 105] ∧ done.world.files.file? ["a.md"] = some []
      ∧ ¬AllOrNothing ["--out=a.md", "--format", "markdown", "-"] greeted done := by
  have hwords : Options.ofWords ["--out=a.md", "--format", "markdown", "-"]
      = .ok (pageOptions (some "a.md")) := rfl
  have hwritable : greeted.Writable (Path.ofText "a.md") := ⟨[], rfl⟩
  obtain ⟨f, hending, hfiles⟩ := run_surrogateName .standard rfl rfl rfl hwords hwritable
  have hempty := (hfiles ["a.md"]).trans (if_pos rfl)
  refine ⟨⟨f, hending⟩, rfl, hempty, fun hall => ?_⟩
  have hkept := (hall.failed fun hok => by cases hending.symm.trans hok).2 ["a.md"]
  cases hempty.symm.trans hkept

end JobChart.Cli
