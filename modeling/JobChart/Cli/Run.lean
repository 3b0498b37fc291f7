import JobChart.Cli.FileTree
import JobChart.Cli.Host
import JobChart.Cli.Options
import JobChart.Convert
import JobChart.Page
import JobChart.Review

/-!
# Running the command

What the command does, in two steps. `plan` is all that is decided: from the
words and the text of the workflow, if it can be read, to the deeds that are to
be done one after the other and the exit code behind them. `perform` does deeds
until one fails. `run` puts the two together on a tree of files and standard
input, and tells the world that is left behind, however the run ends.

Findings are reported before anything is printed or saved. What is to be
printed is encoded first and then written as a whole. A file is opened, and with
that emptied, before its text is encoded.
-/

namespace JobChart.Cli

open Text Chart

inductive Deed where
  /-- Writes on the standard error. -/
  | complain (text : String)
  /-- Writes on the standard output. -/
  | print (text : String)
  | save (p : Path) (text : String)
deriving DecidableEq, Repr

/-- What a run does, and the exit code if all of it succeeds. -/
structure Report where
  code : Nat := 0
  deeds : List Deed
deriving DecidableEq, Repr

/-- A failure that no run reports: it ends the run. -/
inductive Crash where
  | fault (f : Fault)
  | write (e : WriteError)
deriving DecidableEq, Repr

/-! ## Reading the workflow -/

inductive ReadError where
  | missing (p : Path)
  | badText (e : DecodeError)
deriving DecidableEq, Repr

def ReadError.message : ReadError → String
  | missing p => "cannot read workflow: " ++ p.text
  | badText e =>
    FailureKind.other.report ("workflow is not valid UTF-8: " ++ e.reason ++ " at byte "
      ++ toString e.start)

/-- Line ends of any kind become line feeds. -/
def lineFeeds : List Char → List Char
  | '\r' :: '\n' :: cs => '\n' :: lineFeeds cs
  | '\r' :: cs => '\n' :: lineFeeds cs
  | c :: cs => c :: lineFeeds cs
  | [] => []

/-- A text with its line ends made one. -/
def sourceText (s : String) : String := String.ofList (lineFeeds s.toList)

/-- What is read of a workflow, once its bytes are decoded. -/
def sourceOf (decoded : Except DecodeError String) : Except ReadError String :=
  (decoded.map sourceText).mapError .badText

/-- What is read of the file at a path. -/
def fileSource (p : Path) : Option (List UInt8) → Except ReadError String
  | none => .error (.missing p)
  | some bytes => sourceOf (decodeFile bytes)

def stdinName : String := "-"

/-! ## Output -/

def failed (message : String) : Report :=
  { code := 1, deeds := [.complain ("error: " ++ message ++ "\n")] }

/-- The title of a page: the workflow's name if it has one that is not
blank, else the name of its file. -/
def pageTitle (data : Value) (workflow : String) : String :=
  let fileTitle := if workflow = stdinName then "Workflow" else (Path.ofText workflow).stem
  match data.field "name" with
  | .str s => if allBlank s then fileTitle else strip s
  | _ => fileTitle

/-- The codes in a list with commas; blanks around a code do not count. -/
def codesOf (s : String) : List String :=
  ((cutAt ',' s.toList).map fun c => strip (String.ofList c)).filter (· ≠ "")

def issueLine (i : Issue) : String :=
  i.severity.name ++ ": [" ++ i.finding.code ++ "] " ++ i.finding.message ++ "\n"

def issueLines (s : Severity) (is : List Issue) : String :=
  String.join ((is.filter (·.severity = s)).map issueLine)

/-- Whether the issues make a run fail. -/
def isFatal (strict : Bool) (is : List Issue) : Bool :=
  is.any fun i => i.severity = .error ∨ strict

def delivery (o : Options) (title code : String) : Deed :=
  match o.out, o.format with
  | none, .chart => .print (code ++ "\n")
  | none, .page => .print (Page.titled title code)
  | some p, .chart => .save (Path.ofText p) (Page.bare code)
  | some p, .page => .save (Path.ofText p) (Page.titled title code)

/-! ## Planning -/

def reportOn (o : Options) (data : Value) : Except Crash Report :=
  match draw o.direction data with
  | .error e => .ok (failed e.report)
  | .ok code =>
    match examine { escalate := codesOf o.escalate } data with
    | .error f => .error (.fault f)
    | .ok issues =>
      let warnings := issueLines .warning issues
      if isFatal o.strict issues then
        .ok { code := 2, deeds := [.complain (warnings ++ issueLines .error issues)] }
      else .ok { deeds := [.complain warnings, delivery o (pageTitle data o.workflow) code] }

/-- The report for given options on what is read of the workflow. -/
def report (load : Loader) (o : Options) (source : Except ReadError String) :
    Except Crash Report :=
  match source with
  | .error e => .ok (failed e.message)
  | .ok text =>
    match load text with
    | .error (.fault f) => .error (.fault f)
    | .error e => .ok (failed (DrawError.text e).report)
    | .ok data => reportOn o data

def stopped : Stop → Report
  | .help => { deeds := [.print helpText] }
  | .refused e => { code := 2, deeds := [.complain e.report] }

/-- What is to be done for a command line; `read` reads the workflow of a name. -/
def plan {m : Type → Type} [Monad m] (load : Loader) (read : String → m (Except ReadError String))
    (words : List String) : m (Except Crash Report) :=
  match Options.ofWords words with
  | .error s => pure (.ok (stopped s))
  | .ok o => do return report load o (← read o.workflow)

/-! ## Performing -/

/-- What runs change: the two outputs and the files. -/
structure World where
  out : String := ""
  err : String := ""
  files : FileTree
deriving DecidableEq, Repr

namespace Host

variable (host : Host)

/-- The bytes that come into a file, none if its text cannot be encoded. -/
def bytesOf (text : String) : List UInt8 :=
  if (host.saveFault? text).isSome then [] else text.toUTF8.toList

/-- The world after a deed, and what made the deed fail. -/
def act (w : World) : Deed → World × Option Crash
  | .complain s => ({ w with err := w.err ++ s }, none)
  | .print s =>
    match host.printFault? s with
    | some f => (w, some (.fault f))
    | none => ({ w with out := w.out ++ s }, none)
  | .save p s =>
    match w.files.write p (host.bytesOf s) with
    | (files, some e) => ({ w with files }, some (.write e))
    | (files, none) => ({ w with files }, (host.saveFault? s).map .fault)

/-- The world after a row of deeds, up to the one that fails. -/
def perform (w : World) : List Deed → World × Option Crash
  | [] => (w, none)
  | d :: ds =>
    match host.act w d with
    | (w', none) => perform w' ds
    | (w', some e) => (w', some e)

/-- What is read of a workflow: a file, or standard input. -/
def read (files : FileTree) (stdin : List UInt8) (workflow : String) : Except ReadError String :=
  if workflow = stdinName then sourceOf (host.decodeInput stdin)
  else fileSource (Path.ofText workflow) (files.read? (Path.ofText workflow))

end Host

/-- What a run leaves behind, and how it ends: with an exit code or a crash. -/
structure Outcome where
  world : World
  ending : Except Crash Nat

/-- What is to be done for a command line on a tree of files. -/
def planned (host : Host) (words : List String) (files : FileTree) (stdin : List UInt8) :
    Except Crash Report :=
  Id.run (plan host.load (fun name => pure (host.read files stdin name)) words)

def run (host : Host) (words : List String) (files : FileTree) (stdin : List UInt8) : Outcome :=
  match planned host words files stdin with
  | .error e => ⟨{ files }, .error e⟩
  | .ok r =>
    let (world, failure) := host.perform { files } r.deeds
    ⟨world, failure.elim (.ok r.code) .error⟩

end JobChart.Cli
