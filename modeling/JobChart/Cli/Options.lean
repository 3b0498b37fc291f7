import JobChart.Chart.Direction
import JobChart.Text.DecimalDigit
import JobChart.Text.Join
import JobChart.Text.Quoted

/-!
# Command-line options

The words of a command line read as options. A long option may be cut short
as long as it stays the only one that begins so, its value may follow behind
`=` or as the next word, and of repeated options the last counts. Behind a
lone `--` no word is an option. The one word that belongs to no option names
the workflow; further ones are refused.

All words are classified before the first option takes effect, so a word
that could be two options is refused before anything else is looked at.
-/

namespace JobChart.Cli

open Text Chart

/-! ## Options -/

/-- What is written: the chart alone, or a page with a title. -/
inductive Format where
  | chart
  | page
deriving DecidableEq, Repr

def Format.name : Format → String
  | chart => "mermaid"
  | page => "markdown"

/-- The formats, in the order they are listed to the user. -/
def Format.choices : List Format := [chart, page]

def Format.ofName? (s : String) : Option Format := choices.find? (·.name == s)

structure Options where
  workflow : String
  out : Option String := none
  format : Format := .chart
  direction : Direction := .standard
  strict : Bool := false
  escalate : String := ""
deriving DecidableEq, Repr

inductive Flag where
  | help
  | out
  | format
  | direction
  | strict
  | escalate
deriving DecidableEq, Repr

namespace Flag

def spellings : List (String × Flag) :=
  [("-h", help), ("--help", help), ("--out", out), ("--format", format),
    ("--direction", direction), ("--strict", strict), ("--escalate", escalate)]

/-- How messages call an option. -/
def title (f : Flag) : String :=
  joinWith "/" ((spellings.filter (·.2 == f)).map (·.1))

end Flag

/-! ## Refusals -/

inductive UsageError where
  | ambiguous (word : String) (spellings : List String)
  | missingValue (f : Flag)
  | extraValue (f : Flag) (value : String)
  | badChoice (f : Flag) (value : String) (choices : List String)
  | missingWorkflow
  | extraWords (words : List String)
deriving DecidableEq, Repr

def UsageError.message : UsageError → String
  | ambiguous w ss => "ambiguous option: " ++ w ++ " could match " ++ joinWith ", " ss
  | missingValue f => "argument " ++ f.title ++ ": expected one argument"
  | extraValue f v => "argument " ++ f.title ++ ": ignored explicit argument " ++ quoted v
  | badChoice f v cs =>
    "argument " ++ f.title ++ ": invalid choice: " ++ quoted v ++ " (choose from "
      ++ joinWith ", " (cs.map quoted) ++ ")"
  | missingWorkflow => "the following arguments are required: workflow"
  | extraWords ws => "unrecognized arguments: " ++ joinWith " " ws

/-- Why reading a command line stops: help is asked for, or it is refused. -/
inductive Stop where
  | help
  | refused (e : UsageError)
deriving DecidableEq, Repr

/-! ## Words -/

/-- What a word is; an option may have its value attached. -/
inductive Word where
  | plain
  | flag (f : Flag) (value : Option String)
  /-- The short help option with more letters behind it. -/
  | helpLetters (letters : List Char)
  | unknown
deriving DecidableEq, Repr

/-- The parts before and behind the first `=`. -/
def cutAtEquals (cs : List Char) : List Char × Option (List Char) :=
  match cs.dropWhile (· != '=') with
  | [] => (cs, none)
  | _ :: rest => (cs.takeWhile (· != '='), some rest)

/-- A decimal number behind a minus sign; a line feed at the end does not count. -/
def isNegativeNumber (cs : List Char) : Bool :=
  let isDigit (c : Char) : Bool := (decimalDigit? c).isSome
  match cs with
  | '-' :: ds =>
    let ds := if ds.getLast? = some '\n' then ds.dropLast else ds
    match ds.dropWhile isDigit with
    | [] => !ds.isEmpty
    | '.' :: fraction => !fraction.isEmpty && fraction.all isDigit
    | _ => false
  | _ => false

/-- The options that a word beginning with `--` may mean. -/
def longMatches (lead : List Char) : List (String × Flag) :=
  Flag.spellings.filter fun s => lead.isPrefixOf s.1.toList

/-- What a word is that begins with a hyphen and goes on. -/
def classifyDashed (word : String) : Except UsageError Word :=
  let cs := word.toList
  let (lead, value) := cutAtEquals cs
  let value := value.map String.ofList
  let other : Word := if isNegativeNumber cs || cs.contains ' ' then .plain else .unknown
  match Flag.spellings.lookup (String.ofList lead) with
  | some f =>
    match cs, value with
    | '-' :: 'h' :: _, some v => .ok (if v = "" then .flag f value else .helpLetters v.toList)
    | _, _ => .ok (.flag f value)
  | none =>
    match cs with
    | '-' :: '-' :: _ =>
      match longMatches lead with
      | [] => .ok other
      | [(_, f)] => .ok (.flag f value)
      | ms => .error (.ambiguous word (ms.map (·.1)))
    | '-' :: 'h' :: letters => .ok (.helpLetters letters)
    | _ => .ok other

/-- What a word is in front of a lone `--`. -/
def classify (word : String) : Except UsageError Word :=
  match word.toList with
  | '-' :: _ :: _ => classifyDashed word
  | _ => .ok .plain

/-! ## Reading -/

structure Draft where
  workflow : Option String := none
  out : Option String := none
  format : Format := .chart
  direction : Direction := .standard
  strict : Bool := false
  escalate : String := ""
  extra : List String := []
deriving DecidableEq, Repr

def Draft.takeWord (d : Draft) (w : String) : Draft :=
  match d.workflow with
  | none => { d with workflow := some w }
  | some _ => { d with extra := d.extra ++ [w] }

def Draft.takeValue (d : Draft) (f : Flag) (v : String) : Except Stop Draft :=
  match f with
  | .out => .ok { d with out := some v }
  | .escalate => .ok { d with escalate := v }
  | .format =>
    match Format.ofName? v with
    | some x => .ok { d with format := x }
    | none => .error (.refused (.badChoice f v (Format.choices.map Format.name)))
  | .direction =>
    match Direction.ofName? v with
    | some x => .ok { d with direction := x }
    | none => .error (.refused (.badChoice f v (Direction.choices.map Direction.name)))
  | .help | .strict => .error (.refused (.extraValue f v))

/-- What the letters behind the short help option come to: `h` is that option
again, anything else is a value that it does not take. -/
def stopForLetters : List Char → Stop
  | [] => .help
  | 'h' :: cs => stopForLetters cs
  | cs => .refused (.extraValue .help (String.ofList cs))

/-- Reads the words in front of a lone `--`. -/
def readWords (d : Draft) : List (String × Word) → Except Stop Draft
  | [] => .ok d
  | (w, .plain) :: ws => readWords (d.takeWord w) ws
  | (w, .unknown) :: ws => readWords { d with extra := d.extra ++ [w] } ws
  | (_, .helpLetters cs) :: _ => .error (stopForLetters cs)
  | (_, .flag f (some v)) :: ws => do readWords (← d.takeValue f v) ws
  | (_, .flag .help none) :: _ => .error .help
  | (_, .flag .strict none) :: ws => readWords { d with strict := true } ws
  | (_, .flag f none) :: (v, .plain) :: ws => do readWords (← d.takeValue f v) ws
  | (_, .flag f none) :: _ => .error (.refused (.missingValue f))

/-- Reads the words behind a lone `--`. The `--` itself is an extra word,
unless the word that names the workflow stands next to it; `isTaken` tells
that the word in front of it does. -/
def readRest (d : Draft) (isTaken : Bool) (rest : List String) : Draft :=
  match d.workflow, rest with
  | none, w :: ws => { d with workflow := some w, extra := d.extra ++ ws }
  | _, ws => { d with extra := d.extra ++ (if isTaken then ws else "--" :: ws) }

def cutAtDashes : List String → List String × Option (List String)
  | [] => ([], none)
  | w :: ws =>
    if w = "--" then ([], some ws)
    else
      let (front, rest) := cutAtDashes ws
      (w :: front, rest)

def classifyAll : List String → Except UsageError (List (String × Word))
  | [] => .ok []
  | w :: ws => do
    let kind ← classify w
    return (w, kind) :: (← classifyAll ws)

/-- Whether the last of these words is the one that names the workflow. -/
def endsWithWorkflow (ws : List (String × Word)) : Bool :=
  match readWords {} ws.dropLast, readWords {} ws with
  | .ok before, .ok after => before.workflow.isNone && after.workflow.isSome
  | _, _ => false

def Draft.finish (d : Draft) : Except Stop Options :=
  match d.workflow, d.extra with
  | none, _ => .error (.refused .missingWorkflow)
  | some _, w :: ws => .error (.refused (.extraWords (w :: ws)))
  | some workflow, [] =>
    .ok ⟨workflow, d.out, d.format, d.direction, d.strict, d.escalate⟩

def Options.ofWords (words : List String) : Except Stop Options := do
  let (front, rest) := cutAtDashes words
  match classifyAll front with
  | .error e => throw (.refused e)
  | .ok ws =>
    let d ← readWords {} ws
    match rest with
    | none => d.finish
    | some rest => (readRest d (endsWithWorkflow ws) rest).finish

/-! ## Help -/

/-- The lines that show how the command is called. -/
def usageText : String :=
  "usage: gha-mermaid [-h] [--out OUT] [--format \x7bmermaid,markdown\x7d]\n"
    ++ "                   [--direction \x7bTD,TB,LR,RL,BT\x7d] [--strict]\n"
    ++ "                   [--escalate ESCALATE]\n"
    ++ "                   workflow\n"

def UsageError.report (e : UsageError) : String :=
  usageText ++ "gha-mermaid: error: " ++ e.message ++ "\n"

def helpText : String :=
  usageText
    ++ "\nGenerate a Mermaid flowchart from a GitHub Actions workflow YAML file.\n"
    ++ "\npositional arguments:\n"
    ++ "  workflow              Path to the workflow YAML file ('-' reads stdin)\n"
    ++ "\noptions:\n"
    ++ "  -h, --help            show this help message and exit\n"
    ++ "  --out OUT             Output file (default: write to stdout)\n"
    ++ "  --format \x7bmermaid,markdown\x7d\n"
    ++ "                        mermaid = raw flowchart source; markdown = titled page\n"
    ++ "                        with a mermaid block\n"
    ++ "  --direction \x7bTD,TB,LR,RL,BT\x7d\n"
    ++ "                        Flowchart direction\n"
    ++ "  --strict              Fail on validation warnings (e.g., needs on unknown\n"
    ++ "                        jobs, unbalanced parentheses in conditions). Errors\n"
    ++ "                        always fail.\n"
    ++ "  --escalate ESCALATE   Comma-separated warning codes to treat as errors (e.g.\n"
    ++ "                        W_NEEDS_UNKNOWN_JOB)\n"

end JobChart.Cli
