import JobChart.Chart.Ident
import JobChart.Chart.Line
import JobChart.Text.Blank

/-!
# Badges

The decision node drawn for one atom of a guard. A call of a status function
gets a rounded badge in its own colour; negated (`!failure()`) it keeps the
icon and is drawn as an outline under a `NOT`. Any other atom is a grey
diamond that shows the atom's own text.
-/

namespace JobChart

open Text Chart

inductive Status where
  | always
  | success
  | failure
  | cancelled
deriving DecidableEq, Repr

structure BadgeStyle where
  icon : String
  label : String
  className : String
  fill : String
  stroke : String
deriving DecidableEq, Repr

/-- The class of the negated badge. -/
def BadgeStyle.negatedClass (s : BadgeStyle) : String := s.className ++ "Neg"

namespace Status

/-- The call as it stands in a guard. -/
def call : Status → String
  | always => "always()"
  | success => "success()"
  | failure => "failure()"
  | cancelled => "cancelled()"

def every : List Status := [always, success, failure, cancelled]

/-- The status function that this text calls. -/
def ofCall? (text : String) : Option Status := every.find? (·.call == text)

def style : Status → BadgeStyle
  | always => ⟨"🔄", "Always Run", "condAlways", "#4A90D9", "#2E6EB5"⟩
  | success => ⟨"✅", "Success Only", "condSuccess", "#28A745", "#1E7E34"⟩
  | failure => ⟨"❌", "Failure Only", "condFailure", "#DC3545", "#BD2130"⟩
  | cancelled => ⟨"⛔", "Cancelled", "condCancelled", "#FD7E14", "#E36209"⟩

theorem ofCall?_call (s : Status) : ofCall? s.call = some s := by
  cases s <;> decide

theorem ofCall?_eq_some_iff {text : String} {s : Status} :
    ofCall? text = some s ↔ text = s.call := by
  constructor
  · intro h
    exact (beq_iff_eq.mp (List.find?_some h :)).symm
  · rintro rfl
    exact ofCall?_call s

end Status

/-- How a badge of any other atom looks; its label is the atom's text. -/
def customStyle : BadgeStyle := ⟨"🔧", "", "condCustom", "#6C757D", "#545B62"⟩

namespace Badge

/-- Whether a `!` leads, and the text behind it without the blanks around. -/
def negation (text : String) : Bool × String :=
  match trim text.toList with
  | [] => (false, "")
  | c :: cs =>
    if c = '!' then (true, String.ofList (trim cs)) else (false, String.ofList (c :: cs))

/-- The status function that an atom calls, if any, and whether a `!` leads. -/
def classify (text : String) : Option Status × Bool :=
  let (negated, inner) := negation text
  (Status.ofCall? inner, negated)

/-- An atom that cannot fail: a plain call of `always()`. -/
def isAlways (text : String) : Bool := negation text == (false, Status.always.call)

def node (id text : String) : Node :=
  match classify text with
  | (some s, false) => ⟨id, s.style.icon ++ " " ++ s.style.label, .stadium s.style.className⟩
  | (some s, true) => ⟨id, s.style.icon ++ " NOT " ++ s.style.label, .stadium s.style.negatedClass⟩
  | (none, _) => ⟨id, customStyle.icon ++ " " ++ escapeLabel text, .diamond customStyle.className⟩

theorem id_node (id text : String) : (node id text).id = id := by
  rw [node]
  split <;> rfl

/-- The class of a filled badge. -/
def filledClass (s : BadgeStyle) : ClassDef :=
  ⟨s.className, [("fill", s.fill), ("stroke", s.stroke), ("color", "#fff")]⟩

/-- The class of a negated badge: an outline. -/
def outlineClass (s : BadgeStyle) : ClassDef :=
  ⟨s.negatedClass, [("fill", "#fff"), ("stroke", s.stroke), ("color", s.fill),
    ("stroke-dasharray", "5 5"), ("stroke-width", "2px")]⟩

def classes : List ClassDef :=
  Status.every.flatMap (fun s => [filledClass s.style, outlineClass s.style])
    ++ [filledClass customStyle]

end Badge

end JobChart
