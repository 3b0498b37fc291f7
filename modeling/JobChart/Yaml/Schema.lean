import JobChart.Decimal.Reader
import JobChart.Text.Join
import JobChart.Text.LetterCase
import JobChart.Timestamp
import JobChart.Value
import JobChart.Yaml.Failure

/-!
# Scalar types

Which type a plain scalar has by its look (`Tag.ofPlain`), and the value a
scalar's text has as a certain type. The looks are those of YAML 1.1: `on`
and `off` are truth values, a leading zero means base eight, and numbers may
be written in base sixty with colons.
-/

namespace JobChart.Yaml

open Text

/-! ## Tags -/

namespace Tag

/-- What the standard tags begin with. -/
def standard : String := "tag:yaml.org,2002:"

def null : String := standard ++ "null"
def bool : String := standard ++ "bool"
def int : String := standard ++ "int"
def float : String := standard ++ "float"
def timestamp : String := standard ++ "timestamp"
def binary : String := standard ++ "binary"
def str : String := standard ++ "str"
def seq : String := standard ++ "seq"
def map : String := standard ++ "map"
def set : String := standard ++ "set"
def omap : String := standard ++ "omap"
def pairs : String := standard ++ "pairs"

/-- The key that merges other mappings into its own. -/
def merge : String := standard ++ "merge"

/-- The key whose value stands for its whole mapping. -/
def value : String := standard ++ "value"

/-- A sign that is kept for the language itself. -/
def yaml : String := standard ++ "yaml"

end Tag

/-! ## Looks -/

def nullWords : List String := ["~", "null", "Null", "NULL", ""]

def boolWords : List String :=
  ["yes", "Yes", "YES", "no", "No", "NO", "true", "True", "TRUE", "false", "False", "FALSE",
    "on", "On", "ON", "off", "Off", "OFF"]

/-- A digit or an underscore. -/
def isDigitOrGap (c : Char) : Bool := c.isDigit || c == '_'

/-- The text behind a sign, or the text itself. -/
def afterSign : List Char → List Char
  | '-' :: cs | '+' :: cs => cs
  | cs => cs

/-- A place in base sixty: one digit, or two up to fifty-nine. -/
def isSixtyDigit : List Char → Bool
  | [d] => d.isDigit
  | [t, d] => '0' ≤ t && t ≤ '5' && d.isDigit
  | _ => false

/-- Places in base sixty behind colons, at least one. -/
def isSixty (firstOK : List Char → Bool) (cs : List Char) : Bool :=
  match cutAt ':' cs with
  | first :: p :: places => firstOK first && (p :: places).all isSixtyDigit
  | _ => false

/-- Digits that start with one other than zero. -/
def isCounting : List Char → Bool
  | [] => false
  | d :: ds => '1' ≤ d && d ≤ '9' && ds.all isDigitOrGap

/-- Digits that start with a digit. -/
def isDigits : List Char → Bool
  | [] => false
  | d :: ds => d.isDigit && ds.all isDigitOrGap

/-- The look of an integer: base two, eight, ten, sixteen or sixty. -/
def looksInt (cs : List Char) : Bool :=
  match afterSign cs with
  | ['0'] => true
  | '0' :: 'b' :: ds => !ds.isEmpty && ds.all fun c => c == '0' || c == '1' || c == '_'
  | '0' :: 'x' :: ds =>
    !ds.isEmpty && ds.all fun c =>
      isDigitOrGap c || ('a' ≤ c && c ≤ 'f') || ('A' ≤ c && c ≤ 'F')
  | '0' :: ds => ds.all fun c => ('0' ≤ c && c ≤ '7') || c == '_'
  | ds => isCounting ds || isSixty isCounting ds

def isExponent : List Char → Bool
  | [] => true
  | e :: sign :: ds =>
    (e == 'e' || e == 'E') && (sign == '-' || sign == '+') && !ds.isEmpty && ds.all Char.isDigit
  | _ => false

/-- The look of a floating-point number. -/
def looksFloat (cs : List Char) : Bool :=
  let body := afterSign cs
  let text := String.ofList body
  let whole := body.takeWhile (· != '.')
  match body.dropWhile (· != '.') with
  | [] => false
  | _ :: rest =>
    let tail := rest.dropWhile isDigitOrGap
    if whole.isEmpty then
      [".inf", ".Inf", ".INF"].contains text
        || (body.length = cs.length
          && ([".nan", ".NaN", ".NAN"].contains text
            || (rest.any Char.isDigit && rest.head?.any Char.isDigit && isExponent tail)))
    else (isDigits whole && isExponent tail) || (isSixty isDigits whole && tail.isEmpty)

/-- The look of a timestamp. A date alone needs two digits for month and day. -/
def looksTimestamp (cs : List Char) : Bool :=
  match Timestamp.read? cs with
  | some t => t.isPadded || t.time.isSome
  | none => false

/-- The text without a line feed at its end. -/
def withoutBreak (cs : List Char) : List Char :=
  if cs.getLast? = some '\n' then cs.dropLast else cs

/-- The tag of a plain scalar. A line feed at the end does not change the look. -/
def Tag.ofPlain (s : String) : String :=
  let cs := s.toList
  let body := withoutBreak cs
  let text := String.ofList body
  match cs with
  | [] => Tag.null
  | first :: _ =>
    if boolWords.contains text then Tag.bool
    else if looksFloat body then Tag.float
    else if looksInt body then Tag.int
    else if text = "<<" then Tag.merge
    else if first ≠ '\n' ∧ nullWords.contains text then Tag.null
    else if looksTimestamp body then Tag.timestamp
    else if text = "=" then Tag.value
    else if text = "!" ∨ text = "&" ∨ text = "*" then Tag.yaml
    else Tag.str

/-! ## Values -/

/-- A scalar's value, or why its text has none. -/
abbrev Scalar := Except ScalarError

/-- The most digits that a decimal integer is read from. -/
def digitLimit : Nat := 4300

/-- How many digits a decimal integer starts with. -/
def countDigits (cs : List Char) : Nat :=
  (Decimal.takeDigits (Decimal.takeSign (Decimal.plain cs)).2).1.length

/-- The integer a text spells in a base. -/
def intIn (base : Nat) (cs : List Char) : Scalar Int :=
  if base = 10 ∧ digitLimit < countDigits cs then .error (.tooManyDigits (countDigits cs))
  else
    match Decimal.int? base cs with
    | some i => .ok i
    | none => .error (.badInteger base (String.ofList cs))

/-- The value of places in a base, the first the highest. -/
def ofPlaces (base : Int) (places : List Int) : Int :=
  places.foldl (fun n d => n * base + d) 0

def magnitudeOf (cs : List Char) : Scalar Int :=
  match cs with
  | [] => .error .emptyNumber
  | ['0'] => .ok 0
  | '0' :: 'b' :: ds => intIn 2 ds
  | '0' :: 'x' :: ds => intIn 16 ds
  | '0' :: _ => intIn 8 cs
  | _ =>
    if cs.contains ':' then do
      let places ← (cutAt ':' cs).mapM (intIn 10)
      return ofPlaces 60 places
    else intIn 10 cs

def readInt (s : String) : Scalar Value :=
  match s.toList.filter (· != '_') with
  | [] => .error .emptyNumber
  | c :: cs => do
    let i ← magnitudeOf (if c = '-' ∨ c = '+' then cs else c :: cs)
    return .int (if c = '-' then -i else i)

def floatOf (cs : List Char) : Scalar Float :=
  match Decimal.float? cs with
  | some x => .ok x
  | none => .error (.badFloat (String.ofList cs))

/-- The sum of places in base sixty, the last place first; `unit` is its
weight. Every weight has to be below the infinite. -/
def sumSixty : (unit : Nat) → List Float → Float → Scalar Float
  | _, [], sum => .ok sum
  | unit, x :: xs, sum =>
    let weight := Decimal.ofDigits false unit 0
    if weight.isInf then .error .tooLarge else sumSixty (unit * 60) xs (sum + x * weight)

/-- The text of a floating-point scalar in lower case, without underscores. -/
def floatWord (s : String) : List Char :=
  (lower (String.ofList (s.toList.filter (· != '_')))).toList

/-- Whether a floating-point scalar is the standard word for what is not a
number; a sign in front of it does not count. -/
def isNaNWord (s : String) : Bool := afterSign (floatWord s) == ".nan".toList

def readFloat (s : String) : Scalar Value :=
  match floatWord s with
  | [] => .error .emptyNumber
  | c :: cs => do
    let body := afterSign (c :: cs)
    let sign : Float := if c = '-' then -1.0 else 1.0
    let x ←
      if isNaNWord s then return .float (0.0 / 0.0)
      else if body == ".inf".toList then pure (1.0 / 0.0)
      else if body.contains ':' then do
        let places ← (cutAt ':' body).mapM floatOf
        sumSixty 1 places.reverse 0.0
      else floatOf body
    return .float (sign * x)

def readBool (s : String) : Scalar Value :=
  let word := lower s
  if word = "yes" ∨ word = "true" ∨ word = "on" then .ok (.bool true)
  else if word = "no" ∨ word = "false" ∨ word = "off" then .ok (.bool false)
  else .error (.unknownBool word)

def readTimestamp (s : String) : Scalar Value :=
  match Timestamp.read? s.toList with
  | none => .error .notTimestamp
  | some t =>
    match t.time with
    | none =>
      match t.date with
      | .ok d => .ok (.date d)
      | .error e => .error (.badDate e)
    | some c =>
      match t.datetime c with
      | .ok d => .ok (.datetime d)
      | .error e => .error (.badDate e)

end JobChart.Yaml
