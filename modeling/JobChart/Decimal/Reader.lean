import JobChart.Decimal.Binary
import JobChart.Text.Blank
import JobChart.Text.DecimalDigit

/-!
# Reading numbers

Numbers from their text: integers in a base up to thirty-six, and
floating-point numbers in positional or scientific form, each rounded to the
nearest one there is. Blanks around the text do not count, the separator
controls apart, and decimal digits may be of any script.
-/

namespace JobChart.Decimal

open Text

/-! ## Characters -/

/-- A blank that may stand around a number. -/
def isPadding (c : Char) : Bool := isBlank c && !(28 ≤ c.toNat && c.toNat ≤ 31)

/-- The text of a number without the blanks around it, its decimal digits
written in ASCII. -/
def plain (cs : List Char) : List Char :=
  let body := ((cs.dropWhile isPadding).reverse.dropWhile isPadding).reverse
  body.map fun c =>
    match decimalDigit? c with
    | some d => Char.ofNat ('0'.toNat + d)
    | none => c

/-- Splits off a sign; without one the number is not negative. -/
def takeSign : List Char → Bool × List Char
  | '-' :: cs => (true, cs)
  | '+' :: cs => (false, cs)
  | cs => (false, cs)

/-- The value of a digit, a letter counting from ten on. -/
def digit? (c : Char) : Option Nat :=
  let n := c.toLower.toNat
  if c.isDigit then some (n - '0'.toNat)
  else if 'a'.toNat ≤ n ∧ n ≤ 'z'.toNat then some (n - 'a'.toNat + 10)
  else none

/-! ## Integers -/

/-- The number these digits spell in a base, if all of them are digits of it. -/
def natOf? (base : Nat) (cs : List Char) : Option Nat :=
  cs.foldlM (fun n c => (digit? c).bind fun d => if d < base then some (n * base + d) else none) 0

/-- The letter that may stand behind a zero in front of the digits of a base. -/
def baseMark? : Nat → Option Char
  | 2 => some 'b'
  | 8 => some 'o'
  | 16 => some 'x'
  | _ => none

/-- The digits behind the mark of the base, when it stands there. -/
def dropMark (base : Nat) : List Char → List Char
  | '0' :: c :: cs => if baseMark? base = some c.toLower then cs else '0' :: c :: cs
  | cs => cs

/-- The integer a text spells in a base. -/
def int? (base : Nat) (cs : List Char) : Option Int :=
  let (negative, body) := takeSign (plain cs)
  match dropMark base body with
  | [] => none
  | ds => (natOf? base ds).map fun n => if negative then -(n : Int) else n

/-! ## Floating-point numbers -/

def takeDigits (cs : List Char) : List Char × List Char :=
  (cs.takeWhile Char.isDigit, cs.dropWhile Char.isDigit)

/-- The exponent a text ends with, zero when there is none. -/
def exponent? : List Char → Option Int
  | [] => some 0
  | c :: cs =>
    if c = 'e' ∨ c = 'E' then
      let (negative, ds) := takeSign cs
      match ds with
      | [] => none
      | ds =>
        (natOf? 10 ds).map fun n => if negative then -(n : Int) else n
    else none

def float? (cs : List Char) : Option Float :=
  let (negative, body) := takeSign (plain cs)
  let word := String.ofList (body.map Char.toLower)
  if word = "inf" ∨ word = "infinity" then some (if negative then -(1.0 / 0.0) else 1.0 / 0.0)
  else if word = "nan" then some (0.0 / 0.0)
  else
    let (whole, rest) := takeDigits body
    let (fraction, rest) := match rest with
      | '.' :: rest => takeDigits rest
      | rest => ([], rest)
    if whole.isEmpty && fraction.isEmpty then none
    else do
      let e ← exponent? rest
      let n ← natOf? 10 (whole ++ fraction)
      return ofDigits negative n (e - fraction.length)

end JobChart.Decimal
