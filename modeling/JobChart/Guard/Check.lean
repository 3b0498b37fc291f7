import JobChart.Text.Blank

/-!
# Checks on a guard's text

Two things that are likely slips: parentheses that do not pair up, and an
operator that lacks an operand. Both look at the text with its `'...'`
literals blanked out, so what stands inside a literal does not count.
-/

namespace JobChart.Guard

open Text

/-- Blanks out what stands inside `'...'`; the quotes stay. -/
def blankLiterals : (inside : Bool) → List Char → List Char
  | _, [] => []
  | inside, c :: cs =>
    if c = '\'' then c :: blankLiterals (!inside) cs
    else (if inside then ' ' else c) :: blankLiterals inside cs

def unquoted (text : String) : String := String.ofList (blankLiterals false text.toList)

/-- From this depth the parentheses pair up: no `)` comes too early and none
is missing at the end. -/
def balancedFrom : Nat → List Char → Bool
  | depth, [] => depth = 0
  | depth, c :: cs =>
    if c = '(' then balancedFrom (depth + 1) cs
    else if c = ')' then
      match depth with
      | 0 => false
      | depth + 1 => balancedFrom depth cs
    else balancedFrom depth cs

/-- The parentheses outside literals pair up. -/
def balanced (text : String) : Bool := balancedFrom 0 (unquoted text).toList

/-- Whether an operator starts here. -/
def startsOperator : List Char → Bool
  | '&' :: '&' :: _ => true
  | '|' :: '|' :: _ => true
  | _ => false

/-- Whether an operand is missing where this text goes on after an operator:
at the end, before a `)` or before another operator. -/
def endsOperand (cs : List Char) : Bool :=
  match trimStart cs with
  | [] => true
  | c :: cs => c == ')' || startsOperator (c :: cs)

/-- Whether a `(` is followed by an operator, or an operator by no operand. -/
def hasGap : List Char → Bool
  | [] => false
  | c :: cs =>
    (c == '(' && startsOperator (trimStart cs))
      || (startsOperator (c :: cs) && endsOperand (cs.drop 1))
      || hasGap cs

/-- An operator outside literals lacks an operand on one of its sides. -/
def lacksOperand (text : String) : Bool :=
  let cs := (unquoted text).toList
  startsOperator (trimStart cs) || hasGap cs

end JobChart.Guard
