import JobChart.Decimal.Shortest

/-!
# Writing a floating-point number

How the digits of a number are laid out: with the point in place while the
exponent of the leading digit is within a range, in scientific form outside
of it. The digits are the fewest that read back.
-/

namespace JobChart.Decimal

structure Layout where
  /-- The least exponent of the leading digit that is written with the point in place. -/
  lowest : Int
  /-- The greatest such exponent. -/
  highest : Int
  /-- The least number of digits of a written exponent. -/
  exponentWidth : Nat
  notANumber : String
  infinity : String
deriving DecidableEq, Repr

/-- Numbers in documents: the point in place from `0.0001` up to below `10 ^ 16`. -/
def Layout.document : Layout := ⟨-4, 15, 2, "nan", "inf"⟩

/-- The text of digits without trailing zeros, with the exponent of the leading one. -/
def significant (d : Number) : List Char × Int :=
  let ds := Nat.toDigits 10 d.digits
  let kept := (ds.reverse.dropWhile (· == '0')).reverse
  (if kept.isEmpty then ['0'] else kept, d.exponent + ds.length - 1)

/-- The digits with the point in place, at least one digit on each side. -/
def positional (ds : List Char) (lead : Int) : List Char :=
  if lead < 0 then
    '0' :: '.' :: List.replicate ((-lead).toNat - 1) '0' ++ ds
  else
    let whole := lead.toNat + 1
    let padded := ds ++ List.replicate (whole - ds.length) '0'
    let rest := padded.drop whole
    padded.take whole ++ '.' :: (if rest.isEmpty then ['0'] else rest)

/-- The digits in scientific form; a lone digit has no point. -/
def scientific (l : Layout) (ds : List Char) (lead : Int) : List Char :=
  let mark := if lead < 0 then '-' else '+'
  let exponent := Nat.toDigits 10 lead.natAbs
  let padding := List.replicate (l.exponentWidth - exponent.length) '0'
  let body := match ds with
    | [] => []
    | [d] => [d]
    | d :: ds => d :: '.' :: ds
  body ++ 'e' :: mark :: padding ++ exponent

def Layout.write (l : Layout) (x : Float) : String :=
  if x.isNaN then l.notANumber
  else
    let sign := if signBit x then "-" else ""
    if x.isInf then sign ++ l.infinity
    else
      let (ds, lead) := significant (shortest (magnitude x))
      sign ++ String.ofList
        (if l.lowest ≤ lead ∧ lead ≤ l.highest then positional ds lead
         else scientific l ds lead)

end JobChart.Decimal
