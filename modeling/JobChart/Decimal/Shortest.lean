import JobChart.Decimal.Binary

/-!
# Shortest decimals

The decimal with the fewest digits that still rounds to a given binary
number; of two such decimals the nearer one, and of two equally near ones
the one with the even last digit.

For each count of digits from one on, the two decimals of that many digits
next to the number are tried in exact arithmetic. Seventeen digits always
suffice.
-/

namespace JobChart.Decimal

/-- The value `digits * 10 ^ exponent`. -/
structure Number where
  digits : Nat
  exponent : Int
deriving DecidableEq, Repr

/-- The least `k` from `start` on with `den ≤ num * 10 ^ k`, within `fuel` steps. -/
def leadingZeros (num den : Nat) : (fuel start : Nat) → Nat
  | 0, k => k
  | fuel + 1, k => if den ≤ num * Nat.pow 10 k then k else leadingZeros num den fuel (k + 1)

/-- The exponent of the leading digit of `num / den`. -/
def leadingExponent (num den : Nat) : Int :=
  if den ≤ num then (Nat.toDigits 10 (num / den)).length - 1
  else -(leadingZeros num den 400 1 : Nat)

/-- The numbers that round to `v`, times four and without the power of two:
the ends, and whether they belong. Below a power of two the neighbour is
nearer by half. -/
def roundingEnds (v : Binary) : Nat × Nat × Bool :=
  let m := v.mantissa
  let low := if m = leastNormal ∧ -1074 < v.exponent then 4 * m - 1 else 4 * m - 2
  (low, 4 * m + 2, m % 2 = 0)

/-- The better of the two decimals next to `v` on the grid `10 ^ k`, if one
of them rounds to `v`. -/
def onGrid? (v : Binary) (k : Int) : Option Nat :=
  let (low, high, ends) := roundingEnds v
  let (a, b) := scaled 1 2 (v.exponent - 2)
  let (p, q) := scaled 1 10 (-k)
  -- `x * unit / whole` is the place on the grid of `x` quarters of the last binary place
  let unit := a * p
  let whole := b * q
  let here := 4 * v.mantissa * unit
  let d := here / whole
  let hits (c : Nat) : Bool :=
    let c := c * whole
    if ends then low * unit ≤ c && c ≤ high * unit else low * unit < c && c < high * unit
  let below := here - d * whole
  let above := (d + 1) * whole - here
  match hits d, hits (d + 1) with
  | true, true =>
    some (if below < above ∨ (below = above ∧ d % 2 = 0) then d else d + 1)
  | true, false => some d
  | false, true => some (d + 1)
  | false, false => none

/-- The first hit when one digit more is tried at each of `fuel` steps. -/
def firstHit (v : Binary) : (fuel : Nat) → (k : Int) → Number
  | 0, _ => ⟨0, 0⟩
  | fuel + 1, k =>
    match onGrid? v k with
    | some d => ⟨d, k⟩
    | none => firstHit v fuel (k - 1)

/-- The shortest decimal that rounds to `v`. -/
def shortest (v : Binary) : Number :=
  if v.mantissa = 0 then ⟨0, 0⟩
  else
    let (n, d) := scaled v.mantissa 2 v.exponent
    firstHit v 18 (leadingExponent n d)

end JobChart.Decimal
