/-!
# Binary numbers

A finite floating-point number as `mantissa * 2 ^ exponent`, in exact
arithmetic, and the number nearest to a given fraction. A tie between two
neighbours goes to the one with the even mantissa.
-/

namespace JobChart.Decimal

/-- The value `mantissa * 2 ^ exponent`. -/
structure Binary where
  mantissa : Nat
  exponent : Int
deriving DecidableEq, Repr

/-- The least mantissa of fifty-three bits; fifty-two are written. -/
def leastNormal : Nat := Nat.pow 2 52

/-- The bits of the positive infinity. -/
def infinityBits : Nat := 0x7FF * leastNormal

/-- Whether the sign bit is set, also for a zero. -/
def signBit (x : Float) : Bool := x.toBits >>> 63 == 1

def magnitude (x : Float) : Binary :=
  let bits := x.toBits.toNat
  let fraction := bits % leastNormal
  let biased : Nat := bits / leastNormal % 2048
  if biased = 0 then ⟨fraction, -1074⟩ else ⟨fraction + leastNormal, (biased : Int) - 1075⟩

/-- `n * b ^ e` as numerator and denominator. -/
def scaled (n b : Nat) (e : Int) : Nat × Nat :=
  if 0 ≤ e then (n * b.pow e.toNat, 1) else (n, b.pow (-e).toNat)

/-- The integer a number equals, if it equals one. -/
def integer? (x : Float) : Option Int :=
  if x.isFinite then
    let v := magnitude x
    let (n, d) := scaled v.mantissa 2 v.exponent
    if n % d = 0 then some (if signBit x then -(n / d : Nat) else (n / d : Nat)) else none
  else none

/-- The quotient rounded to an integer, a half to the even neighbour. -/
def roundHalfEven (n d : Nat) : Nat :=
  let q := n / d
  let r := 2 * (n % d)
  if d < r ∨ (d = r ∧ q % 2 = 1) then q + 1 else q

/-- The bits of the nonnegative number nearest to `num / den`. -/
def nearestBits (num den : Nat) : Nat :=
  if num = 0 then 0
  else
    let unitsOf (e : Int) : Nat × Nat :=
      if 0 ≤ e then (num, den * Nat.pow 2 e.toNat) else (num * Nat.pow 2 (-e).toNat, den)
    let guess : Int := (num.log2 : Int) - den.log2 - 53
    let (n, d) := unitsOf guess
    let exact := if 2 * leastNormal ≤ n / d then guess + 1 else guess
    let e := max exact (-1074)
    let (n, d) := unitsOf e
    let q := roundHalfEven n d
    let (q, e) := if q = 2 * leastNormal then (leastNormal, e + 1) else (q, e)
    if 971 < e then infinityBits
    else if q < leastNormal then q
    else (e + 1074).toNat * leastNormal + q

/-- The number nearest to `digits * 10 ^ exponent`; out of range it is an
infinity or a zero. -/
def ofDigits (negative : Bool) (digits : Nat) (exponent : Int) : Float :=
  let size : Int := (digits.log2 : Int) / 3
  let bits :=
    if digits = 0 ∨ exponent + size < -800 then 0
    else if 400 < exponent then infinityBits
    else
      let (n, d) := scaled digits 10 exponent
      nearestBits n d
  Float.ofBits (UInt64.ofNat (if negative then 2048 * leastNormal + bits else bits))

end JobChart.Decimal
