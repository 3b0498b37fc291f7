import JobChart.Text.Blank

/-!
# Parentheses

Which `)` closes a `(`, and the removal of parentheses that wrap a whole
text. `closing` walks a text with a running depth; the offset it answers is
where the depth comes back to zero.

`stripOuter` takes off one wrapping pair after another. The parentheses of a
call such as `f()` stay, and so do those of `(a) && (b)`, since the first
`(` is not closed by the last character there.
-/

namespace JobChart.Guard

open Text

/-! ## Matching -/

/-- The offset of the `)` that brings the running depth to zero. -/
def closing : Int → List Char → Option Nat
  | _, [] => none
  | depth, c :: cs =>
    if c = '(' then (closing (depth + 1) cs).map (· + 1)
    else if c = ')' then
      if depth = 1 then some 0 else (closing (depth - 1) cs).map (· + 1)
    else (closing depth cs).map (· + 1)

/-- The position of the `)` that closes the `(` at `start`. -/
def closingAt (cs : List Char) (start : Nat) : Option Nat :=
  (closing 0 (cs.drop start)).map (· + start)

/-- The start of a walk lies before the first character. -/
inductive StartError where
  | beforeText
deriving DecidableEq, Repr

def StartError.message : StartError → String
  | .beforeText => "string index out of range"

/-- `closingAt` from a start that may count back from the end of the text: a
walk from `-k` goes over the last `k` characters, then over the whole text,
and a position found among those `k` is given as counted back too. -/
def closingFrom (cs : List Char) (start : Int) : Except StartError (Option Int) :=
  if 0 ≤ start then .ok ((closingAt cs start.toNat).map Int.ofNat)
  else if start < -(cs.length : Int) then .error .beforeText
  else
    let walk := cs.drop (cs.length - (-start).toNat) ++ cs
    .ok ((closing 0 walk).map fun i => start + i)

/-! ## Wrapping pairs -/

/-- What is inside when the text starts with a `(` that its last character
closes, and the inside is not blank. Blanks around the inside are dropped. -/
def peel? : List Char → Option (List Char)
  | [] => none
  | c :: cs =>
    if c = '(' ∧ closing 0 (c :: cs) = some cs.length then
      match trim cs.dropLast with
      | [] => none
      | d :: ds => some (d :: ds)
    else none

theorem length_peel?_lt {cs ds : List Char} (h : peel? cs = some ds) :
    ds.length < cs.length := by
  cases cs with
  | nil => simp [peel?] at h
  | cons c cs =>
    have hle := length_trim_le cs.dropLast
    simp only [List.length_dropLast] at hle
    rw [peel?] at h
    split at h
    · split at h
      · cases h
      · next heq =>
        cases h
        rw [heq] at hle
        simp only [List.length_cons] at hle ⊢
        omega
    · cases h

/-- The text without the blanks around it and without the pairs that wrap it. -/
def stripOuter (cs : List Char) : List Char :=
  match _h : peel? (trim cs) with
  | none => trim cs
  | some inner => stripOuter inner
termination_by cs.length
decreasing_by exact Nat.lt_of_lt_of_le (length_peel?_lt _h) (length_trim_le cs)

theorem stripOuter_of_none {cs : List Char} (h : peel? (trim cs) = none) :
    stripOuter cs = trim cs := by
  rw [stripOuter]; split <;> simp_all

theorem stripOuter_of_some {cs ds : List Char} (h : peel? (trim cs) = some ds) :
    stripOuter cs = stripOuter ds := by
  rw [stripOuter]; split <;> simp_all

theorem length_stripOuter_le (cs : List Char) : (stripOuter cs).length ≤ cs.length := by
  fun_induction stripOuter cs with
  | case1 cs _ => exact length_trim_le cs
  | case2 cs ds h ih =>
    have := length_peel?_lt h
    have := length_trim_le cs
    omega

end JobChart.Guard
