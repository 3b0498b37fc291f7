import JobChart.Guard.Basic
import JobChart.Guard.Parens
import JobChart.Guard.Split

/-!
# Reading a guard

A guard's text is read by its boolean structure alone: blanks and wrapping
parentheses go, then the text is split at `||`, and if that gives fewer than
two parts, at `&&`. What neither splits is an atom. No text is refused: an
unbalanced parenthesis or an operator without an operand ends up inside an
atom.
-/

namespace JobChart.Guard

open Text

/-- The members and the connective of a group, when the text is one. -/
def groupParts? (body : List Char) : Option (Connective × List (List Char)) :=
  let parts (k : Connective) := splitTop k.symbol.toList body
  if 2 ≤ (parts .any).length then some (.any, parts .any)
  else if 2 ≤ (parts .all).length then some (.all, parts .all)
  else none

theorem length_lt_of_mem_groupParts {body p : List Char} {k : Connective}
    {parts : List (List Char)} (h : groupParts? body = some (k, parts)) (hp : p ∈ parts) :
    p.length < body.length := by
  simp only [groupParts?] at h
  split at h
  · next h2 => cases h; exact length_lt_of_mem_splitTop h2 hp
  · split at h
    · next h2 => cases h; exact length_lt_of_mem_splitTop h2 hp
    · cases h

/-- The guard a text stands for. -/
def ofChars (cs : List Char) : Guard :=
  match _h : groupParts? (stripOuter cs) with
  | none => atom (String.ofList (stripOuter cs))
  | some (k, parts) => k.group (parts.attach.map fun p => ofChars p.1)
termination_by cs.length
decreasing_by
  exact Nat.lt_of_lt_of_le (length_lt_of_mem_groupParts _h p.2) (length_stripOuter_le cs)

/-- The guard a text stands for. -/
def parse (text : String) : Guard := ofChars text.toList

theorem ofChars_of_none {cs : List Char} (h : groupParts? (stripOuter cs) = none) :
    ofChars cs = atom (String.ofList (stripOuter cs)) := by
  rw [ofChars]; split <;> simp_all

theorem ofChars_of_some {cs : List Char} {k : Connective} {parts : List (List Char)}
    (h : groupParts? (stripOuter cs) = some (k, parts)) :
    ofChars cs = k.group (parts.map ofChars) := by
  rw [ofChars]; split
  · simp_all
  · next k' parts' h' =>
    rw [h] at h'
    cases h'
    simp

end JobChart.Guard
