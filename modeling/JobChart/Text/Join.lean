/-!
# Joining and cutting texts

Texts put together with a separator between them, and a text cut at every
occurrence of one character.
-/

namespace JobChart.Text

/-- The texts in order, with `sep` between neighbours. -/
def joinWith (sep : String) : List String → String
  | [] => ""
  | [s] => s
  | s :: t :: rest => s ++ sep ++ joinWith sep (t :: rest)

/-- The pieces between the occurrences of `c`, at least one. -/
def cutAt (c : Char) : List Char → List (List Char)
  | [] => [[]]
  | d :: ds =>
    if d = c then [] :: cutAt c ds
    else match cutAt c ds with
      | [] => [[d]]
      | p :: ps => (d :: p) :: ps

theorem cutAt_ne_nil (c : Char) (cs : List Char) : cutAt c cs ≠ [] := by
  cases cs with
  | nil => simp [cutAt]
  | cons d ds =>
    rw [cutAt]
    split
    · simp
    · split <;> simp

def firstPiece (c : Char) (s : String) : String :=
  String.ofList (s.toList.takeWhile (· ≠ c))

def cut (n : Nat) (s : String) : String := String.ofList (s.toList.take n)

/-- `s` without what it starts with, when it starts with `lead`. -/
def dropLead? : (lead s : List Char) → Option (List Char)
  | [], s => some s
  | _ :: _, [] => none
  | a :: lead, b :: s => if a = b then dropLead? lead s else none

end JobChart.Text
