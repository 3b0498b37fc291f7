import JobChart.Guard.Basic
import JobChart.Text.Join

/-!
# Printing a guard

A group is its members with the operator between them. A member stands bare
when it is an atom, or when it is an `all` group inside an `any` group,
since `&&` binds tighter; any other group is put into parentheses.
-/

namespace JobChart.Guard

open Text

/-- Whether a member needs no parentheses inside a group. -/
def standsBare : Connective → Guard → Bool
  | _, atom _ => true
  | .any, all _ => true
  | .all, all _ => false
  | _, any _ => false

mutual

def text : Guard → String
  | atom t => t
  | all gs => joinWith " && " (memberTexts .all gs)
  | any gs => joinWith " || " (memberTexts .any gs)

/-- The texts of the members of a group, in parentheses where needed. -/
def memberTexts (k : Connective) : List Guard → List String
  | [] => []
  | g :: gs =>
    (if standsBare k g then g.text else "(" ++ g.text ++ ")") :: memberTexts k gs

end

end JobChart.Guard
