/-!
# Guards

A guard is the condition in front of a job or a step. Only its boolean
shape matters here: `all` and `any` groups over atoms, and an atom keeps its
text as written.

The two connectives bind differently: `any` (written `||`) is the loosest,
`all` (written `&&`) binds tighter.
-/

namespace JobChart

/-- A condition: an atom with its text, or a group of conditions. -/
inductive Guard where
  | atom (text : String)
  | all (guards : List Guard)
  | any (guards : List Guard)
deriving Repr, Inhabited

/-- How a group joins its members. -/
inductive Connective where
  | all
  | any
deriving DecidableEq, Repr

namespace Connective

def symbol : Connective → String
  | all => "&&"
  | any => "||"

def group : Connective → List Guard → Guard
  | all => .all
  | any => .any

end Connective

namespace Guard

/-! ## Equality -/

mutual

def decEq : (g h : Guard) → Decidable (g = h)
  | atom t, atom u => decidable_of_iff (t = u) (by simp)
  | all gs, all hs =>
    match decEqEach gs hs with
    | isTrue h => isTrue (by rw [h])
    | isFalse h => isFalse (by simpa using h)
  | any gs, any hs =>
    match decEqEach gs hs with
    | isTrue h => isTrue (by rw [h])
    | isFalse h => isFalse (by simpa using h)
  | atom _, all _ | atom _, any _ | all _, atom _ | all _, any _ | any _, atom _ | any _, all _ =>
    isFalse (by simp)

def decEqEach : (gs hs : List Guard) → Decidable (gs = hs)
  | [], [] => isTrue rfl
  | g :: gs, h :: hs =>
    match decEq g h, decEqEach gs hs with
    | isTrue h₁, isTrue h₂ => isTrue (by rw [h₁, h₂])
    | isFalse h₁, _ => isFalse (by simp [h₁])
    | _, isFalse h₂ => isFalse (by simp [h₂])
  | [], _ :: _ | _ :: _, [] => isFalse (by simp)

end

instance : DecidableEq Guard := decEq

/-! ## Atoms -/

def isAtom : Guard → Bool
  | atom _ => true
  | all _ => false
  | any _ => false

mutual

def atoms : Guard → List String
  | atom t => [t]
  | all gs => atomsEach gs
  | any gs => atomsEach gs

def atomsEach : List Guard → List String
  | [] => []
  | g :: gs => g.atoms ++ atomsEach gs

end

end Guard

end JobChart
