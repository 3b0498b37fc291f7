import JobChart.Text.Join

/-!
# Paths

Paths with slashes. Empty parts and parts `.` say nothing and are left out;
`..` stays, since where it leads depends on the files.
-/

namespace JobChart.Cli

open Text

/-- A path: the slashes it begins with, and its parts. -/
structure Path where
  root : String
  parts : List String
deriving DecidableEq, Repr

namespace Path

/-- The slashes a path begins with; three or more count as one. -/
def rootOf : List Char → String
  | '/' :: '/' :: '/' :: _ => "/"
  | '/' :: '/' :: _ => "//"
  | '/' :: _ => "/"
  | _ => ""

def ofText (s : String) : Path :=
  let parts := (cutAt '/' s.toList).map String.ofList
  ⟨rootOf s.toList, parts.filter fun p => p ≠ "" ∧ p ≠ "."⟩

/-- The text of a path; the empty path is `.`. -/
def text (p : Path) : String :=
  if p.root = "" ∧ p.parts = [] then "." else p.root ++ joinWith "/" p.parts

def name (p : Path) : String := p.parts.getLastD ""

def parent (p : Path) : Path := { p with parts := p.parts.dropLast }

/-- The last part without what follows its last dot. A dot at either end of
the part does not count. -/
def stem (p : Path) : String :=
  let rest := p.name.toList.reverse
  let ending := rest.takeWhile (· != '.')
  match rest.dropWhile (· != '.') with
  | _ :: c :: cs => if ending.isEmpty then p.name else String.ofList (c :: cs).reverse
  | _ => p.name

end Path

end JobChart.Cli
