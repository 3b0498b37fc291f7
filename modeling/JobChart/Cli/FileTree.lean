import JobChart.Cli.Path
import JobChart.Text.Quoted

/-!
# Files

All files from the root down, by the parts of their paths, and the directory
that paths without a root start in. A directory is there when it is listed,
when a file is below it, or when paths start in it or below it. There are no
links: `..` leads back to where the part before it was met.

Before a file is written, the directory it goes to is made with what is missing
above it. That is tried from the directory upwards, and only a missing part
makes it go further up. Directories that are made stay, also where the file
cannot be written in the end.
-/

namespace JobChart.Cli

open Text

/-- Files with their bytes, directories, and the directory that paths start in. -/
structure FileTree where
  files : List (List String × List UInt8) := []
  directories : List (List String) := []
  here : List String := []
deriving DecidableEq, Repr

inductive WriteError where
  | isDirectory (path : Path)
  | fileInPlace (path : Path)
  | notDirectory (path : Path)
  | missing (path : Path)
  /-- The path holds the character NUL. -/
  | badPath
deriving DecidableEq, Repr

def WriteError.message : WriteError → String
  | isDirectory p => "[Errno 21] Is a directory: " ++ quoted p.text
  | fileInPlace p => "[Errno 17] File exists: " ++ quoted p.text
  | notDirectory p => "[Errno 20] Not a directory: " ++ quoted p.text
  | missing p => "[Errno 2] No such file or directory: " ++ quoted p.text
  | badPath => "embedded null byte"

namespace FileTree

def file? (t : FileTree) (parts : List String) : Option (List UInt8) := t.files.lookup parts

inductive Occupant where
  | directory
  | file
  | nothing
deriving DecidableEq, Repr

def isDirectory (t : FileTree) (parts : List String) : Bool :=
  (t.here :: t.directories).any (parts.isPrefixOf ·)
    || t.files.any fun f => parts.isPrefixOf f.1 && parts.length < f.1.length

def occupant (t : FileTree) (parts : List String) : Occupant :=
  if t.isDirectory parts then .directory
  else if (t.file? parts).isSome then .file
  else .nothing

/-! ## Paths -/

/-- One part further from a place; nothing is above the root. -/
def step (here : List String) (part : String) : List String :=
  if part = ".." then here.dropLast else here ++ [part]

def start (t : FileTree) (p : Path) : List String := if p.root = "" then t.here else []

/-- Where parts lead from a place, if all in between are directories. -/
def walk (t : FileTree) (here : List String) : List String → Except Occupant (List String)
  | [] => .ok here
  | part :: parts =>
    match t.occupant here with
    | .directory => walk t (step here part) parts
    | other => .error other

/-- The place that a path leads to, or what stands in the way. -/
def find (t : FileTree) (p : Path) : Except Occupant (List String) := t.walk (t.start p) p.parts

def leadsToDirectory (t : FileTree) (p : Path) : Bool :=
  match t.find p with
  | .ok place => t.isDirectory place
  | .error _ => false

def read? (t : FileTree) (p : Path) : Option (List UInt8) :=
  match t.find p with
  | .ok place => if t.isDirectory place then none else t.file? place
  | .error _ => none

/-! ## Directories -/

def makeOne (t : FileTree) (p : Path) : Except WriteError FileTree :=
  match t.find p with
  | .error .nothing => .error (.missing p)
  | .error _ => .error (.notDirectory p)
  | .ok place =>
    match t.occupant place with
    | .nothing => .ok { t with directories := place :: t.directories }
    | _ => .error (.fileInPlace p)

def makeUnlessThere (t : FileTree) (p : Path) : FileTree × Option WriteError :=
  match t.makeOne p with
  | .ok t' => (t', none)
  | .error e => (t, if t.leadsToDirectory p then none else some e)

/-- Makes the directory at a path and what is missing above it. The parts of
the path come with the last one first. -/
def make (t : FileTree) (root : String) : List String → FileTree × Option WriteError
  | [] => (t, none)
  | part :: above =>
    let p : Path := ⟨root, (part :: above).reverse⟩
    match t.makeOne p with
    | .error (.missing _) =>
      match make t root above with
      | (t', some e) => (t', some e)
      | (t', none) => t'.makeUnlessThere p
    | _ => t.makeUnlessThere p

/-! ## Writing -/

/-- The files with the bytes of one put in. -/
def put (parts : List String) (bytes : List UInt8) :
    List (List String × List UInt8) → List (List String × List UInt8)
  | [] => [(parts, bytes)]
  | f :: fs => if f.1 = parts then (parts, bytes) :: fs else f :: put parts bytes fs

/-- Whether a text holds the character NUL, which no path may. -/
def holdsNul (s : String) : Bool := s.toList.contains '\x00'

/-- The place of the file that is opened for writing at a path. -/
def target (t : FileTree) (p : Path) : Except WriteError (List String) :=
  if holdsNul p.name then .error .badPath
  else
    match t.find p with
    | .error .nothing => .error (.missing p)
    | .error _ => .error (.notDirectory p)
    | .ok place => if t.isDirectory place then .error (.isDirectory p) else .ok place

/-- Writes a file, with the directories it needs: the tree after it, and the
failure if there is one. -/
def write (t : FileTree) (p : Path) (bytes : List UInt8) : FileTree × Option WriteError :=
  if p.parent.parts.any holdsNul then (t, some .badPath)
  else
    match t.make p.root p.parent.parts.reverse with
    | (t', some e) => (t', some e)
    | (t', none) =>
      match t'.target p with
      | .error e => (t', some e)
      | .ok place => ({ t' with files := put place bytes t'.files }, none)

/-- The files that are new or differ from those of an earlier tree. -/
def changesSince (before after : FileTree) : List (List String × List UInt8) :=
  after.files.filter fun f => before.file? f.1 ≠ some f.2

end FileTree

end JobChart.Cli
