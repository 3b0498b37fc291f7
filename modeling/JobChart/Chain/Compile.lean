import JobChart.Badge
import JobChart.Chain.Basic
import JobChart.Guard.Parser

/-!
# The chain of a guard

Every atom of a guard becomes one badge, and every group joins the chains of
its members. The badges of one guard are numbered from left to right by a
running part number, which keeps what it counted when a group turns out to be
empty. The count may start anywhere, below zero too.

A guard that is a single atom keeps the base id for its badge; the badges of
a group are called `<base>_p0`, `<base>_p1` and so on.
-/

namespace JobChart

open Text Chart

/-- Work that numbers parts: the part number survives a failure. -/
abbrev Numbering := ExceptT JoinError (StateM Int)

namespace Numbering

/-- The id of part number `n`. -/
def partId (base : String) (n : Int) : String := base ++ "_p" ++ toString n

def nextId (base : String) : Numbering String := do
  let n ← get
  set (n + 1)
  return partId base n

/-- The outcome and the part number reached, counting from `start`. -/
def runFrom {α : Type} (start : Int) (work : Numbering α) : Except JoinError α × Int :=
  (ExceptT.run work).run start

end Numbering

namespace Chain

/-- The chain of one atom: its badge passes on `Yes`, or always. -/
def ofAtom (id text : String) : Chain Node Edge :=
  let always := Badge.isAlways text
  { nodes := [Badge.node id text]
    links := []
    entry := id
    exits := [⟨id, if always then none else some "Yes"⟩]
    skips := if always then [] else [id]
    always := always }

/-- The chains of a group's members joined, or the failure of an empty group. -/
def joinChains (k : Connective) (cs : List (Chain Node Edge)) : Numbering (Chain Node Edge) :=
  ExceptT.mk (pure (join k id cs))

mutual

/-- The chain of a guard, its atoms numbered under `base`. -/
def compile (base : String) : Guard → Numbering (Chain Node Edge)
  | .atom t => return ofAtom (← Numbering.nextId base) t
  | .all gs => do joinChains .all (← compileEach base gs)
  | .any gs => do joinChains .any (← compileEach base gs)

def compileEach (base : String) : List Guard → Numbering (List (Chain Node Edge))
  | [] => return []
  | g :: gs => do
    let c ← compile base g
    let cs ← compileEach base gs
    return c :: cs

end

def ofText (base text : String) : Except JoinError (Chain Node Edge) :=
  match Guard.parse (strip text) with
  | .atom t => .ok (ofAtom base t)
  | g => (Numbering.runFrom 0 (compile base g)).1

def lines (indent : String) (c : Chain Node Edge) : List Line :=
  c.nodes.map (Line.node indent) ++ c.links.map (Line.edge indent)

end Chain

end JobChart
