import JobChart.Chart.Line
import JobChart.Guard.Basic

/-!
# Chains

A chain is a small piece of graph that stands in front of a job or a step.
It is entered at one node; `exits` lead on to what it guards and `skips` are
the nodes whose failure passes it by.

Chains of an `all` group are joined in series: the exits of each lead to the
entry of the next, and every skip stays a skip. Chains of an `any` group are
joined as fallbacks: the skips of each lead to the entry of the next, every
exit stays an exit, and only the last chain's skips remain.

`ν` is what a node is and `ε` what a link is; joining only concatenates
nodes and asks `link` for the link of a new edge.
-/

namespace JobChart

open Chart

/-- A success exit: the node it leaves and the label of its edge. -/
structure Exit where
  source : String
  label : Option String := none
deriving DecidableEq, Repr

/-- A piece of graph in front of what it guards. -/
structure Chain (ν ε : Type) where
  nodes : List ν
  links : List ε
  entry : String
  exits : List Exit
  skips : List String
  /-- Set on chains that no failure passes by. A node in one may still fail. -/
  always : Bool
deriving DecidableEq, Repr

/-- A group without members has no entry, so nothing can be joined. -/
inductive JoinError where
  | emptyGroup
deriving DecidableEq, Repr

def JoinError.message : JoinError → String
  | .emptyGroup => "list index out of range"

namespace Chain

variable {ν ε : Type}

/-- The edges into `target` from the chain's exits. -/
def exitEdges (c : Chain ν ε) (target : String) : List Edge :=
  c.exits.map fun x => ⟨x.source, target, x.label, solid⟩

/-- The edges into `target` from the chain's skips. -/
def skipEdges (c : Chain ν ε) (target label : String) : List Edge :=
  c.skips.map fun s => ⟨s, target, some label, dashed⟩

/-- The edges between neighbours of a series: each exit to the next entry. -/
def seriesEdges : List (Chain ν ε) → List Edge
  | c :: d :: cs =>
    (c.exits.map fun x => ⟨x.source, d.entry, some "AND", solid⟩) ++ seriesEdges (d :: cs)
  | _ => []

/-- The edges between neighbours of fallbacks: each skip to the next entry. -/
def fallbackEdges : List (Chain ν ε) → List Edge
  | c :: d :: cs => c.skipEdges d.entry "OR" ++ fallbackEdges (d :: cs)
  | _ => []

/-- Chains in series: every one must pass. -/
def series (link : Edge → ε) (c : Chain ν ε) (cs : List (Chain ν ε)) : Chain ν ε :=
  let all := c :: cs
  let skips := all.flatMap (·.skips)
  { nodes := all.flatMap (·.nodes)
    links := all.flatMap (·.links) ++ (seriesEdges all).map link
    entry := c.entry
    exits := (cs.getLastD c).exits
    skips := skips
    always := skips.isEmpty }

/-- Chains as fallbacks: the first one to pass wins. -/
def fallbacks (link : Edge → ε) (c : Chain ν ε) (cs : List (Chain ν ε)) : Chain ν ε :=
  let all := c :: cs
  { nodes := all.flatMap (·.nodes)
    links := all.flatMap (·.links) ++ (fallbackEdges all).map link
    entry := c.entry
    exits := all.flatMap (·.exits)
    skips := (cs.getLastD c).skips
    always := all.all (·.always) }

/-- The chains of a group's members joined by its connective. -/
def join (k : Connective) (link : Edge → ε) : List (Chain ν ε) → Except JoinError (Chain ν ε)
  | [] => .error .emptyGroup
  | c :: cs =>
    match k with
    | .all => .ok (series link c cs)
    | .any => .ok (fallbacks link c cs)

end Chain

end JobChart
