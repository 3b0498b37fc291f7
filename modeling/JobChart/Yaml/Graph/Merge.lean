import JobChart.Yaml.Graph

/-!
# Merging

An entry of a mapping may ask that other mappings be merged into it. It is
replaced by the entries of those, which come in front of the mapping's own,
so that the own ones count. A mapping that is merged into another is itself
merged first.

Merging changes the graph: once a mapping is merged, it is so wherever it is
met again.
-/

namespace JobChart.Yaml

/-- Changes of a graph that may fail. -/
abbrev Merging := StateT Graph (Except Failure)

namespace Graph

/-- The entries in front of the first one that merges, what it merges, and
the entries behind it. -/
def splitMerge? (g : Graph) : Entries → Option (Entries × NodeId × Entries)
  | [] => none
  | (k, v) :: es =>
    if g.tag k = Tag.merge then some ([], v, es)
    else (g.splitMerge? es).map fun r => ((k, v) :: r.1, r.2)

/-- A key that stands for its mapping becomes an ordinary text. -/
def plainKeys (g : Graph) (es : Entries) : Graph :=
  es.foldl (fun g e => if g.tag e.1 = Tag.value then g.setTag e.1 Tag.str else g) g

mutual

/-- Merges into a mapping all that its entries ask for; `found` is what the
entries before asked for. -/
def mergeInto : (fuel : Nat) → (found : Entries) → NodeId → Merging Unit
  | 0, _, _ => return ()
  | fuel + 1, found, i => do
    let g ← get
    match g.splitMerge? (g.entries i) with
    | none =>
      let es := found ++ g.entries i
      set ((g.setContent i (.mapping es)).plainKeys es)
    | some (front, v, rest) =>
      set (g.setContent i (.mapping (front ++ rest)))
      let more ← mergeSource fuel v
      mergeInto fuel (found ++ more) i

/-- The entries that a node brings in when it is merged. Of several mappings
the first counts most, so it comes last. -/
def mergeSource : (fuel : Nat) → NodeId → Merging Entries
  | 0, _ => return []
  | fuel + 1, v => do
    let n := (← get).node v
    match n.content with
    | .mapping _ => mergedEntries fuel v
    | .sequence items =>
      let parts ← items.mapM fun i => do
        let item := (← get).node i
        match item.content with
        | .mapping _ => mergedEntries fuel i
        | c => throw (.problem (.badMergeItem c.kind) item.start)
      return parts.reverse.flatten
    | .scalar _ => throw (.problem (.badMerge n.content.kind) n.start)

/-- The entries of a mapping once it is merged. -/
def mergedEntries : (fuel : Nat) → NodeId → Merging Entries
  | 0, _ => return []
  | fuel + 1, i => do
    mergeInto fuel [] i
    return (← get).entries i

end

/-- Merges a mapping. Every merge takes an entry away that no other puts
back, so the number of entries bounds the depth. -/
def merge (bound : Nat) (i : NodeId) : Merging Unit := mergeInto (3 * bound + 1) [] i

end Graph

end JobChart.Yaml
