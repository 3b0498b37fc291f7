import JobChart.Proofs.Chain.Layout

/-!
# Groups in groups of their own kind

A group that is a member of a group of the same kind does not show in the
chain: it is drawn as if its members stood in the outer group themselves. That
holds of any chains, whether they were compiled or not.

Joining reads a row of chains in few ways. Some of it is taken from each member
in order, and the rest from the first or the last of them (`Joins`); and the
edges between two neighbours depend on the ways out of the one and on the entry
of the other, so a row can be cut at each of its members (`between_append`). The
chain of a group has the entry of its first member, the ways out of its last
and what all its members have, so it can stand for them in any row.

Only the order of the links tells: those between the members of the inner group
come with that group, and not behind the links of the whole row.
-/

namespace JobChart.Chain

open Chart

/-- Chains that are drawn alike, up to the order of their links. -/
structure Alike {ν ε : Type} (c d : Chain ν ε) : Prop where
  nodes : c.nodes = d.nodes
  links : c.links.Perm d.links
  entry : c.entry = d.entry
  exits : c.exits = d.exits
  skips : c.skips = d.skips
  always : c.always = d.always

section

variable {ν ε α : Type} {k : Connective} {link : Edge → ε} {c d m z : Chain ν ε}
  {front xs ys zs : List (Chain ν ε)}

/-! ## The edges of a row -/

/-- A row can be cut at each of its members, which then stands on both sides. -/
theorem between_append (k : Connective) (d : Chain ν ε) (ds : List (Chain ν ε)) :
    ∀ cs : List (Chain ν ε),
      between k (cs ++ d :: ds) = between k (cs ++ [d]) ++ between k (d :: ds)
  | [] => by rw [List.nil_append, List.nil_append, between_singleton, List.nil_append]
  | [c] => by
      simp only [List.singleton_append, between_cons_cons, between_singleton, List.append_nil]
  | c :: c' :: cs => by
      have ih := between_append k d ds (c' :: cs)
      simp only [List.cons_append] at ih ⊢
      rw [between_cons_cons, between_cons_cons, ih, List.append_assoc]

/-- Of the last of a row only the entry matters. -/
theorem between_concat_congr (h : c.entry = d.entry) : ∀ cs : List (Chain ν ε),
    between k (cs ++ [c]) = between k (cs ++ [d])
  | [] => by rw [List.nil_append, List.nil_append, between_singleton, between_singleton]
  | [b] => by simp only [List.singleton_append, between_cons_cons, between_singleton, h]
  | b :: b' :: cs => by
      have ih := between_concat_congr h (b' :: cs)
      simp only [List.cons_append] at ih ⊢
      rw [between_cons_cons, between_cons_cons, ih]

/-- Of the first of a row only the ways out matter. -/
theorem between_cons_congr (h : ∀ entry, bridge k c entry = bridge k d entry)
    (cs : List (Chain ν ε)) : between k (c :: cs) = between k (d :: cs) := by
  cases cs with
  | nil => rw [between_singleton, between_singleton]
  | cons b cs => rw [between_cons_cons, between_cons_cons, h]

/-! ## What joining makes of a row -/

/-- What a row has of something: what each of its members has, or its last. -/
def taken (fromEach : Bool) (f : Chain ν ε → List α) (cs : List (Chain ν ε)) : List α :=
  if fromEach then cs.flatMap f else cs.getLast?.elim [] f

/-- The chain that a row with members is joined to. -/
structure Joins (k : Connective) (link : Edge → ε) (cs : List (Chain ν ε)) (c : Chain ν ε) :
    Prop where
  nodes : c.nodes = cs.flatMap (·.nodes)
  links : c.links = cs.flatMap (·.links) ++ (between k cs).map link
  entry : cs.head?.map (·.entry) = some c.entry
  exits : c.exits = taken (k == .any) (·.exits) cs
  skips : c.skips = taken (k == .all) (·.skips) cs
  always : c.always = if k = .all then c.skips.isEmpty else cs.all (·.always)

theorem exists_joins (k : Connective) (link : Edge → ε) (cs : List (Chain ν ε)) (hcs : cs ≠ []) :
    ∃ c, join k link cs = .ok c ∧ Joins k link cs c := by
  obtain ⟨c, cs, rfl⟩ := List.exists_cons_of_ne_nil hcs
  have hlast : (c :: cs).getLast? = some (cs.getLastD c) := by
    rw [List.getLast?_cons, List.getLastD_eq_getLast?]
  cases k with
  | all =>
      have hexits : (series link c cs).exits = (c :: cs).getLast?.elim [] (·.exits) := by
        rw [hlast]
        rfl
      exact ⟨series link c cs, rfl, rfl, rfl, rfl, hexits, rfl, rfl⟩
  | any =>
      have hskips : (fallbacks link c cs).skips = (c :: cs).getLast?.elim [] (·.skips) := by
        rw [hlast]
        rfl
      exact ⟨fallbacks link c cs, rfl, rfl, rfl, rfl, rfl, hskips, rfl⟩

/-! ## A group for its members -/

theorem flatMap_regroup {f : Chain ν ε → List α} (h : f m = ys.flatMap f) :
    (xs ++ [m] ++ zs).flatMap f = (xs ++ ys ++ zs).flatMap f := by
  simp only [List.flatMap_append, List.flatMap_singleton, h]

theorem taken_regroup {fromEach : Bool} {f : Chain ν ε → List α} (hys : ys ≠ [])
    (h : f m = taken fromEach f ys) :
    taken fromEach f (xs ++ [m] ++ zs) = taken fromEach f (xs ++ ys ++ zs) := by
  cases fromEach with
  | true => exact flatMap_regroup h
  | false =>
      obtain ⟨front, z, rfl⟩ := (List.eq_nil_or_concat ys).resolve_left hys
      rcases List.eq_nil_or_concat zs with rfl | ⟨zs, z', rfl⟩
      · simpa [taken] using h
      · simp [taken, ← List.append_assoc]

theorem Joins.entry_regroup (hm : Joins k link ys m) (hc : Joins k link (xs ++ [m] ++ zs) c)
    (hd : Joins k link (xs ++ ys ++ zs) d) (hys : ys ≠ []) : c.entry = d.entry := by
  obtain ⟨y, ys, rfl⟩ := List.exists_cons_of_ne_nil hys
  refine Option.some.inj ?_
  rw [← hc.entry, ← hd.entry]
  cases xs with
  | nil => exact hm.entry.symm
  | cons x xs => rfl

theorem Joins.bridge_eq (hm : Joins k link (front ++ [z]) m) (entry : String) :
    bridge k m entry = bridge k z entry := by
  cases k with
  | all => simp [bridge, hm.exits, taken]
  | any => simp [bridge, skipEdges, hm.skips, taken]

/-- The edges between the members of a group come on top of the edges of a row
that has the group for its members. -/
theorem Joins.between_perm (hm : Joins k link ys m) (hys : ys ≠ []) (xs zs : List (Chain ν ε)) :
    (between k (xs ++ ys ++ zs)).Perm (between k ys ++ between k (xs ++ [m] ++ zs)) := by
  obtain ⟨y, rest, hfirst⟩ := List.exists_cons_of_ne_nil hys
  obtain ⟨front, z, hlast⟩ := (List.eq_nil_or_concat ys).resolve_left hys
  rw [List.concat_eq_append] at hlast
  have hin : between k (xs ++ [m]) = between k (xs ++ [y]) := by
    have hentry := hm.entry
    rw [hfirst] at hentry
    exact between_concat_congr (Option.some.inj hentry).symm xs
  have hout : between k (m :: zs) = between k (z :: zs) :=
    between_cons_congr (hlast ▸ hm).bridge_eq zs
  have hgroup : between k (ys ++ zs) = between k ys ++ between k (m :: zs) := by
    rw [hout, hlast, List.append_assoc, List.singleton_append, between_append]
  have hrow : between k (xs ++ ys ++ zs)
      = between k (xs ++ [m]) ++ (between k ys ++ between k (m :: zs)) := by
    rw [hin, ← hgroup, hfirst, List.append_assoc, List.cons_append, between_append]
  rw [hrow, List.append_assoc, List.singleton_append, between_append k m zs xs]
  exact List.perm_append_comm_assoc _ _ _

theorem Joins.links_regroup (hm : Joins k link ys m) (hc : Joins k link (xs ++ [m] ++ zs) c)
    (hd : Joins k link (xs ++ ys ++ zs) d) (hys : ys ≠ []) : c.links.Perm d.links := by
  have hedges := (hm.between_perm hys xs zs).map link
  simp only [List.map_append, List.append_assoc] at hedges
  rw [hc.links, hd.links]
  simp only [List.flatMap_append, List.flatMap_singleton, hm.links, List.append_assoc]
  -- the links of the group's own edges move behind those of the rest of the row
  refine (((List.perm_append_comm_assoc _ _ _).append_left _).append_left _).trans ?_
  exact ((hedges.symm.append_left _).append_left _).append_left _

/-- **A group in a group of its own kind does not show.** Let chains be joined to
one, and let that stand in a row in which all are joined by the same connective:
what comes of it is drawn as if the chains stood in the row themselves. -/
theorem grouping_invisible (k : Connective) (link : Edge → ε) (xs ys zs : List (Chain ν ε))
    (hys : ys ≠ []) :
    ∃ m c d, join k link ys = .ok m ∧ join k link (xs ++ [m] ++ zs) = .ok c
      ∧ join k link (xs ++ ys ++ zs) = .ok d ∧ Alike c d := by
  obtain ⟨m, hjm, hm⟩ := exists_joins k link ys hys
  obtain ⟨c, hjc, hc⟩ := exists_joins k link (xs ++ [m] ++ zs) (by simp)
  obtain ⟨d, hjd, hd⟩ := exists_joins k link (xs ++ ys ++ zs) (by simp [hys])
  have hskips : c.skips = d.skips := by
    rw [hc.skips, hd.skips]
    exact taken_regroup hys hm.skips
  refine ⟨m, c, d, hjm, hjc, hjd, ?_, hm.links_regroup hc hd hys, hm.entry_regroup hc hd hys,
    ?_, hskips, ?_⟩
  · rw [hc.nodes, hd.nodes]
    exact flatMap_regroup hm.nodes
  · rw [hc.exits, hd.exits]
    exact taken_regroup hys hm.exits
  · rw [hc.always, hd.always, hskips]
    refine ite_congr rfl (fun _ => rfl) fun hk => ?_
    have halways := hm.always
    rw [if_neg hk] at halways
    simp only [List.all_append, List.all_cons, List.all_nil, Bool.and_true, halways]

end

/-- Fallbacks as text, and among them a group with a chain that nothing leaves. -/
theorem grouping_invisible_in_text :
    let link (e : Edge) : String := (Line.edge innerIndent e).text
    let piece (id : String) : Chain String String :=
      ⟨[id ++ " node"], [], id, [⟨id, some "Yes"⟩], [id], false⟩
    let stuck : Chain String String := ⟨["c node"], ["    c --> c"], "c", [], [], true⟩
    [piece "b", stuck] ≠ [] ∧ ∃ m c d, join .any link [piece "b", stuck] = .ok m
      ∧ join .any link ([piece "a"] ++ [m] ++ [piece "d"]) = .ok c
      ∧ join .any link ([piece "a"] ++ [piece "b", stuck] ++ [piece "d"]) = .ok d
      ∧ Alike c d :=
  ⟨List.cons_ne_nil _ _, grouping_invisible .any _ _ _ _ (List.cons_ne_nil _ _)⟩

end JobChart.Chain
