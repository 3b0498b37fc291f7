import Mathlib.Data.List.Perm.Basic
import JobChart.Proofs.Chain.Numbering

/-!
# How a compiled chain is wired

What the nodes, edges, exits and skips of a chain have to do with its badges
(`Wired`). Every badge has exactly one way out when it is true: an edge to
the next chain of a series, or an exit. Every badge that can fail has exactly
one way out when it is false: an edge to the next fallback, or a skip.

The ways out are counted as lists of the nodes they leave (`passSources`,
`failSources`), because joining only moves them about: a series turns exits
into edges and keeps the skips, fallbacks turn skips into edges and keep the
exits, and either way the joined lists are a permutation of the lists put one
behind the other.
-/

namespace JobChart

open Chart JobChart.Numbering

/-! ## The two kinds of inner edge -/

/-- The edge that a true node of a series takes to the next chain. -/
def Chart.Edge.isAnd (e : Edge) : Bool := e.label == some "AND" && e.arrow == solid

/-- The edge that a false node takes to the next fallback. -/
def Chart.Edge.isOr (e : Edge) : Bool := e.label == some "OR" && e.arrow == dashed

namespace Chain

/-- The nodes that are left when true, each as often as there is a way. -/
def passSources (c : Chain Node Edge) : List String :=
  (c.links.filter Edge.isAnd).map (·.source) ++ c.exits.map (·.source)

/-- The nodes that are left when false, each as often as there is a way. -/
def failSources (c : Chain Node Edge) : List String :=
  (c.links.filter Edge.isOr).map (·.source) ++ c.skips

/-! ## What joining does to the ways out -/

theorem mem_seriesEdges {e : Edge} : ∀ {cs : List (Chain Node Edge)}, e ∈ seriesEdges cs →
    e.isAnd = true ∧ e.isOr = false ∧ ∃ d ∈ cs, e.target = d.entry
  | [], h => by simp [seriesEdges] at h
  | [_], h => by simp [seriesEdges] at h
  | c :: d :: cs, h => by
      rw [seriesEdges, List.mem_append] at h
      rcases h with h | h
      · obtain ⟨x, -, rfl⟩ := List.mem_map.mp h
        exact ⟨rfl, rfl, d, by simp, rfl⟩
      · obtain ⟨hand, hor, f, hf, ht⟩ := mem_seriesEdges h
        exact ⟨hand, hor, f, List.mem_cons_of_mem _ hf, ht⟩

theorem mem_fallbackEdges {e : Edge} : ∀ {cs : List (Chain Node Edge)},
    e ∈ fallbackEdges cs → e.isAnd = false ∧ e.isOr = true ∧ ∃ d ∈ cs, e.target = d.entry
  | [], h => by simp [fallbackEdges] at h
  | [_], h => by simp [fallbackEdges] at h
  | c :: d :: cs, h => by
      rw [fallbackEdges, List.mem_append] at h
      rcases h with h | h
      · obtain ⟨x, -, rfl⟩ := List.mem_map.mp h
        exact ⟨rfl, rfl, d, by simp, rfl⟩
      · obtain ⟨hand, hor, f, hf, ht⟩ := mem_fallbackEdges h
        exact ⟨hand, hor, f, List.mem_cons_of_mem _ hf, ht⟩

/-- Every exit of a series becomes an edge or stays an exit. -/
theorem seriesEdges_sources : ∀ (c : Chain Node Edge) (cs : List (Chain Node Edge)),
    (seriesEdges (c :: cs)).map (·.source) ++ (cs.getLastD c).exits.map (·.source)
      = (c :: cs).flatMap fun d => d.exits.map (·.source)
  | c, [] => by simp [seriesEdges]
  | c, d :: cs => by
      have ih := seriesEdges_sources d cs
      rw [seriesEdges, List.map_append, List.append_assoc, List.flatMap_cons,
        List.getLastD_cons, ih, List.map_map]
      rfl

/-- Every skip of fallbacks becomes an edge or stays a skip. -/
theorem fallbackEdges_sources : ∀ (c : Chain Node Edge) (cs : List (Chain Node Edge)),
    (fallbackEdges (c :: cs)).map (·.source) ++ (cs.getLastD c).skips
      = (c :: cs).flatMap (·.skips)
  | c, [] => by simp [fallbackEdges]
  | c, d :: cs => by
      have ih := fallbackEdges_sources d cs
      rw [fallbackEdges, List.map_append, List.append_assoc, List.flatMap_cons,
        List.getLastD_cons, ih, skipEdges, List.map_map]
      congr 1
      exact List.map_id _

theorem passSources_joined (k : Connective) (c : Chain Node Edge) (cs : List (Chain Node Edge)) :
    (joined k c cs).passSources.Perm ((c :: cs).flatMap passSources) := by
  have hsplit := (List.flatMap_append_perm (c :: cs)
    (fun d => (d.links.filter Edge.isAnd).map (·.source)) fun d => d.exits.map (·.source))
  cases k with
  | all =>
      have hnew : (seriesEdges (c :: cs)).filter Edge.isAnd = seriesEdges (c :: cs) :=
        List.filter_eq_self.mpr fun e he => (mem_seriesEdges he).1
      refine List.Perm.trans (List.Perm.of_eq ?_) hsplit
      simp only [passSources, joined, series, List.map_id, List.filter_append, List.map_append,
        hnew, List.append_assoc, seriesEdges_sources, List.filter_flatMap, List.map_flatMap]
  | any =>
      have hnew : (fallbackEdges (c :: cs)).filter Edge.isAnd = [] :=
        List.filter_eq_nil_iff.mpr fun e he => by simp [(mem_fallbackEdges he).1]
      refine List.Perm.trans (List.Perm.of_eq ?_) hsplit
      simp only [passSources, joined, fallbacks, List.map_id, List.filter_append, hnew,
        List.append_nil, List.filter_flatMap, List.map_flatMap]

theorem failSources_joined (k : Connective) (c : Chain Node Edge) (cs : List (Chain Node Edge)) :
    (joined k c cs).failSources.Perm ((c :: cs).flatMap failSources) := by
  have hsplit := (List.flatMap_append_perm (c :: cs)
    (fun d => (d.links.filter Edge.isOr).map (·.source)) fun d => d.skips)
  cases k with
  | all =>
      have hnew : (seriesEdges (c :: cs)).filter Edge.isOr = [] :=
        List.filter_eq_nil_iff.mpr fun e he => by simp [(mem_seriesEdges he).2.1]
      refine List.Perm.trans (List.Perm.of_eq ?_) hsplit
      simp only [failSources, joined, series, List.map_id, List.filter_append, hnew,
        List.append_nil, List.filter_flatMap, List.map_flatMap]
  | any =>
      have hnew : (fallbackEdges (c :: cs)).filter Edge.isOr = fallbackEdges (c :: cs) :=
        List.filter_eq_self.mpr fun e he => (mem_fallbackEdges he).2.1
      refine List.Perm.trans (List.Perm.of_eq ?_) hsplit
      simp only [failSources, joined, fallbacks, List.map_id, List.filter_append, List.map_append,
        hnew, List.append_assoc, fallbackEdges_sources, List.filter_flatMap, List.map_flatMap]

/-! ## Wired chains -/

/-- A badge, given by its id and its text, that can be false. -/
def fallible (b : String × String) : Bool := !Badge.isAlways b.2

/-- The chain of these badges, each given by its id and its text: it shows
them in order and is entered at the first, and each has its ways out. -/
structure Wired (bs : List (String × String)) (c : Chain Node Edge) : Prop where
  nodes : c.nodes = bs.map fun b => Badge.node b.1 b.2
  entry : bs.head?.map (·.1) = some c.entry
  pass : c.passSources.Perm (bs.map (·.1))
  fail : c.failSources.Perm ((bs.filter fallible).map (·.1))
  links : ∀ e ∈ c.links, (e.isAnd = true ∨ e.isOr = true) ∧ e.target ∈ bs.map (·.1)
  labels : ∀ x ∈ c.exits, x.label = none ∨ x.label = some "Yes"
  always : c.always = true → c.skips = []

section Wired

variable {bs : List (String × String)} {c : Chain Node Edge}

/-! Every id that a wired chain names is the id of one of its badges. -/

theorem Wired.entry_mem (h : Wired bs c) : c.entry ∈ bs.map (·.1) := by
  have hentry := h.entry
  rw [← List.head?_map] at hentry
  exact List.mem_of_head? hentry

theorem Wired.mem_of_pass (h : Wired bs c) {id : String} (hid : id ∈ c.passSources) :
    id ∈ bs.map (·.1) :=
  h.pass.subset hid

theorem Wired.mem_of_fail (h : Wired bs c) {id : String} (hid : id ∈ c.failSources) :
    id ∈ bs.map (·.1) := by
  obtain ⟨b, hb, rfl⟩ := List.mem_map.mp (h.fail.subset hid)
  exact List.mem_map_of_mem (List.mem_of_mem_filter hb)

theorem Wired.link_source (h : Wired bs c) {e : Edge} (he : e ∈ c.links) :
    e.source ∈ bs.map (·.1) := by
  rcases (h.links e he).1 with hkind | hkind
  · exact h.mem_of_pass (List.mem_append_left _
      (List.mem_map_of_mem (List.mem_filter.mpr ⟨he, hkind⟩)))
  · exact h.mem_of_fail (List.mem_append_left _
      (List.mem_map_of_mem (List.mem_filter.mpr ⟨he, hkind⟩)))

theorem Wired.exit_source (h : Wired bs c) {x : Exit} (hx : x ∈ c.exits) :
    x.source ∈ bs.map (·.1) :=
  h.mem_of_pass (List.mem_append_right _ (List.mem_map_of_mem hx))

theorem Wired.skip_mem (h : Wired bs c) {s : String} (hs : s ∈ c.skips) : s ∈ bs.map (·.1) :=
  h.mem_of_fail (List.mem_append_right _ hs)

end Wired

theorem wired_ofAtom (id text : String) : Wired [(id, text)] (ofAtom id text) where
  nodes := rfl
  entry := rfl
  pass := by simp [passSources, ofAtom]
  fail := by cases h : Badge.isAlways text <;> simp [failSources, ofAtom, fallible, h]
  links := by simp [ofAtom]
  labels := by cases h : Badge.isAlways text <;> simp [ofAtom, h]
  always := by simp [ofAtom]

section Joined

variable {bss : List (List (String × String))} {c : Chain Node Edge}
  {cs : List (Chain Node Edge)}

/-- Where the members of a row are wired, lists taken from the chains and from
their badges agree on the whole row. -/
theorem perm_flatMap_of_wired {f : Chain Node Edge → List String}
    {F : List (String × String) → List String} (happend : ∀ xs ys, F (xs ++ ys) = F xs ++ F ys)
    (hnil : F [] = []) (hf : ∀ bs d, Wired bs d → (f d).Perm (F bs)) :
    ∀ {bss cs}, List.Forall₂ Wired bss cs → (cs.flatMap f).Perm (F bss.flatten)
  | [], [], _ => by simp [hnil]
  | bs :: bss, d :: cs, .cons hd hcs => by
      rw [List.flatMap_cons, List.flatten_cons, happend]
      exact (hf bs d hd).append (perm_flatMap_of_wired happend hnil hf hcs)

theorem nodes_flatMap_of_wired : ∀ {bss cs}, List.Forall₂ Wired bss cs →
    cs.flatMap (·.nodes) = bss.flatten.map fun b => Badge.node b.1 b.2
  | [], [], _ => rfl
  | bs :: bss, d :: cs, .cons hd hcs => by
      rw [List.flatMap_cons, List.flatten_cons, List.map_append, hd.nodes,
        nodes_flatMap_of_wired hcs]

/-- In rows that are related one by one, a member of the second has its partner
in the first. -/
theorem exists_of_mem_right {α β : Type} {R : α → β → Prop} {xs : List α} {ys : List β} {y : β}
    (h : List.Forall₂ R xs ys) (hy : y ∈ ys) : ∃ x ∈ xs, R x y := by
  induction h with
  | nil => cases hy
  | @cons x y' xs ys hxy _ ih =>
      rcases List.mem_cons.mp hy with rfl | hy
      · exact ⟨x, List.mem_cons_self, hxy⟩
      · obtain ⟨x', hx', hR⟩ := ih hy
        exact ⟨x', List.mem_cons_of_mem x hx', hR⟩

/-- A member of a wired row brings its badges into the row. -/
theorem wired_mem {d : Chain Node Edge} (h : List.Forall₂ Wired bss cs) (hd : d ∈ cs) :
    ∃ bs, Wired bs d ∧ ∀ id ∈ bs.map (·.1), id ∈ bss.flatten.map (·.1) := by
  obtain ⟨bs, hbs, hwired⟩ := exists_of_mem_right h hd
  exact ⟨bs, hwired, fun _ hid => ((List.sublist_flatten_of_mem hbs).map _).mem hid⟩

theorem mem_exits_joined {k : Connective} {x : Exit} (h : x ∈ (joined k c cs).exits) :
    ∃ d ∈ c :: cs, x ∈ d.exits := by
  cases k with
  | all => exact ⟨cs.getLastD c, List.getLastD_mem_cons, h⟩
  | any => exact List.mem_flatMap.mp h

theorem mem_skips_joined {k : Connective} {s : String} (h : s ∈ (joined k c cs).skips) :
    ∃ d ∈ c :: cs, s ∈ d.skips := by
  cases k with
  | all => exact List.mem_flatMap.mp h
  | any => exact ⟨cs.getLastD c, List.getLastD_mem_cons, h⟩

theorem mem_links_joined {k : Connective} {e : Edge} (h : e ∈ (joined k c cs).links) :
    (∃ d ∈ c :: cs, e ∈ d.links)
      ∨ (e.isAnd = true ∨ e.isOr = true) ∧ ∃ d ∈ c :: cs, e.target = d.entry := by
  cases k with
  | all =>
      rcases List.mem_append.mp h with h | h
      · exact Or.inl (List.mem_flatMap.mp h)
      · obtain ⟨hand, -, hd⟩ := mem_seriesEdges (by simpa using h)
        exact Or.inr ⟨Or.inl hand, hd⟩
  | any =>
      rcases List.mem_append.mp h with h | h
      · exact Or.inl (List.mem_flatMap.mp h)
      · obtain ⟨-, hor, hd⟩ := mem_fallbackEdges (by simpa using h)
        exact Or.inr ⟨Or.inr hor, hd⟩

theorem skips_joined_of_always {k : Connective} (hskips : ∀ d ∈ c :: cs, d.always = true →
    d.skips = []) (h : (joined k c cs).always = true) : (joined k c cs).skips = [] := by
  cases k with
  | all => exact List.isEmpty_iff.mp h
  | any =>
      have hmem : cs.getLastD c ∈ c :: cs := List.getLastD_mem_cons
      exact hskips (cs.getLastD c) hmem (List.all_eq_true.mp h _ hmem)

/-- Joining keeps chains wired. -/
theorem wired_joined (k : Connective) (h : List.Forall₂ Wired bss (c :: cs)) :
    Wired bss.flatten (joined k c cs) where
  nodes := by rw [nodes_joined, nodes_flatMap_of_wired h]
  entry := by
    obtain ⟨bs, bss', hc, -, rfl⟩ := List.forall₂_cons_right_iff.mp h
    have hentry := hc.entry
    rw [entry_joined, ← hentry]
    cases bs with
    | nil => simp at hentry
    | cons b bs => rfl
  pass := (passSources_joined k c cs).trans
    (perm_flatMap_of_wired (F := fun bs => bs.map (·.1)) (by simp) rfl (fun _ _ hd => hd.pass) h)
  fail := (failSources_joined k c cs).trans
    (perm_flatMap_of_wired (F := fun bs => (bs.filter fallible).map (·.1)) (by simp) rfl
      (fun _ _ hd => hd.fail) h)
  links := by
    intro e he
    rcases mem_links_joined he with ⟨d, hd, hed⟩ | ⟨hkind, d, hd, ht⟩
    · obtain ⟨bs, hbs, hsub⟩ := wired_mem h hd
      exact ⟨(hbs.links e hed).1, hsub _ (hbs.links e hed).2⟩
    · obtain ⟨bs, hbs, hsub⟩ := wired_mem h hd
      exact ⟨hkind, ht ▸ hsub _ hbs.entry_mem⟩
  labels := by
    intro x hx
    obtain ⟨d, hd, hxd⟩ := mem_exits_joined hx
    obtain ⟨bs, hbs, -⟩ := wired_mem h hd
    exact hbs.labels x hxd
  always := skips_joined_of_always fun d hd => by
    obtain ⟨bs, hbs, -⟩ := wired_mem h hd
    exact hbs.always

end Joined

/-- Where the part numbers do not matter, a row of guards and the row of their
chains are related one by one. -/
theorem forall₂_of_eachFrom {Q : Guard → Chain Node Edge → Prop} {n : Int} {gs : List Guard}
    {cs : List (Chain Node Edge)} (h : EachFrom (fun _ => Q) n gs cs) : List.Forall₂ Q gs cs := by
  induction h with
  | nil n => exact .nil
  | cons hc _ ih => exact .cons hc ih

/-- What relates the badges of each guard in a row to its chain relates the
rows: the badges of the whole row, put one behind the other, are numbered in one go. -/
theorem badges_of_eachFrom {R : List (String × String) → Chain Node Edge → Prop} {base : String} :
    ∀ {n : Int} {gs : List Guard} {cs : List (Chain Node Edge)},
      EachFrom (fun n g c => R (badges base n g.atoms) c) n gs cs →
        ∃ bss, List.Forall₂ R bss cs ∧ bss.flatten = badges base n (Guard.atomsEach gs)
  | _, _, _, .nil n => ⟨[], .nil, rfl⟩
  | n, g :: gs, c :: cs, .cons hc hcs => by
      obtain ⟨bss, hbss, hflat⟩ := badges_of_eachFrom hcs
      refine ⟨badges base n g.atoms :: bss, .cons hc hbss, ?_⟩
      rw [List.flatten_cons, hflat, Guard.atomsEach_cons, badges_append]

end Chain

end JobChart
