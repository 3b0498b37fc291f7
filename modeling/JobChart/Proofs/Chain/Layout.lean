import Mathlib.Data.List.Nodup
import JobChart.Proofs.Chain.Wiring

/-!
# The layout of a chain

A compiled chain shows the atoms of its guard from left to right, one badge
each, and its edges lead on: the source of an edge stands before its target.
With the ways out that `Wired` counts, this says where every edge, exit and
skip stands (`Laid`).

What the induction over a compilation carries are lists of badges and not
numbers: joining puts the badges of the members one behind the other, and two
badges that stand in this order in one of the lists do so in all of them
together.
-/

namespace JobChart

open Chart JobChart.Numbering

/-! ## The class of a badge -/

/-- The class that a node is drawn with. -/
def Chart.Shape.className? : Shape → Option String
  | .box => none
  | .stadium cls => some cls
  | .diamond cls => some cls

/-- The badges of the class `condAlways` are those of a plain `always()`. -/
theorem className?_badge (id text : String) :
    (Badge.node id text).shape.className? = some "condAlways" ↔ Badge.isAlways text = true := by
  have halways : Badge.isAlways text = true ↔ Badge.classify text = (some .always, false) := by
    rw [Badge.isAlways, Badge.classify, beq_iff_eq, Prod.ext_iff, Prod.ext_iff,
      Status.ofCall?_eq_some_iff, and_comm]
  rw [halways, Badge.node]
  rcases Badge.classify text with ⟨_ | s, negated⟩
  · simp [Shape.className?, customStyle]
  · cases s <;> cases negated <;>
      simp [Shape.className?, Status.style, BadgeStyle.negatedClass]

namespace Chain

/-! ## Edges that lead on -/

/-- Every inner edge of the chain leads on among these badges: its source
stands before its target. -/
def LeadsOn (bs : List (String × String)) (c : Chain Node Edge) : Prop :=
  ∀ e ∈ c.links, [e.source, e.target].Sublist (bs.map (·.1))

/-- The edges that joining puts between neighbours. -/
def between {ν ε : Type} : Connective → List (Chain ν ε) → List Edge
  | .all => seriesEdges
  | .any => fallbackEdges

/-- The edges that joining puts between a chain and the entry of the next. -/
def bridge {ν ε : Type} : Connective → Chain ν ε → String → List Edge
  | .all, c, entry => c.exits.map fun x => ⟨x.source, entry, some "AND", solid⟩
  | .any, c, entry => c.skipEdges entry "OR"

theorem between_singleton {ν ε : Type} (k : Connective) (c : Chain ν ε) : between k [c] = [] := by
  cases k <;> rfl

theorem between_cons_cons {ν ε : Type} (k : Connective) (c d : Chain ν ε)
    (cs : List (Chain ν ε)) :
    between k (c :: d :: cs) = bridge k c d.entry ++ between k (d :: cs) := by
  cases k <;> rfl

section

variable {k : Connective} {bs : List (String × String)} {bss : List (List (String × String))}
  {c d : Chain Node Edge} {cs : List (Chain Node Edge)} {e : Edge}

theorem mem_links_joined_iff :
    e ∈ (joined k c cs).links ↔ (∃ d ∈ c :: cs, e ∈ d.links) ∨ e ∈ between k (c :: cs) := by
  cases k <;>
    simp only [joined, series, fallbacks, between, List.map_id, List.mem_append, List.mem_flatMap]

/-- An edge between neighbours leaves a badge of the first chain and leads to
the entry of the second, or it stands further on. -/
theorem mem_between_cons (hc : Wired bs c) (he : e ∈ between k (c :: d :: cs)) :
    e.source ∈ bs.map (·.1) ∧ e.target = d.entry ∨ e ∈ between k (d :: cs) := by
  cases k with
  | all =>
      rcases List.mem_append.mp he with he | he
      · obtain ⟨x, hx, rfl⟩ := List.mem_map.mp he
        exact Or.inl ⟨hc.exit_source hx, rfl⟩
      · exact Or.inr he
  | any =>
      rcases List.mem_append.mp he with he | he
      · obtain ⟨s, hs, rfl⟩ := List.mem_map.mp he
        exact Or.inl ⟨hc.skip_mem hs, rfl⟩
      · exact Or.inr he

theorem between_lead_on (h : List.Forall₂ Wired bss cs) (he : e ∈ between k cs) :
    [e.source, e.target].Sublist (bss.flatten.map (·.1)) := by
  induction h with
  | nil => cases k <;> simp [between, seriesEdges, fallbackEdges] at he
  | @cons bs c bss cs hc hcs ih =>
      cases cs with
      | nil => cases k <;> simp [between, seriesEdges, fallbackEdges] at he
      | cons d cs =>
          rw [List.flatten_cons, List.map_append]
          rcases mem_between_cons hc he with ⟨hsource, htarget⟩ | he
          · obtain ⟨bs', hd, hsub⟩ := wired_mem hcs List.mem_cons_self
            exact (List.singleton_sublist.mpr hsource).append
              (List.singleton_sublist.mpr (htarget ▸ hsub _ hd.entry_mem))
          · exact List.sublist_append_of_sublist_right (ih he)

/-- Joining keeps all edges leading on. -/
theorem leadsOn_joined (k : Connective) (h : List.Forall₂ Wired bss (c :: cs))
    (hon : List.Forall₂ LeadsOn bss (c :: cs)) : LeadsOn bss.flatten (joined k c cs) := by
  intro e he
  rcases mem_links_joined_iff.mp he with ⟨d, hd, he⟩ | he
  · obtain ⟨bs, hbs, hd⟩ := exists_of_mem_right hon hd
    exact (hd e he).trans ((List.sublist_flatten_of_mem hbs).map _)
  · exact between_lead_on h he

end

/-- Every guard without empty groups has a chain that is wired and whose edges lead on. -/
theorem exists_ordered_chain (base : String) (g : Guard) (hg : g.widthOK 1 = true) (n : Int) :
    ∃ c, runFrom n (compile base g) = (.ok c, n + g.atoms.length)
      ∧ Wired (badges base n g.atoms) c ∧ LeadsOn (badges base n g.atoms) c := by
  refine compile_induction (P := fun n g c =>
    Wired (badges base n g.atoms) c ∧ LeadsOn (badges base n g.atoms) c)
    (fun n t => ⟨wired_ofAtom _ _, fun e he => ?_⟩) (fun n k gs c cs hrow => ?_) g hg n
  · simp [ofAtom] at he
  · obtain ⟨bss, hbss, hflat⟩ :=
      badges_of_eachFrom (R := fun bs c => Wired bs c ∧ LeadsOn bs c) hrow
    rw [Guard.atoms_group, ← hflat]
    have hwired := hbss.imp fun _ _ h => h.1
    exact ⟨wired_joined k hwired, leadsOn_joined k hwired (hbss.imp fun _ _ h => h.2)⟩

/-! ## Where everything stands -/

section

variable {base : String} {n : Int} {ts : List String}

theorem exists_place_of_mem {id : String} (h : id ∈ (badges base n ts).map (·.1)) :
    ∃ i < ts.length, id = partId base (n + (i : Nat)) := by
  obtain ⟨b, hb, rfl⟩ := List.mem_map.mp h
  obtain ⟨i, hi, hid⟩ := mem_badges.mp hb
  exact ⟨i, (List.getElem?_eq_some_iff.mp hi).1, hid⟩

theorem exists_places_of_sublist : ∀ {n : Int} {ts : List String} {s t : String},
    [s, t].Sublist ((badges base n ts).map (·.1)) →
      ∃ i j : Nat, i < j ∧ j < ts.length ∧ s = partId base (n + i) ∧ t = partId base (n + j)
  | _, [], _, _, h => by simp [badges] at h
  | n, u :: ts, s, t, h => by
      rw [badges, List.map_cons] at h
      have hnext : ∀ i : Nat, n + 1 + (i : Int) = n + ((i + 1 : Nat) : Int) := by omega
      cases h with
      | cons _ h =>
          obtain ⟨i, j, hij, hj, hs, ht⟩ := exists_places_of_sublist h
          refine ⟨i + 1, j + 1, by omega, by simpa using hj, ?_, ?_⟩
          · rw [hs, hnext]
          · rw [ht, hnext]
      | cons_cons _ h =>
          obtain ⟨j, hj, ht⟩ := exists_place_of_mem (List.singleton_sublist.mp h)
          refine ⟨0, j + 1, by omega, by simpa using hj, by simp, ?_⟩
          rw [ht, hnext]

end

/-- The chain of these atoms, its badges numbered under `base` from `start` on.
The badges stand in the order of the atoms. Every edge is one of the two kinds
and leads to a badge with a higher number; exits and skips leave badges of the
chain. A badge is left once when it is true, and once when it is false unless
it is one that is drawn as a plain `always()`, which is not left then. -/
structure Laid (base : String) (start : Int) (atoms : List String) (c : Chain Node Edge) :
    Prop where
  count : c.nodes.length = atoms.length
  node : ∀ (i : Nat) t, atoms[i]? = some t →
    c.nodes[i]? = some (Badge.node (partId base (start + i)) t)
  entry : c.entry = partId base start
  links : ∀ e ∈ c.links, (e.isAnd = true ∨ e.isOr = true) ∧
    ∃ i j : Nat, i < j ∧ j < atoms.length
      ∧ e.source = partId base (start + i) ∧ e.target = partId base (start + j)
  exits : ∀ x ∈ c.exits, ∃ i < atoms.length, x.source = partId base (start + (i : Nat))
  skips : ∀ s ∈ c.skips, ∃ i < atoms.length, s = partId base (start + (i : Nat))
  pass : ∀ i < atoms.length, c.passSources.count (partId base (start + (i : Nat))) = 1
  fail : ∀ (i : Nat) t, atoms[i]? = some t →
    c.failSources.count (partId base (start + i)) = if Badge.isAlways t then 0 else 1
  always : ∀ (i : Nat) t, atoms[i]? = some t → (Badge.isAlways t = true ↔
    ∃ node, c.nodes[i]? = some node ∧ node.shape.className? = some "condAlways")

section

variable {base : String} {n : Int} {ts : List String} {c : Chain Node Edge}

theorem badge_mem {i : Nat} {t : String} (h : ts[i]? = some t) :
    (partId base (n + i), t) ∈ badges base n ts :=
  mem_badges.mpr ⟨i, h, rfl⟩

theorem count_pass (h : Wired (badges base n ts) c) {i : Nat} (hi : i < ts.length) :
    c.passSources.count (partId base (n + i)) = 1 := by
  have hmem : partId base (n + i) ∈ (badges base n ts).map (·.1) :=
    List.mem_map.mpr ⟨_, badge_mem (List.getElem?_eq_getElem hi), rfl⟩
  rw [h.pass.count_eq]
  exact List.count_eq_one_of_mem nodup_badges hmem

theorem count_fail (h : Wired (badges base n ts) c) {i : Nat} {t : String} (hi : ts[i]? = some t) :
    c.failSources.count (partId base (n + i)) = if Badge.isAlways t then 0 else 1 := by
  rw [h.fail.count_eq]
  have hnodup : ((badges base n ts).map (·.1)).Nodup := nodup_badges
  cases halways : Badge.isAlways t with
  | false =>
      have hfallible : (partId base (n + i), t) ∈ (badges base n ts).filter fallible :=
        List.mem_filter.mpr ⟨badge_mem hi, by simp [fallible, halways]⟩
      exact List.count_eq_one_of_mem (hnodup.sublist (List.filter_sublist.map _))
        (List.mem_map.mpr ⟨_, hfallible, rfl⟩)
  | true =>
      refine List.count_eq_zero.mpr fun hmem => ?_
      obtain ⟨b, hb, hid⟩ := List.mem_map.mp hmem
      obtain ⟨hb, hfallible⟩ := List.mem_filter.mp hb
      obtain rfl : b = (partId base (n + i), t) :=
        List.inj_on_of_nodup_map hnodup hb (badge_mem hi) hid
      simp [fallible, halways] at hfallible

theorem laid_of_wired (h : Wired (badges base n ts) c)
    (hon : LeadsOn (badges base n ts) c) : Laid base n ts c := by
  have hnode : ∀ i : Nat, c.nodes[i]? = (ts[i]?).map (Badge.node (partId base (n + i))) := by
    intro i
    rw [h.nodes, List.getElem?_map, getElem?_badges, Option.map_map]
    rfl
  exact
    { count := by rw [h.nodes, List.length_map, length_badges]
      node := fun i t hi => by rw [hnode, hi]; rfl
      entry := by
        have hentry := h.entry
        cases ts with
        | nil => simp [badges] at hentry
        | cons t ts => exact (Option.some.inj hentry).symm
      links := fun e he => ⟨(h.links e he).1, exists_places_of_sublist (hon e he)⟩
      exits := fun x hx => exists_place_of_mem (h.exit_source hx)
      skips := fun s hs => exists_place_of_mem (h.skip_mem hs)
      pass := fun i hi => count_pass h hi
      fail := fun i t hi => count_fail h hi
      always := fun i t hi => by
        rw [hnode, hi, Option.map_some]
        simp [className?_badge] }

end

/-- **A chain is laid out from left to right.** -/
theorem compiled_chain_laid_out (base : String) (g : Guard) (start : Int)
    (h : g.widthOK 1 = true) :
    ∃ c, runFrom start (compile base g) = (.ok c, start + g.atoms.length)
      ∧ Laid base start g.atoms c := by
  obtain ⟨c, hrun, hwired, hon⟩ := exists_ordered_chain base g h start
  exact ⟨c, hrun, laid_of_wired hwired hon⟩

/-- Fallbacks inside a series, counted from below zero. -/
theorem compiled_chain_laid_out_nested :
    let g : Guard := .all [.atom "always()", .any [.atom "a", .atom "b"]]
    g.widthOK 1 = true ∧ ∃ c, runFrom (-2) (compile "j" g) = (.ok c, 1)
      ∧ Laid "j" (-2) ["always()", "a", "b"] c :=
  ⟨rfl, compiled_chain_laid_out "j" (.all [.atom "always()", .any [.atom "a", .atom "b"]]) (-2) rfl⟩

end Chain

end JobChart
