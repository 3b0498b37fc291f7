import JobChart.Proofs.Chain.Layout
import JobChart.Proofs.Diagram.Ways

/-!
# No dead badges

In the chain of a guard without a plain `always()` every badge is reached from
the entry along the edges of the chain.

A later member of a group is reached through the one before it: through an exit
in a series, through a skip among fallbacks. So reaching all badges is not
enough to carry through the members of a group. A chain is `Live` if the badges
that it is left from are reached as well, and if there are some on either side.
An `always()` has no skip, and what comes behind it among fallbacks is dead.
-/

namespace JobChart.Chain

open Chart JobChart.Numbering Diagram Relation

/-- Along the edges of the chain its entry leads to every badge and to every
source of an exit or a skip, and the chain has ways out on both sides. -/
structure Live (c : Chain Node Edge) : Prop where
  nodes : ∀ n ∈ c.nodes, Reaches c.links c.entry n.id
  exits : ∀ x ∈ c.exits, Reaches c.links c.entry x.source
  skips : ∀ s ∈ c.skips, Reaches c.links c.entry s
  passable : c.exits ≠ []
  skippable : c.skips ≠ []

theorem live_ofAtom {id text : String} (h : Badge.isAlways text = false) :
    Live (ofAtom id text) := by
  refine ⟨fun n hn => ?_, fun x hx => ?_, fun s hs => ?_, List.cons_ne_nil _ _, ?_⟩
  · rw [List.mem_singleton.mp hn, Badge.id_node]
    exact .refl
  · rw [List.mem_singleton.mp hx]
    exact .refl
  · simp only [ofAtom, h, Bool.false_eq_true, if_false, List.mem_singleton] at hs
    rw [hs]
    exact .refl
  · simp [ofAtom, h]

section

variable {k : Connective} {c d : Chain Node Edge} {cs : List (Chain Node Edge)} {es : List Edge}

/-- From the entry of a live chain there is a way into the chain behind it. -/
theorem Live.onward (h : Live c) (hlinks : ∀ e ∈ c.links, e ∈ es)
    (hbridge : ∀ e ∈ bridge k c d.entry, e ∈ es) : Reaches es c.entry d.entry := by
  cases k with
  | all =>
      obtain ⟨x, hx⟩ := List.exists_mem_of_ne_nil _ h.passable
      exact ((h.exits x hx).mono hlinks).tail
        ⟨_, hbridge _ (List.mem_map.mpr ⟨x, hx, rfl⟩), rfl, rfl⟩
  | any =>
      obtain ⟨s, hs⟩ := List.exists_mem_of_ne_nil _ h.skippable
      exact ((h.skips s hs).mono hlinks).tail
        ⟨_, hbridge _ (List.mem_map.mpr ⟨s, hs, rfl⟩), rfl, rfl⟩

/-- The first of a row of live chains leads to the entries of all others. -/
theorem reaches_entries : ∀ {c : Chain Node Edge} {cs : List (Chain Node Edge)},
    (∀ d ∈ c :: cs, Live d) → (∀ d ∈ c :: cs, ∀ e ∈ d.links, e ∈ es) →
      (∀ e ∈ between k (c :: cs), e ∈ es) → ∀ d ∈ c :: cs, Reaches es c.entry d.entry
  | c, [], _, _, _, d, hd => by
      rw [List.mem_singleton.mp hd]
      exact .refl
  | c, c' :: cs, hlive, hlinks, hbetween, d, hd => by
      rw [between_cons_cons] at hbetween
      rcases List.mem_cons.mp hd with rfl | hd
      · exact .refl
      · have hnext : Reaches es c.entry c'.entry :=
          (hlive c List.mem_cons_self).onward (hlinks c List.mem_cons_self)
            fun e he => hbetween e (List.mem_append_left _ he)
        exact hnext.trans (reaches_entries (fun d hd => hlive d (List.mem_cons_of_mem c hd))
          (fun d hd => hlinks d (List.mem_cons_of_mem c hd))
          (fun e he => hbetween e (List.mem_append_right _ he)) d hd)

/-- Joining keeps chains live. -/
theorem live_joined (h : ∀ d ∈ c :: cs, Live d) : Live (joined k c cs) := by
  have hlinks : ∀ d ∈ c :: cs, ∀ e ∈ d.links, e ∈ (joined k c cs).links :=
    fun d hd e he => mem_links_joined_iff.mpr (Or.inl ⟨d, hd, he⟩)
  have hreach : ∀ d ∈ c :: cs, ∀ id, Reaches d.links d.entry id →
      Reaches (joined k c cs).links (joined k c cs).entry id := by
    intro d hd id hid
    have hfirst := reaches_entries h hlinks
      (fun e he => mem_links_joined_iff.mpr (Or.inr he)) d hd
    rw [entry_joined]
    exact hfirst.trans (hid.mono (hlinks d hd))
  have hlast : cs.getLastD c ∈ c :: cs := List.getLastD_mem_cons
  have hhead : Live c := h c List.mem_cons_self
  refine ⟨fun n hn => ?_, fun x hx => ?_, fun s hs => ?_, ?_, ?_⟩
  · rw [nodes_joined] at hn
    obtain ⟨d, hd, hn⟩ := List.mem_flatMap.mp hn
    exact hreach d hd _ ((h d hd).nodes n hn)
  · obtain ⟨d, hd, hx⟩ := mem_exits_joined hx
    exact hreach d hd _ ((h d hd).exits x hx)
  · obtain ⟨d, hd, hs⟩ := mem_skips_joined hs
    exact hreach d hd _ ((h d hd).skips s hs)
  · cases k with
    | all => exact (h _ hlast).passable
    | any => exact List.append_ne_nil_of_left_ne_nil hhead.passable _
  · cases k with
    | all => exact List.append_ne_nil_of_left_ne_nil hhead.skippable _
    | any => exact (h _ hlast).skippable

end

/-- **No badge is dead.** Where no atom of a guard is a plain `always()` and no
group is empty, all of its chain is reached from the entry of the chain. -/
theorem no_dead_badges (base : String) (g : Guard) (start : Int) (h : g.widthOK 1 = true)
    (hfallible : ∀ t ∈ g.atoms, Badge.isAlways t = false) :
    ∃ c, runFrom start (compile base g) = (.ok c, start + g.atoms.length) ∧ Live c := by
  have hcompiled : ∃ c, runFrom start (compile base g) = (.ok c, start + g.atoms.length)
      ∧ ((∀ t ∈ g.atoms, Badge.isAlways t = false) → Live c) := by
    refine compile_induction (P := fun _ g c => (∀ t ∈ g.atoms, Badge.isAlways t = false) → Live c)
      (fun n t ht => live_ofAtom (ht t (List.mem_singleton.mpr rfl)))
      (fun n k gs c cs hrow hgs => live_joined fun d hd => ?_) g h start
    obtain ⟨m, hm, hd⟩ := exists_of_mem_right (forall₂_of_eachFrom hrow) hd
    refine hd fun t ht => hgs t ?_
    rw [Guard.atoms_group, Guard.mem_atomsEach]
    exact ⟨m, hm, ht⟩
  obtain ⟨c, hrun, hlive⟩ := hcompiled
  exact ⟨c, hrun, hlive hfallible⟩

/-- Fallbacks in a series in fallbacks, with an `always()` that can fail. -/
theorem no_dead_badges_nested :
    let g : Guard := .any [.all [.any [.atom "a", .atom "!always()"], .atom "b"], .atom "c"]
    g.widthOK 1 = true ∧ (∀ t ∈ g.atoms, Badge.isAlways t = false)
      ∧ ∃ c, runFrom 0 (compile "j" g) = (.ok c, 4) ∧ Live c := by
  intro g
  have hfallible : ∀ t ∈ g.atoms, Badge.isAlways t = false := by decide
  exact ⟨rfl, hfallible, no_dead_badges "j" g 0 rfl hfallible⟩

end JobChart.Chain
