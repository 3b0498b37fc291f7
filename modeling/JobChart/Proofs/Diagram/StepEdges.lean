import JobChart.Diagram.JobBox
import JobChart.Proofs.Chain.Walk

/-!
# The edges in the box of a job

What a walk over the edges of a job's box is, and which edge it takes where.
At a badge it follows the badge's value, at a step it goes on.

The edges of a box are written in three rounds: those inside the chains, then
for each step those into it, from the step before it and past it. Put
together by step (`rowEdges`) they are the same edges (`stopEdges_perm`). Of
the edges put down for one step, a badge is left by no more than one
(`Gated.length_le`).
-/

namespace JobChart.Diagram

open Text Chart Chain Relation

/-! ## Walks -/

def edge? (l : Line) : Option Edge :=
  match l.item with
  | .edge e => some e
  | _ => none

def edgesOf (lines : List Line) : List Edge := lines.filterMap edge?

/-- Whether a walk leaves the edge's source by this edge: a step by an edge
without a label, a true badge by a solid `AND` or `Yes` edge or one without a
label, and a false badge by a dashed `OR` or `Skip` edge. -/
def taken (steps : List String) (val : String → Bool) (e : Edge) : Bool :=
  if e.source ∈ steps then e.arrow == solid && e.label == none
  else if val e.source then
    e.arrow == solid && (e.label == some "AND" || e.label == some "Yes" || e.label == none)
  else e.arrow == dashed && (e.label == some "OR" || e.label == some "Skip")

def leaving (edges : List Edge) (steps : List String) (val : String → Bool) (a : String) :
    List Edge :=
  edges.filter fun e => e.source == a && taken steps val e

/-- The walk from `a` on visits these nodes. It leaves each of them by the one
edge that may be taken there, and it ends where there is none. -/
inductive Walk (edges : List Edge) (steps : List String) (val : String → Bool) :
    String → List String → Prop
  | stop {a : String} (h : leaving edges steps val a = []) : Walk edges steps val a [a]
  | step {a : String} {e : Edge} {path : List String} (h : leaving edges steps val a = [e])
      (hrest : Walk edges steps val e.target path) : Walk edges steps val a (a :: path)

section Walk

variable {edges edges' : List Edge} {steps : List String} {val : String → Bool}

theorem leaving_append (a : String) :
    leaving (edges ++ edges') steps val a
      = leaving edges steps val a ++ leaving edges' steps val a :=
  List.filter_append ..

theorem leaving_eq_nil {a : String} (h : ∀ e ∈ edges, e.source ≠ a) :
    leaving edges steps val a = [] :=
  List.filter_eq_nil_iff.mpr fun e he => by simp [h e he]

/-- No two walks start at the same node. -/
theorem Walk.unique {a : String} {path path' : List String} (h : Walk edges steps val a path)
    (h' : Walk edges steps val a path') : path' = path := by
  induction h generalizing path' with
  | stop h =>
      cases h' with
      | stop _ => rfl
      | step h' _ => simp [h] at h'
  | step h _ ih =>
      cases h' with
      | stop h' => simp [h] at h'
      | step h' hrest =>
          obtain rfl := List.singleton_inj.mp (h.symm.trans h')
          rw [ih hrest]

/-- Edges that start elsewhere do not change a walk. -/
theorem Walk.append_left {a : String} {path : List String} (h : Walk edges steps val a path)
    (hother : ∀ x ∈ path, ∀ e ∈ edges', e.source ≠ x) :
    Walk (edges' ++ edges) steps val a path := by
  induction h with
  | stop h =>
      refine .stop ?_
      rw [leaving_append, h, leaving_eq_nil (hother _ List.mem_cons_self)]
      rfl
  | step h _ ih =>
      refine .step ?_ (ih fun x hx => hother x (List.mem_cons_of_mem _ hx))
      rw [leaving_append, h, leaving_eq_nil (hother _ List.mem_cons_self)]
      rfl

/-- The order in which the edges are written does not matter. -/
theorem Walk.perm {a : String} {path : List String} (hperm : edges.Perm edges')
    (h : Walk edges steps val a path) : Walk edges' steps val a path := by
  have hleaving : ∀ x, (leaving edges steps val x).Perm (leaving edges' steps val x) :=
    fun _ => hperm.filter _
  induction h with
  | @stop a h => exact .stop (List.Perm.nil_eq (h ▸ hleaving a)).symm
  | @step a e path h _ ih => exact .step (List.singleton_perm.mp (h ▸ hleaving a)).symm ih

end Walk

/-! ## The edges of a box, step by step -/

/-- The edges inside the chain of a stop. -/
def Stop.links (s : Stop) : List Edge :=
  match s.gate with
  | some c => c.links
  | none => []

/-- The edges past a stop, which may have another stop behind it. -/
def Stop.skipsTo (s : Stop) : (after : Option Stop) → List Edge
  | some next => s.skipEdges next
  | none => []

def Stop.badgeEdges (s : Stop) (after : Option Stop) : List Edge :=
  s.links ++ s.passEdges ++ s.skipsTo after

/-- The edge that starts at the node of a stop. -/
def Stop.stepEdges (s : Stop) : (after : Option Stop) → List Edge
  | some next => [⟨s.id, next.entry, none, solid⟩]
  | none => []

def Stop.localEdges (s : Stop) (after : Option Stop) : List Edge :=
  s.badgeEdges after ++ s.stepEdges after

/-- The edges of a row of stops, put together by stop. -/
def rowEdges : List Stop → List Edge
  | [] => []
  | s :: stops => s.localEdges stops.head? ++ rowEdges stops

/-- The edge from the node before a row into the row. -/
def edgeInto (previous : Option String) (stops : List Stop) : List Edge :=
  match previous, stops with
  | some p, s :: _ => [⟨p, s.entry, none, solid⟩]
  | _, _ => []

/-- Written in three rounds or by step, the edges of a row are the same. -/
theorem stopEdges_perm : ∀ (previous : Option String) (stops : List Stop),
    (stops.flatMap Stop.links ++ stopEdges previous stops).Perm
      (edgeInto previous stops ++ rowEdges stops)
  | previous, [] => by cases previous <;> exact .nil
  | previous, s :: stops => by
      have ih := stopEdges_perm (some s.id) stops
      rw [List.perm_iff_count] at ih ⊢
      intro e
      have ihe := ih e
      cases stops with
      | nil =>
          cases previous <;>
            simp only [stopEdges, rowEdges, edgeInto, Stop.localEdges, Stop.badgeEdges,
              Stop.skipsTo, Stop.stepEdges, List.flatMap_cons, List.count_append,
              List.head?_nil, List.count_nil] at ihe ⊢ <;> omega
      | cons next stops =>
          cases previous <;>
            simp only [stopEdges, rowEdges, edgeInto, Stop.localEdges, Stop.badgeEdges,
              Stop.skipsTo, Stop.stepEdges, List.flatMap_cons, List.count_append,
              List.head?_cons, List.count_nil] at ihe ⊢ <;> omega

/-! ## What leaves a badge -/

section Badges

variable {stop next : Stop} {c : Gate} {bs : List (String × String)} {steps : List String}
  {val : String → Bool} {a : String}

theorem length_leaving (edges : List Edge) :
    (leaving edges steps val a).length
      = edges.countP fun e => e.source == a && taken steps val e :=
  List.countP_eq_length_filter.symm

theorem taken_of_isAnd (val : String → Bool) {e : Edge} (ha : e.source ∉ steps)
    (h : e.isAnd = true) :
    taken steps val e = val e.source ∧ e.isOr = false := by
  simp only [Edge.isAnd, Bool.and_eq_true, beq_iff_eq] at h
  obtain ⟨hlabel, harrow⟩ := h
  rw [taken, if_neg ha, Edge.isOr, hlabel, harrow]
  cases val e.source <;> decide

theorem taken_of_isOr (val : String → Bool) {e : Edge} (ha : e.source ∉ steps) (h : e.isOr = true) :
    taken steps val e = !val e.source ∧ e.isAnd = false := by
  simp only [Edge.isOr, Bool.and_eq_true, beq_iff_eq] at h
  obtain ⟨hlabel, harrow⟩ := h
  rw [taken, if_neg ha, Edge.isAnd, hlabel, harrow]
  cases val e.source <;> decide

/-- Among the inner edges of a chain a badge is left by those of its value. -/
theorem length_leaving_links (val : String → Bool) (hw : Wired bs c) (ha : a ∉ steps) :
    (leaving c.links steps val a).length
      = ((c.links.filter (if val a then Edge.isAnd else Edge.isOr)).map (·.source)).count a := by
  rw [length_leaving, List.count, List.countP_map, List.countP_filter]
  refine List.countP_congr fun e he => ?_
  by_cases hsource : e.source = a
  · subst hsource
    rcases (hw.links e he).1 with hkind | hkind
    · obtain ⟨htaken, hor⟩ := taken_of_isAnd val ha hkind
      cases hval : val e.source <;> simp [htaken, hval, hkind, hor]
    · obtain ⟨htaken, hand⟩ := taken_of_isOr val ha hkind
      cases hval : val e.source <;> simp [htaken, hval, hkind, hand]
  · simp [hsource]

/-- A true badge is left by every edge of its exits into the node, a false one
by none. -/
theorem length_leaving_exits (val : String → Bool) (hw : Wired bs c) (ha : a ∉ steps)
    (target : String) :
    (leaving (c.exitEdges target) steps val a).length
      = if val a then (c.exits.map (·.source)).count a else 0 := by
  have hcount : (leaving (c.exitEdges target) steps val a).length
      = c.exits.countP fun x => x.source == a && val a := by
    rw [length_leaving, exitEdges, List.countP_map]
    refine List.countP_congr fun x hx => ?_
    by_cases hsource : x.source = a
    · subst hsource
      simp only [Function.comp, taken, if_neg ha]
      rcases hw.labels x hx with hlabel | hlabel <;>
        cases val x.source <;> simp [hlabel, solid, dashed]
    · simp [hsource]
  rw [hcount]
  cases val a with
  | true => simp [List.count, List.countP_map, Function.comp_def]
  | false => simp

/-- A false badge is left by every edge of its skips past the node, a true one
by none. -/
theorem length_leaving_skips (ha : a ∉ steps) (target : String) :
    (leaving (c.skipEdges target "Skip") steps val a).length
      = if val a then 0 else c.skips.count a := by
  have hcount : (leaving (c.skipEdges target "Skip") steps val a).length
      = c.skips.countP fun id => id == a && !val a := by
    rw [length_leaving, Chain.skipEdges, List.countP_map]
    refine List.countP_congr fun id _ => ?_
    by_cases hsource : id = a
    · subst hsource
      simp only [Function.comp, taken, if_neg ha]
      cases val id <;> simp [solid, dashed]
    · simp [hsource]
  rw [hcount]
  cases val a with
  | true => simp
  | false => simp [List.count]

theorem skipEdges_of_wired (hgate : stop.gate = some c) (hw : Wired bs c) :
    stop.skipEdges next = c.skipEdges next.entry "Skip" := by
  simp only [Stop.skipEdges, hgate]
  split
  · next halways => rw [Chain.skipEdges, hw.always halways, List.map_nil]
  · rfl

/-- A badge is left by its ways out, save that the last stop of a row has
nowhere to skip to. -/
theorem length_leaving_local (val : String → Bool) (hgate : stop.gate = some c)
    (hw : Wired bs c) (ha : a ∉ steps) (hid : stop.id ≠ a) (after : Option Stop) :
    (leaving (stop.localEdges after) steps val a).length
        + (if after.isNone && !val a then c.skips.count a else 0)
      = ((c.outs (val a)).map (·.1)).count a := by
  have hlinks : stop.links = c.links := by simp only [Stop.links, hgate]
  have hpass : stop.passEdges = c.exitEdges stop.id := by simp only [Stop.passEdges, hgate]
  have hcommon := congrArg₂ (· + ·) (length_leaving_links val hw ha)
    (length_leaving_exits val hw ha stop.id)
  have hstep : leaving (stop.stepEdges after) steps val a = [] :=
    leaving_eq_nil fun e he => by
      cases after with
      | none => cases he
      | some next => rw [List.mem_singleton.mp he]; exact hid
  rw [Stop.localEdges, leaving_append, hstep, List.append_nil, Stop.badgeEdges, hlinks, hpass,
    leaving_append, leaving_append, List.length_append, List.length_append, hcommon]
  cases after with
  | none =>
      cases val a <;>
        simp [leaving, Stop.skipsTo, outs_true_sources, outs_false_sources, passSources,
          failSources]
  | some next =>
      rw [Stop.skipsTo, skipEdges_of_wired hgate hw, length_leaving_skips ha]
      cases val a <;>
        simp [outs_true_sources, outs_false_sources, passSources, failSources]

/-- A badge whose ways out are no more than one is left by the edge that may be
taken, once one is found. -/
theorem leaving_eq_singleton {edges : List Edge} {e : Edge} (he : e ∈ edges)
    (hsource : e.source = a) (htaken : taken steps val e = true)
    (hlen : (leaving edges steps val a).length ≤ 1) : leaving edges steps val a = [e] := by
  have hmem : e ∈ leaving edges steps val a :=
    List.mem_filter.mpr ⟨he, by simp [hsource, htaken]⟩
  obtain ⟨f, hf⟩ := List.length_eq_one_iff.mp
    (Nat.le_antisymm hlen (List.length_pos_of_mem hmem))
  rw [hf] at hmem ⊢
  rw [List.mem_singleton.mp hmem]

/-- What the steps of a job need to know of a stop with a gate. -/
structure Gated (steps : List String) (stop : Stop) (c : Gate) (bs : List (String × String)) :
    Prop where
  gate : stop.gate = some c
  wired : Wired bs c
  nodup : (bs.map (·.1)).Nodup
  fresh : ∀ id ∈ bs.map (·.1), id ∉ steps ∧ stop.id ≠ id

theorem Gated.mem_badges (h : Gated steps stop c bs) {b : Bool}
    (ha : a ∈ (c.outs b).map (·.1)) : a ∈ bs.map (·.1) := by
  cases b with
  | true => exact h.wired.pass.subset (outs_true_sources c ▸ ha)
  | false =>
      have hmem := h.wired.fail.subset (outs_false_sources c ▸ ha)
      obtain ⟨b, hb, rfl⟩ := List.mem_map.mp hmem
      exact List.mem_map_of_mem (List.mem_filter.mp hb).1

theorem Gated.length_le (h : Gated steps stop c bs) (ha : a ∈ bs.map (·.1))
    (after : Option Stop) : (leaving (stop.localEdges after) steps val a).length ≤ 1 := by
  have hcount := length_leaving_local val h.gate h.wired (h.fresh a ha).1
    (h.fresh a ha).2 after
  have hone := List.nodup_iff_count_le_one.mp (h.wired.nodup_outs h.nodup (val a)) a
  omega

theorem Gated.links_subset (h : Gated steps stop c bs) (after : Option Stop) {e : Edge}
    (he : e ∈ c.links ++ c.exitEdges stop.id) : e ∈ stop.localEdges after := by
  have hlinks : stop.links = c.links := by simp only [Stop.links, h.gate]
  have hpass : stop.passEdges = c.exitEdges stop.id := by simp only [Stop.passEdges, h.gate]
  rw [Stop.localEdges, Stop.badgeEdges, hlinks, hpass]
  exact List.mem_append_left _ (List.mem_append_left _ he)

/-- Inside its chain a badge is left by the edge of its value. -/
theorem Gated.leaving_link (h : Gated steps stop c bs) (after : Option Stop) {e : Edge}
    (he : e ∈ c.links) (hfollow : followed val e = true) :
    e.source ∈ bs.map (·.1) ∧ leaving (stop.localEdges after) steps val e.source = [e] := by
  have hbadge : e.source ∈ bs.map (·.1) :=
    h.mem_badges (List.mem_map_of_mem (mem_outs_of_step (.follow he rfl hfollow)))
  have hfresh := (h.fresh _ hbadge).1
  refine ⟨hbadge, leaving_eq_singleton (h.links_subset after (List.mem_append_left _ he)) rfl ?_
    (h.length_le hbadge after)⟩
  rw [followed] at hfollow
  rcases (h.wired.links e he).1 with hkind | hkind
  · obtain ⟨htaken, hor⟩ := taken_of_isAnd val hfresh hkind
    cases hval : val e.source <;> simp_all
  · obtain ⟨htaken, hand⟩ := taken_of_isOr val hfresh hkind
    cases hval : val e.source <;> simp_all

/-- A true exit is left into the node. -/
theorem Gated.leaving_exit (h : Gated steps stop c bs) (after : Option Stop) {x : Exit}
    (hx : x ∈ c.exits) (hval : val x.source = true) :
    x.source ∈ bs.map (·.1) ∧ leaving (stop.localEdges after) steps val x.source
      = [⟨x.source, stop.id, x.label, solid⟩] := by
  have hbadge : x.source ∈ bs.map (·.1) :=
    h.mem_badges (List.mem_map_of_mem (mem_outs_of_step (.pass hx rfl hval)))
  refine ⟨hbadge, leaving_eq_singleton (h.links_subset after (List.mem_append_right _
    (List.mem_map.mpr ⟨x, hx, rfl⟩))) rfl ?_ (h.length_le hbadge after)⟩
  rw [taken, if_neg (h.fresh _ hbadge).1, if_pos hval]
  rcases h.wired.labels x hx with hlabel | hlabel <;> simp [hlabel]

/-- A false skip is left past the node. -/
theorem Gated.leaving_skip (h : Gated steps stop c bs) (hskip : a ∈ c.skips)
    (hval : val a = false) :
    a ∈ bs.map (·.1) ∧ leaving (stop.localEdges (some next)) steps val a
      = [⟨a, next.entry, some "Skip", dashed⟩] := by
  have hbadge : a ∈ bs.map (·.1) :=
    h.mem_badges (List.mem_map_of_mem (mem_outs_of_step (.skip hskip hval)))
  have hedge : (⟨a, next.entry, some "Skip", dashed⟩ : Edge) ∈ stop.localEdges (some next) := by
    refine List.mem_append_left _ (List.mem_append_right _ ?_)
    rw [Stop.skipsTo, skipEdges_of_wired h.gate h.wired]
    exact List.mem_map.mpr ⟨a, hskip, rfl⟩
  refine ⟨hbadge, leaving_eq_singleton hedge rfl ?_ (h.length_le hbadge _)⟩
  rw [taken, if_neg (h.fresh _ hbadge).1, hval]
  rfl

/-- In the last stop a false skip is not left at all. -/
theorem Gated.leaving_last_skip (h : Gated steps stop c bs) (hskip : a ∈ c.skips)
    (hval : val a = false) :
    a ∈ bs.map (·.1) ∧ leaving (stop.localEdges none) steps val a = [] := by
  have hbadge : a ∈ bs.map (·.1) :=
    h.mem_badges (List.mem_map_of_mem (mem_outs_of_step (.skip hskip hval)))
  have hcount := length_leaving_local val h.gate h.wired (h.fresh a hbadge).1
    (h.fresh a hbadge).2 none
  have hone := List.nodup_iff_count_le_one.mp (h.wired.nodup_outs h.nodup (val a)) a
  have hpos := List.count_pos_iff.mpr hskip
  simp only [hval, Option.isNone_none, Bool.not_false, Bool.and_true, if_true] at hcount hone
  exact ⟨hbadge, List.length_eq_zero_iff.mp (by omega)⟩

end Badges

end JobChart.Diagram
