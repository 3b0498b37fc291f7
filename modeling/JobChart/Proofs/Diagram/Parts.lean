import JobChart.Proofs.Chart.Reading
import JobChart.Proofs.Diagram.Total
import JobChart.Proofs.Workflow.Names

/-!
# Lines that can always be read

Most lines of a chart can be read whatever the document says: their ids are
made ids, and what they quote is escaped. This goes for badges and chains, for
all that stands in the box of a job, and for the edges between boxes. They are
taken here in the order they are made; none of them is an end of a box.
-/

namespace JobChart.Diagram

open Chart Chain JobChart.Numbering

/-! ## Ids -/

theorem isId_triggerId (name : String) : IsId (triggerId name) :=
  IsId.append (by decide) (made_idOf name)

theorem isId_jobId (job : String) : IsId (jobId job) := IsId.append (by decide) (made_idOf job)

theorem isId_jobGuardId (job : String) : IsId (jobGuardId job) :=
  IsId.append (by decide) (made_idOf job)

theorem isId_stepId (job : String) (i : Nat) : IsId (stepId job i) :=
  ((made_idOf job).append_id (by decide)).append (made_nat i)

theorem isId_stepGuardId (job : String) (i : Nat) : IsId (stepGuardId job i) :=
  IsId.append (by decide) (isId_stepId job i).2

theorem isId_partId {base : String} (hbase : IsId base) (n : Nat) : IsId (partId base n) := by
  rw [partId, Text.toString_int_eq, if_pos (Int.natCast_nonneg n), Int.toNat_natCast]
  exact (hbase.append (by decide)).append (made_nat n)

theorem isId_of_textBadges {base : String} (hbase : IsId base) {g : Guard} {id : String}
    (h : id ∈ (textBadges base g).map (·.1)) : IsId id := by
  obtain ⟨b, hb, rfl⟩ := List.mem_map.mp h
  have hpart : ∀ {ts}, b ∈ badges base 0 ts → IsId b.1 := by
    intro ts hb
    obtain ⟨i, -, hid⟩ := mem_badges.mp hb
    rw [hid, Int.zero_add]
    exact isId_partId hbase i
  cases g with
  | atom t => rw [List.mem_singleton.mp hb]; exact hbase
  | all gs => exact hpart hb
  | any gs => exact hpart hb

/-! ## Badges and chains -/

def badgeClasses : List String := Badge.classes.map (·.name)

/-- The style of a status badge is plain, and both of its classes are defined. -/
theorem style_sound (s : Status) :
    (Plain (s.style.icon ++ " " ++ s.style.label) ∧ s.style.className ∈ badgeClasses)
      ∧ Plain (s.style.icon ++ " NOT " ++ s.style.label) ∧ s.style.negatedClass ∈ badgeClasses := by
  cases s <;> decide

theorem sound_badge {id : String} (hid : IsId id) (text : String) :
    (Badge.node id text).Sound badgeClasses := by
  rw [Badge.node]
  split
  · next s _ => exact ⟨hid, (style_sound s).1.1, (style_sound s).1.2⟩
  · next s _ => exact ⟨hid, (style_sound s).2.1, (style_sound s).2.2⟩
  · have hlead : Made isPlainChar (customStyle.icon ++ " ") := by decide
    have hclass : customStyle.className ∈ badgeClasses := by decide
    exact ⟨hid, hlead.append (plain_escapeLabel text), hclass⟩

/-- A line inside of a box, or between boxes, that can be read. -/
def Part (l : Line) : Prop := l.Sound badgeClasses ∧ l.Inner

theorem spaces_outer : Made (· == ' ') outerIndent := by decide

theorem spaces_inner : Made (· == ' ') innerIndent := by decide

theorem part_node {indent : String} {n : Node} (hindent : Made (· == ' ') indent)
    (h : n.Sound badgeClasses) : Part (Line.node indent n) :=
  ⟨⟨hindent, h⟩, nofun, nofun⟩

theorem part_box {id label : String} (hid : IsId id) (hlabel : Plain label) :
    Part (Line.box id label) :=
  part_node spaces_inner ⟨hid, hlabel, trivial⟩

theorem part_edges {indent : String} {es : List Edge} (hindent : Made (· == ' ') indent)
    (h : ∀ e ∈ es, e.Sound) : ∀ l ∈ es.map (Line.edge indent), Part l := by
  intro l hl
  obtain ⟨e, he, rfl⟩ := List.mem_map.mp hl
  exact ⟨⟨hindent, h e he⟩, nofun, nofun⟩

/-- A chain whose nodes and edges, inner and outer, can be read. -/
structure SoundGate (c : Gate) : Prop where
  nodes : ∀ n ∈ c.nodes, n.Sound badgeClasses
  links : ∀ e ∈ c.links, e.Sound
  entry : IsId c.entry
  exits : ∀ x ∈ c.exits, IsId x.source ∧ ∀ t, x.label = some t → IsId t
  skips : ∀ s ∈ c.skips, IsId s

theorem sound_kind {e : Edge} (h : e.isAnd = true ∨ e.isOr = true) :
    (e.arrow = solid ∨ e.arrow = dashed) ∧ ∀ t, e.label = some t → IsId t := by
  simp only [Edge.isAnd, Edge.isOr, Bool.and_eq_true, beq_iff_eq] at h
  rcases h with ⟨hlabel, harrow⟩ | ⟨hlabel, harrow⟩
  · refine ⟨Or.inl harrow, fun t ht => ?_⟩
    obtain rfl := Option.some.inj (hlabel.symm.trans ht)
    decide
  · refine ⟨Or.inr harrow, fun t ht => ?_⟩
    obtain rfl := Option.some.inj (hlabel.symm.trans ht)
    decide

theorem soundGate_of_wired {bs : List (String × String)} {c : Gate} (h : Wired bs c)
    (hids : ∀ id ∈ bs.map (·.1), IsId id) : SoundGate c where
  nodes := by
    intro n hn
    rw [h.nodes] at hn
    obtain ⟨b, hb, rfl⟩ := List.mem_map.mp hn
    exact sound_badge (hids _ (List.mem_map_of_mem hb)) b.2
  links := by
    intro e he
    obtain ⟨hkind, htarget⟩ := h.links e he
    obtain ⟨harrow, hlabel⟩ := sound_kind hkind
    exact ⟨hids _ (h.link_source he), hids _ htarget, harrow, hlabel⟩
  entry := hids _ h.entry_mem
  exits := by
    intro x hx
    refine ⟨hids _ (h.exit_source hx), fun t ht => ?_⟩
    rcases h.labels x hx with hlabel | hlabel
    · rw [hlabel] at ht
      cases ht
    · obtain rfl := Option.some.inj (hlabel.symm.trans ht)
      decide
  skips s hs := hids s (h.skip_mem hs)

theorem soundGate_of_gate {base : String} {guard : Option String} {c : Gate} (hbase : IsId base)
    (h : gate base guard = some c) : SoundGate c := by
  obtain ⟨text, -, rfl⟩ := Option.map_eq_some_iff.mp h
  exact soundGate_of_wired (wired_chain base text) fun _ => isId_of_textBadges hbase

section

variable {c : Gate} {target label indent : String}

theorem SoundGate.lines (h : SoundGate c) (hindent : Made (· == ' ') indent) :
    ∀ l ∈ c.lines indent, Part l := by
  intro l hl
  rcases List.mem_append.mp hl with hl | hl
  · obtain ⟨n, hn, rfl⟩ := List.mem_map.mp hl
    exact part_node hindent (h.nodes n hn)
  · exact part_edges hindent h.links l hl

theorem SoundGate.exitEdges (h : SoundGate c) (htarget : IsId target) :
    ∀ e ∈ c.exitEdges target, e.Sound := by
  intro e he
  obtain ⟨x, hx, rfl⟩ := List.mem_map.mp he
  exact ⟨(h.exits x hx).1, htarget, Or.inl rfl, (h.exits x hx).2⟩

theorem SoundGate.skipEdges (h : SoundGate c) (htarget : IsId target) (hlabel : IsId label) :
    ∀ e ∈ c.skipEdges target label, e.Sound := by
  intro e he
  obtain ⟨s, hs, rfl⟩ := List.mem_map.mp he
  exact ⟨h.skips s hs, htarget, Or.inr rfl, fun t ht => Option.some.inj ht ▸ hlabel⟩

theorem sound_plain {source : String} (hsource : IsId source) (htarget : IsId target) :
    Edge.Sound ⟨source, target, none, solid⟩ :=
  ⟨hsource, htarget, Or.inl rfl, fun t ht => by cases ht⟩

end

/-! ## The box of a job -/

/-- A stop whose id and chain can be read. -/
structure SoundStop (s : Stop) : Prop where
  id : IsId s.id
  gate : ∀ c, s.gate = some c → SoundGate c

theorem sound_stops (job : String) : ∀ {i : Nat} {steps : List Step}, ∀ s ∈ stops job i steps,
    SoundStop s
  | _, [], _, h => by cases h
  | i, _ :: _, s, h => by
      rcases List.mem_cons.mp h with rfl | h
      · exact ⟨isId_stepId job i, fun _ hc => soundGate_of_gate (isId_stepGuardId job i) hc⟩
      · exact sound_stops job s h

section

variable {s next : Stop}

theorem SoundStop.entry (h : SoundStop s) : IsId s.entry := by
  rw [Stop.entry]
  split
  · next c hc => exact (h.gate c hc).entry
  · exact h.id

theorem SoundStop.nodeLines (h : SoundStop s) : ∀ l ∈ s.nodeLines, Part l := by
  intro l hl
  rcases List.mem_append.mp hl with hl | hl
  · split at hl
    · next c hc => exact (h.gate c hc).lines spaces_inner l hl
    · cases hl
  · rw [List.mem_singleton.mp hl]
    exact part_box h.id (plain_escapeLabel s.label)

theorem SoundStop.passEdges (h : SoundStop s) : ∀ e ∈ s.passEdges, e.Sound := by
  rw [Stop.passEdges]
  split
  · next c hc => exact (h.gate c hc).exitEdges h.id
  · simp

theorem SoundStop.skipEdges (h : SoundStop s) (hnext : SoundStop next) :
    ∀ e ∈ s.skipEdges next, e.Sound := by
  rw [Stop.skipEdges]
  split
  · next c hc =>
    split
    · simp
    · exact (h.gate c hc).skipEdges hnext.entry (by decide)
  · simp

theorem sound_stopEdges : ∀ {previous : Option String} {row : List Stop},
    (∀ p, previous = some p → IsId p) → (∀ s ∈ row, SoundStop s) →
      ∀ e ∈ stopEdges previous row, e.Sound
  | _, [], _, _, e, he => by cases he
  | previous, s :: row, hprevious, hrow, e, he => by
      have hs := hrow s List.mem_cons_self
      have hrest : ∀ s ∈ row, SoundStop s := fun s' hs' => hrow s' (List.mem_cons_of_mem s hs')
      simp only [stopEdges, List.mem_append] at he
      rcases he with ((he | he) | he) | he
      · exact hs.passEdges e he
      · cases previous with
        | none => cases he
        | some p =>
            rw [List.mem_singleton.mp he]
            exact sound_plain (hprevious p rfl) hs.entry
      · cases row with
        | nil => cases he
        | cons next row => exact hs.skipEdges (hrest next List.mem_cons_self) e he
      · exact sound_stopEdges (fun p hp => Option.some.inj hp ▸ hs.id) hrest e he

end

theorem drawn_edges {indent : String} {es : List Edge} {l : Line}
    (h : l ∈ es.map (Line.edge indent)) : l.indent = indent ∧ l.item.kind = .edge := by
  obtain ⟨e, -, rfl⟩ := List.mem_map.mp h
  exact ⟨rfl, rfl⟩

theorem drawn_lines {indent : String} {c : Gate} {l : Line} (h : l ∈ c.lines indent) :
    l.indent = indent ∧ (l.item.kind = .node ∨ l.item.kind = .edge) := by
  rcases List.mem_append.mp h with h | h
  · obtain ⟨n, -, rfl⟩ := List.mem_map.mp h
    exact ⟨rfl, Or.inl rfl⟩
  · exact (drawn_edges h).imp_right Or.inr

/-- What stands in a box are nodes and edges behind the wider indent. -/
theorem drawn_content {name : String} {job : Job} : ∀ l ∈ content name job,
    l.indent = innerIndent ∧ (l.item.kind = .node ∨ l.item.kind = .edge) := by
  intro l hl
  rw [content] at hl
  split at hl
  · rw [List.mem_singleton.mp hl]
    exact ⟨rfl, Or.inl rfl⟩
  · split at hl
    · rw [List.mem_singleton.mp hl]
      exact ⟨rfl, Or.inl rfl⟩
    · rcases List.mem_append.mp hl with hl | hl
      · obtain ⟨s, -, hl⟩ := List.mem_flatMap.mp hl
        rcases List.mem_append.mp hl with hl | hl
        · split at hl
          · exact drawn_lines hl
          · cases hl
        · rw [List.mem_singleton.mp hl]
          exact ⟨rfl, Or.inl rfl⟩
      · exact (drawn_edges hl).imp_right Or.inr

/-- Whatever the job, what stands in its box can be read. -/
theorem part_content (name : String) (job : Job) : ∀ l ∈ content name job, Part l := by
  intro l hl
  rw [content] at hl
  split at hl
  · rw [List.mem_singleton.mp hl]
    exact part_box ((isId_jobId name).append (by decide))
      (Made.append (by decide) (plain_escapeLabel _))
  · split at hl
    · rw [List.mem_singleton.mp hl]
      exact part_box ((isId_jobId name).append (by decide)) (by decide)
    · rcases List.mem_append.mp hl with hl | hl
      · obtain ⟨s, hs, hl⟩ := List.mem_flatMap.mp hl
        exact (sound_stops name s hs).nodeLines l hl
      · exact part_edges spaces_inner
          (sound_stopEdges (fun p hp => by cases hp) (sound_stops name)) l hl

/-! ## Edges between boxes -/

theorem sound_jobGates {jobs : List (String × Job)} :
    ∀ g ∈ jobs.filterMap jobGate?, SoundGate g.2 := by
  intro g hg
  obtain ⟨job, -, hgate⟩ := mem_jobGates.mp hg
  exact soundGate_of_gate (isId_jobGuardId g.1) hgate

theorem part_gateLines {gs : List (String × Gate)} (h : ∀ g ∈ gs, SoundGate g.2) :
    ∀ l ∈ gateLines gs, Part l := by
  intro l hl
  obtain ⟨g, hg, hl⟩ := List.mem_flatMap.mp hl
  exact (h g hg).lines spaces_outer l hl

theorem sound_plainEdges {target : String} {sources : List String} (htarget : IsId target)
    (hsources : ∀ s ∈ sources, IsId s) :
    ∀ e ∈ sources.map (fun s => (⟨s, target, none, solid⟩ : Edge)), e.Sound := by
  intro e he
  obtain ⟨s, hs, rfl⟩ := List.mem_map.mp he
  exact sound_plain (hsources s hs) htarget

theorem sound_edgesInto {gs : List (String × Gate)} {sources : List String} {job : String}
    (hgs : ∀ g ∈ gs, SoundGate g.2) (hsources : ∀ s ∈ sources, IsId s) :
    ∀ e ∈ edgesInto gs sources job, e.Sound := by
  rw [edgesInto]
  split
  · exact sound_plainEdges (isId_jobId job) hsources
  · next c hc =>
    have hgate : SoundGate c := hgs _ (Workflow.mem_of_lookup hc)
    split
    · simp
    · next s rest =>
      intro e he
      rcases List.mem_append.mp he with he | he
      · rcases List.mem_cons.mp he with rfl | he
        · exact sound_plain (hsources s List.mem_cons_self) hgate.entry
        · exact hgate.exitEdges (isId_jobId job) e he
      · exact sound_plainEdges hgate.entry
          (fun s' hs' => hsources s' (List.mem_cons_of_mem s hs')) e he

theorem sound_rootEdges {w : Workflow} {gs : List (String × Gate)}
    (hgs : ∀ g ∈ gs, SoundGate g.2) : ∀ e ∈ rootEdges w gs, e.Sound := by
  intro e he
  obtain ⟨name, -, he⟩ := List.mem_flatMap.mp he
  have htriggers : ∀ s ∈ [triggersId], IsId s := by decide
  exact sound_edgesInto hgs htriggers e he

theorem sound_needEdges {w : Workflow} {gs : List (String × Gate)}
    (hgs : ∀ g ∈ gs, SoundGate g.2) : ∀ e ∈ needEdges w gs, e.Sound := by
  intro e he
  obtain ⟨j, -, he⟩ := List.mem_flatMap.mp he
  refine sound_edgesInto hgs (fun s hs => ?_) e he
  obtain ⟨d, -, rfl⟩ := List.mem_map.mp hs
  exact isId_jobId d

end JobChart.Diagram
