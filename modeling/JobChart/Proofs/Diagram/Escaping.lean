import JobChart.Proofs.Diagram.Parts
import JobChart.Proofs.Workflow.Order

/-!
# What gets out of its quotes

Every text of a document that is drawn is either made an id, escaped, or
written as it is. Ids and escaped texts keep a line readable whatever they
were; the texts that are written as they are (`Workflow.verbatim`), names of
triggers and runners, decide by themselves whether the chart is read as its
lines.

A line of a chart either can be read anyway, or it shows one of these texts
(`sound_or_shows`), and each of them is shown by some line (`exists_shows`). A
line that shows a text is read as long as the text is plain, and with any other
text it is not the line of any chart.
-/

namespace JobChart.Diagram

open Chart

/-! ## Texts shown as they are -/

/-- The line shows this text as it is: its label is the text with plain texts
around, and all else of the line can be read. -/
structure Shows (l : Line) (label t : String) : Prop where
  framed : ∃ front, Framed front label l.text
  sound : Plain label → l.Sound badgeClasses
  made : ∀ p : Char → Bool, (∀ c, isPlainChar c = true → p c = true) → (Made p label ↔ Made p t)

section

variable {l l' : Line} {label t : String}

theorem Shows.sound_of_plain (h : Shows l label t) (ht : Plain t) : l.Sound badgeClasses :=
  h.sound ((h.made isPlainChar fun _ hc => hc).mpr ht)

theorem Shows.unbroken (h : Shows l label t) : Unbroken l.text ↔ Unbroken t := by
  obtain ⟨front, hframed⟩ := h.framed
  refine hframed.unbroken.trans (h.made _ fun c hc => ?_)
  rw [isPlainChar, Bool.and_eq_true] at hc
  exact hc.2

/-- The text of the line is that of a sound line only if the text shown is plain. -/
theorem Shows.plain {classes : List String} (h : Shows l label t) (hl' : l'.Sound classes)
    (hclasses : ∀ cls ∈ classes, IsId cls) (htext : l'.text = l.text) : Plain t := by
  obtain ⟨hbreak, hquotes⟩ := hl'.text hclasses
  rw [htext] at hbreak hquotes
  obtain ⟨front, hframed⟩ := h.framed
  have hcount := hframed.count
  have hnone : label.toList.count '"' = 0 := by omega
  have hlabel : Plain label :=
    (hframed.unbroken.mp hbreak).plain (List.count_eq_zero.mp hnone)
  exact (h.made isPlainChar fun _ hc => hc).mp hlabel

end

theorem framed_box {id : String} (hid : IsId id) (label : String) :
    ∃ front, Framed front label (Line.box id label).text := by
  have hshape : Shape.Within [] .box := trivial
  have hnode : Framed (id ++ Shape.box.opening) label (Node.text ⟨id, label, .box⟩) :=
    framed_node (n := ⟨id, label, .box⟩) hid hshape (by simp)
  exact ⟨_, hnode.behind spaces_inner⟩

theorem shows_box {id label t : String} (hid : IsId id)
    (hmade : ∀ p : Char → Bool, (∀ c, isPlainChar c = true → p c = true) →
      (Made p label ↔ Made p t)) : Shows (Line.box id label) label t where
  framed := framed_box hid label
  sound h := (part_box hid h).1
  made := hmade

theorem shows_triggerLine (t : Trigger) : ∃ label, Shows (triggerLine t) label t.name := by
  rw [triggerLine]
  cases given t.detail with
  | none => exact ⟨t.name, shows_box (isId_triggerId t.name) fun _ _ => Iff.rfl⟩
  | some detail =>
      refine ⟨t.name ++ "<br/>" ++ escapeLabel detail, shows_box (isId_triggerId t.name) ?_⟩
      intro p hp
      have hbreak : Plain "<br/>" := by decide
      simp only [made_append, hbreak.mono hp, (plain_escapeLabel detail).mono hp, and_true]

theorem shows_title (name : String) (job : Job) :
    Shows (Line.boxOpen (jobId name) (jobTitle name job)) (jobTitle name job) job.runners where
  framed := ⟨_, (framed_boxOpen (isId_jobId name) _).behind spaces_outer⟩
  sound h := ⟨spaces_outer, isId_jobId name, h⟩
  made p hp := by
    have hname := (plain_escapeLabel ((given job.name).getD name)).mono hp
    have hopen : Plain " (" := by decide
    have hclose : Plain ")" := by decide
    simp only [jobTitle]
    split
    · next hnone =>
      rw [hnone]
      exact iff_of_true hname fun c hc => by cases hc
    · simp only [made_append, hname, hopen.mono hp, hclose.mono hp, true_and, and_true]

/-! ## The whole chart -/

theorem sound_classes : ∀ d ∈ Badge.classes, d.Sound := by
  have hclasses : ∀ d ∈ Badge.classes, IsId d.name ∧ d.props ≠ []
      ∧ ∀ p ∈ d.props, Made isStyleChar p.1 ∧ Made isStyleChar p.2 := by decide
  intro d hd
  obtain ⟨hname, hprops, hstyle⟩ := hclasses d hd
  exact ⟨hname, hprops, hstyle⟩

theorem mem_onlyTriggered {w : Workflow} {ls : List Line} {l : Line} :
    l ∈ onlyTriggered w ls ↔ w.hasTriggers = true ∧ l ∈ ls := by
  rw [onlyTriggered]
  split
  · next h => simp [h]
  · next h => simp [h]

theorem mem_boxes {w : Workflow} {names : List String} {l : Line} :
    l ∈ boxes w names
      ↔ ∃ name ∈ names, ∃ job, w.jobs.lookup name = some job ∧ l ∈ box name job := by
  rw [boxes, List.mem_flatMap]
  refine exists_congr fun name => and_congr_right fun _ => ?_
  cases w.jobs.lookup name <;> simp

theorem badgeClasses_subset (d : Direction) (w : Workflow) :
    ∀ cls ∈ badgeClasses, cls ∈ classesOf (chart d w) := by
  intro cls hcls
  rw [chart, classesOf_append]
  exact List.mem_append_right _ hcls

theorem boxesAlternate_boxes (w : Workflow) (bs : List Line) : ∀ names : List String,
    boxesAlternate false (boxes w names ++ bs) = boxesAlternate false bs
  | [] => rfl
  | name :: names => by
      rw [boxes, List.flatMap_cons, List.append_assoc, ← boxes]
      cases w.jobs.lookup name with
      | none => exact boxesAlternate_boxes w bs names
      | some job =>
          have hinner : ∀ l ∈ content name job, l.Inner :=
            fun l hl => (part_content name job l hl).2
          exact (boxesAlternate_box _ hinner).trans (boxesAlternate_boxes w bs names)

theorem inner_edges (es : List Edge) : ∀ l ∈ es.map (Line.edge outerIndent), l.Inner := by
  intro l hl
  obtain ⟨e, -, rfl⟩ := List.mem_map.mp hl
  exact ⟨nofun, nofun⟩

theorem boxesAlternate_triggers (w : Workflow) (bs : List Line) :
    boxesAlternate false (onlyTriggered w (triggerBox w.triggers) ++ bs)
      = boxesAlternate false bs := by
  have hinner : ∀ l ∈ (Trigger.ofValue w.triggers).map triggerLine, l.Inner := by
    intro l hl
    obtain ⟨t, -, rfl⟩ := List.mem_map.mp hl
    exact ⟨nofun, nofun⟩
  rw [onlyTriggered]
  split
  · exact boxesAlternate_box bs hinner
  · rfl

/-- Whatever the workflow, the boxes of its chart are opened and closed in turn. -/
theorem boxesAlternate_chart (d : Direction) (w : Workflow) :
    boxesAlternate false (chart d w) = true := by
  have hheader : ∀ l ∈ [Line.header d], l.Inner := by
    intro l hl
    rw [List.mem_singleton.mp hl]
    exact ⟨nofun, nofun⟩
  have hgates : ∀ l ∈ gateLines (w.jobs.filterMap jobGate?), l.Inner :=
    fun l hl => (part_gateLines sound_jobGates l hl).2
  have hroots : ∀ l ∈ onlyTriggered w ((rootEdges w (w.jobs.filterMap jobGate?)).map
      (Line.edge outerIndent)), l.Inner := fun l hl => inner_edges _ l (mem_onlyTriggered.mp hl).2
  simp only [chart, List.append_assoc]
  rw [boxesAlternate_inner _ hheader, boxesAlternate_triggers, boxesAlternate_inner _ hgates,
    boxesAlternate_boxes, boxesAlternate_inner _ hroots, boxesAlternate_inner _ (inner_edges _)]
  decide

end JobChart.Diagram

namespace JobChart

open Chart Diagram

/-- The texts of a workflow that are drawn as they are: the names of its
triggers, when there are any, and the runners of its jobs. -/
def Workflow.verbatim (w : Workflow) : List String :=
  (if w.hasTriggers then (Trigger.ofValue w.triggers).map (·.name) else [])
    ++ w.jobs.map (·.2.runners)

/-- A line of a chart can be read, or it shows one of these texts as it is. -/
theorem sound_or_shows {d : Direction} {w : Workflow} {l : Line} (hl : l ∈ chart d w) :
    l.Sound badgeClasses ∨ ∃ label, ∃ t ∈ w.verbatim, Shows l label t := by
  have hgates : ∀ g ∈ w.jobs.filterMap jobGate?, SoundGate g.2 := sound_jobGates
  have hnone : Made (· == ' ') "" := by decide
  simp only [chart, List.mem_append] at hl
  rcases hl with (((((hl | hl) | hl) | hl) | hl) | hl) | hl
  · rw [List.mem_singleton.mp hl]
    exact Or.inl ⟨hnone, trivial⟩
  · obtain ⟨htriggers, hl⟩ := mem_onlyTriggered.mp hl
    rcases List.mem_append.mp hl with hl | hl
    · rcases List.mem_cons.mp hl with rfl | hl
      · exact Or.inl ⟨spaces_outer, by decide, by decide⟩
      · obtain ⟨t, ht, rfl⟩ := List.mem_map.mp hl
        obtain ⟨label, hshows⟩ := shows_triggerLine t
        refine Or.inr ⟨label, t.name, List.mem_append_left _ ?_, hshows⟩
        rw [if_pos htriggers]
        exact List.mem_map_of_mem ht
    · rw [List.mem_singleton.mp hl]
      exact Or.inl ⟨spaces_outer, trivial⟩
  · exact Or.inl (part_gateLines hgates l hl).1
  · obtain ⟨name, -, job, hjob, hl⟩ := mem_boxes.mp hl
    have hjob := Workflow.mem_of_lookup hjob
    rcases List.mem_append.mp hl with hl | hl
    · rcases List.mem_cons.mp hl with rfl | hl
      · exact Or.inr ⟨_, job.runners, List.mem_append_right _ (List.mem_map_of_mem hjob),
          shows_title name job⟩
      · exact Or.inl (part_content name job l hl).1
    · rw [List.mem_singleton.mp hl]
      exact Or.inl ⟨spaces_outer, trivial⟩
  · exact Or.inl (part_edges spaces_outer (sound_rootEdges hgates) l (mem_onlyTriggered.mp hl).2).1
  · exact Or.inl (part_edges spaces_outer (sound_needEdges hgates) l hl).1
  · obtain ⟨c, hc, rfl⟩ := List.mem_map.mp hl
    exact Or.inl ⟨spaces_outer, sound_classes c hc⟩

/-- Each of these texts is shown somewhere in the chart. -/
theorem exists_shows (d : Direction) {w : Workflow} (hnames : (w.jobs.map (·.1)).Nodup)
    {t : String} (ht : t ∈ w.verbatim) : ∃ l ∈ chart d w, ∃ label, Shows l label t := by
  rcases List.mem_append.mp ht with ht | ht
  · split at ht
    · next htriggers =>
      obtain ⟨trigger, htrigger, rfl⟩ := List.mem_map.mp ht
      have hmem : triggerLine trigger ∈ triggerBox w.triggers :=
        List.mem_append_left _ (List.mem_cons_of_mem _ (List.mem_map_of_mem htrigger))
      refine ⟨triggerLine trigger, ?_, shows_triggerLine trigger⟩
      simp only [chart, List.mem_append, mem_onlyTriggered]
      simp only [htriggers, hmem, true_and, or_true, true_or]
    · cases ht
  · obtain ⟨⟨name, job⟩, hjob, rfl⟩ := List.mem_map.mp ht
    have hmem : Line.boxOpen (jobId name) (jobTitle name job) ∈ boxes w w.order :=
      mem_boxes.mpr ⟨name, Workflow.mem_order.mpr (List.mem_map_of_mem hjob), job,
        Workflow.lookup_of_mem hnames hjob, List.mem_cons_self⟩
    refine ⟨_, ?_, _, shows_title name job⟩
    simp only [chart, List.mem_append]
    simp only [hmem, true_or, or_true]

/-- Where these texts are plain, a chart is read as its lines. -/
theorem readsAs_chart (d : Direction) {w : Workflow} (h : ∀ t ∈ w.verbatim, Plain t) :
    ReadsAs d (textOf (chart d w)) (chart d w) := by
  refine readsAs_textOf rfl (fun l hl => ?_) (boxesAlternate_chart d w)
  refine Line.Sound.mono ?_ (badgeClasses_subset d w)
  rcases sound_or_shows hl with hsound | ⟨label, t, ht, hshows⟩
  · exact hsound
  · exact hshows.sound_of_plain (h t ht)

/-- Where they hold no line break, the lines of a chart hold none. -/
theorem unbroken_chart {d : Direction} {w : Workflow} (h : ∀ t ∈ w.verbatim, Unbroken t) :
    ∀ l ∈ chart d w, Unbroken l.text := by
  intro l hl
  have hclasses : ∀ cls ∈ badgeClasses, IsId cls := by decide
  rcases sound_or_shows hl with hsound | ⟨label, t, ht, hshows⟩
  · exact (hsound.text hclasses).1
  · exact hshows.unbroken.mpr (h t ht)

/-- Where they hold no line break but one of them a double quote, a chart cannot
be read at all. -/
theorem plain_of_readsAs {d : Direction} {w : Workflow} {rows : List Line}
    (hnames : (w.jobs.map (·.1)).Nodup) (h : ∀ t ∈ w.verbatim, Unbroken t)
    (hreads : ReadsAs d (textOf (chart d w)) rows) : ∀ t ∈ w.verbatim, Plain t := by
  intro t ht
  obtain ⟨l, hl, label, hshows⟩ := exists_shows d hnames ht
  have htexts := hreads.texts
  rw [splitOn_textOf (List.ne_nil_of_mem hl) (unbroken_chart h)] at htexts
  have hmem : l.text.toList ∈ rows.map fun l => l.text.toList :=
    htexts ▸ List.mem_map_of_mem hl
  obtain ⟨row, hrow, htext⟩ := List.mem_map.mp hmem
  exact hshows.plain (hreads.sound row hrow) (isId_of_mem_classesOf hreads.sound)
    (String.toList_inj.mp htext)

/-- **What is written as it is decides.** Any document that is drawn has the
text of its lines for a chart, and this text is read as these lines, each of one
kind, with ids for ids, nothing but plain texts between quotes, defined classes
and boxes in turn, exactly when the names of its triggers and its runners hold
no double quote and no line break. If they hold only quotes, the text cannot be
read as any lines. -/
theorem chart_read_iff_plain {d : Direction} {data : Value} {code : String}
    (h : draw d data = .ok code) :
    ∃ w ls, Workflow.ofValue data = .ok w ∧ lines d w = .ok ls ∧ code = textOf ls
      ∧ (ReadsAs d code ls ↔ ∀ t ∈ w.verbatim, Plain t)
      ∧ ((∀ t ∈ w.verbatim, Unbroken t) →
        ∀ rows, ReadsAs d code rows → ∀ t ∈ w.verbatim, Plain t) := by
  obtain ⟨w, hw, -, rfl⟩ := exists_workflow_of_draw h
  have hnames := Workflow.nodup_names hw
  refine ⟨w, chart d w, hw, lines_eq d w, rfl, ⟨fun hreads t ht => ?_, readsAs_chart d⟩,
    fun hbreaks rows => plain_of_readsAs hnames hbreaks⟩
  obtain ⟨l, hl, label, hshows⟩ := exists_shows d hnames ht
  exact hshows.plain (hreads.sound l hl) (isId_of_mem_classesOf hreads.sound) rfl

/-- A workflow with double quotes and line breaks in every text that is escaped. -/
def quotedTexts : Value :=
  .map [(.str "on", .map [(.str "push", .map [(.str "tags", .str "v\"1\"")])]),
    (.str "jobs", .map [(.str "a\"b", .map [(.str "name", .str "say \"hi\"\ntwice"),
      (.str "runs-on", .str "ubuntu"), (.str "if", .str "x == \"\n\" && always()"),
      (.str "steps", .list [.map [(.str "uses", .str "act\"ion")]])])])]

theorem quotedTexts_read :
    ∃ code ls, draw .topDown quotedTexts = .ok code ∧ ReadsAs .topDown code ls := by
  have hverbatim : (Workflow.ofValue quotedTexts).map
      (fun w => (w.verbatim, w.isOverlong quotedTexts))
        = .ok (["push", "ubuntu"], false) := by decide +kernel
  cases hw : Workflow.ofValue quotedTexts with
  | error e => rw [hw] at hverbatim; cases hverbatim
  | ok w =>
      rw [hw] at hverbatim
      obtain ⟨hverbatim, hshort⟩ := Prod.mk.inj (Except.ok.inj hverbatim)
      have hdraw := draw_of_workflow .topDown hw hshort
      obtain ⟨w', ls, hw', -, -, hreads, -⟩ := chart_read_iff_plain hdraw
      obtain rfl := Except.ok.inj (hw.symm.trans hw')
      have hplain : ∀ t ∈ w.verbatim, Plain t := by
        rw [hverbatim]
        decide
      exact ⟨_, ls, hdraw, hreads.mpr hplain⟩

/-- A workflow whose trigger has a double quote in its name. -/
def quotedTrigger : Value :=
  .map [(.str "on", .str "a\"b"), (.str "jobs", .map [(.str "build", .map [])])]

theorem quotedTrigger_unreadable :
    ∃ code, draw .topDown quotedTrigger = .ok code ∧ ∀ rows, ¬ReadsAs .topDown code rows := by
  have hverbatim : (Workflow.ofValue quotedTrigger).map
      (fun w => (w.verbatim, w.isOverlong quotedTrigger))
        = .ok (["a\"b", ""], false) := by decide +kernel
  cases hw : Workflow.ofValue quotedTrigger with
  | error e => rw [hw] at hverbatim; cases hverbatim
  | ok w =>
      rw [hw] at hverbatim
      obtain ⟨hverbatim, hshort⟩ := Prod.mk.inj (Except.ok.inj hverbatim)
      refine ⟨_, draw_of_workflow .topDown hw hshort, fun rows hreads => ?_⟩
      have hunbroken : ∀ t ∈ w.verbatim, Unbroken t := by
        rw [hverbatim]
        decide
      have hplain := plain_of_readsAs (Workflow.nodup_names hw) hunbroken hreads
      rw [hverbatim] at hplain
      exact absurd (hplain "a\"b" List.mem_cons_self) (by decide)

end JobChart
