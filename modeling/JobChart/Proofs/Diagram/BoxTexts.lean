import JobChart.Proofs.Diagram.Escaping

/-!
# No text gets out of its box

The box of a job as the texts of its lines. Whatever the job's name and its
texts hold, they change what stands in the labels and nothing else: the first
text opens the box, the last one closes it, and each text between puts one node
or one edge, with the quotes of one label or with none. The runners of the job
alone are written as they are, into the title, so they have to be plain.

A text that opens or closes a box is told by its characters alone, with any id
and title (`kindOf_of_opensBox`, `kindOf_of_closesBox`). So no label can look
like one.
-/

namespace JobChart.Chart

/-! ## Texts that open and close boxes -/

/-- The text opens a box with this id and this title. -/
def OpensBox (id title t : String) : Prop :=
  ∃ indent, Made (· == ' ') indent ∧ t = indent ++ "subgraph " ++ id ++ " [\"" ++ title ++ "\"]"

def ClosesBox (t : String) : Prop := ∃ indent, Made (· == ' ') indent ∧ t = indent ++ "end"

theorem opensBox_boxOpen (id title : String) :
    OpensBox id title (Line.boxOpen id title).text := by
  refine ⟨outerIndent, by decide, ?_⟩
  simp only [Line.boxOpen, Line.text, Item.text, String.append_assoc]

theorem closesBox_boxClose : ClosesBox Line.boxClose.text := ⟨outerIndent, by decide, rfl⟩

theorem kindOf_of_opensBox {id title t : String} (h : OpensBox id title t) :
    kindOf t.toList = .boxOpen := by
  obtain ⟨indent, hindent, rfl⟩ := h
  have hbody : (indent ++ "subgraph " ++ id ++ " [\"" ++ title ++ "\"]").toList.dropWhile (· == ' ')
      = "subgraph ".toList ++ (id ++ " [\"" ++ title ++ "\"]").toList := by
    simp only [String.toList_append, List.append_assoc]
    rw [List.dropWhile_append_of_pos hindent]
    rfl
  have hword : Made (· != '"') "subgraph " := by decide
  rw [kindOf, hbody, List.takeWhile_append_of_pos hword]
  simp

theorem kindOf_of_closesBox {t : String} (h : ClosesBox t) : kindOf t.toList = .boxClose := by
  obtain ⟨indent, hindent, rfl⟩ := h
  rw [kindOf, String.toList_append, List.dropWhile_append_of_pos hindent]
  decide

end JobChart.Chart

namespace JobChart.Diagram

open Chart

/-! ## Texts of a box -/

/-- The text puts a sound node, and it has no quotes but the two around the label. -/
def PutsNode (t : String) : Prop :=
  ∃ (indent : String) (n : Node), Made (· == ' ') indent ∧ n.Sound badgeClasses
    ∧ t = indent ++ n.text ∧ t.toList.count '"' = 2

/-- The text puts a sound edge, and it has no quotes. -/
def PutsEdge (t : String) : Prop :=
  ∃ (indent : String) (e : Edge), Made (· == ' ') indent ∧ e.Sound
    ∧ t = indent ++ e.text ∧ '"' ∉ t.toList

/-- The texts are those of one box: each is one line, the first opens the box
and the last closes it, and those between do neither, but put a node or an edge. -/
structure Boxed (ts : List String) : Prop where
  unbroken : ∀ t ∈ ts, Unbroken t
  ends : ∃ first inner last, ts = first :: inner ++ [last]
    ∧ (∃ id title, IsId id ∧ Plain title ∧ OpensBox id title first) ∧ ClosesBox last
    ∧ ∀ t ∈ inner, (PutsNode t ∨ PutsEdge t)
      ∧ (∀ id title, ¬OpensBox id title t) ∧ ¬ClosesBox t

theorem isId_of_mem_badgeClasses : ∀ cls ∈ badgeClasses, IsId cls := by decide

theorem puts_of_sound {l : Line} (h : l.Sound badgeClasses)
    (hkind : l.item.kind = .node ∨ l.item.kind = .edge) : PutsNode l.text ∨ PutsEdge l.text := by
  obtain ⟨hindent, hitem⟩ := id h
  cases hi : l.item with
  | node n =>
      have hcount := (h.labelled isId_of_mem_badgeClasses (Or.inl (hi ▸ rfl))).2
      rw [hi] at hitem
      exact Or.inl ⟨l.indent, n, hindent, hitem, by rw [Line.text, hi]; rfl, hcount⟩
  | edge e =>
      have hbare : LineKind.edge ≠ .node ∧ LineKind.edge ≠ .boxOpen := by decide
      have hplain := h.bare (by rw [hi]; exact hbare)
      rw [hi] at hitem
      exact Or.inr ⟨l.indent, e, hindent, hitem, by rw [Line.text, hi]; rfl,
        hplain.not_mem (by decide)⟩
  | _ => rw [hi] at hkind; rcases hkind with hkind | hkind <;> cases hkind

/-- A sound line of another kind neither opens nor closes a box. -/
theorem no_end_of_sound {l : Line} (h : l.Sound badgeClasses) (hinner : l.Inner) :
    (∀ id title, ¬OpensBox id title l.text) ∧ ¬ClosesBox l.text := by
  have hkind := kindOf_text h isId_of_mem_badgeClasses
  exact ⟨fun id title hopens => hinner.1 (hkind.symm.trans (kindOf_of_opensBox hopens)),
    fun hcloses => hinner.2 (hkind.symm.trans (kindOf_of_closesBox hcloses))⟩

theorem plain_jobTitle (name : String) {job : Job} (h : Plain job.runners) :
    Plain (jobTitle name job) :=
  ((shows_title name job).made isPlainChar fun _ hc => hc).mpr h

theorem sound_box (name : String) {job : Job} (h : Plain job.runners) :
    ∀ l ∈ box name job, l.Sound badgeClasses := by
  intro l hl
  rcases List.mem_append.mp hl with hl | hl
  · rcases List.mem_cons.mp hl with rfl | hl
    · exact (shows_title name job).sound (plain_jobTitle name h)
    · exact (part_content name job l hl).1
  · rw [List.mem_singleton.mp hl]
    exact ⟨spaces_outer, trivial⟩

/-- **No text gets out of its box.** Whatever the name of a job, its guards and
all else in it, as long as its runners are plain the job is drawn as the texts of
one box: one that opens it, one that closes it, and between them nodes with one
quoted label each and edges, with proper ids. -/
theorem job_texts_boxed (name : String) {job : Job} (hrunners : Plain job.runners) :
    ∃ ls, jobBox name job = .ok ls ∧ Boxed (ls.map Line.text) := by
  refine ⟨box name job, jobBox_eq name job, fun t ht => ?_, ?_⟩
  · obtain ⟨l, hl, rfl⟩ := List.mem_map.mp ht
    exact ((sound_box name hrunners l hl).text isId_of_mem_badgeClasses).1
  · have htitle := plain_jobTitle name hrunners
    refine ⟨(Line.boxOpen (jobId name) (jobTitle name job)).text,
      (content name job).map Line.text, Line.boxClose.text,
      by rw [box, List.map_append, List.map_cons]; rfl,
      ⟨jobId name, jobTitle name job, isId_jobId name, htitle, opensBox_boxOpen _ _⟩,
      closesBox_boxClose, fun t ht => ?_⟩
    obtain ⟨l, hl, rfl⟩ := List.mem_map.mp ht
    obtain ⟨hsound, hinner⟩ := part_content name job l hl
    exact ⟨puts_of_sound hsound (drawn_content l hl).2, no_end_of_sound hsound hinner⟩

/-- A job with quotes, line breaks and the words of a box in all texts that are
escaped. -/
def unrulyJob : Job :=
  .ofValue (.map [(.str "name", .str "say \"hi\"\n  end"),
    (.str "runs-on", .list [.str "self-hosted", .str "x64"]),
    (.str "steps", .list [
      .map [(.str "name", .str "a\"]\n  end"),
        (.str "if", .str "x == \"\n  end\" && (y || always())")],
      .map [(.str "run", .str "subgraph x [\"\"]\nend")], .null])])

theorem job_texts_boxed_unruly :
    unrulyJob.runners = "self-hosted, x64"
      ∧ ∃ ls, jobBox "\"\n  end" unrulyJob = .ok ls ∧ Boxed (ls.map Line.text) := by
  have hrunners : unrulyJob.runners = "self-hosted, x64" := by decide +kernel
  have hplain : Plain unrulyJob.runners := by
    rw [hrunners]
    decide
  exact ⟨hrunners, job_texts_boxed _ hplain⟩

end JobChart.Diagram
