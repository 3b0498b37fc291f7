import JobChart.Proofs.Diagram.Collisions
import JobChart.Proofs.Text.Blank

/-!
# What a step is called in its box

The label of a step goes a long way: a field is chosen, a script gives its
first line only, which is trimmed and shortened, and what is left is escaped and
cut. Escaping and cutting never empty a text (`escapeLabel_eq_empty_iff`), and
they hide no more than what lies beyond the limit (`allBlank_escapeLabel`).
Trimming may: the field is chosen before its first line is looked at, so a
script that starts with a blank line leaves the step without a label, and no
other step is (`Step.label_eq_empty_iff`). Names and actions of blanks are
chosen as well, and drawn as they are.
-/

namespace JobChart

open Text

namespace Chart

/-! ## Escaped and cut texts -/

theorem length_escapeLabel_le (s : String) : (escapeLabel s).length ≤ labelLimit := by
  rw [escapeLabel, String.length_ofList]
  exact List.length_take_le _ _

/-- A blank that is drawn as it is; a line break is not, it becomes a tag. -/
def staysBlank (c : Char) : Bool := isBlank c && c != '\n'

theorem escapeChar_of_stays {c : Char} (h : staysBlank c = true) :
    escapeChar c = [c] ∧ isBlank c = true := by
  rw [staysBlank, Bool.and_eq_true, bne_iff_ne] at h
  have hquote : c ≠ '"' := by
    rintro rfl
    exact absurd h.1 (by decide)
  rw [escapeChar, if_neg hquote, if_neg h.2]
  exact ⟨rfl, h.1⟩

theorem escapeChar_of_not_stays {c : Char} (h : staysBlank c = false) :
    ∃ d ds, escapeChar c = d :: ds ∧ isBlank d = false := by
  rw [escapeChar]
  split
  · exact ⟨_, _, rfl, by decide⟩
  · split
    · exact ⟨_, _, rfl, by decide⟩
    · next hbreak =>
      rw [staysBlank, bne_iff_ne.mpr hbreak, Bool.and_true] at h
      exact ⟨c, [], rfl, h⟩

/-- Cut at the same limit, an escaped text is blank where the text stays so. -/
theorem all_blank_take : ∀ (n : Nat) (cs : List Char),
    ((cs.flatMap escapeChar).take n).all isBlank = (cs.take n).all staysBlank
  | 0, _ => by rw [List.take_zero, List.take_zero]; rfl
  | _ + 1, [] => rfl
  | n + 1, c :: cs => by
      rw [List.flatMap_cons, List.take_succ_cons, List.all_cons]
      cases hc : staysBlank c with
      | true =>
          obtain ⟨hescape, hblank⟩ := escapeChar_of_stays hc
          rw [hescape, List.singleton_append, List.take_succ_cons, List.all_cons, hblank,
            all_blank_take n cs]
      | false =>
          obtain ⟨d, ds, hescape, hd⟩ := escapeChar_of_not_stays hc
          rw [hescape, List.cons_append, List.take_succ_cons, List.all_cons, hd, Bool.false_and,
            Bool.false_and]

theorem allBlank_escapeLabel (s : String) :
    allBlank (escapeLabel s) = (s.toList.take labelLimit).all staysBlank := by
  rw [allBlank, escapeLabel, String.toList_ofList]
  exact all_blank_take labelLimit s.toList

theorem escapeChar_ne_nil (c : Char) : escapeChar c ≠ [] := by
  rw [escapeChar]
  split
  · decide
  · split
    · decide
    · exact List.cons_ne_nil c []

theorem escapeLabel_eq_empty_iff {s : String} : escapeLabel s = "" ↔ s = "" := by
  refine ⟨fun h => ?_, fun h => by rw [h]; rfl⟩
  have hescaped := congrArg String.toList h
  rw [escapeLabel, String.toList_ofList] at hescaped
  cases hs : s.toList with
  | nil => exact String.toList_eq_nil_iff.mp hs
  | cons c cs =>
      rw [hs, List.flatMap_cons] at hescaped
      rcases List.take_eq_nil_iff.mp hescaped with hlimit | hnil
      · cases hlimit
      · exact absurd (List.append_eq_nil_iff.mp hnil).1 (escapeChar_ne_nil c)

end Chart

open Chart

/-! ## Titles of scripts -/

section

variable {script : String}

theorem scriptTitle_of_blank (h : allBlank (firstPiece '\n' script) = true) :
    scriptTitle script = "" := by
  have hline : strip (firstPiece '\n' script) = "" := by rw [strip, allBlank_iff.mp h]
  rw [scriptTitle, hline]
  rfl

/-- A first line that is not blank gives a title, and the title starts with no blank. -/
theorem exists_head_scriptTitle (h : allBlank (firstPiece '\n' script) = false) :
    ∃ c cs, (scriptTitle script).toList = c :: cs ∧ isBlank c = false := by
  have hne : trim (firstPiece '\n' script).toList ≠ [] :=
    mt allBlank_iff.mpr (Bool.eq_false_iff.mp h)
  obtain ⟨c, cs, hline⟩ := List.exists_cons_of_ne_nil hne
  have hc : isBlank c = false := head_of_trim (by rw [← hline, trim_trim])
  have hstrip : (strip (firstPiece '\n' script)).toList = c :: cs := by
    rw [strip, String.toList_ofList, hline]
  simp only [scriptTitle]
  split
  · have hlimit : 0 < scriptLimit - 3 := by decide
    refine ⟨c, cs.take (scriptLimit - 3 - 1) ++ "...".toList, ?_, hc⟩
    rw [String.toList_append, cut, String.toList_ofList, hstrip, List.take_cons hlimit,
      List.cons_append]
  · exact ⟨c, cs, hstrip, hc⟩

theorem scriptTitle_eq_empty_iff :
    scriptTitle script = "" ↔ allBlank (firstPiece '\n' script) = true := by
  refine ⟨fun h => ?_, scriptTitle_of_blank⟩
  by_contra hblank
  obtain ⟨c, cs, hhead, -⟩ := exists_head_scriptTitle (Bool.eq_false_iff.mpr hblank)
  rw [h] at hhead
  cases hhead

theorem allBlank_scriptTitle :
    allBlank (escapeLabel (scriptTitle script)) = allBlank (firstPiece '\n' script) := by
  cases hline : allBlank (firstPiece '\n' script) with
  | true => rw [scriptTitle_of_blank hline]; rfl
  | false =>
      obtain ⟨c, cs, hhead, hc⟩ := exists_head_scriptTitle hline
      have hlimit : 0 < labelLimit := by decide
      rw [allBlank_escapeLabel, hhead, List.take_cons hlimit, List.all_cons, staysBlank, hc,
        Bool.false_and, Bool.false_and]

end

/-! ## Labels of steps -/

theorem given_ne_empty {field : Option String} {t : String} (h : given field = some t) :
    t ≠ "" := by
  simpa using (Option.filter_eq_some_iff.mp h).2

namespace Step

/-- The step has neither a name nor an action, and its script starts with a blank
line. -/
def startsBlank (s : Step) : Bool :=
  match given s.name, given s.uses, given s.run with
  | none, none, some script => allBlank (firstPiece '\n' script)
  | _, _, _ => false

/-- The field that the step is called by has nothing to show: a name or an action
within the limit, a script in its first line. -/
def untitled (s : Step) : Bool :=
  match given s.name, given s.uses, given s.run with
  | some t, _, _ | none, some t, _ => (t.toList.take labelLimit).all staysBlank
  | none, none, some script => allBlank (firstPiece '\n' script)
  | none, none, none => false

theorem label_eq_empty_iff (s : Step) : escapeLabel s.label = "" ↔ s.startsBlank = true := by
  rw [escapeLabel_eq_empty_iff, label, startsBlank]
  cases hname : given s.name with
  | some t => exact iff_of_false (given_ne_empty hname) Bool.false_ne_true
  | none =>
      cases huses : given s.uses with
      | some t => exact iff_of_false (given_ne_empty huses) Bool.false_ne_true
      | none =>
          cases given s.run with
          | some script => exact scriptTitle_eq_empty_iff
          | none => exact iff_of_false (by decide) Bool.false_ne_true

theorem allBlank_label (s : Step) : allBlank (escapeLabel s.label) = s.untitled := by
  rw [label, untitled]
  cases given s.name with
  | some t => exact allBlank_escapeLabel t
  | none =>
      cases given s.uses with
      | some t => exact allBlank_escapeLabel t
      | none =>
          cases given s.run with
          | some script => exact allBlank_scriptTitle
          | none => rfl

end Step

namespace Diagram

/-! ## Nodes of steps -/

theorem mem_stops (name : String) : ∀ {k i : Nat} {steps : List Step} {s : Step},
    steps[i]? = some s →
      ⟨stepId name (k + i), s.label, gate (stepGuardId name (k + i)) s.guard⟩ ∈ stops name k steps
  | _, _, [], _, h => by cases h
  | _, 0, _ :: _, _, h => by
      obtain rfl := Option.some.inj h
      exact List.mem_cons_self
  | k, i + 1, _ :: steps, _, h => by
      rw [show k + (i + 1) = k + 1 + i by omega]
      exact List.mem_cons_of_mem _ (mem_stops name h)

theorem step_mem_box (name : String) {job : Job} {i : Nat} {s : Step}
    (huses : given job.uses = none) (hstep : job.steps[i]? = some s) :
    Line.box (stepId name i) (escapeLabel s.label) ∈ box name job := by
  have hsteps : job.steps.isEmpty = false := by
    rw [List.isEmpty_eq_false_iff]
    intro hnil
    rw [hnil] at hstep
    cases hstep
  have hstop := mem_stops name (k := 0) hstep
  rw [Nat.zero_add] at hstop
  refine List.mem_append_left _ (List.mem_cons_of_mem _ ?_)
  rw [content, huses, hsteps]
  refine List.mem_append_left _ (List.mem_flatMap.mpr ⟨_, hstop, ?_⟩)
  exact List.mem_append_right _ List.mem_cons_self

/-- Where no id is defined twice, an id belongs to one line. -/
theorem eq_of_definedId {id : String} {ls : List Line} {l m : Line} (hnodup : (definedIds ls).Nodup)
    (hl : l ∈ ls) (hm : m ∈ ls) (hlid : definedId? l = some id) (hmid : definedId? m = some id) :
    l = m := by
  by_contra hne
  have hapart := List.pairwise_filterMap.mp hnodup
  have hsymm : Std.Symm fun l m : Line =>
      ∀ b, definedId? l = some b → ∀ c, definedId? m = some c → b ≠ c :=
    ⟨fun _ _ h b hb c hc => (h c hc b hb).symm⟩
  exact hapart.forall hl hm hne id hlid id hmid rfl

/-- **When a step has a label.** In a job that calls no other workflow each step
has one node, whatever the step was read from. The label of the node has at most
80 characters. It is empty iff the step starts blank, and all of it is blank iff
the step is untitled. -/
theorem step_label_empty_iff (name : String) {job : Job} {i : Nat} {raw : Value}
    (huses : given job.uses = none) (hstep : job.steps[i]? = some (Step.ofValue raw)) :
    ∃ ls label, jobBox name job = .ok ls ∧ Line.box (stepId name i) label ∈ ls
      ∧ (∀ l ∈ ls, definedId? l = some (stepId name i) → l = Line.box (stepId name i) label)
      ∧ label.length ≤ 80 ∧ (label = "" ↔ (Step.ofValue raw).startsBlank = true)
      ∧ allBlank label = (Step.ofValue raw).untitled := by
  have hmem := step_mem_box name huses hstep
  refine ⟨box name job, escapeLabel (Step.ofValue raw).label, jobBox_eq name job, hmem, ?_,
    length_escapeLabel_le _, Step.label_eq_empty_iff _, Step.allBlank_label _⟩
  intro l hl hid
  exact eq_of_definedId (nodup_box name job) hl hmem hid rfl

/-- A step with an empty name and a script of two lines. -/
def scripted : Value :=
  .map [(.str "name", .str ""), (.str "run", .str "  make \"all\"\n\nmake test")]

/-- A job with this step behind one that is nothing. -/
def scriptedJob : Job := .ofValue (.map [(.str "steps", .list [.null, scripted])])

theorem scripted_step_labelled :
    given scriptedJob.uses = none ∧ scriptedJob.steps[1]? = some (Step.ofValue scripted)
      ∧ ∃ ls label, jobBox "build" scriptedJob = .ok ls ∧ Line.box (stepId "build" 1) label ∈ ls
        ∧ (∀ l ∈ ls, definedId? l = some (stepId "build" 1)
          → l = Line.box (stepId "build" 1) label)
        ∧ label.length ≤ 80 ∧ label ≠ "" ∧ allBlank label = false := by
  have huses : given scriptedJob.uses = none := rfl
  have hstep : scriptedJob.steps[1]? = some (Step.ofValue scripted) := rfl
  obtain ⟨ls, label, hls, hmem, hone, hlength, hempty, hblank⟩ :=
    step_label_empty_iff "build" huses hstep
  exact ⟨huses, hstep, ls, label, hls, hmem, hone, hlength, mt hempty.mp (by decide),
    hblank.trans (by decide)⟩

/-- A step whose script starts with an empty line. -/
def lateScript : Value := .map [(.str "run", .str "\necho hi")]

/-- Its node has an empty label: the script is chosen because something is in it,
and the line that is shown is looked at afterwards. -/
theorem late_script_unlabelled :
    ∃ ls, jobBox "j" { steps := [Step.ofValue lateScript] } = .ok ls
      ∧ Line.box (stepId "j" 0) "" ∈ ls := by
  have hempty : escapeLabel (Step.ofValue lateScript).label = "" :=
    (Step.label_eq_empty_iff _).mpr (by decide)
  exact ⟨_, jobBox_eq _ _, hempty ▸ step_mem_box "j" rfl rfl⟩

end Diagram

end JobChart
