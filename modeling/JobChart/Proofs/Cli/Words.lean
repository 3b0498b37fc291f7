import JobChart.Cli.Options

/-!
# Command lines without the options on strictness

Two options only say how strictly a workflow is judged. `withoutGates` takes
their words out of a command line, `ungated` resets them in what is read. The
two go together (`ofWords_withoutGates`): where the command line is not refused,
the shorter one reads as the same options, these two apart, and where help is
asked for, it still is.

Taking words out is not harmless by itself. The word behind a gate could come
to stand behind an option that lacks its value, or the name of the workflow
next to a lone `--`. Both happen only where the command line was refused
before, so every lemma here is about words that are not refused.
-/

namespace JobChart.Cli

/-! ## Gates -/

/-- The words without those that belong to the options on strictness. -/
def dropGates : List (String × Word) → List (String × Word)
  | [] => []
  | (_, .flag .strict none) :: ws => dropGates ws
  | (_, .flag .escalate (some _)) :: ws => dropGates ws
  | (_, .flag .escalate none) :: (_, .plain) :: ws => dropGates ws
  | w :: ws => w :: dropGates ws

/-- Words in front of a lone `--`, with what stands behind it. -/
def putBack (front : List String) (rest : Option (List String)) : List String :=
  front ++ rest.elim [] ("--" :: ·)

/-- A command line without the options on strictness. One with a word that
could be two options is left as it is. -/
def withoutGates (words : List String) : List String :=
  let (front, rest) := cutAtDashes words
  match classifyAll front with
  | .error _ => words
  | .ok ws => putBack ((dropGates ws).map (·.1)) rest

def Draft.ungated (d : Draft) : Draft := { d with strict := false, escalate := "" }

def Options.ungated (o : Options) : Options := { o with strict := false, escalate := "" }

def Unrefused {α : Type} (x : Except Stop α) : Prop := ∀ e, x ≠ .error (.refused e)

theorem unrefused_ok {α : Type} (a : α) : Unrefused (.ok a : Except Stop α) := nofun

theorem not_unrefused {α : Type} {x : Except Stop α} {e : UsageError}
    (h : x = .error (.refused e)) : ¬Unrefused x := fun hx => hx e h

theorem dropGates_sublist (ws : List (String × Word)) : (dropGates ws).Sublist ws := by
  fun_induction dropGates ws with
  | case1 => exact .slnil
  | case2 w ws ih => exact ih.cons _
  | case3 w v ws ih => exact ih.cons _
  | case4 w v ws ih => exact (ih.cons _).cons _
  | case5 w ws _ _ _ ih => exact ih.cons_cons _

/-! ## Words and what they are -/

theorem classifyAll_eq_ok_iff {words : List String} {ws : List (String × Word)} :
    classifyAll words = .ok ws ↔
      words = ws.map (·.1) ∧ ∀ w ∈ ws, classify w.1 = .ok w.2 := by
  constructor
  · intro h
    induction words generalizing ws with
    | nil => cases h; exact ⟨rfl, nofun⟩
    | cons w words ih =>
        rw [classifyAll] at h
        cases hkind : classify w with
        | error e => rw [hkind] at h; cases h
        | ok kind =>
            cases hmore : classifyAll words with
            | error e => rw [hkind, hmore] at h; cases h
            | ok more =>
                rw [hkind, hmore] at h
                cases h
                obtain ⟨rfl, hall⟩ := ih hmore
                exact ⟨rfl, List.forall_mem_cons.mpr ⟨hkind, hall⟩⟩
  · rintro ⟨rfl, h⟩
    induction ws with
    | nil => rfl
    | cons w ws ih =>
        rw [List.map_cons, classifyAll, h w List.mem_cons_self,
          ih fun v hv => h v (List.mem_cons_of_mem w hv)]
        rfl

/-- Each word is what it is by itself, so some of them can be taken out. -/
theorem classifyAll_dropGates {words : List String} {ws : List (String × Word)}
    (h : classifyAll words = .ok ws) :
    classifyAll ((dropGates ws).map (·.1)) = .ok (dropGates ws) :=
  classifyAll_eq_ok_iff.mpr
    ⟨rfl, fun w hw => (classifyAll_eq_ok_iff.mp h).2 w ((dropGates_sublist ws).mem hw)⟩

theorem cutAtDashes_putBack {front : List String} (h : "--" ∉ front)
    (rest : Option (List String)) : cutAtDashes (putBack front rest) = (front, rest) := by
  induction front with
  | nil => cases rest <;> simp [putBack, cutAtDashes]
  | cons w front ih =>
      have hw : w ≠ "--" := fun heq => h (heq ▸ List.mem_cons_self)
      have hcut := ih fun hmem => h (List.mem_cons_of_mem w hmem)
      rw [putBack] at hcut
      rw [putBack, List.cons_append, cutAtDashes, if_neg hw, hcut]

theorem putBack_cutAtDashes (words : List String) :
    putBack (cutAtDashes words).1 (cutAtDashes words).2 = words := by
  fun_induction cutAtDashes words with
  | case1 => rfl
  | case2 => rfl
  | case3 w words hw front rest hcut ih =>
      rw [hcut] at ih
      rw [putBack, List.cons_append, ← putBack, ih]

theorem dashes_notMem_front (words : List String) : "--" ∉ (cutAtDashes words).1 := by
  fun_induction cutAtDashes words with
  | case1 => exact List.not_mem_nil
  | case2 => exact List.not_mem_nil
  | case3 w words hw front rest hcut ih =>
      rw [hcut] at ih
      exact fun hmem => (List.mem_cons.mp hmem).elim (fun heq => hw heq.symm) ih

section

variable {words front : List String} {rest : Option (List String)} {ws : List (String × Word)}

theorem withoutGates_of_classified (hcut : cutAtDashes words = (front, rest))
    (hall : classifyAll front = .ok ws) :
    withoutGates words = putBack ((dropGates ws).map (·.1)) rest := by
  rw [withoutGates, hcut]
  simp only [hall]

theorem withoutGates_of_ambiguous {e : UsageError} (hcut : cutAtDashes words = (front, rest))
    (hall : classifyAll front = .error e) : withoutGates words = words := by
  rw [withoutGates, hcut]
  simp only [hall]

/-- Words are taken out; what is left stays in its order. -/
theorem withoutGates_sublist (words : List String) : (withoutGates words).Sublist words := by
  obtain ⟨front, rest, hcut⟩ : ∃ front rest, cutAtDashes words = (front, rest) := ⟨_, _, rfl⟩
  cases hall : classifyAll front with
  | error e => simp only [withoutGates_of_ambiguous hcut hall, List.Sublist.refl]
  | ok ws =>
      have hwords := putBack_cutAtDashes words
      rw [hcut, (classifyAll_eq_ok_iff.mp hall).1] at hwords
      rw [withoutGates_of_classified hcut hall, ← hwords]
      exact ((dropGates_sublist ws).map (·.1)).append (List.Sublist.refl _)

/-- What is left is cut at the same `--`. -/
theorem cutAtDashes_withoutGates (hcut : cutAtDashes words = (front, rest))
    (hall : classifyAll front = .ok ws) :
    cutAtDashes (withoutGates words) = ((dropGates ws).map (·.1), rest) := by
  have hfront := dashes_notMem_front words
  rw [hcut, (classifyAll_eq_ok_iff.mp hall).1] at hfront
  rw [withoutGates_of_classified hcut hall]
  exact cutAtDashes_putBack
    (fun hmem => hfront (((dropGates_sublist ws).map (·.1)).mem hmem)) rest

end

/-! ## Changes of drafts -/

/-- A change of drafts, and of the options that they come to. It leaves alone the
word that names the workflow and the words too many, and does not look at them. -/
structure Revision (f : Draft → Draft) (g : Options → Options) : Prop where
  workflow : ∀ d, (f d).workflow = d.workflow
  extra : ∀ d, (f d).extra = d.extra
  named : ∀ d name,
    f { d with workflow := some name } = { f d with workflow := some name, extra := d.extra }
  left : ∀ d extra,
    f { d with extra := extra } = { f d with workflow := d.workflow, extra := extra }
  options : ∀ d name,
    g ⟨name, d.out, d.format, d.direction, d.strict, d.escalate⟩
      = ⟨name, (f d).out, (f d).format, (f d).direction, (f d).strict, (f d).escalate⟩

namespace Revision

variable {f : Draft → Draft} {g : Options → Options}

theorem takeWord (h : Revision f g) (d : Draft) (w : String) :
    f (d.takeWord w) = (f d).takeWord w := by
  simp only [Draft.takeWord, h.workflow, h.extra]
  split
  · exact h.named d w
  · exact h.left d (d.extra ++ [w])

theorem readRest (h : Revision f g) (d : Draft) (isTaken : Bool) (rest : List String) :
    Cli.readRest (f d) isTaken rest = f (Cli.readRest d isTaken rest) := by
  simp only [Cli.readRest, h.workflow, h.extra]
  split
  · next w ws hnone =>
    have hleft := h.left { d with workflow := some w } (d.extra ++ ws)
    rw [h.named] at hleft
    exact hleft.symm
  · exact (h.left d _).symm

theorem finish (h : Revision f g) (d : Draft) : (f d).finish = d.finish.map g := by
  simp only [Draft.finish, h.workflow, h.extra]
  split
  · rfl
  · rfl
  · next hname hextra => exact congrArg Except.ok (h.options d _).symm

end Revision

theorem revision_ungated : Revision Draft.ungated Options.ungated :=
  ⟨fun _ => rfl, fun _ => rfl, fun _ _ => rfl, fun _ _ => rfl, fun _ _ => rfl⟩

/-! ## Reading without gates -/

theorem ungated_takeValue {f : Flag} (hf : f ≠ .escalate) (d : Draft) (v : String) :
    (d.takeValue f v).map Draft.ungated = d.ungated.takeValue f v := by
  cases f with
  | escalate => exact absurd rfl hf
  | format =>
      rw [Draft.takeValue, Draft.takeValue]
      cases Format.ofName? v <;> rfl
  | direction =>
      rw [Draft.takeValue, Draft.takeValue]
      cases Chart.Direction.ofName? v <;> rfl
  | _ => rfl

section

variable {d before after : Draft} {f : Flag} {w v : String} {ws init : List (String × Word)}

/-- An option that takes effect before some reading goes on does so without
the gates, too. -/
theorem takeValue_bind_ungated {full short : Draft → Except Stop Draft} (hf : f ≠ .escalate)
    (hgo : ∀ d, Unrefused (full d) → short d.ungated = (full d).map Draft.ungated)
    (h : Unrefused (d.takeValue f v >>= full)) :
    (d.ungated.takeValue f v >>= short) = (d.takeValue f v >>= full).map Draft.ungated := by
  rw [← ungated_takeValue hf]
  cases htaken : d.takeValue f v with
  | error e => rfl
  | ok taken =>
      rw [htaken] at h
      exact hgo taken h

theorem dropGates_attached (hf : f ≠ .escalate) (w v : String) (ws : List (String × Word)) :
    dropGates ((w, .flag f (some v)) :: ws) = (w, .flag f (some v)) :: dropGates ws := by
  cases f with
  | escalate => exact absurd rfl hf
  | _ => rfl

theorem dropGates_apart (hstrict : f ≠ .strict) (hf : f ≠ .escalate) (w v : String)
    (ws : List (String × Word)) :
    dropGates ((w, .flag f none) :: (v, .plain) :: ws)
      = (w, .flag f none) :: (v, .plain) :: dropGates ws := by
  cases f with
  | strict => exact absurd rfl hstrict
  | escalate => exact absurd rfl hf
  | _ => rfl

theorem readWords_apart (hhelp : f ≠ .help) (hstrict : f ≠ .strict) (d : Draft) (w v : String)
    (ws : List (String × Word)) :
    readWords d ((w, .flag f none) :: (v, .plain) :: ws)
      = d.takeValue f v >>= (readWords · ws) := by
  cases f with
  | help => exact absurd rfl hhelp
  | strict => exact absurd rfl hstrict
  | _ => rfl

/-- What words are read as without the gates among them. -/
theorem readWords_dropGates (h : Unrefused (readWords d ws)) :
    readWords d.ungated (dropGates ws) = (readWords d ws).map Draft.ungated := by
  fun_induction readWords d ws with
  | case1 d => rfl
  | case2 d w ws ih =>
      rw [dropGates, readWords, ← revision_ungated.takeWord, ih h]
      all_goals nofun
  | case3 d w ws ih =>
      rw [dropGates, readWords, ← ih h]
      · rfl
      all_goals nofun
  | case4 d w letters ws =>
      rw [dropGates, readWords]
      · rfl
      all_goals nofun
  | case5 d w f v ws ih =>
      by_cases hf : f = .escalate
      · subst hf
        exact ih { d with escalate := v } h
      · rw [dropGates_attached hf]
        exact takeValue_bind_ungated hf ih h
  | case6 d w ws => rfl
  | case7 d w ws ih => exact ih h
  | case8 d w f v ws hhelp hstrict ih =>
      by_cases hf : f = .escalate
      · subst hf
        exact ih { d with escalate := v } h
      · rw [dropGates_apart hstrict hf, readWords_apart hhelp hstrict]
        exact takeValue_bind_ungated hf ih h
  | case9 d w f ws =>
      exact absurd h (not_unrefused rfl)

/-! ## The word that names the workflow -/

theorem exists_taken {full : Draft → Except Stop Draft}
    (h : (d.takeValue f v >>= full) = .ok after) :
    ∃ taken, d.takeValue f v = .ok taken ∧ full taken = .ok after := by
  cases htaken : d.takeValue f v with
  | error e => rw [htaken] at h; cases h
  | ok taken => rw [htaken] at h; exact ⟨taken, rfl, h⟩

/-- Words that are read to their end leave no option open. -/
theorem readWords_append (h : readWords d init = .ok before) (ws : List (String × Word)) :
    readWords d (init ++ ws) = readWords before ws := by
  fun_induction readWords d init with
  | case1 d => cases h; rfl
  | case2 d w init ih => exact ih h
  | case3 d w init ih => exact ih h
  | case4 => cases h
  | case5 d w f v init ih =>
      obtain ⟨taken, htaken, h⟩ := exists_taken h
      rw [List.cons_append, readWords, htaken]
      exact ih taken h
  | case6 => cases h
  | case7 d w init ih => exact ih h
  | case8 d w f v init hhelp hstrict ih =>
      obtain ⟨taken, htaken, h⟩ := exists_taken h
      rw [List.cons_append, List.cons_append, readWords_apart hhelp hstrict, htaken]
      exact ih taken h
  | case9 => cases h

theorem dropGates_append (h : readWords d init = .ok before) (ws : List (String × Word)) :
    dropGates (init ++ ws) = dropGates init ++ dropGates ws := by
  fun_induction readWords d init with
  | case1 d => rfl
  | case2 d w init ih => exact congrArg ((w, Word.plain) :: ·) (ih h)
  | case3 d w init ih => exact congrArg ((w, Word.unknown) :: ·) (ih h)
  | case4 => cases h
  | case5 d w f v init ih =>
      by_cases hf : f = .escalate
      · subst hf
        exact ih { d with escalate := v } h
      · obtain ⟨taken, -, h⟩ := exists_taken h
        rw [List.cons_append, dropGates_attached hf, dropGates_attached hf, ih taken h]
        rfl
  | case6 => cases h
  | case7 d w init ih => exact ih h
  | case8 d w f v init hhelp hstrict ih =>
      by_cases hf : f = .escalate
      · subst hf
        exact ih { d with escalate := v } h
      · obtain ⟨taken, -, h⟩ := exists_taken h
        rw [List.cons_append, List.cons_append, dropGates_apart hstrict hf,
          dropGates_apart hstrict hf, ih taken h]
        rfl
  | case9 => cases h

theorem workflow_takeValue (h : d.takeValue f v = .ok after) : after.workflow = d.workflow := by
  cases f with
  | out => cases h; rfl
  | escalate => cases h; rfl
  | format =>
      rw [Draft.takeValue] at h
      cases hname : Format.ofName? v with
      | none => rw [hname] at h; cases h
      | some x => rw [hname] at h; cases h; rfl
  | direction =>
      rw [Draft.takeValue] at h
      cases hname : Chart.Direction.ofName? v with
      | none => rw [hname] at h; cases h
      | some x => rw [hname] at h; cases h; rfl
  | help => cases h
  | strict => cases h

/-- No option names the workflow. -/
theorem plain_of_names_workflow {kind : Word} (h : readWords before [(w, kind)] = .ok after)
    (hbefore : before.workflow = none) (hafter : after.workflow ≠ none) : kind = .plain := by
  cases kind with
  | plain => rfl
  | unknown => cases h; exact absurd hbefore hafter
  | helpLetters letters => cases h
  | flag f value =>
      cases value with
      | some v =>
          obtain ⟨taken, htaken, h⟩ := exists_taken h
          cases h
          exact absurd ((workflow_takeValue htaken).trans hbefore) hafter
      | none =>
          cases f with
          | strict => cases h; exact absurd hbefore hafter
          | _ => cases h

theorem endsWithWorkflow_concat (h : readWords {} init = .ok before)
    (hbefore : before.workflow = none) (w : String) :
    endsWithWorkflow (init ++ [(w, .plain)]) = true := by
  rw [endsWithWorkflow, List.dropLast_concat, h, readWords_append h, readWords, readWords]
  simp [Draft.takeWord, hbefore]

theorem exists_init_of_endsWithWorkflow (h : endsWithWorkflow ws = true) :
    ∃ init w before, ws = init ++ [(w, .plain)] ∧ readWords {} init = .ok before
      ∧ before.workflow = none := by
  rw [endsWithWorkflow] at h
  split at h
  · next before after hinit hws =>
    obtain ⟨hbefore, hafter⟩ := Bool.and_eq_true_iff.mp h
    have hbefore : before.workflow = none := Option.isNone_iff_eq_none.mp hbefore
    have hafter : after.workflow ≠ none := Option.isSome_iff_ne_none.mp hafter
    rcases List.eq_nil_or_concat ws with rfl | ⟨init, ⟨w, kind⟩, rfl⟩
    · cases hinit.symm.trans hws
      exact absurd hbefore hafter
    · rw [List.concat_eq_append, List.dropLast_concat] at hinit
      rw [List.concat_eq_append, readWords_append hinit] at hws
      cases plain_of_names_workflow hws hbefore hafter
      exact ⟨init, w, before, List.concat_eq_append, hinit, hbefore⟩
  · cases h

/-- The word that stands next to a lone `--` and names the workflow stays
next to it. -/
theorem endsWithWorkflow_dropGates (h : endsWithWorkflow ws = true) :
    endsWithWorkflow (dropGates ws) = true := by
  obtain ⟨init, w, before, rfl, hinit, hbefore⟩ := exists_init_of_endsWithWorkflow h
  have hread : readWords {} (dropGates init) = .ok before.ungated := by
    have hdrop := readWords_dropGates (hinit ▸ unrefused_ok before)
    rw [hinit] at hdrop
    exact hdrop
  rw [dropGates_append hinit]
  exact endsWithWorkflow_concat hread hbefore w

/-! ## Command lines -/

theorem not_unrefused_finish (h : d.extra ≠ []) : ¬Unrefused d.finish := by
  cases d with
  | mk workflow out format direction strict escalate extra =>
      cases extra with
      | nil => exact absurd rfl h
      | cons w extra => cases workflow <;> exact not_unrefused rfl

/-- Only the word that names the workflow makes a lone `--` acceptable behind it. -/
theorem readRest_of_unrefused {isTaken isTaken' : Bool} {rest : List String}
    (h : Unrefused (readRest d isTaken rest).finish) (himp : isTaken = true → isTaken' = true) :
    readRest d isTaken' rest = readRest d isTaken rest := by
  cases isTaken with
  | true => rw [himp rfl]
  | false =>
      cases d with
      | mk workflow out format direction strict escalate extra =>
          cases workflow with
          | none =>
              cases rest with
              | nil => exact absurd h (not_unrefused rfl)
              | cons w rest => rfl
          | some name =>
              exact absurd h (not_unrefused_finish (by simp [readRest]))

/-- The options of classified words and what stands behind a lone `--`. -/
def readLine (ws : List (String × Word)) : Option (List String) → Except Stop Options
  | none => readWords {} ws >>= Draft.finish
  | some rest => do (readRest (← readWords {} ws) (endsWithWorkflow ws) rest).finish

theorem ofWords_of_classified {words front : List String} {rest : Option (List String)}
    (hcut : cutAtDashes words = (front, rest)) (hall : classifyAll front = .ok ws) :
    Options.ofWords words = readLine ws rest := by
  rw [Options.ofWords, hcut]
  simp only [hall]
  cases rest <;> rfl

theorem readLine_of_error {rest : Option (List String)} {stop : Stop}
    (h : readWords {} ws = .error stop) : readLine ws rest = .error stop := by
  cases rest <;> rw [readLine, h] <;> rfl

theorem readLine_of_ok (h : readWords {} ws = .ok d) : readLine ws none = d.finish := by
  rw [readLine, h]
  rfl

theorem readLine_some_of_ok (h : readWords {} ws = .ok d) (rest : List String) :
    readLine ws (some rest) = (readRest d (endsWithWorkflow ws) rest).finish := by
  rw [readLine, h]
  rfl

/-- Lines are read the same up to a change, if their words are and what follows a
lone `--` is taken the same way. -/
theorem Revision.readLine {f : Draft → Draft} {g : Options → Options} (h : Revision f g)
    {ws' : List (String × Word)} {rest : Option (List String)}
    (hread : readWords {} ws' = (readWords {} ws).map f)
    (hrest : ∀ d r, readWords {} ws = .ok d → rest = some r →
      Cli.readRest d (endsWithWorkflow ws') r = Cli.readRest d (endsWithWorkflow ws) r) :
    Cli.readLine ws' rest = (Cli.readLine ws rest).map g := by
  cases hws : readWords {} ws with
  | error stop =>
      rw [hws] at hread
      rw [readLine_of_error hws, readLine_of_error hread]
      rfl
  | ok d =>
      rw [hws] at hread
      cases rest with
      | none => rw [readLine_of_ok hws, readLine_of_ok hread, h.finish]
      | some r =>
          rw [readLine_some_of_ok hws, readLine_some_of_ok hread, h.readRest,
            hrest d r hws rfl, h.finish]

theorem readLine_dropGates {rest : Option (List String)} (h : Unrefused (readLine ws rest)) :
    readLine (dropGates ws) rest = (readLine ws rest).map Options.ungated := by
  have hread : Unrefused (readWords {} ws) := fun e he => h e (readLine_of_error he)
  refine revision_ungated.readLine (readWords_dropGates hread) fun d r hws hr => ?_
  rw [hr, readLine_some_of_ok hws] at h
  exact readRest_of_unrefused h endsWithWorkflow_dropGates

end

/-- **The options without their gates.** Where a command line is not refused,
taking the options on strictness out of it changes those options only. -/
theorem ofWords_withoutGates {words : List String} (h : Unrefused (Options.ofWords words)) :
    Options.ofWords (withoutGates words) = (Options.ofWords words).map Options.ungated := by
  obtain ⟨front, rest, hcut⟩ : ∃ front rest, cutAtDashes words = (front, rest) := ⟨_, _, rfl⟩
  cases hall : classifyAll front with
  | error e =>
      refine absurd h (not_unrefused (e := e) ?_)
      rw [Options.ofWords, hcut]
      simp only [hall]
      rfl
  | ok ws =>
      have hshort := cutAtDashes_withoutGates hcut hall
      rw [ofWords_of_classified hcut hall] at h ⊢
      rw [ofWords_of_classified hshort (classifyAll_dropGates hall), readLine_dropGates h]

end JobChart.Cli
