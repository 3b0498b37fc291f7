import JobChart.Proofs.Chain.Walk
import JobChart.Proofs.Guard.Checked

/-!
# Guards whose parentheses do not pair up

A guard with unbalanced parentheses is reported as one that is drawn as a
single custom badge. Its atom is custom for sure: the calls that have badges
of their own are balanced, and so is everything that is read as one of them
(`balanced_of_classify`). It is a single badge only if no operator splits it.
An unmatched parenthesis does not keep an operator from that, since it may
stand behind it (`unbalanced_operands_split`).
-/

namespace JobChart

open Text Chart

/-! ## Texts of status functions -/

namespace Badge

theorem balanced_call (s : Status) : '\'' ∉ s.call.toList ∧ Guard.Balanced s.call.toList := by
  rw [Guard.balanced_iff]
  cases s <;> decide

/-- What is drawn as a status function holds no literal and is balanced. -/
theorem balanced_of_classify {t : String} {s : Status} (h : (classify t).1 = some s) :
    '\'' ∉ t.toList ∧ Guard.Balanced t.toList := by
  have hcall : (negation t).2 = s.call := Status.ofCall?_eq_some_iff.mp h
  obtain ⟨hquote, hbalanced⟩ := balanced_call s
  have hkeep : ∀ cs, String.ofList (trim cs) = s.call → '\'' ∉ cs ∧ Guard.Balanced cs := by
    intro cs hcs
    have hchars : trim cs = s.call.toList := by rw [← hcs, String.toList_ofList]
    refine ⟨?_, Guard.balanced_of_trim (hchars ▸ hbalanced)⟩
    rw [← List.count_eq_zero, ← count_trim (by decide), hchars]
    exact List.count_eq_zero.mpr hquote
  rw [negation] at hcall
  split at hcall
  · next hnil =>
    exact hkeep t.toList (by rw [hnil]; exact hcall)
  · next c cs hcs =>
    split at hcall
    · next hbang =>
      obtain ⟨hquote', hbalanced'⟩ := hkeep cs hcall
      have hfull : Guard.Balanced (trim t.toList) := by
        rw [hcs, hbang]
        have hmark : Guard.Balanced ['!'] :=
          Guard.balanced_of_level fun c hc => List.mem_singleton.mp hc ▸ rfl
        exact hmark.append hbalanced'
      refine ⟨?_, Guard.balanced_of_trim hfull⟩
      rw [← List.count_eq_zero, ← count_trim (by decide), hcs, hbang, List.count_eq_zero]
      exact fun hmem => hquote' ((List.mem_cons.mp hmem).resolve_left (by decide))
    · exact hkeep t.toList (by rw [hcs]; exact hcall)

end Badge

/-! ## The number of badges -/

namespace Guard

theorem atoms_ne_nil {g : Guard} (h : g.widthOK 1 = true) : g.atoms ≠ [] := by
  induction g using group_induction with
  | atom t => exact List.cons_ne_nil t []
  | group k gs ih =>
      obtain ⟨hlen, hgs⟩ := widthOK_group.mp h
      obtain ⟨g, gs, rfl⟩ := List.exists_cons_of_length_pos hlen
      rw [atoms_group, atomsEach_cons]
      exact List.append_ne_nil_of_left_ne_nil (ih g List.mem_cons_self (hgs g List.mem_cons_self)) _

/-- A group of two members has two atoms. -/
theorem two_le_atoms {k : Connective} {gs : List Guard} (h : (k.group gs).widthOK 2 = true) :
    2 ≤ (k.group gs).atoms.length := by
  obtain ⟨hlen, hgs⟩ := widthOK_group.mp h
  match gs, hlen with
  | g :: g' :: gs, _ =>
      have hatoms : ∀ g'' ∈ g :: g' :: gs, 1 ≤ g''.atoms.length := fun g'' hg =>
        List.length_pos_iff.mpr (atoms_ne_nil (widthOK_mono (by decide) g'' (hgs g'' hg)))
      have hfirst := hatoms g List.mem_cons_self
      have hsecond := hatoms g' (List.mem_cons_of_mem _ List.mem_cons_self)
      rw [atoms_group, atomsEach_cons, atomsEach_cons, List.length_append, List.length_append]
      omega

/-- Neither operator has two operands in the text outside of all parentheses. -/
def Undivided (cs : List Char) : Prop :=
  ∀ k : Connective, (splitTop k.symbol.toList (stripOuter cs)).length < 2

theorem undivided_iff {cs : List Char} : Undivided cs ↔ groupParts? (stripOuter cs) = none := by
  simp only [Undivided, Connective.toList_symbol, groupParts?_eq_none_iff]

/-- In an unbalanced text that lacks no operand, the operators that divide it
are those in front of which the parentheses pair up in number. -/
theorem undivided_iff_net {cs : List Char} (h : ¬Balanced cs) (hfilled : Filled cs) :
    Undivided cs ↔ ∀ (k : Connective) (xs ys : List Char),
      cs = xs ++ k.symbol.toList ++ ys → net xs ≠ 0 := by
  have hpeel : peel? (trim cs) = none := by
    refine Option.eq_none_iff_forall_ne_some.mpr fun ds hds => h ?_
    obtain ⟨w, hw, hbalanced, -⟩ := peel?_eq_some.mp hds
    exact balanced_of_trim (hw ▸ hbalanced.wrap)
  have hne : trim cs ≠ [] := fun hnil => h (balanced_blanks (trim_eq_nil_iff.mp hnil))
  simp only [Undivided, Connective.toList_symbol]
  refine forall_congr' fun k => ?_
  have hjoin := intercalate_pieces k.rise_char cs
  have hpieces : ∀ q ∈ pieces [k.char, k.char] cs, trim q ≠ [] := fun q hq =>
    (Filled.member (hjoin.symm ▸ hfilled) (hjoin.symm ▸ hne) hq).1
  have hpos := List.length_pos_iff.mpr (pieces_ne_nil [k.char, k.char] cs)
  have hsingle : Single k.char 0 cs ↔ ∀ xs ys, cs = xs ++ [k.char, k.char] ++ ys → net xs ≠ 0 := by
    rw [single_iff k.rise_char]
    simp only [Int.zero_add]
  rw [stripOuter_of_none hpeel, splitTop_trim k.rise_char k.isBlank_char,
    splitTop_of_nonblank hpieces, List.length_map, ← hsingle, single_iff_length k.rise_char]
  omega

/-- What an unbalanced text comes to when nothing splits it is unbalanced or
holds a literal. -/
theorem not_balanced_of_stripOuter {text : String} (h : balanced text = false) :
    ¬('\'' ∉ stripOuter text.toList ∧ Balanced (stripOuter text.toList)) := by
  rintro ⟨hquote, hbalanced⟩
  rw [← List.count_eq_zero, count_stripOuter (by decide) rfl, List.count_eq_zero] at hquote
  rw [(balanced_eq_true_iff hquote).mpr (balanced_of_stripOuter hbalanced)] at h
  cases h

end Guard

namespace Chain

open Guard

theorem length_textBadges (base : String) {k : Connective} {gs : List Guard} :
    (textBadges base (k.group gs)).length = (k.group gs).atoms.length := by
  cases k <;> exact Numbering.length_badges

/-- The chain is one custom badge without edges. -/
def IsSingleCustom (c : Chain Node Edge) : Prop :=
  ∃ n, c.nodes = [n] ∧ n.shape = .diamond "condCustom" ∧ c.links = []

/-- What is drawn of an unbalanced text that nothing divides. -/
theorem isSingleCustom_ofAtom (base : String) {text : String} (h : balanced text = false) :
    IsSingleCustom (ofAtom base (String.ofList (stripOuter text.toList))) := by
  refine ⟨_, rfl, ?_, rfl⟩
  cases hclass : Badge.classify (String.ofList (stripOuter text.toList)) with
  | mk status negated =>
      cases status with
      | none => simp only [Badge.node, hclass]; rfl
      | some s =>
          have hcall := Badge.balanced_of_classify (congrArg Prod.fst hclass)
          rw [String.toList_ofList] at hcall
          exact absurd hcall (not_balanced_of_stripOuter h)

/-- **When an unbalanced guard is a single badge.** The chain of a guard whose
parentheses do not pair up outside of literals is one custom badge without
edges exactly if the text is undivided; otherwise it has two badges or more.
A text without literals that lacks no operand is undivided exactly if before
each operator there are more parentheses of one kind than of the other. -/
theorem unbalanced_single_badge_iff (base text : String) (h : balanced text = false) :
    ∃ c, ofText base text = .ok c
      ∧ (IsSingleCustom c ↔ Undivided text.toList)
      ∧ (c.nodes.length < 2 ↔ Undivided text.toList)
      ∧ ('\'' ∉ text.toList → lacksOperand text = false →
        (Undivided text.toList ↔ ∀ (k : Connective) (xs ys : List Char),
          text.toList = xs ++ k.symbol.toList ++ ys → net xs ≠ 0)) := by
  have hdepth : '\'' ∉ text.toList → lacksOperand text = false →
      (Undivided text.toList ↔ ∀ (k : Connective) (xs ys : List Char),
        text.toList = xs ++ k.symbol.toList ++ ys → net xs ≠ 0) := by
    intro hquote hoperands
    refine undivided_iff_net (fun hbalanced => ?_) (filled_of_lacksOperand hquote hoperands)
    rw [balanced, toList_unquoted hquote, balanced_iff.mp hbalanced] at h
    cases h
  rw [undivided_iff] at hdepth ⊢
  cases hparts : groupParts? (stripOuter text.toList) with
  | none =>
      have hread : parse text = .atom (String.ofList (stripOuter text.toList)) :=
        ofChars_of_none hparts
      refine ⟨ofAtom base (String.ofList (stripOuter text.toList)), ?_,
        iff_of_true (isSingleCustom_ofAtom base h) rfl, iff_of_true Nat.one_lt_two rfl, ?_⟩
      · rw [ofText, parse_strip, hread]
      · rwa [hparts] at hdepth
  | some kp =>
      obtain ⟨k, parts⟩ := kp
      have hread : parse text = k.group (parts.map ofChars) := ofChars_of_some hparts
      obtain ⟨c, hc, hwired, -⟩ := leads_ofText base text fun _ => true
      have hmany : 2 ≤ c.nodes.length := by
        rw [hwired.nodes, List.length_map, hread, length_textBadges, ← hread]
        have hwidth : (parse text).widthOK 2 = true := ofChars_widthOK _
        rw [hread] at hwidth ⊢
        exact two_le_atoms hwidth
      refine ⟨c, hc, iff_of_false ?_ (by simp), iff_of_false (by omega) (by simp), ?_⟩
      · rintro ⟨n, hn, -⟩
        rw [hn, List.length_singleton] at hmany
        omega
      · rwa [hparts] at hdepth

/-- Behind a parenthesis that is never closed no operator splits the guard. -/
theorem unclosed_call_single :
    balanced "contains(x, 'y' && !always() || z" = false
      ∧ ∃ c, ofText "g" "contains(x, 'y' && !always() || z" = .ok c
        ∧ IsSingleCustom c := by
  have hunbalanced : balanced "contains(x, 'y' && !always() || z" = false := by decide +kernel
  obtain ⟨c, hc, hsingle, -⟩ := unbalanced_single_badge_iff "g" _ hunbalanced
  refine ⟨hunbalanced, c, hc, hsingle.mpr fun k => ?_⟩
  cases k <;> decide +kernel

/-- An unmatched parenthesis behind an operator does not keep it from splitting
the guard. -/
theorem unbalanced_operands_split :
    balanced "a && (b" = false ∧ ∃ c, ofText "g" "a && (b" = .ok c
      ∧ c.nodes = [⟨"g_p0", "🔧 a", .diamond "condCustom"⟩, ⟨"g_p1", "🔧 (b", .diamond "condCustom"⟩]
      ∧ c.links = [⟨"g_p0", "g_p1", some "AND", solid⟩] := by
  have hread : parse (strip "a && (b") = .all [.atom "a", .atom "(b"] := by decide +kernel
  refine ⟨by decide +kernel, series id (ofAtom "g_p0" "a") [ofAtom "g_p1" "(b"], ?_, ?_, ?_⟩
  · rw [ofText, hread]
    rfl
  · decide +kernel
  · decide +kernel

end Chain

end JobChart
