import JobChart.Guard.Check
import JobChart.Proofs.Guard.Reprint

/-!
# Guards that pass the checks are read undamaged

The checks look at a guard's text flat, from left to right; the reader takes
it apart level by level. What ties them is where an operand may be missing:
between two places of a text with blanks only between them (`Missing`). A text
without such a gap (`Filled`) has none in what stands between its parentheses
or its operators, so it is filled at every level (`Filled.inner`), and there
no part of it is blank (`Filled.nonblank`).
-/

namespace JobChart.Guard

open Text

variable {k : Connective} {cs ds xs ys us vs as bs : List Char} {parts : List (List Char)}

/-! ## Missing operands -/

def EndsOperator (xs : List Char) : Prop := ∃ k : Connective, [k.char, k.char] <:+ xs

def StartsOperator (ys : List Char) : Prop := ∃ k : Connective, [k.char, k.char] <+: ys

/-- With nothing but blanks between these two texts an operand is missing: one
of them has an operator there, and the other ends, or has a parenthesis or an
operator there too. -/
def Missing (xs ys : List Char) : Prop :=
  EndsOperator xs ∧ (ys = [] ∨ ys.head? = some ')' ∨ StartsOperator ys)
    ∨ (xs = [] ∨ xs.getLast? = some '(') ∧ StartsOperator ys

/-- Nowhere in the text is an operand missing. -/
def Filled (cs : List Char) : Prop :=
  ∀ xs as ys, Blanks as → cs = xs ++ as ++ ys → ¬Missing xs ys

/-- An operand may start behind this text. -/
def LeftEdge (us : List Char) : Prop := us = [] ∨ us.getLast? = some '(' ∨ EndsOperator us

/-- An operand may end before this text. -/
def RightEdge (vs : List Char) : Prop := vs = [] ∨ vs.head? = some ')' ∨ StartsOperator vs

theorem EndsOperator.append (h : EndsOperator xs) (us : List Char) : EndsOperator (us ++ xs) := by
  obtain ⟨k, hk⟩ := h
  exact ⟨k, hk.trans (List.suffix_append us xs)⟩

theorem StartsOperator.append (h : StartsOperator ys) (vs : List Char) :
    StartsOperator (ys ++ vs) := by
  obtain ⟨k, hk⟩ := h
  exact ⟨k, hk.trans (List.prefix_append ys vs)⟩

/-- Between two edges, with blanks beside it, a filled text is filled. -/
theorem Filled.inner (h : Filled ds) (hds : ds = us ++ as ++ cs ++ bs ++ vs) (ha : Blanks as)
    (hb : Blanks bs) (hleft : LeftEdge us) (hright : RightEdge vs) : Filled cs := by
  subst hds
  rintro xs ms ys hms rfl (⟨hxs, hys⟩ | ⟨hxs, hys⟩)
  · have hop : EndsOperator (us ++ as ++ xs) := hxs.append _
    by_cases hnil : ys = []
    · subst hnil
      refine h (us ++ as ++ xs) (ms ++ bs) vs (hms.append hb) (by simp) (Or.inl ⟨hop, hright⟩)
    · refine h (us ++ as ++ xs) ms (ys ++ bs ++ vs) hms (by simp) (Or.inl ⟨hop, Or.inr ?_⟩)
      rcases hys with rfl | hclose | hop'
      · exact absurd rfl hnil
      · exact Or.inl (by simp [hclose])
      · exact Or.inr ((hop'.append _).append _)
  · have hop : StartsOperator (ys ++ bs ++ vs) := (hys.append _).append _
    rcases hxs with rfl | hopen
    · refine h us (as ++ ms) (ys ++ bs ++ vs) (ha.append hms) (by simp) ?_
      rcases hleft with rfl | hopen | hop'
      · exact Or.inr ⟨Or.inl rfl, hop⟩
      · exact Or.inr ⟨Or.inr hopen, hop⟩
      · exact Or.inl ⟨hop', Or.inr (Or.inr hop)⟩
    · refine h (us ++ as ++ xs) ms (ys ++ bs ++ vs) hms (by simp) (Or.inr ⟨Or.inr ?_, hop⟩)
      rw [List.getLast?_append, hopen]
      rfl

/-- At an edge on both sides, one of them an operator, there is no blank text. -/
theorem Filled.nonblank (h : Filled (us ++ cs ++ vs)) (hleft : us = [] ∨ EndsOperator us)
    (hright : vs = [] ∨ StartsOperator vs) (hne : trim (us ++ cs ++ vs) ≠ []) : trim cs ≠ [] := by
  intro hblank
  have hgap := h us cs vs (trim_eq_nil_iff.mp hblank) rfl
  rcases hleft with rfl | hleft
  · rcases hright with rfl | hright
    · exact hne (by simpa using hblank)
    · exact hgap (Or.inr ⟨Or.inl rfl, hright⟩)
  · exact hgap (Or.inl ⟨hleft, hright.imp_right Or.inr⟩)

/-! ## What the check finds -/

theorem startsOperator_iff : startsOperator cs = true ↔ StartsOperator cs := by
  constructor
  · intro h
    unfold startsOperator at h
    split at h
    · exact ⟨.all, List.prefix_append _ _⟩
    · exact ⟨.any, List.prefix_append _ _⟩
    · cases h
  · rintro ⟨k, rest, rfl⟩
    cases k <;> rfl

theorem StartsOperator.trimStart (h : StartsOperator cs) : trimStart cs = cs := by
  obtain ⟨k, rest, rfl⟩ := h
  exact trimStart_of_head k.isBlank_char _

theorem hasGap_append (xs : List Char) (h : hasGap ys = true) : hasGap (xs ++ ys) = true := by
  induction xs with
  | nil => exact h
  | cons x xs ih => rw [List.cons_append, hasGap, ih, Bool.or_true]

/-- Where an operand is missing, the check finds the gap. -/
theorem gap_found (has : Blanks as) (h : Missing xs ys) :
    startsOperator (trimStart (xs ++ as ++ ys)) = true ∨ hasGap (xs ++ as ++ ys) = true := by
  rcases h with ⟨⟨k, front, rfl⟩, hys⟩ | ⟨rfl | hopen, hys⟩
  · refine Or.inr ?_
    have hend : endsOperand (as ++ ys) = true := by
      rw [endsOperand, trimStart_pad has]
      rcases hys with rfl | hclose | hop
      · rfl
      · obtain ⟨rest, rfl⟩ := List.head?_eq_some_iff.mp hclose
        rfl
      · rw [hop.trimStart]
        split
        · rfl
        · exact Bool.or_eq_true_iff.mpr (Or.inr (startsOperator_iff.mpr hop))
    have hstart : startsOperator (k.char :: k.char :: (as ++ ys)) = true := by
      cases k <;> rfl
    have hgap : hasGap (k.char :: k.char :: (as ++ ys)) = true := by
      rw [hasGap, hstart, List.drop_one, List.tail_cons, hend]
      simp
    simpa using hasGap_append front hgap
  · refine Or.inl ?_
    rw [List.nil_append, trimStart_pad has, hys.trimStart]
    exact startsOperator_iff.mpr hys
  · refine Or.inr ?_
    obtain ⟨front, rfl⟩ := List.getLast?_eq_some_iff.mp hopen
    have hgap : hasGap ('(' :: (as ++ ys)) = true := by
      rw [hasGap, trimStart_pad has, hys.trimStart, startsOperator_iff.mpr hys]
      rfl
    simpa using hasGap_append front hgap

theorem blankLiterals_of_not_mem (h : '\'' ∉ cs) : blankLiterals false cs = cs := by
  induction cs with
  | nil => rfl
  | cons c cs ih =>
      rw [List.mem_cons, not_or] at h
      rw [blankLiterals, if_neg (Ne.symm h.1), ih h.2]
      rfl

theorem toList_unquoted {text : String} (h : '\'' ∉ text.toList) :
    (unquoted text).toList = text.toList := by
  rw [unquoted, blankLiterals_of_not_mem h, String.ofList_toList]

theorem balanced_eq_true_iff {text : String} (hquote : '\'' ∉ text.toList) :
    balanced text = true ↔ Balanced text.toList := by
  rw [balanced, toList_unquoted hquote, balanced_iff]

theorem filled_unquoted {text : String} (h : lacksOperand text = false) :
    Filled (unquoted text).toList := by
  intro xs as ys has hcs hmissing
  simp only [lacksOperand, Bool.or_eq_false_iff, hcs] at h
  rcases gap_found has hmissing with hfound | hfound
  · rw [h.1] at hfound
    cases hfound
  · rw [h.2] at hfound
    cases hfound

theorem filled_of_lacksOperand {text : String} (hquote : '\'' ∉ text.toList)
    (h : lacksOperand text = false) : Filled text.toList :=
  toList_unquoted hquote ▸ filled_unquoted h

/-! ## Every level of the reading -/

/-- What the checks of a text come to: it is more than blanks, its parentheses
pair up, and it has its operands. -/
structure Proper (cs : List Char) : Prop where
  nonblank : trim cs ≠ []
  balanced : Balanced cs
  filled : Filled cs

theorem Proper.trim (h : Proper cs) : Proper (trim cs) where
  nonblank := by rw [trim_trim]; exact h.nonblank
  balanced := h.balanced.trim
  filled := by
    obtain ⟨as, bs, ha, hb, hcs⟩ := exists_pad cs
    have hpad : cs = [] ++ as ++ Text.trim cs ++ bs ++ [] := by simpa using hcs
    exact h.filled.inner hpad ha hb (Or.inl rfl) (Or.inl rfl)

theorem Proper.stripOuter : Proper cs → Proper (stripOuter cs) := by
  refine stripOuter_induction (P := fun cs ds => Proper cs → Proper ds) (fun _ _ h => h.trim) ?_ cs
  intro cs w hw hbalanced hne ih h
  refine ih ⟨hne, hbalanced, ?_⟩
  have hwrap : Text.trim cs = ['('] ++ [] ++ w ++ [] ++ [')'] := by simpa using hw
  exact h.trim.filled.inner hwrap blanks_nil blanks_nil (Or.inr (Or.inl rfl)) (Or.inr (Or.inl rfl))

/-- What stands around one of several texts with an operator between them. -/
theorem exists_around (op : List Char) {p : List Char} {ps : List (List Char)} (hp : p ∈ ps) :
    ∃ us vs, op.intercalate ps = us ++ p ++ vs ∧ (us = [] ∨ op <:+ us) ∧ (vs = [] ∨ op <+: vs) := by
  induction ps with
  | nil => cases hp
  | cons q ps ih =>
      by_cases hnil : ps = []
      · subst hnil
        rw [List.mem_singleton.mp hp, List.intercalate_singleton]
        exact ⟨[], [], by simp, Or.inl rfl, Or.inl rfl⟩
      · rw [List.intercalate_cons_of_ne_nil hnil]
        rcases List.mem_cons.mp hp with rfl | hp
        · exact ⟨[], op ++ op.intercalate ps, by simp, Or.inl rfl, Or.inr (List.prefix_append _ _)⟩
        · obtain ⟨us, vs, hjoin, hus, hvs⟩ := ih hp
          refine ⟨q ++ op ++ us, vs, by rw [hjoin]; simp only [List.append_assoc], Or.inr ?_, hvs⟩
          rcases hus with rfl | hus
          · simp
          · exact hus.trans (List.suffix_append _ _)

/-- Of texts with an operator between them none is blank where no operand is
missing, and none is missing in any of them. -/
theorem Filled.member {ps : List (List Char)} (h : Filled ([k.char, k.char].intercalate ps))
    (hne : trim ([k.char, k.char].intercalate ps) ≠ []) {p : List Char} (hp : p ∈ ps) :
    trim p ≠ [] ∧ Filled p := by
  obtain ⟨us, vs, hcs, hus, hvs⟩ := exists_around [k.char, k.char] hp
  rw [hcs] at h hne
  have hpiece : us ++ p ++ vs = us ++ [] ++ p ++ [] ++ vs := by simp
  have hleft : us = [] ∨ EndsOperator us := hus.imp_right fun hop => ⟨k, hop⟩
  have hright : vs = [] ∨ StartsOperator vs := hvs.imp_right fun hop => ⟨k, hop⟩
  exact ⟨h.nonblank hleft hright hne, h.inner hpiece blanks_nil blanks_nil
    (hleft.imp_right Or.inr) (hright.imp_right Or.inr)⟩

/-- The pieces of a proper text are proper. -/
theorem Proper.piece (h : Proper cs) (k : Connective) {p : List Char}
    (hp : p ∈ pieces [k.char, k.char] cs) : Proper p := by
  have hjoin := intercalate_pieces k.rise_char cs
  obtain ⟨hne, hfilled⟩ := Filled.member (hjoin.symm ▸ h.filled) (hjoin.symm ▸ h.nonblank) hp
  exact ⟨hne, h.balanced.piece k.rise_char hp, hfilled⟩

/-- No piece of a proper text is left out. -/
theorem Proper.splitTop_eq (h : Proper cs) (k : Connective) :
    splitTop [k.char, k.char] cs = (pieces [k.char, k.char] cs).map Text.trim :=
  splitTop_of_nonblank fun _ hq => (h.piece k hq).nonblank

theorem Proper.part (h : Proper cs) (hparts : groupParts? (Guard.stripOuter cs) = some (k, parts))
    {p : List Char} (hp : p ∈ parts) : Proper p := by
  obtain ⟨-, q, hq, rfl⟩ := mem_splitTop.mp ((groupParts?_eq_some hparts).1 ▸ hp)
  exact (h.stripOuter.piece k hq).trim

/-- On the way to reading the first text the reader reads the second. -/
inductive ReadsOn : List Char → List Char → Prop
  | self (cs : List Char) : ReadsOn cs cs
  | part {cs ds p : List Char} {k : Connective} {parts : List (List Char)}
      (h : groupParts? (stripOuter cs) = some (k, parts)) (hp : p ∈ parts) (hrest : ReadsOn p ds) :
      ReadsOn cs ds

theorem Proper.readsOn (hreads : ReadsOn cs ds) (h : Proper cs) : Proper ds := by
  induction hreads with
  | self => exact h
  | part hparts hp _ ih => exact ih (h.part hparts hp)

/-- The atoms of a proper text are balanced, and no operator splits them. -/
theorem Proper.atoms : Proper cs → ∀ t ∈ (ofChars cs).atoms,
    Balanced t.toList ∧ ∀ k : Connective, Single k.char 0 t.toList := by
  refine ofChars_induction (P := fun cs g => Proper cs → ∀ t ∈ g.atoms,
    Balanced t.toList ∧ ∀ k : Connective, Single k.char 0 t.toList) ?_ ?_ cs
  · intro cs hnone h t ht
    obtain rfl := List.mem_singleton.mp ht
    rw [String.toList_ofList]
    refine ⟨h.stripOuter.balanced, fun k => (single_iff_length k.rise_char).mpr ?_⟩
    have hfew := groupParts?_eq_none_iff.mp hnone k
    rw [h.stripOuter.splitTop_eq k, List.length_map] at hfew
    have hpos := List.length_pos_iff.mpr (pieces_ne_nil [k.char, k.char] (Guard.stripOuter cs))
    omega
  · intro cs k parts hparts ih h t ht
    rw [atoms_group, mem_atomsEach] at ht
    obtain ⟨g, hg, ht⟩ := ht
    obtain ⟨p, hp, rfl⟩ := List.mem_map.mp hg
    exact ih p hp (h.part hparts hp) t ht

/-- **A guard that passes the checks is read undamaged.** Let a text without
literals be more than blanks, let its parentheses pair up and no operand lack.
Then its atoms are balanced and have no operator outside parentheses, no piece
is left out at any level of the reading, and the guard is the same when it is
printed and read again. -/
theorem checked_guard_undamaged (text : String) (hblank : allBlank text = false)
    (hquote : '\'' ∉ text.toList) (hbalanced : balanced text = true)
    (hoperands : lacksOperand text = false) :
    (∀ t ∈ (parse text).atoms, Balanced t.toList ∧ ∀ (k : Connective) (xs ys : List Char),
        t.toList = xs ++ k.symbol.toList ++ ys → net xs ≠ 0)
      ∧ (∀ cs, ReadsOn text.toList cs → ∀ k : Connective,
        splitTop k.symbol.toList (stripOuter cs)
          = (pieces k.symbol.toList (stripOuter cs)).map trim)
      ∧ parse (parse text).text = parse text := by
  have hproper : Proper text.toList := by
    refine ⟨fun hnil => ?_, ?_, filled_of_lacksOperand hquote hoperands⟩
    · have hall : allBlank text = true := List.all_eq_true.mpr (trim_eq_nil_iff.mp hnil)
      rw [hblank] at hall
      cases hall
    · rw [balanced, toList_unquoted hquote] at hbalanced
      exact balanced_iff.mpr hbalanced
  refine ⟨fun t ht => ⟨(hproper.atoms t ht).1, fun k xs ys hxs => ?_⟩, fun cs hreads k => ?_, ?_⟩
  · rw [k.toList_symbol] at hxs
    have hnet := (single_iff k.rise_char).mp ((hproper.atoms t ht).2 k) xs ys hxs
    rwa [Int.zero_add] at hnet
  · rw [k.toList_symbol]
    exact (Proper.readsOn hreads hproper).stripOuter.splitTop_eq k
  · exact reprint_stable_of_atoms text fun t ht k =>
      (single_iff_length k.rise_char).mp ((hproper.atoms t ht).2 k)

/-- A guard with groups in a group, a call that holds an operator, and an
operator without blanks around it. -/
def nestedText : String := "((a||b) && !f(c && (d))) || | always()"

theorem checked_guard_undamaged_nested :
    allBlank nestedText = false ∧ balanced nestedText = true ∧ lacksOperand nestedText = false
      ∧ (parse nestedText).atoms = ["a", "b", "!f(c && (d))", "| always()"]
      ∧ (∀ t ∈ (parse nestedText).atoms, Balanced t.toList)
      ∧ parse (parse nestedText).text = parse nestedText := by
  have hblank : allBlank nestedText = false := by decide +kernel
  have hbalanced : balanced nestedText = true := by decide +kernel
  have hoperands : lacksOperand nestedText = false := by decide +kernel
  obtain ⟨hatoms, -, hreprint⟩ :=
    checked_guard_undamaged nestedText hblank (by decide +kernel) hbalanced hoperands
  exact ⟨hblank, hbalanced, hoperands, by decide +kernel, fun t ht => (hatoms t ht).1, hreprint⟩

end JobChart.Guard
