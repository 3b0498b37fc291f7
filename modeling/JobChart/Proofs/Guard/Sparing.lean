import JobChart.Proofs.Guard.Rendering
import JobChart.Proofs.Guard.Reprint

/-!
# No parentheses without need

The printer puts parentheses around a member only where the guard would be
another one without them. It is enough to count: a guard that is read from a
text has no more `(` when it is printed than the text has
(`count_open_text_le`), so the printed text has the fewest of all texts that
are read as the guard, and a text with a pair less is not one of them.

The count says nothing of where the pair is, or of what is read instead: that
differs with the groups around the member, and an operator can move to a group
far above it.

That the printed text itself is read as the guard takes atoms that stay whole
(`PlainAtom`). They may end in the character of an operator, as `a &` does,
since a space stands in front of every operator that is printed.
-/

namespace JobChart.Guard

open Text

variable {k : Connective} {g : Guard} {cs : List Char} {parts : List (List Char)}

/-! ## Counting -/

theorem count_open_operator (k : Connective) : [k.char, k.char].count '(' = 0 := by
  cases k <;> rfl

theorem isBlank_open : isBlank '(' = false := by decide

theorem count_open_wrap (cs : List Char) :
    ('(' :: cs ++ [')']).count '(' = cs.count '(' + 1 := by
  rw [List.cons_append, List.count_cons_self, List.count_append]
  rfl

theorem count_open_parens (s : String) :
    ("(" ++ s ++ ")").toList.count '(' = s.toList.count '(' + 1 := by
  rw [String.toList_append, String.toList_append]
  exact count_open_wrap s.toList

theorem count_open_row (k : Connective) (ms : List (List Char)) :
    (row k ms).count '(' = (ms.map (List.count '(')).sum := by
  by_cases hms : ms = []
  · rw [hms]
    rfl
  · have hrow := count_row isBlank_open hms (k := k)
    rwa [count_open_operator, Nat.mul_zero] at hrow

theorem count_open_stripOuter_le (cs : List Char) : (stripOuter cs).count '(' ≤ cs.count '(' := by
  refine stripOuter_induction (P := fun cs ds => ds.count '(' ≤ cs.count '(')
    (fun cs _ => Nat.le_of_eq (count_trim isBlank_open cs)) ?_ cs
  intro cs w hw _ _ ih
  rw [← count_trim isBlank_open cs, hw, count_open_wrap]
  exact Nat.le_succ_of_le ih

/-- A member is printed with no more pairs than the part it was read from has:
where the printer puts a pair around it, the part had one. -/
theorem count_open_memberText_le (h : groupParts? (stripOuter cs) = some (k, parts))
    {p : List Char} (hp : p ∈ parts)
    (hle : (ofChars p).text.toList.count '(' ≤ (stripOuter p).count '(') :
    (memberText k (ofChars p)).count '(' ≤ p.count '(' := by
  rw [memberText]
  split
  · exact Nat.le_trans hle (count_open_stripOuter_le p)
  · next hstands =>
    obtain ⟨w, rfl, hbalanced, hne⟩ := wrapped_part h hp (by simpa using hstands)
    rw [stripOuter_wrap hbalanced hne] at hle
    rw [count_open_wrap, count_open_wrap]
    exact Nat.succ_le_succ (Nat.le_trans hle (count_open_stripOuter_le w))

/-- The printer adds no pair to what was read. -/
theorem count_open_text_le (cs : List Char) :
    (ofChars cs).text.toList.count '(' ≤ (stripOuter cs).count '(' := by
  refine ofChars_induction
    (P := fun cs g => g.text.toList.count '(' ≤ (stripOuter cs).count '(') ?_ ?_ cs
  · intro cs _
    rw [text_atom, String.toList_ofList]
  · intro cs k parts h ih
    exact count_text_read_le h isBlank_open fun p hp => count_open_memberText_le h hp (ih p hp)

/-! ## A pair left out -/

/-- The text is the guard as it is printed, but for one pair of parentheses
that is left out: one around a member of a group, at whatever level. -/
inductive PairLeftOut : Guard → String → Prop
  | member (k : Connective) (front back : List Guard) {g : Guard}
      (hwrapped : standsBare k g = false) :
      PairLeftOut (k.group (front ++ g :: back))
        (joinWith (" " ++ k.symbol ++ " ")
          (memberTexts k front ++ g.text :: memberTexts k back))
  | inside (k : Connective) (front back : List Guard) {g : Guard} {s : String}
      (h : PairLeftOut g s) :
      PairLeftOut (k.group (front ++ g :: back))
        (joinWith (" " ++ k.symbol ++ " ")
          (memberTexts k front ++ (if standsBare k g then s else "(" ++ s ++ ")")
            :: memberTexts k back))

theorem count_open_text_group (k : Connective) (front back : List Guard) (g : Guard) :
    (k.group (front ++ g :: back)).text.toList.count '('
      = (front.map fun g => (memberText k g).count '(').sum + (memberText k g).count '('
        + (back.map fun g => (memberText k g).count '(').sum := by
  rw [toList_text_group, count_open_row, List.map_map, List.map_append, List.map_cons,
    List.sum_append, List.sum_cons, Nat.add_assoc]
  rfl

theorem count_open_join (k : Connective) (front back : List Guard) (s : String) :
    (joinWith (" " ++ k.symbol ++ " ")
        (memberTexts k front ++ s :: memberTexts k back)).toList.count '('
      = (front.map fun g => (memberText k g).count '(').sum + s.toList.count '('
        + (back.map fun g => (memberText k g).count '(').sum := by
  have hsep : (" " ++ k.symbol ++ " ").toList = [' ', k.char, k.char, ' '] := by
    cases k <;> rfl
  have hrow := count_open_row k
    (front.map (memberText k) ++ s.toList :: back.map (memberText k))
  rw [toList_joinWith, List.map_append, List.map_cons, map_memberTexts, map_memberTexts, hsep]
  rw [row, List.map_append, List.map_cons, List.sum_append, List.sum_cons, List.map_map,
    List.map_map, ← Nat.add_assoc] at hrow
  exact hrow

theorem PairLeftOut.count_open {s : String} (h : PairLeftOut g s) :
    s.toList.count '(' + 1 = g.text.toList.count '(' := by
  induction h with
  | member k front back hwrapped =>
      rw [count_open_join, count_open_text_group, memberText, hwrapped,
        if_neg Bool.false_ne_true, count_open_wrap]
      omega
  | inside k front back h ih =>
      rw [count_open_join, count_open_text_group, memberText]
      split
      · omega
      · rw [count_open_parens, count_open_wrap]
        omega

/-! ## What the reader relies on -/

/-- A printed guard as the reader needs it. -/
structure Legible (g : Guard) : Prop where
  balanced : Balanced g.text.toList
  trimmed : trim g.text.toList = g.text.toList
  nonempty : g.text.toList ≠ []
  single : ∀ k : Connective, standsBare k g = true → Single k.char 0 g.text.toList
  read : ofChars g.text.toList = g

theorem PlainAtom.legible {t : String} (h : PlainAtom t) : Legible (.atom t) :=
  ⟨h.whole.balanced, h.whole.trimmed, h.whole.nonempty, fun k _ => h.whole.single k, h.whole.read⟩

theorem Legible.single_memberText (h : Legible g) {l : Connective}
    (hbare : standsBare k g = true → standsBare l g = true) :
    Single l.char 0 (memberText k g) := by
  rw [memberText]
  split
  · next hstands => exact h.single l (hbare hstands)
  · exact single_wrap l.rise_char h.balanced

theorem Legible.read_memberText (h : Legible g) (k : Connective) :
    ofChars (memberText k g) = g := by
  rw [memberText]
  split
  · exact h.read
  · have hne : trim g.text.toList ≠ [] := h.trimmed.symm ▸ h.nonempty
    rw [ofChars_congr (stripOuter_wrap h.balanced hne), h.read]

section Group

variable {gs : List Guard}

theorem balanced_members (h : ∀ g ∈ gs, Legible g) : ∀ m ∈ gs.map (memberText k), Balanced m :=
  List.forall_mem_map.mpr fun g hg => (h g hg).balanced.memberText

theorem trim_members (h : ∀ g ∈ gs, Legible g) : ∀ m ∈ gs.map (memberText k), trim m = m :=
  List.forall_mem_map.mpr fun g hg => trim_memberText (h g hg).trimmed

theorem members_ne_nil (h : ∀ g ∈ gs, Legible g) : ∀ m ∈ gs.map (memberText k), m ≠ [] :=
  List.forall_mem_map.mpr fun g hg => memberText_ne_nil (h g hg).nonempty

theorem members_end (h : ∀ g ∈ gs, Legible g) :
    (gs.map (memberText k)).Pairwise fun m _ => net m = 0 :=
  List.pairwise_of_forall_mem_list fun m hm _ _ => (balanced_members h m hm).level

/-- What `||` does not cut in the members it does not cut in an `all` group. -/
theorem single_members (hgs : gs ≠ []) (h : ∀ g ∈ gs, Legible g) :
    Single Connective.any.char 0 (row .all (gs.map (memberText .all))) := by
  refine single_row (Connective.rise_char _) (Connective.isBlank_char _) (by decide)
    (members_end h) (by simpa using hgs) ?_
  exact List.forall_mem_map.mpr fun g hg => (h g hg).single_memberText standsBare_any_of_all

theorem read_members (htwo : 2 ≤ gs.length) (h : ∀ g ∈ gs, Legible g) :
    ofChars (row k (gs.map (memberText k))) = k.group gs := by
  have hgs : gs ≠ [] := List.ne_nil_of_length_pos (Nat.lt_of_lt_of_le Nat.zero_lt_two htwo)
  have hsingle : ∀ m ∈ gs.map (memberText k), Single k.char 0 m ∧ trim m ≠ [] := by
    refine List.forall_mem_map.mpr fun g hg => ⟨(h g hg).single_memberText id, ?_⟩
    rw [trim_memberText (h g hg).trimmed]
    exact memberText_ne_nil (h g hg).nonempty
  have hany : k = .all → (splitTop [Connective.any.char, Connective.any.char]
      (row k (gs.map (memberText k)))).length < 2 := by
    rintro rfl
    exact length_splitTop_lt_two (Connective.rise_char _) (single_members hgs h)
  rw [ofChars_row (by rwa [List.length_map]) (members_end h) hsingle hany, List.map_map]
  refine congrArg k.group ((List.map_congr_left fun g hg => ?_).trans (List.map_id gs))
  exact (h g hg).read_memberText k

theorem Legible.group (htwo : 2 ≤ gs.length) (h : ∀ g ∈ gs, Legible g) :
    Legible (k.group gs) := by
  have hgs : gs ≠ [] := List.ne_nil_of_length_pos (Nat.lt_of_lt_of_le Nat.zero_lt_two htwo)
  have hms : gs.map (memberText k) ≠ [] := by simpa using hgs
  have hread := read_members (k := k) htwo h
  rw [← toList_text_group] at hread
  refine ⟨?_, ?_, ?_, fun l hbare => ?_, hread⟩
  · rw [toList_text_group]
    exact balanced_row hms (balanced_members h)
  · rw [toList_text_group]
    exact trim_row (trim_members h) (members_ne_nil h)
  · rw [toList_text_group]
    exact row_ne_nil (members_ne_nil h) hms
  · rw [toList_text_group]
    cases k with
    | any => cases l <;> cases hbare
    | all =>
        cases l with
        | all => cases hbare
        | any => exact single_members hgs h

end Group

theorem legible (hwidth : g.widthOK 2 = true) (hatoms : ∀ t ∈ g.atoms, PlainAtom t) :
    Legible g := by
  induction g using group_induction with
  | atom t => exact (hatoms t (by simp)).legible
  | group k gs ih =>
      obtain ⟨htwo, hwidths⟩ := widthOK_group.mp hwidth
      rw [atoms_group] at hatoms
      exact Legible.group htwo fun g hg => ih g hg (hwidths g hg) fun t ht =>
        hatoms t (mem_atomsEach.mpr ⟨g, hg, ht⟩)

/-- **No pair is printed without need.** No text with a pair of parentheses
left out is read as the guard, and none with fewer pairs than its printed text
has. The printed text is, where the guard's groups have two members or more
and its atoms stay whole. -/
theorem no_pair_needless (g : Guard) :
    (∀ text, PairLeftOut g text → parse text ≠ g)
      ∧ (∀ text, parse text = g → g.text.toList.count '(' ≤ text.toList.count '(')
      ∧ (g.widthOK 2 = true → (∀ t ∈ g.atoms, PlainAtom t) → parse g.text = g) := by
  have hleast : ∀ text, parse text = g → g.text.toList.count '(' ≤ text.toList.count '(' := by
    rintro text rfl
    exact Nat.le_trans (count_open_text_le text.toList) (count_open_stripOuter_le text.toList)
  refine ⟨fun text hleft hread => ?_, hleast, fun hwidth hatoms => (legible hwidth hatoms).read⟩
  have hle := hleast text hread
  have hcount := hleft.count_open
  omega

/-- The group stands in an `all` group, which itself stands bare; without the
pair its second member goes to the group around both. -/
theorem no_pair_needless_nested :
    parse "a & && (b || c) || d"
        = .any [.all [.atom "a &", .any [.atom "b", .atom "c"]], .atom "d"]
      ∧ parse "a & && b || c || d"
        ≠ .any [.all [.atom "a &", .any [.atom "b", .atom "c"]], .atom "d"] := by
  obtain ⟨hneeded, -, hread⟩ := no_pair_needless
    (.any [.all [.atom "a &", .any [.atom "b", .atom "c"]], .atom "d"])
  exact ⟨hread (by decide) (by decide +kernel),
    hneeded _ (.inside .any [] [.atom "d"] (.member .all [.atom "a &"] [] rfl))⟩

end JobChart.Guard
