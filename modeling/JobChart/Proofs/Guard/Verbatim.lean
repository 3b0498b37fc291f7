import JobChart.Proofs.Guard.Reading

/-!
# Atoms stand in the text

A text is read by taking things away: blanks, wrapping parentheses, operators
and the parts that are blank. What is taken away can be put back: the text is
the guard's atoms in order, each as it is written, with dropped text in front
of the first, between neighbours and behind the last (`Spells`). Nothing is
asked of the text, so this goes for stray operators and for parentheses
without a partner as well; such a parenthesis is kept inside an atom.
-/

namespace JobChart.Guard

open Text

/-! ## Texts that are dropped -/

/-- Blanks, parentheses and whole operators, one behind the other. Half an
operator is not among them. -/
inductive Dropped : List Char → Prop
  | nil : Dropped []
  | blank {c : Char} {cs : List Char} (hc : isBlank c = true) (h : Dropped cs) : Dropped (c :: cs)
  | paren {c : Char} {cs : List Char} (hc : c = '(' ∨ c = ')') (h : Dropped cs) : Dropped (c :: cs)
  | operator (k : Connective) {cs : List Char} (h : Dropped cs) : Dropped (k.symbol.toList ++ cs)

theorem dropped_blanks {cs : List Char} (h : Blanks cs) : Dropped cs := by
  induction cs with
  | nil => exact .nil
  | cons c cs ih =>
      obtain ⟨hc, hcs⟩ := List.forall_mem_cons.mp h
      exact .blank hc (ih hcs)

theorem dropped_operator (k : Connective) : Dropped [k.char, k.char] := by
  rw [← k.toList_symbol, ← List.append_nil k.symbol.toList]
  exact .operator k .nil

theorem Dropped.append {as bs : List Char} (ha : Dropped as) (hb : Dropped bs) :
    Dropped (as ++ bs) := by
  induction ha with
  | nil => exact hb
  | blank hc _ ih => exact .blank hc ih
  | paren hc _ ih => exact .paren hc ih
  | operator k _ ih =>
      rw [List.append_assoc]
      exact .operator k ih

/-! ## Texts that spell atoms -/

/-- The text is these atoms in order, with dropped text around each. -/
inductive Spells : List String → List Char → Prop
  | last {ds : List Char} (hd : Dropped ds) : Spells [] ds
  | atom {ds : List Char} {t : String} {ts : List String} {cs : List Char} (hd : Dropped ds)
      (h : Spells ts cs) : Spells (t :: ts) (ds ++ t.toList ++ cs)

theorem spells_atom (t : String) : Spells [t] t.toList := by
  have h : Spells [t] ([] ++ t.toList ++ []) := .atom .nil (.last .nil)
  rwa [List.nil_append, List.append_nil] at h

/-- Dropped text in front joins what is dropped before the first atom. -/
theorem Spells.dropped_append {ts : List String} {as cs : List Char} (ha : Dropped as)
    (h : Spells ts cs) : Spells ts (as ++ cs) := by
  cases h with
  | last hd => exact .last (ha.append hd)
  | atom hd h =>
      rw [← List.append_assoc, ← List.append_assoc]
      exact .atom (ha.append hd) h

theorem Spells.append {ts us : List String} {cs ds : List Char} (hcs : Spells ts cs)
    (hds : Spells us ds) : Spells (ts ++ us) (cs ++ ds) := by
  induction hcs with
  | last hd => exact hds.dropped_append hd
  | atom hd _ ih =>
      rw [List.append_assoc]
      exact .atom hd ih

theorem Spells.pad {ts : List String} {as cs bs : List Char} (ha : Dropped as) (hb : Dropped bs)
    (h : Spells ts cs) : Spells ts (as ++ cs ++ bs) := by
  have hend := (h.dropped_append ha).append (.last hb)
  rwa [List.append_nil] at hend

theorem Spells.of_trim {ts : List String} {cs : List Char} (h : Spells ts (trim cs)) :
    Spells ts cs := by
  obtain ⟨as, bs, ha, hb, hcs⟩ := exists_pad cs
  rw [hcs]
  exact h.pad (dropped_blanks ha) (dropped_blanks hb)

theorem Spells.of_stripOuter {ts : List String} {cs : List Char} :
    Spells ts (stripOuter cs) → Spells ts cs := by
  refine stripOuter_induction (P := fun cs ds => Spells ts ds → Spells ts cs)
    (fun _ _ h => h.of_trim) (fun cs w hw _ _ ih h => ?_) cs
  have hwrap : Spells ts (['('] ++ w ++ [')']) :=
    (ih h).pad (.paren (Or.inl rfl) .nil) (.paren (Or.inr rfl) .nil)
  exact Spells.of_trim (hw ▸ hwrap)

/-- Texts with an operator between them spell the atoms that each of them spells. -/
theorem spells_intercalate (k : Connective) {atomsOf : List Char → List String}
    {ps : List (List Char)} (hps : ps ≠ []) (h : ∀ p ∈ ps, Spells (atomsOf p) p) :
    Spells (ps.flatMap atomsOf) ([k.char, k.char].intercalate ps) := by
  refine intercalate_induction (P := fun ps s =>
    (∀ p ∈ ps, Spells (atomsOf p) p) → Spells (ps.flatMap atomsOf) s) (fun p hp => ?_) ?_ hps h
  · rw [List.flatMap_singleton]
    exact hp p List.mem_cons_self
  · intro p ps _ ih hall
    obtain ⟨hp, hrest⟩ := List.forall_mem_cons.mp hall
    rw [List.append_assoc, List.flatMap_cons]
    exact hp.append ((ih hrest).dropped_append (dropped_operator k))

/-! ## Reading -/

/-- The atoms of a piece between operators: a blank piece is left out. -/
def pieceAtoms (p : List Char) : List String :=
  if trim p = [] then [] else (ofChars (trim p)).atoms

theorem atomsEach_splitTop (op cs : List Char) :
    atomsEach ((splitTop op cs).map ofChars) = (pieces op cs).flatMap pieceAtoms := by
  rw [splitTop]
  induction pieces op cs with
  | nil => rfl
  | cons p ps ih =>
      rw [List.map_cons, List.filter_cons, List.flatMap_cons, pieceAtoms]
      by_cases hp : trim p = []
      · rw [if_neg (by simpa using hp), if_pos hp, ih, List.nil_append]
      · rw [if_pos (by simpa using hp), if_neg hp, List.map_cons, atomsEach_cons, ih]

theorem spells_ofChars (cs : List Char) : Spells (ofChars cs).atoms cs := by
  refine ofChars_induction (P := fun cs g => Spells g.atoms cs) (fun cs _ => ?_) ?_ cs
  · have hbody := spells_atom (String.ofList (stripOuter cs))
    rw [String.toList_ofList] at hbody
    exact hbody.of_stripOuter
  · intro cs k parts h ih
    obtain ⟨rfl, -, -⟩ := groupParts?_eq_some h
    -- only the pieces make up the body again: the parts lack the blank ones
    have hpiece : ∀ p ∈ pieces [k.char, k.char] (stripOuter cs), Spells (pieceAtoms p) p := by
      intro p hp
      rw [pieceAtoms]
      split
      · next hblank => exact .last (dropped_blanks (trim_eq_nil_iff.mp hblank))
      · next hne => exact (ih (trim p) (mem_splitTop.mpr ⟨hne, p, hp, rfl⟩)).of_trim
    have hbody := spells_intercalate k (pieces_ne_nil _ _) hpiece
    rw [intercalate_pieces k.rise_char] at hbody
    rw [atoms_group, atomsEach_splitTop]
    exact hbody.of_stripOuter

/-- **No text is lost and none is made up.** Every text is the atoms of the
guard that it is read as, from left to right and each as written, and what
stands around them is blanks, parentheses and whole operators. -/
theorem atoms_verbatim (text : String) : Spells (parse text).atoms text.toList :=
  spells_ofChars text.toList

end JobChart.Guard
