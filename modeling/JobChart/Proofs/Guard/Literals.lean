import JobChart.Proofs.Guard.Blanked

/-!
# What literals hide from the reader

The checks blank out literals before they look at a guard; the reader takes a
guard apart as it is written. So a parenthesis or an operator inside a literal
may move the reader's depth or be cut at, and a guard that passes the checks
may be read as another one.

When that happens shows in the atoms. An atom `Hides` what its literals hold if
they are closed, its parentheses pair up outside of them, and without them it
is still an atom. For a guard that passes the checks, reading and blanking
commute exactly if all its atoms do (`literals_hidden_iff`).

One way goes by induction along the reading of the text as it is written, and
carries that the blanked text is balanced, is read alike, and is in one piece
wherever the text is (`Hidden`). For the other way the blanked text is read:
it is proper, and in it no operator stands in a literal.
-/

namespace JobChart.Guard

open Text

variable {k : Connective} {cs body p q : List Char} {g : Guard}

/-! ## Texts in one piece -/

/-- What stands behind a text that leaves the depth where it is. -/
theorem Single.middle {xs ys zs : List Char} (h : Single k.char 0 (xs ++ ys ++ zs))
    (hxs : net xs = 0) : Single k.char 0 ys := by
  rw [single_iff k.rise_char] at h ⊢
  rintro us vs rfl
  have hnet := h (xs ++ us) (vs ++ zs) (by simp only [List.append_assoc])
  rwa [net_append, hxs, Int.zero_add] at hnet

theorem Single.trim (h : Single k.char 0 cs) : Single k.char 0 (trim cs) := by
  obtain ⟨as, bs, ha, -, hcs⟩ := exists_pad cs
  rw [hcs] at h
  exact h.middle (net_blanks ha)

/-- The pieces of a text at one operator are in one piece at the other if it is. -/
theorem Single.piece {l : Connective} (h : Single l.char 0 cs)
    (hq : q ∈ pieces [k.char, k.char] cs) : Single l.char 0 q := by
  obtain ⟨xs, ys, hcs, hxs, -⟩ := (cut_pieces k.rise_char cs).around k.rise_char hq
  rw [intercalate_pieces k.rise_char] at hcs
  rw [hcs] at h
  exact h.middle hxs

/-! ## Closed pieces -/

theorem closed_intercalate {ps : List (List Char)} (h : ∀ p ∈ ps, Closed p) :
    Closed ([k.char, k.char].intercalate ps) := by
  by_cases hnil : ps = []
  · rw [hnil]
    exact closed_nil
  refine intercalate_induction (P := fun ps s => (∀ p ∈ ps, Closed p) → Closed s)
    (fun p hp => hp p List.mem_cons_self) ?_ hnil h
  intro p ps _ ih hall
  obtain ⟨hp, hps⟩ := List.forall_mem_cons.mp hall
  rw [List.append_assoc, closed_append hp, closed_append (by cases k <;> decide)]
  exact ih hps

theorem closed_stripOuter : Closed (stripOuter cs) ↔ Closed cs := by
  rw [Closed, count_stripOuter (by decide) rfl, Closed]

/-- A blank piece is closed, and so is any other if it is closed as a part. -/
theorem closed_pieces (h : ∀ p ∈ splitTop [k.char, k.char] body, Closed p) :
    ∀ q ∈ pieces [k.char, k.char] body, Closed q := by
  intro q hq
  by_cases hblank : trim q = []
  · exact closed_blanks (trim_eq_nil_iff.mp hblank)
  · exact closed_trim.mp (h _ (mem_splitTop.mpr ⟨hblank, q, hq, rfl⟩))

/-- A text with closed atoms is closed. -/
theorem closed_of_atoms : (∀ t ∈ (ofChars cs).atoms, Closed t.toList) → Closed cs := by
  refine ofChars_induction
    (P := fun cs g => (∀ t ∈ g.atoms, Closed t.toList) → Closed cs) ?_ ?_ cs
  · intro cs _ h
    have hatom := h _ (List.mem_singleton.mpr rfl)
    rwa [String.toList_ofList, closed_stripOuter] at hatom
  · intro cs k parts hparts ih h
    obtain ⟨rfl, -⟩ := groupParts?_eq_some hparts
    rw [← closed_stripOuter, ← intercalate_pieces k.rise_char (stripOuter cs)]
    refine closed_intercalate (closed_pieces fun p hp => ih p hp fun t ht => h t ?_)
    rw [atoms_group, mem_atomsEach]
    exact ⟨_, List.mem_map_of_mem hp, ht⟩

/-- Where no operand is missing outside of literals, no piece is blank. -/
theorem nonblank_pieces (h : ∀ q ∈ pieces [k.char, k.char] body, Closed q)
    (hfilled : Filled (blanked body)) (hne : trim body ≠ []) :
    ∀ q ∈ pieces [k.char, k.char] body, trim q ≠ [] ∧ Filled (blanked q) := by
  intro q hq
  have hjoin := blanked_intercalate k h
  rw [intercalate_pieces k.rise_char] at hjoin
  have hne' : trim (blanked body) ≠ [] := fun hnil => hne (trim_blanked_eq_nil_iff.mp hnil)
  rw [hjoin] at hfilled hne'
  obtain ⟨hq', hfilled'⟩ := hfilled.member hne' (List.mem_map_of_mem hq)
  exact ⟨fun hnil => hq' (trim_blanked_eq_nil_iff.mpr hnil), hfilled'⟩

/-- The quotes of a text are those of its parts. -/
theorem count_splitTop (k : Connective) (cs : List Char) :
    ((splitTop [k.char, k.char] cs).map (List.count '\'')).sum = cs.count '\'' := by
  have hcount := count_pieces k.rise_char '\'' cs
  have hop : [k.char, k.char].count '\'' = 0 := by cases k <;> decide
  rw [hop, Nat.add_zero, Nat.mul_zero, Nat.add_zero] at hcount
  rw [sum_map_splitTop rfl (fun p => count_trim (by decide) p), hcount]

/-- A closed text with one part at most is in one piece. -/
theorem single_of_few (hclosed : Closed body) (hfilled : Filled (blanked body))
    (hne : trim body ≠ []) (hfew : (splitTop [k.char, k.char] body).length < 2) :
    Single k.char 0 body := by
  have hparts : ∀ p ∈ splitTop [k.char, k.char] body, Closed p := by
    have hcount := count_splitTop k body
    intro p hp
    obtain ⟨p', hone⟩ := List.length_eq_one_iff.mp
      (Nat.le_antisymm (Nat.le_of_lt_succ hfew) (List.length_pos_of_mem hp))
    rw [hone, List.mem_singleton] at hp
    rw [hone, List.map_singleton, List.sum_singleton] at hcount
    rwa [hp, Closed, hcount]
  have hpieces := nonblank_pieces (closed_pieces hparts) hfilled hne
  rw [splitTop_of_nonblank fun q hq => (hpieces q hq).1, List.length_map] at hfew
  have hpos := List.length_pos_iff.mpr (pieces_ne_nil [k.char, k.char] body)
  exact (single_iff_length k.rise_char).mpr (by omega)

/-! ## Atoms that hide their literals -/

/-- What an atom comes to when its literals are blanked out. -/
def bareText (t : String) : String := String.ofList (stripOuter (unquoted t).toList)

/-- What stands in the atom's literals does not show: they are closed, outside
of them the parentheses pair up, and without them the text is still an atom. -/
structure Hides (t : String) : Prop where
  closed : Closed t.toList
  balanced : balanced t = true
  atom : (parse (unquoted t)).isAtom = true

theorem hides_iff {t : String} : Hides t ↔
    Closed t.toList ∧ balanced t = true ∧ (parse (unquoted t)).isAtom = true :=
  ⟨fun h => ⟨h.closed, h.balanced, h.atom⟩, fun h => ⟨h.1, h.2.1, h.2.2⟩⟩

instance (t : String) : Decidable (Hides t) := decidable_of_iff _ hides_iff.symm

/-- A text is an atom if it is not split at either operator. -/
theorem isAtom_iff : (ofChars cs).isAtom = true ↔ groupParts? (stripOuter cs) = none := by
  cases hparts : groupParts? (stripOuter cs) with
  | none => simp [ofChars_of_none hparts, isAtom]
  | some kp =>
      obtain ⟨k, parts⟩ := kp
      rw [ofChars_of_some hparts]
      cases k <;> simp [Connective.group, isAtom]

/-! ## Blanking what is read -/

/-- What ties a blanked text to what is left of it when the pairs that wrap the
unblanked text go. -/
structure Undressed (cs body : List Char) : Prop where
  closed : Closed body
  nonblank : trim body ≠ []
  filled : Filled (blanked cs) → Filled (blanked body)
  balanced : Balanced (blanked body) → Balanced (blanked cs)
  stripped : Balanced (blanked body) → stripOuter (blanked cs) = stripOuter (blanked body)
  single : ∀ k : Connective, Balanced (blanked body) → Single k.char 0 cs →
    (Single k.char 0 body → Single k.char 0 (blanked body)) → Single k.char 0 (blanked cs)

theorem undressed_trim (hclosed : Closed cs) (hne : trim cs ≠ []) : Undressed cs (trim cs) := by
  obtain ⟨as, bs, ha, hb, hcs⟩ := exists_pad cs
  have hpad := blanked_pad ha hb (closed_trim.mpr hclosed)
  rw [← hcs] at hpad
  refine ⟨closed_trim.mpr hclosed, by rwa [trim_trim], fun h => ?_, fun h => ?_, fun _ => ?_,
    fun k _ hcs hbody => ?_⟩
  · have hbetween : blanked cs = [] ++ as ++ blanked (trim cs) ++ bs ++ [] := by simpa using hpad
    exact h.inner hbetween ha hb (Or.inl rfl) (Or.inl rfl)
  · rw [hpad]
    exact h.pad ha hb
  · rw [← stripOuter_trim, hpad, trim_pad ha hb, stripOuter_trim]
  · rw [hpad]
    exact (hbody hcs.trim).pad k.rise_char k.isBlank_char ha hb

theorem Undressed.wrap {w : List Char} (h : Undressed w body) (hclosed : Closed w)
    (hne : trim w ≠ []) : Undressed ('(' :: w ++ [')']) body := by
  have hne' : trim (blanked w) ≠ [] := fun hnil => hne (trim_blanked_eq_nil_iff.mp hnil)
  have hbetween : '(' :: blanked w ++ [')'] = ['('] ++ [] ++ blanked w ++ [] ++ [')'] := by simp
  refine ⟨h.closed, h.nonblank, fun hfilled => ?_, fun hbody => ?_, fun hbody => ?_,
    fun k hbody _ _ => ?_⟩
  · rw [blanked_wrap hclosed] at hfilled
    exact h.filled (hfilled.inner hbetween blanks_nil blanks_nil (Or.inr (Or.inl rfl))
      (Or.inr (Or.inl rfl)))
  · rw [blanked_wrap hclosed]
    exact (h.balanced hbody).wrap
  · rw [blanked_wrap hclosed, stripOuter_wrap (h.balanced hbody) hne', h.stripped hbody]
  · rw [blanked_wrap hclosed]
    exact single_wrap k.rise_char (h.balanced hbody)

theorem Undressed.trans {ds : List Char} (h : Undressed cs ds) (h' : Undressed ds body) :
    Undressed cs body where
  closed := h'.closed
  nonblank := h'.nonblank
  filled := fun hfilled => h'.filled (h.filled hfilled)
  balanced := fun hbody => h.balanced (h'.balanced hbody)
  stripped := fun hbody => by rw [h.stripped (h'.balanced hbody), h'.stripped hbody]
  single := fun k hbody hcs hone =>
    h.single k (h'.balanced hbody) hcs fun hds => h'.single k hbody hds hone

theorem undressed_stripOuter (hclosed : Closed cs) (hne : trim cs ≠ []) :
    Undressed cs (stripOuter cs) := by
  refine stripOuter_induction (P := fun cs body => Closed cs → trim cs ≠ [] → Undressed cs body)
    (fun cs _ hclosed hne => undressed_trim hclosed hne) ?_ cs hclosed hne
  intro cs w hw _ hne ih hclosed hcs
  have houter := undressed_trim hclosed hcs
  have hinside : Closed w := closed_wrap.mp (hw ▸ houter.closed)
  exact houter.trans (hw ▸ (ih hinside hne).wrap hinside hne)

/-- Blanking the text and blanking the atoms of its guard come to the same. -/
structure Hidden (cs : List Char) (g : Guard) : Prop where
  balanced : Balanced (blanked cs)
  read : ofChars (blanked cs) = g.mapAtoms bareText
  single : ∀ k : Connective, Single k.char 0 cs → Single k.char 0 (blanked cs)

theorem Undressed.hidden (h : Undressed cs body) (hbody : Hidden body g) : Hidden cs g where
  balanced := h.balanced hbody.balanced
  read := by rw [ofChars_congr (h.stripped hbody.balanced), hbody.read]
  single := fun k hcs => h.single k hbody.balanced hcs (hbody.single k)

/-- A text that is an atom without its literals is in one piece then. -/
theorem single_of_isAtom (h : Proper cs) (hatom : (ofChars cs).isAtom = true) (k : Connective) :
    Single k.char 0 cs := by
  have hfew := groupParts?_eq_none_iff.mp (isAtom_iff.mp hatom) k
  rw [h.stripOuter.splitTop_eq k, List.length_map] at hfew
  have hpos := List.length_pos_iff.mpr (pieces_ne_nil [k.char, k.char] (stripOuter cs))
  have hone : Single k.char 0 (stripOuter cs) := (single_iff_length k.rise_char).mpr (by omega)
  refine stripOuter_induction (P := fun cs ds => Single k.char 0 ds → Single k.char 0 cs)
    (fun cs _ hds => ?_) (fun cs w hw hbalanced _ _ _ => ?_) cs hone
  all_goals obtain ⟨as, bs, ha, hb, hcs⟩ := exists_pad cs
  · rw [hcs]
    exact hds.pad k.rise_char k.isBlank_char ha hb
  · rw [hcs, hw]
    exact (single_wrap k.rise_char hbalanced).pad k.rise_char k.isBlank_char ha hb

theorem hidden_atom (hhides : Hides (String.ofList body)) (hfilled : Filled (blanked body))
    (hne : trim body ≠ []) : Hidden body (.atom (String.ofList body)) := by
  have hbalanced := hhides.balanced
  have hatom := hhides.atom
  rw [Guard.balanced, toList_unquoted_eq, String.toList_ofList, ← balanced_iff] at hbalanced
  rw [parse, toList_unquoted_eq, String.toList_ofList] at hatom
  have hproper : Proper (blanked body) :=
    ⟨fun hnil => hne (trim_blanked_eq_nil_iff.mp hnil), hbalanced, hfilled⟩
  refine ⟨hbalanced, ?_, fun k _ => single_of_isAtom hproper hatom k⟩
  rw [ofChars_of_none (isAtom_iff.mp hatom), mapAtoms, bareText, toList_unquoted_eq,
    String.toList_ofList]

/-- The pieces of a text, blanked, come apart when they stand side by side. -/
theorem apart_blanked (hclosed : ∀ q ∈ pieces [k.char, k.char] body, Closed q)
    (hbalanced : ∀ q ∈ pieces [k.char, k.char] body, Balanced (blanked q)) :
    Apart k.char ((pieces [k.char, k.char] body).map blanked) := by
  refine List.pairwise_map.mpr ((cut_pieces k.rise_char body).apart.imp_of_mem ?_)
  intro q _ hq _ hends
  exact ⟨(hbalanced q hq).level, by rw [getLast?_blanked (hclosed q hq)]; exact hends.2⟩

/-- A group is hidden if the parts of its text are. -/
theorem hidden_group {parts : List (List Char)} (hgroup : groupParts? body = some (k, parts))
    (hclosed : Closed body) (hne : trim body ≠ []) (hfilled : Filled (blanked body))
    (hpieces : ∀ q ∈ pieces [k.char, k.char] body, Closed q)
    (hparts : ∀ p ∈ parts, Filled (blanked p) → trim p ≠ [] → Hidden p (ofChars p)) :
    Hidden body (k.group (parts.map ofChars)) := by
  obtain ⟨rfl, htwo, hany⟩ := groupParts?_eq_some hgroup
  have hfull := nonblank_pieces hpieces hfilled hne
  have hsplit := splitTop_of_nonblank fun q hq => (hfull q hq).1
  have hhidden : ∀ q ∈ pieces [k.char, k.char] body, Hidden q (ofChars q) := by
    intro q hq
    obtain ⟨hq', hfilled'⟩ := hfull q hq
    have hundressed := undressed_trim (hpieces q hq) hq'
    have hpart := hparts (trim q) (hsplit ▸ List.mem_map_of_mem hq) (hundressed.filled hfilled')
      (by rwa [trim_trim])
    rw [ofChars_trim] at hpart
    exact hundressed.hidden hpart
  have hjoin := blanked_intercalate k hpieces
  rw [intercalate_pieces k.rise_char] at hjoin
  rw [hsplit, List.length_map] at htwo
  have hpos : pieces [k.char, k.char] body ≠ [] := pieces_ne_nil _ _
  have hmap : (pieces [k.char, k.char] body).map blanked ≠ [] := by simpa using hpos
  have hapart := apart_blanked hpieces fun q hq => (hhidden q hq).balanced
  -- the other operator cuts no piece, so it does not cut what the pieces are together
  have hother : ∀ l : Connective, l ≠ k → Single l.char 0 body →
      Single l.char 0 (blanked body) := by
    intro l hlk hone
    rw [hjoin]
    refine single_intercalate l.rise_char k.rise_char ?_ hmap (hapart.imp fun h => h.1)
      (List.forall_mem_map.mpr fun q hq => (hhidden q hq).single l (hone.piece hq))
    revert hlk
    cases l <;> cases k <;> decide
  have hcut : ¬Single k.char 0 body := fun hone => by
    rw [(single_iff_length k.rise_char).mp hone] at htwo
    omega
  refine ⟨?_, ?_, fun l hone => hother l (fun hlk => hcut (hlk ▸ hone)) hone⟩
  · rw [hjoin]
    exact balanced_intercalate k.rise_char hmap
      (List.forall_mem_map.mpr fun q hq => (hhidden q hq).balanced)
  · have hsingle : ∀ t ∈ (pieces [k.char, k.char] body).map blanked,
        Single k.char 0 t ∧ trim t ≠ [] :=
      List.forall_mem_map.mpr fun q hq =>
        ⟨(hhidden q hq).single k ((cut_pieces k.rise_char body).single q hq),
          fun hnil => (hfull q hq).1 (trim_blanked_eq_nil_iff.mp hnil)⟩
    have hall : k = .all → (splitTop [Connective.any.char, Connective.any.char]
        ([k.char, k.char].intercalate ((pieces [k.char, k.char] body).map blanked))).length
          < 2 := by
      rintro rfl
      have hone := hother .any (by decide) (single_of_few hclosed hfilled hne (hany rfl))
      refine Nat.lt_of_le_of_lt (length_splitTop_le _ _) ?_
      rw [← hjoin, (single_iff_length (Connective.rise_char _)).mp hone]
      decide
    rw [hjoin, ofChars_intercalate (by rwa [List.length_map]) hapart hsingle hall, hsplit,
      mapAtoms_group, List.map_map, List.map_map, List.map_map]
    refine congrArg k.group (List.map_congr_left fun q hq => ?_)
    rw [Function.comp_apply, (hhidden q hq).read, Function.comp_apply, Function.comp_apply,
      ofChars_trim]

/-- Atoms that hide their literals hide them from the whole guard. -/
theorem hidden_of_hides : (∀ t ∈ (ofChars cs).atoms, Hides t) → Filled (blanked cs) →
    trim cs ≠ [] → Hidden cs (ofChars cs) := by
  refine ofChars_induction (P := fun cs g => (∀ t ∈ g.atoms, Hides t) → Filled (blanked cs) →
    trim cs ≠ [] → Hidden cs g) ?_ ?_ cs
  · intro cs _ hhides hfilled hne
    have hatom := hhides _ (List.mem_singleton.mpr rfl)
    have hclosed := hatom.closed
    rw [String.toList_ofList, closed_stripOuter] at hclosed
    have hundressed := undressed_stripOuter hclosed hne
    exact hundressed.hidden
      (hidden_atom hatom (hundressed.filled hfilled) hundressed.nonblank)
  · intro cs k parts hparts ih hhides hfilled hne
    have hmembers : ∀ p ∈ parts, ∀ t ∈ (ofChars p).atoms, Hides t := by
      intro p hp t ht
      refine hhides t ?_
      rw [atoms_group, mem_atomsEach]
      exact ⟨_, List.mem_map_of_mem hp, ht⟩
    have hpieces : ∀ q ∈ pieces [k.char, k.char] (stripOuter cs), Closed q := by
      refine closed_pieces fun p hp => closed_of_atoms fun t ht => ?_
      rw [← (groupParts?_eq_some hparts).1] at hp
      exact (hmembers p hp t ht).closed
    have hclosed : Closed cs := by
      rw [← closed_stripOuter, ← intercalate_pieces k.rise_char (stripOuter cs)]
      exact closed_intercalate hpieces
    have hundressed := undressed_stripOuter hclosed hne
    exact hundressed.hidden (hidden_group hparts hundressed.closed hundressed.nonblank
      (hundressed.filled hfilled) hpieces fun p hp => ih p hp (hmembers p hp))

/-! ## Reading what is blanked -/

theorem blanked_stripOuter (hclosed : Closed cs) (h : blanked cs = cs) :
    blanked (stripOuter cs) = stripOuter cs := by
  refine stripOuter_induction
    (P := fun cs ds => Closed cs → blanked cs = cs → blanked ds = ds) ?_ ?_ cs hclosed h
  all_goals intro cs
  all_goals obtain ⟨as, bs, ha, -, hcs⟩ := exists_pad cs
  · intro _ _ h
    rw [hcs] at h
    exact blanked_middle (closed_blanks ha) h
  · intro w hw _ _ ih hclosed h
    have hinside : Closed w := closed_wrap.mp (hw ▸ closed_trim.mpr hclosed)
    rw [hcs] at h
    have htrim : blanked (['('] ++ w ++ [')']) = ['('] ++ w ++ [')'] :=
      hw ▸ blanked_middle (closed_blanks ha) h
    exact ih hinside (blanked_middle (by decide) htrim)

/-- In a blanked text the operators stand outside of literals, so its pieces
are closed and blanked. -/
theorem blanked_piece (hclosed : Closed cs) (h : blanked cs = cs)
    (hq : q ∈ pieces [k.char, k.char] cs) : Closed q ∧ blanked q = q := by
  obtain ⟨us, vs, hcs, -, hus, hvs⟩ := (cut_pieces k.rise_char cs).around k.rise_char hq
  rw [intercalate_pieces k.rise_char] at hcs
  have hquote : k.char ≠ '\'' := by cases k <;> decide
  have hfront : Closed us := by
    rcases hus with rfl | hlast
    · exact closed_nil
    · obtain ⟨us, rfl⟩ := List.getLast?_eq_some_iff.mp hlast
      rw [hcs, List.append_assoc, List.append_assoc, List.singleton_append] at h
      rw [closed_append (closed_front k.isBlank_char hquote h)]
      cases k <;> decide
  have hback : Closed (us ++ q) := by
    rcases hvs with rfl | ⟨-, hhead⟩
    · rwa [hcs, List.append_nil] at hclosed
    · obtain ⟨vs, rfl⟩ := List.head?_eq_some_iff.mp hhead
      rw [hcs] at h
      exact closed_front k.isBlank_char hquote h
  exact ⟨(closed_append hfront).mp hback, blanked_middle hfront (hcs ▸ h)⟩

/-- The atoms of a blanked text are closed. -/
theorem closed_of_blanked : Closed cs → blanked cs = cs →
    ∀ t ∈ (ofChars cs).atoms, Closed t.toList := by
  refine ofChars_induction (P := fun cs g => Closed cs → blanked cs = cs →
    ∀ t ∈ g.atoms, Closed t.toList) ?_ ?_ cs
  · intro cs _ hclosed _ t ht
    rw [List.mem_singleton.mp ht, String.toList_ofList]
    exact closed_stripOuter.mpr hclosed
  · intro cs k parts hparts ih hclosed h t ht
    rw [atoms_group, mem_atomsEach] at ht
    obtain ⟨g, hg, ht⟩ := ht
    obtain ⟨p, hp, rfl⟩ := List.mem_map.mp hg
    obtain ⟨-, q, hq, rfl⟩ := mem_splitTop.mp ((groupParts?_eq_some hparts).1 ▸ hp)
    obtain ⟨hq, hblanked⟩ :=
      blanked_piece (closed_stripOuter.mpr hclosed) (blanked_stripOuter hclosed h) hq
    exact ih _ hp (closed_trim.mpr hq) (by rw [blanked_trim hq, hblanked]) t ht

/-- What an atom comes to is an atom of the blanked text, so it is as the
checks promise. -/
theorem hides_of_bareText {t : String} (hclosed : Closed (bareText t).toList)
    (hbalanced : Balanced (bareText t).toList)
    (hsingle : ∀ k : Connective, Single k.char 0 (bareText t).toList) : Hides t := by
  rw [bareText, String.toList_ofList] at hclosed hbalanced hsingle
  rw [closed_stripOuter, toList_unquoted_eq, closed_blanked] at hclosed
  refine ⟨hclosed, balanced_iff.mp (balanced_of_stripOuter hbalanced), ?_⟩
  refine isAtom_iff.mpr (groupParts?_eq_none_iff.mpr fun k => ?_)
  refine Nat.lt_of_le_of_lt (length_splitTop_le _ _) ?_
  rw [(single_iff_length k.rise_char).mp (hsingle k)]
  decide

/-! ## Guards that pass the checks -/

theorem hides_empty : Hides "" := by decide +kernel

/-- **What literals hide from the reader.** Let the literals of a text be
closed, and outside of them let its parentheses pair up and no operand lack.
Then reading the text and blanking the atoms is the same as reading the
blanked text exactly if every atom hides what its literals hold; and if they
do, literals do not show in the shape of the guard. The shapes alone can agree
by accident, where a literal hides one operator and another one shows its own. -/
theorem literals_hidden_iff (text : String) (hquotes : Even (text.toList.count '\''))
    (hbalanced : balanced text = true) (hoperands : lacksOperand text = false) :
    (parse (unquoted text) = (parse text).mapAtoms bareText
        ↔ ∀ t ∈ (parse text).atoms, Hides t)
      ∧ ((∀ t ∈ (parse text).atoms, Hides t)
        → (parse (unquoted text)).shape = (parse text).shape) := by
  have hsame : parse (unquoted text) = (parse text).mapAtoms bareText
      ↔ ∀ t ∈ (parse text).atoms, Hides t := by
    by_cases hne : trim text.toList = []
    · have hunquoted : trim (unquoted text).toList = [] := by
        rwa [toList_unquoted_eq, trim_blanked_eq_nil_iff]
      rw [parse_of_blank hne, parse_of_blank hunquoted]
      exact iff_of_true (by decide +kernel) (List.forall_mem_singleton.mpr hides_empty)
    have hfilled := filled_unquoted hoperands
    rw [toList_unquoted_eq] at hfilled
    constructor
    · intro hsame t ht
      have hproper : Proper (blanked text.toList) := by
        refine ⟨fun hnil => hne (trim_blanked_eq_nil_iff.mp hnil), ?_, hfilled⟩
        rw [← toList_unquoted_eq]
        exact balanced_iff.mpr hbalanced
      have hatom : bareText t ∈ (ofChars (blanked text.toList)).atoms := by
        rw [← toList_unquoted_eq, ← parse, hsame, atoms_mapAtoms]
        exact List.mem_map_of_mem ht
      have hclosed := closed_of_blanked (closed_blanked.mpr hquotes) (blanked_blanked _) _ hatom
      exact hides_of_bareText hclosed (hproper.atoms _ hatom).1 (hproper.atoms _ hatom).2
    · intro hhides
      rw [parse, toList_unquoted_eq]
      exact (hidden_of_hides hhides hfilled hne).read
  refine ⟨hsame, fun hhides => ?_⟩
  rw [hsame.mpr hhides, shape_mapAtoms]

/-- Literals with an operator and parentheses in a call, and with a lone `&`. -/
def callText : String := "contains(x, 'a || (b)') && (y == '&' || z)"

theorem literals_hidden_in_call :
    Even (callText.toList.count '\'') ∧ balanced callText = true ∧ lacksOperand callText = false
      ∧ parse callText
        = .all [.atom "contains(x, 'a || (b)')", .any [.atom "y == '&'", .atom "z"]]
      ∧ parse (unquoted callText)
        = .all [.atom "contains(x, '        ')", .any [.atom "y == ' '", .atom "z"]]
      ∧ (parse (unquoted callText)).shape = (parse callText).shape := by
  have hquotes : Even (callText.toList.count '\'') := by decide +kernel
  have hbalanced : balanced callText = true := by decide +kernel
  have hoperands : lacksOperand callText = false := by decide +kernel
  have hread : parse callText
      = .all [.atom "contains(x, 'a || (b)')", .any [.atom "y == '&'", .atom "z"]] := by
    decide +kernel
  have hhides : ∀ t ∈ (parse callText).atoms, Hides t := by decide +kernel
  obtain ⟨hsame, hshape⟩ := literals_hidden_iff callText hquotes hbalanced hoperands
  refine ⟨hquotes, hbalanced, hoperands, hread, ?_, hshape hhides⟩
  rw [hsame.mpr hhides, hread]
  decide +kernel

/-- An operator in a literal outside of parentheses cuts a guard that passes
the checks in two. -/
theorem literal_operator_cuts :
    let text := "a == 'x || y'"
    Even (text.toList.count '\'') ∧ balanced text = true ∧ lacksOperand text = false
      ∧ parse text = .any [.atom "a == 'x", .atom "y'"]
      ∧ parse (unquoted text) = .atom "a == '      '"
      ∧ (parse (unquoted text)).shape ≠ (parse text).shape := by
  decide +kernel

end JobChart.Guard
