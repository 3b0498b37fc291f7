import JobChart.Proofs.Guard.Printer
import JobChart.Proofs.Guard.Reading

/-!
# Printing what was read

The guard of a text, printed and read again. The printed text keeps the
depth, the balance and the operators of what was read, and it keeps the
parentheses at its ends (`stripOuter_text`). It is read as the same guard
when no operator stands in it that belongs to no group (`strayFree`), and
only then (`reprint_stable_iff`).

An atom may hold an operator outside all parentheses: `a &&` is read as an
atom, since the empty text behind the operator is left out. As a member of a
group it stands bare, and its operator is then taken for the group's.
-/

namespace JobChart.Guard

open Text

variable {k : Connective} {g : Guard} {cs : List Char} {parts : List (List Char)}

/-! ## Texts of members -/

@[simp] theorem net_memberText (k : Connective) (g : Guard) :
    net (memberText k g) = net g.text.toList := by
  rw [memberText]
  split
  · rfl
  · exact net_wrap _

theorem count_memberText {a : Char} (ha : rise a = 0) (k : Connective) (g : Guard) :
    (memberText k g).count a = g.text.toList.count a := by
  rw [memberText]
  split
  · rfl
  · exact count_wrap ha _

theorem trim_memberText (h : trim g.text.toList = g.text.toList) :
    trim (memberText k g) = memberText k g := by
  rw [memberText]
  split
  · exact h
  · exact trim_wrap _

theorem memberText_ne_nil (h : g.text.toList ≠ []) : memberText k g ≠ [] := by
  rw [memberText]
  split
  · exact h
  · exact List.cons_ne_nil _ _

theorem Balanced.memberText (h : Balanced g.text.toList) : Balanced (memberText k g) := by
  rw [Guard.memberText]
  split
  · exact h
  · exact h.wrap

/-! ## The parts that were read -/

theorem balanced_part (h : groupParts? (stripOuter cs) = some (k, parts)) (hcs : Balanced cs) :
    ∀ p ∈ parts, Balanced p := by
  intro p hp
  obtain ⟨-, q, hq, rfl⟩ := mem_splitTop.mp ((groupParts?_eq_some h).1 ▸ hp)
  exact (hcs.stripOuter.piece k.rise_char hq).trim

/-- A part without a pair of parentheses around it is read as a member that
stands bare: no operator is left in it that would make it another group. -/
theorem standsBare_of_peel? (h : groupParts? (stripOuter cs) = some (k, parts)) {p : List Char}
    (hp : p ∈ parts) (hpeel : peel? p = none) : standsBare k (ofChars p) = true := by
  obtain ⟨hsplit, -, hany⟩ := groupParts?_eq_some h
  cases hparts : groupParts? (stripOuter p) with
  | none =>
      rw [ofChars_of_none hparts]
      cases k <;> rfl
  | some lp =>
      obtain ⟨l, ps⟩ := lp
      obtain ⟨rfl, htwo, -⟩ := groupParts?_eq_some hparts
      rw [stripOuter_eq_self (trim_part h p hp) hpeel] at htwo
      have hl : k ≠ l := by
        rintro rfl
        obtain ⟨hne, q, hq, rfl⟩ := mem_splitTop.mp (hsplit ▸ hp)
        have hsingle := (cut_pieces k.rise_char (stripOuter cs)).single q hq
        rw [splitTop_trim k.rise_char k.isBlank_char, splitTop_of_single hsingle hne,
          List.length_singleton] at htwo
        omega
      rw [ofChars_of_some hparts]
      cases k with
      | any =>
          cases l with
          | any => exact absurd rfl hl
          | all => rfl
      | all =>
          cases l with
          | all => exact absurd rfl hl
          | any =>
              have hle := length_splitTop_part Connective.all.rise_char Connective.any.rise_char
                Connective.any.isBlank_char (by decide) (hsplit ▸ hp)
              have hlt := hany rfl
              omega

/-- A member that is printed in parentheses was read from a text in
parentheses. -/
theorem wrapped_part (h : groupParts? (stripOuter cs) = some (k, parts)) {p : List Char}
    (hp : p ∈ parts) (hbare : standsBare k (ofChars p) = false) :
    ∃ w, p = '(' :: w ++ [')'] ∧ Balanced w ∧ trim w ≠ [] := by
  cases hpeel : peel? p with
  | some ds =>
      obtain ⟨w, hw, hbalanced, rfl, hne⟩ := peel?_eq_some.mp hpeel
      exact ⟨w, hw, hbalanced, hne⟩
  | none =>
      rw [standsBare_of_peel? h hp hpeel] at hbare
      cases hbare

/-! ## The text that is printed -/

/-- The texts of the members of a group that was read. -/
def memberRow (k : Connective) (parts : List (List Char)) : List (List Char) :=
  parts.map fun p => memberText k (ofChars p)

theorem toList_text_read (k : Connective) (parts : List (List Char)) :
    (k.group (parts.map ofChars)).text.toList = row k (memberRow k parts) := by
  rw [toList_text_group, memberRow, List.map_map]
  rfl

theorem memberRow_ne_nil (h : groupParts? (stripOuter cs) = some (k, parts)) :
    memberRow k parts ≠ [] := fun hnil =>
  parts_ne_nil h (List.map_eq_nil_iff.mp hnil)

@[simp] theorem net_text_ofChars (cs : List Char) : net (ofChars cs).text.toList = net cs := by
  refine ofChars_induction (P := fun cs g => net g.text.toList = net cs) ?_ ?_ cs
  · intro cs _
    rw [text_atom, String.toList_ofList, net_stripOuter]
  · intro cs k parts h ih
    have hmap : (memberRow k parts).map net = parts.map net := by
      rw [memberRow, List.map_map]
      refine List.map_congr_left fun p hp => ?_
      rw [Function.comp, net_memberText, ih p hp]
    rw [toList_text_read, net_row k (memberRow_ne_nil h), hmap, (groupParts?_eq_some h).1,
      net_splitTop k.rise_char, net_stripOuter]

theorem memberRow_ends (h : groupParts? (stripOuter cs) = some (k, parts)) :
    (memberRow k parts).Pairwise fun m _ => net m = 0 := by
  refine List.pairwise_map.mpr ?_
  have hends := splitTop_ends k.rise_char (stripOuter cs)
  rw [← (groupParts?_eq_some h).1] at hends
  exact hends.imp fun hp => by rw [net_memberText, net_text_ofChars, hp]

/-- The members' texts are trimmed and not empty when their own printed texts
are. -/
theorem memberRow_trimmed (h : groupParts? (stripOuter cs) = some (k, parts))
    (htexts : ∀ p ∈ parts, trim (ofChars p).text.toList = (ofChars p).text.toList
      ∧ (trim p ≠ [] → (ofChars p).text.toList ≠ [])) :
    (∀ m ∈ memberRow k parts, trim m = m) ∧ ∀ m ∈ memberRow k parts, m ≠ [] := by
  refine ⟨fun m hm => ?_, fun m hm => ?_⟩
  · obtain ⟨p, hp, rfl⟩ := List.mem_map.mp hm
    exact trim_memberText (htexts p hp).1
  · obtain ⟨p, hp, rfl⟩ := List.mem_map.mp hm
    refine memberText_ne_nil ((htexts p hp).2 ?_)
    rw [trim_part h p hp]
    exact part_ne_nil h p hp

/-- A printed text is trimmed, and it is not empty where the text read was
more than blanks. -/
theorem trim_text_ofChars (cs : List Char) :
    trim (ofChars cs).text.toList = (ofChars cs).text.toList
      ∧ (trim cs ≠ [] → (ofChars cs).text.toList ≠ []) := by
  refine ofChars_induction (P := fun cs g =>
    trim g.text.toList = g.text.toList ∧ (trim cs ≠ [] → g.text.toList ≠ [])) ?_ ?_ cs
  · intro cs _
    rw [text_atom, String.toList_ofList]
    exact ⟨trim_stripOuter cs, stripOuter_ne_nil⟩
  · intro cs k parts h ih
    obtain ⟨htrim, hne⟩ := memberRow_trimmed h ih
    rw [toList_text_read]
    exact ⟨trim_row htrim hne, fun _ => row_ne_nil hne (memberRow_ne_nil h)⟩

theorem Balanced.text_ofChars {cs : List Char} :
    Balanced cs → Balanced (ofChars cs).text.toList := by
  refine ofChars_induction (P := fun cs g => Balanced cs → Balanced g.text.toList) ?_ ?_ cs
  · intro cs _ hcs
    rw [text_atom, String.toList_ofList]
    exact hcs.stripOuter
  · intro cs k parts h ih hcs
    rw [toList_text_read]
    refine balanced_row (memberRow_ne_nil h) fun m hm => ?_
    obtain ⟨p, hp, rfl⟩ := List.mem_map.mp hm
    exact (ih p hp (balanced_part h hcs p hp)).memberText

/-- A group that was read has no more of a character than its text, where none
of its members has more of it than the part it was read from. -/
theorem count_text_read_le (h : groupParts? (stripOuter cs) = some (k, parts)) {a : Char}
    (ha : isBlank a = false)
    (hmembers : ∀ p ∈ parts, (memberText k (ofChars p)).count a ≤ p.count a) :
    (k.group (parts.map ofChars)).text.toList.count a ≤ (stripOuter cs).count a := by
  have hsum : ((memberRow k parts).map (List.count a)).sum
      ≤ (parts.map (List.count a)).sum := by
    rw [memberRow, List.map_map]
    exact List.sum_le_sum hmembers
  have hrow := count_row ha (memberRow_ne_nil h) (k := k)
  have hpieces := count_pieces k.rise_char a (stripOuter cs)
  have hlen := Nat.mul_le_mul_right ([k.char, k.char].count a)
    (length_splitTop_le [k.char, k.char] (stripOuter cs))
  have hparts : (parts.map (List.count a)).sum
      = ((pieces [k.char, k.char] (stripOuter cs)).map (List.count a)).sum := by
    rw [(groupParts?_eq_some h).1]
    exact sum_map_splitTop rfl (count_trim ha) _ _
  rw [← (groupParts?_eq_some h).1] at hlen
  rw [memberRow, List.length_map, ← memberRow] at hrow
  rw [toList_text_read]
  omega

/-- Operators are left out, none is added. -/
theorem count_text_ofChars_le (l : Connective) (cs : List Char) :
    (ofChars cs).text.toList.count l.char ≤ cs.count l.char := by
  refine ofChars_induction (P := fun cs g => g.text.toList.count l.char ≤ cs.count l.char) ?_ ?_ cs
  · intro cs _
    rw [text_atom, String.toList_ofList, count_stripOuter l.isBlank_char l.rise_char]
  · intro cs k parts h ih
    rw [← count_stripOuter l.isBlank_char l.rise_char cs]
    refine count_text_read_le h l.isBlank_char fun p hp => ?_
    rw [count_memberText l.rise_char]
    exact ih p hp

/-- Nothing of a printed text is stripped when it is read again. -/
theorem stripOuter_text (cs : List Char) :
    stripOuter (ofChars cs).text.toList = (ofChars cs).text.toList := by
  refine ofChars_induction (P := fun _ g => stripOuter g.text.toList = g.text.toList) ?_ ?_ cs
  · intro cs _
    rw [text_atom, String.toList_ofList, stripOuter_stripOuter]
  · intro cs k parts h _
    obtain ⟨htrim, hne⟩ := memberRow_trimmed h fun p _ => trim_text_ofChars p
    have htwo : 2 ≤ (memberRow k parts).length := by
      rw [memberRow, List.length_map]
      exact (groupParts?_eq_some h).2.1
    rw [toList_text_read]
    exact stripOuter_eq_self (trim_row htrim hne) (peel?_row hne (memberRow_ends h) htwo)

/-- A row of texts that are not cut is read as the group of what they are read
as, unless `||` cuts it. -/
theorem ofChars_row {ms : List (List Char)} (htwo : 2 ≤ ms.length)
    (hends : ms.Pairwise fun m _ => net m = 0) (h : ∀ m ∈ ms, Single k.char 0 m ∧ trim m ≠ [])
    (hany : k = .all →
      (splitTop [Connective.any.char, Connective.any.char] (row k ms)).length < 2) :
    ofChars (row k ms) = k.group (ms.map ofChars) := by
  have hms : ms ≠ [] := by
    rintro rfl
    exact absurd htwo (by decide)
  rw [row_eq_intercalate k hms] at hany ⊢
  have hlen : 2 ≤ (spaced [] ms).length := by rwa [length_spaced blanks_nil]
  rw [ofChars_intercalate hlen (apart_spaced blanks_nil hends) ?_ hany,
    map_spaced ofChars_pad blanks_nil]
  refine forall_spaced blanks_nil fun m hm as bs ha hb => ⟨?_, ?_⟩
  · exact (h m hm).1.pad k.rise_char k.isBlank_char ha hb
  · rw [trim_pad ha hb]
    exact (h m hm).2

/-- A member's text is read like the text it stands for. -/
theorem ofChars_memberText (h : groupParts? (stripOuter cs) = some (k, parts)) {p : List Char}
    (hp : p ∈ parts) :
    ofChars (memberText k (ofChars p)) = ofChars (ofChars p).text.toList := by
  rw [memberText]
  split
  · rfl
  · next hbare =>
    obtain ⟨w, hw, hbalanced, -⟩ := wrapped_part h hp (by simpa using hbare)
    have hp' : Balanced p := hw ▸ hbalanced.wrap
    obtain ⟨htrim, hne⟩ := trim_text_ofChars p
    rw [trim_part h p hp] at hne
    refine ofChars_congr (stripOuter_wrap hp'.text_ofChars ?_)
    rw [htrim]
    exact hne (part_ne_nil h p hp)

/-! ## Stray operators -/

/-- None of the texts is cut at the operator. -/
def uncut (k : Connective) (ms : List String) : Bool :=
  ms.all fun m => (pieces [k.char, k.char] m.toList).length = 1

mutual

/-- No operator stands in the printed text that belongs to no group: none of a
group's members is cut at the group's operator, and the members of an `all`
group next to each other do not make two parts at `||`. -/
def strayFree : Guard → Bool
  | atom _ => true
  | all gs => uncut .all (memberTexts .all gs)
      && (splitTop [Connective.any.char, Connective.any.char] (all gs).text.toList).length < 2
      && strayFreeEach gs
  | any gs => uncut .any (memberTexts .any gs) && strayFreeEach gs

/-- `strayFree` of every guard in a row. -/
def strayFreeEach : List Guard → Bool
  | [] => true
  | g :: gs => g.strayFree && strayFreeEach gs

end

theorem strayFreeEach_iff : ∀ {gs : List Guard},
    strayFreeEach gs = true ↔ ∀ g ∈ gs, g.strayFree = true
  | [] => by simp [strayFreeEach]
  | g :: gs => by
      have ih := @strayFreeEach_iff gs
      simp [strayFreeEach, ih]

theorem uncut_iff {gs : List Guard} :
    uncut k (memberTexts k gs) = true ↔
      ∀ g ∈ gs, (pieces [k.char, k.char] (memberText k g)).length = 1 := by
  have hmap := map_memberTexts k gs
  have hall : uncut k (memberTexts k gs)
      = ((memberTexts k gs).map String.toList).all
          fun m => (pieces [k.char, k.char] m).length = 1 := by
    rw [uncut, List.all_map]
    rfl
  rw [hall, hmap, List.all_map, List.all_eq_true]
  simp

theorem strayFree_group {gs : List Guard} :
    (k.group gs).strayFree = true ↔
      (∀ g ∈ gs, (pieces [k.char, k.char] (memberText k g)).length = 1)
        ∧ (k = .all → (splitTop [Connective.any.char, Connective.any.char]
            (row k (gs.map (memberText k)))).length < 2)
        ∧ ∀ g ∈ gs, g.strayFree = true := by
  rw [← toList_text_group]
  cases k with
  | all => simp [Connective.group, strayFree, uncut_iff, strayFreeEach_iff, and_assoc]
  | any => simp [Connective.group, strayFree, uncut_iff, strayFreeEach_iff]

theorem strayFree_read (k : Connective) (parts : List (List Char)) :
    (k.group (parts.map ofChars)).strayFree = true ↔
      (∀ m ∈ memberRow k parts, (pieces [k.char, k.char] m).length = 1)
        ∧ (k = .all → (splitTop [Connective.any.char, Connective.any.char]
            (row k (memberRow k parts))).length < 2)
        ∧ ∀ p ∈ parts, (ofChars p).strayFree = true := by
  have hmap : (parts.map ofChars).map (memberText k) = memberRow k parts := by
    rw [memberRow, List.map_map]
    rfl
  rw [strayFree_group, hmap, memberRow]
  simp only [List.forall_mem_map]

/-! ## Reading the printed text -/

/-- Members that are not cut are the parts of their row. -/
theorem splitTop_memberRow (h : groupParts? (stripOuter cs) = some (k, parts))
    (huncut : ∀ m ∈ memberRow k parts, (pieces [k.char, k.char] m).length = 1) :
    splitTop [k.char, k.char] (row k (memberRow k parts)) = memberRow k parts := by
  obtain ⟨htrim, hne⟩ := memberRow_trimmed h fun p _ => trim_text_ofChars p
  have hpart : ∀ m ∈ memberRow k parts, splitTop [k.char, k.char] m = [m] := by
    intro m hm
    have hsingle := (single_iff_length k.rise_char).mpr (huncut m hm)
    rw [splitTop_of_single hsingle (by rw [htrim m hm]; exact hne m hm), htrim m hm]
  rw [splitTop_row (memberRow_ends h) (memberRow_ne_nil h), List.flatMap_congr hpart]
  simp

theorem exists_parts_of_ofChars {gs : List Guard} (h : ofChars cs = k.group gs) :
    ∃ parts, groupParts? (stripOuter cs) = some (k, parts) ∧ parts.map ofChars = gs := by
  cases hparts : groupParts? (stripOuter cs) with
  | none =>
      rw [ofChars_of_none hparts] at h
      cases k <;> cases h
  | some lp =>
      obtain ⟨l, parts⟩ := lp
      rw [ofChars_of_some hparts] at h
      obtain ⟨rfl, rfl⟩ := Connective.group_inj h
      exact ⟨parts, rfl, rfl⟩

/-- A row that is read as the same members has no more pieces than members:
each operator that is read separates two members, and no member has more of
them than the text it is read from. -/
theorem length_pieces_of_reread (h : groupParts? (stripOuter cs) = some (k, parts))
    {parts' : List (List Char)}
    (h' : parts' = splitTop [k.char, k.char] (row k (memberRow k parts)))
    (hsame : parts'.map ofChars = parts.map ofChars) :
    (pieces [k.char, k.char] (row k (memberRow k parts))).length
      ≤ (memberRow k parts).length := by
  have hlen : parts'.length = parts.length := by
    simpa using congrArg List.length hsame
  have hrow := count_row k.isBlank_char (memberRow_ne_nil h) (k := k)
  have hpieces := count_pieces k.rise_char k.char (row k (memberRow k parts))
  have hmembers : ((memberRow k parts).map (List.count k.char)).sum
      ≤ (parts'.map (List.count k.char)).sum := by
    have htexts : (memberRow k parts).map (List.count k.char)
        = (parts'.map ofChars).map fun g => g.text.toList.count k.char := by
      rw [hsame, memberRow, List.map_map, List.map_map]
      exact List.map_congr_left fun p _ => count_memberText k.rise_char k _
    rw [htexts, List.map_map]
    exact List.sum_le_sum fun p _ => count_text_ofChars_le k p
  have hparts : (parts'.map (List.count k.char)).sum
      = ((pieces [k.char, k.char] (row k (memberRow k parts))).map (List.count k.char)).sum := by
    rw [h']
    exact sum_map_splitTop rfl (count_trim k.isBlank_char) _ _
  have htwo : [k.char, k.char].count k.char = 2 := by simp
  rw [htwo] at hrow hpieces
  omega

/-- When the printed text is read as the same members, none of them is cut. -/
theorem uncut_of_reread (h : groupParts? (stripOuter cs) = some (k, parts))
    {parts' : List (List Char)}
    (h' : parts' = splitTop [k.char, k.char] (row k (memberRow k parts)))
    (hsame : parts'.map ofChars = parts.map ofChars) :
    ∀ m ∈ memberRow k parts, (pieces [k.char, k.char] m).length = 1 := by
  have hle := length_pieces_of_reread h h' hsame
  rw [length_pieces_row (memberRow_ends h) (memberRow_ne_nil h)] at hle
  have hpos : ∀ m ∈ memberRow k parts, 1 ≤ (pieces [k.char, k.char] m).length := fun m _ =>
    List.length_pos_iff.mpr (pieces_ne_nil _ m)
  intro m hm
  refine Nat.le_antisymm (Nat.le_of_not_lt fun hlt => ?_) (hpos m hm)
  have hsum := List.sum_lt_sum (fun _ => 1) (fun m => (pieces [k.char, k.char] m).length) hpos
    ⟨m, hm, hlt⟩
  simp only [List.map_const', List.sum_replicate_nat, Nat.mul_one] at hsum
  omega

theorem ofChars_text_iff (cs : List Char) :
    ofChars (ofChars cs).text.toList = ofChars cs ↔ (ofChars cs).strayFree = true := by
  refine ofChars_induction (P := fun _ g =>
    ofChars g.text.toList = g ↔ g.strayFree = true) ?_ ?_ cs
  · intro cs hparts
    rw [text_atom, String.toList_ofList, ofChars_congr (stripOuter_stripOuter cs),
      ofChars_of_none hparts]
    simp [strayFree]
  · intro cs k parts h ih
    have hstrip := stripOuter_text cs
    rw [ofChars_of_some h, toList_text_read] at hstrip
    rw [strayFree_read, toList_text_read]
    constructor
    · intro hsame
      obtain ⟨parts', hparts', hguards⟩ := exists_parts_of_ofChars hsame
      have hsplit := (groupParts?_eq_some hparts').1
      rw [hstrip] at hsplit hparts'
      have huncut := uncut_of_reread h hsplit hguards
      refine ⟨huncut, (groupParts?_eq_some hparts').2.2, fun p hp => ?_⟩
      rw [hsplit, splitTop_memberRow h huncut, memberRow, List.map_map,
        List.map_inj_left] at hguards
      exact (ih p hp).mp ((ofChars_memberText h hp).symm.trans (hguards p hp))
    · rintro ⟨huncut, hany, hfree⟩
      obtain ⟨htrim, hne⟩ := memberRow_trimmed h fun p _ => trim_text_ofChars p
      have htwo : 2 ≤ (memberRow k parts).length := by
        rw [memberRow, List.length_map]
        exact (groupParts?_eq_some h).2.1
      have hsingle : ∀ m ∈ memberRow k parts, Single k.char 0 m ∧ trim m ≠ [] := fun m hm =>
        ⟨(single_iff_length k.rise_char).mpr (huncut m hm), by rw [htrim m hm]; exact hne m hm⟩
      rw [ofChars_row htwo (memberRow_ends h) hsingle hany, memberRow, List.map_map]
      refine congrArg k.group (List.map_congr_left fun p hp => ?_)
      exact (ofChars_memberText h hp).trans ((ih p hp).mpr (hfree p hp))

/-- **When a reprint is stable.** The printed guard of a text is read as the
same guard exactly when no operator stands in it that belongs to no group. -/
theorem reprint_stable_iff (text : String) :
    parse (parse text).text = parse text ↔ (parse text).strayFree = true :=
  ofChars_text_iff text.toList

/-- The operator that an atom keeps is taken for its group's. -/
theorem reprint_unstable_trailing_operator :
    parse (parse "(a &&) && b").text ≠ parse "(a &&) && b" := by
  decide +kernel

/-! ## Atoms without operators -/

theorem single_memberText (h : groupParts? (stripOuter cs) = some (k, parts)) {p : List Char}
    (hp : p ∈ parts) {l : Connective} (hbare : standsBare k (ofChars p) = true →
      Single l.char 0 (ofChars p).text.toList) : Single l.char 0 (memberText k (ofChars p)) := by
  rw [memberText]
  split
  · next hstands => exact hbare hstands
  · next hstands =>
    obtain ⟨w, rfl, hbalanced, -⟩ := wrapped_part h hp (by simpa using hstands)
    exact single_wrap l.rise_char hbalanced.wrap.text_ofChars

/-- Where no atom is cut at an operator, no operator stands astray. -/
theorem strayFree_of_atoms (cs : List Char) :
    (∀ t ∈ (ofChars cs).atoms, ∀ l : Connective, Single l.char 0 t.toList) →
      (ofChars cs).strayFree = true := by
  refine fun hatoms => (ofChars_induction (P := fun _ g =>
    (∀ t ∈ g.atoms, ∀ l : Connective, Single l.char 0 t.toList) →
      g.strayFree = true ∧ ∀ l, standsBare l g = true → Single l.char 0 g.text.toList)
    ?_ ?_ cs hatoms).1
  · intro cs _ hatoms
    exact ⟨rfl, fun l _ => hatoms _ (by simp) l⟩
  · intro cs k parts h ih hatoms
    rw [atoms_group] at hatoms
    have hmembers := fun p hp => ih p hp fun t ht =>
      hatoms t (mem_atomsEach.mpr ⟨_, List.mem_map_of_mem hp, ht⟩)
    have hsingle : ∀ m ∈ memberRow k parts, Single k.char 0 m := by
      intro m hm
      obtain ⟨p, hp, rfl⟩ := List.mem_map.mp hm
      exact single_memberText h hp ((hmembers p hp).2 k)
    have hany : k = .all → Single Connective.any.char 0 (row k (memberRow k parts)) := by
      rintro rfl
      refine single_row (Connective.rise_char _) (Connective.isBlank_char _) (by decide)
        (memberRow_ends h) (memberRow_ne_nil h) fun m hm => ?_
      obtain ⟨p, hp, rfl⟩ := List.mem_map.mp hm
      exact single_memberText h hp fun hbare =>
        (hmembers p hp).2 .any (standsBare_any_of_all hbare)
    rw [strayFree_read, toList_text_read]
    refine ⟨⟨fun m hm => (single_iff_length k.rise_char).mp (hsingle m hm), fun hk => ?_,
      fun p hp => (hmembers p hp).1⟩, fun l hbare => ?_⟩
    · exact length_splitTop_lt_two (Connective.rise_char _) (hany hk)
    · cases k with
      | any => cases l <;> cases hbare
      | all =>
          cases l with
          | all => cases hbare
          | any => exact hany rfl

/-- A reprint is stable where no atom has an operator outside parentheses, even
if its parentheses do not pair up. -/
theorem reprint_stable_of_atoms (text : String)
    (h : ∀ t ∈ (parse text).atoms, ∀ k : Connective,
      (pieces [k.char, k.char] t.toList).length = 1) :
    parse (parse text).text = parse text :=
  (ofChars_text_iff text.toList).mpr (strayFree_of_atoms text.toList fun t ht k =>
    (single_iff_length k.rise_char).mpr (h t ht k))

end JobChart.Guard
