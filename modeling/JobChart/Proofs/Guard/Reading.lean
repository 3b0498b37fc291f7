import JobChart.Guard.Parser
import JobChart.Proofs.Guard.Shape
import JobChart.Proofs.Guard.Split

/-!
# Reading a guard, step by step

What one step of the reader does, and the induction over its steps: a text
becomes an atom when neither operator splits it, and otherwise a group of
what its parts become (`ofChars_induction`). A group has at least two
members, since fewer parts are no group (`ofChars_widthOK`). Texts that come
apart are read as the members of the group they make side by side
(`ofChars_intercalate`).
-/

namespace JobChart.Guard

open Text

/-! ## One step -/

section Step

variable {body : List Char} {k : Connective} {parts : List (List Char)}

theorem groupParts?_eq_some (h : groupParts? body = some (k, parts)) :
    parts = splitTop [k.char, k.char] body ∧ 2 ≤ parts.length
      ∧ (k = .all → (splitTop [Connective.any.char, Connective.any.char] body).length < 2) := by
  simp only [groupParts?, Connective.toList_symbol] at h
  split at h
  · next hany =>
    obtain ⟨rfl, rfl⟩ := Prod.mk.injEq .. |>.mp (Option.some.inj h)
    exact ⟨rfl, hany, fun hk => by cases hk⟩
  · next hany =>
    split at h
    · next hall =>
      obtain ⟨rfl, rfl⟩ := Prod.mk.injEq .. |>.mp (Option.some.inj h)
      exact ⟨rfl, hall, fun _ => by omega⟩
    · cases h

theorem groupParts?_of_splitTop
    (htwo : 2 ≤ (splitTop [k.char, k.char] body).length)
    (hany : k = .all → (splitTop [Connective.any.char, Connective.any.char] body).length < 2) :
    groupParts? body = some (k, splitTop [k.char, k.char] body) := by
  simp only [groupParts?, Connective.toList_symbol]
  cases k with
  | any => rw [if_pos htwo]
  | all => rw [if_neg (Nat.not_le_of_lt (hany rfl)), if_pos htwo]

theorem groupParts?_eq_none_iff :
    groupParts? body = none ↔ ∀ k : Connective, (splitTop [k.char, k.char] body).length < 2 := by
  simp only [groupParts?, Connective.toList_symbol]
  constructor
  · intro h k
    split at h
    · cases h
    · split at h
      · cases h
      · cases k <;> omega
  · intro h
    have hany := h .any
    have hall := h .all
    rw [if_neg (by omega), if_neg (by omega)]

theorem trim_part (h : groupParts? body = some (k, parts)) :
    ∀ p ∈ parts, trim p = p := fun _ hp =>
  trim_of_mem_splitTop ((groupParts?_eq_some h).1 ▸ hp)

theorem part_ne_nil (h : groupParts? body = some (k, parts)) :
    ∀ p ∈ parts, p ≠ [] := fun _ hp =>
  (mem_splitTop.mp ((groupParts?_eq_some h).1 ▸ hp)).1

theorem parts_ne_nil (h : groupParts? body = some (k, parts)) : parts ≠ [] := by
  rintro rfl
  exact absurd (groupParts?_eq_some h).2.1 (by decide)

end Step

/-! ## Blanks around a text -/

/-- A text is read by what strips down to the same body. -/
theorem ofChars_congr {cs ds : List Char} (h : stripOuter cs = stripOuter ds) :
    ofChars cs = ofChars ds := by
  cases hparts : groupParts? (stripOuter ds) with
  | none => rw [ofChars_of_none hparts, ofChars_of_none (h ▸ hparts), h]
  | some kp =>
      obtain ⟨k, parts⟩ := kp
      rw [ofChars_of_some hparts, ofChars_of_some (h ▸ hparts)]

@[simp] theorem ofChars_trim (cs : List Char) : ofChars (trim cs) = ofChars cs :=
  ofChars_congr (stripOuter_trim cs)

theorem ofChars_pad {as bs : List Char} (ha : Blanks as) (hb : Blanks bs) (cs : List Char) :
    ofChars (as ++ cs ++ bs) = ofChars cs := by
  rw [← ofChars_trim, trim_pad ha hb, ofChars_trim]

@[simp] theorem parse_strip (text : String) : parse (strip text) = parse text := by
  rw [parse, parse, toList_strip, ofChars_trim]

theorem parse_of_blank {text : String} (h : trim text.toList = []) : parse text = .atom "" := by
  have hstrip : stripOuter [] = [] := stripOuter_of_none rfl
  rw [parse, ← ofChars_trim, h, ofChars_of_none (by rw [hstrip]; decide), hstrip]

/-! ## All steps -/

/-- **Induction over a reading.** What relates a text to its atom, and to its
group when it relates the parts to the members, relates it to its guard. -/
theorem ofChars_induction {P : List Char → Guard → Prop}
    (atom : ∀ cs, groupParts? (stripOuter cs) = none → P cs (.atom (String.ofList (stripOuter cs))))
    (group : ∀ cs k parts, groupParts? (stripOuter cs) = some (k, parts) →
      (∀ p ∈ parts, P p (ofChars p)) → P cs (k.group (parts.map ofChars)))
    (cs : List Char) : P cs (ofChars cs) := by
  induction hn : cs.length using Nat.strongRecOn generalizing cs with
  | ind n ih =>
      cases h : groupParts? (stripOuter cs) with
      | none =>
          rw [ofChars_of_none h]
          exact atom cs h
      | some kp =>
          obtain ⟨k, parts⟩ := kp
          rw [ofChars_of_some h]
          refine group cs k parts h fun p hp => ih p.length ?_ p rfl
          exact hn ▸ Nat.lt_of_lt_of_le (length_lt_of_mem_groupParts h hp)
            (length_stripOuter_le cs)

theorem ofChars_widthOK (cs : List Char) : (ofChars cs).widthOK 2 = true := by
  refine ofChars_induction (P := fun _ g => g.widthOK 2 = true) (fun _ _ => rfl) ?_ cs
  intro cs k parts h ih
  refine widthOK_group.mpr ⟨?_, fun g hg => ?_⟩
  · rw [List.length_map]
    exact (groupParts?_eq_some h).2.1
  · obtain ⟨p, hp, rfl⟩ := List.mem_map.mp hg
    exact ih p hp

/-- No text is read as a guard with an empty group. -/
theorem parse_widthOK (text : String) : (parse text).widthOK 1 = true :=
  widthOK_mono (by decide) _ (ofChars_widthOK _)

/-! ## Texts side by side -/

section Intercalate

variable {k : Connective} {ts : List (List Char)}

theorem trim_intercalate_ne_nil {c : Char} (hts : ts ≠ []) (h : ∀ t ∈ ts, trim t ≠ []) :
    trim ([c, c].intercalate ts) ≠ [] := by
  refine intercalate_induction (P := fun ts s => (∀ t ∈ ts, trim t ≠ []) → trim s ≠ [])
    (fun t ht => ht t List.mem_cons_self) ?_ hts h
  intro t ts _ _ hall
  rw [List.append_assoc]
  exact trim_append_ne_nil (Or.inl (hall t List.mem_cons_self))

/-- Texts side by side keep the parentheses at their ends. -/
theorem peel?_trim_intercalate (htwo : 2 ≤ ts.length) (hapart : Apart k.char ts)
    (h : ∀ t ∈ ts, trim t ≠ []) : peel? (trim ([k.char, k.char].intercalate ts)) = none := by
  match ts, htwo with
  | t :: u :: ts, _ =>
      have hne := h t List.mem_cons_self
      have hnet := ((List.pairwise_cons.mp hapart).1 u List.mem_cons_self).1
      have hrest : trim ([k.char, k.char] ++ [k.char, k.char].intercalate (u :: ts)) ≠ [] := by
        rw [Ne, trim_eq_nil_iff]
        exact fun hblanks => not_mem_blanks k.isBlank_char hblanks List.mem_cons_self
      obtain ⟨ms, hms⟩ := exists_trim_append hne hrest
      rw [List.intercalate_cons_cons, List.append_assoc, hms]
      exact peel?_eq_none hne (List.append_ne_nil_of_right_ne_nil ms hrest)
        (by rw [net_trim, hnet])

/-- Texts that come apart and that their operator does not cut are read as the
members of a group, of an `all` group unless `||` cuts what they are together. -/
theorem ofChars_intercalate (htwo : 2 ≤ ts.length) (hapart : Apart k.char ts)
    (h : ∀ t ∈ ts, Single k.char 0 t ∧ trim t ≠ [])
    (hany : k = .all → (splitTop [Connective.any.char, Connective.any.char]
      ([k.char, k.char].intercalate ts)).length < 2) :
    ofChars ([k.char, k.char].intercalate ts) = k.group (ts.map ofChars) := by
  have hts : ts ≠ [] := by
    rintro rfl
    exact absurd htwo (by decide)
  have hparts : splitTop [k.char, k.char] ([k.char, k.char].intercalate ts) = ts.map trim := by
    have hone : ∀ t ∈ ts, splitTop [k.char, k.char] t = [trim t] := fun t ht =>
      splitTop_of_single (h t ht).1 (h t ht).2
    rw [splitTop_intercalate k.rise_char hts hapart, List.flatMap_congr hone]
    exact List.map_eq_flatMap.symm
  have hgroup : groupParts? (stripOuter ([k.char, k.char].intercalate ts))
      = some (k, ts.map trim) := by
    rw [stripOuter_of_none (peel?_trim_intercalate htwo hapart fun t ht => (h t ht).2),
      ← hparts, ← splitTop_trim k.rise_char k.isBlank_char]
    refine groupParts?_of_splitTop ?_ fun hk => ?_
    · rwa [splitTop_trim k.rise_char k.isBlank_char, hparts, List.length_map]
    · rw [splitTop_trim (Connective.rise_char _) (Connective.isBlank_char _)]
      exact hany hk
  rw [ofChars_of_some hgroup, List.map_map]
  exact congrArg k.group (List.map_congr_left fun t _ => ofChars_trim t)

end Intercalate

end JobChart.Guard
