import JobChart.Proofs.Guard.Reading

/-!
# Nothing is left to read

What comes of reading a text, whatever the text is: groups of two members or
more, and atoms that are read as themselves. An atom is what a text is
stripped to when neither operator gives it two parts (`Irreducible`), and
stripping it once more takes nothing away.

An atom may hold an operator all the same. `a &&` has a single part, since an
empty operand is no part, and its text is kept as a whole; the same goes for
an operator behind a parenthesis that has no partner.
-/

namespace JobChart.Guard

open Text

variable {cs : List Char} {t : String}

/-- Nothing of the text is stripped, and neither operator gives it two parts. -/
structure Irreducible (cs : List Char) : Prop where
  stripped : stripOuter cs = cs
  undivided : groupParts? cs = none

/-- An irreducible text is read as itself. -/
theorem Irreducible.read (h : Irreducible t.toList) : parse t = .atom t := by
  have hparts : groupParts? (stripOuter t.toList) = none := by rw [h.stripped, h.undivided]
  rw [parse, ofChars_of_none hparts, h.stripped, String.ofList_toList]

theorem Irreducible.trimmed (h : Irreducible t.toList) : strip t = t := by
  rw [strip, ← h.stripped, trim_stripOuter, h.stripped, String.ofList_toList]

theorem irreducible_of_single (hstrip : stripOuter cs = cs)
    (h : ∀ k : Connective, Single k.char 0 cs) : Irreducible cs :=
  ⟨hstrip, groupParts?_eq_none_iff.mpr fun k => length_splitTop_lt_two k.rise_char (h k)⟩

/-- The reader leaves nothing to do in an atom, at whatever level it stands. -/
theorem irreducible_of_mem_atoms (cs : List Char) :
    ∀ t ∈ (ofChars cs).atoms, Irreducible t.toList := by
  refine ofChars_induction (P := fun _ g => ∀ t ∈ g.atoms, Irreducible t.toList) ?_ ?_ cs
  · intro cs hparts t ht
    obtain rfl := List.mem_singleton.mp ht
    rw [String.toList_ofList]
    exact ⟨stripOuter_stripOuter cs, hparts⟩
  · intro cs k parts _ ih t ht
    rw [atoms_group, mem_atomsEach] at ht
    obtain ⟨g, hg, ht⟩ := ht
    obtain ⟨p, hp, rfl⟩ := List.mem_map.mp hg
    exact ih p hp t ht

/-- A text that is more than blanks has no empty atom: what is left of it when
it is stripped is not empty, and neither is any of its parts. -/
theorem atom_ne_empty (cs : List Char) :
    trim cs ≠ [] → ∀ t ∈ (ofChars cs).atoms, t ≠ "" := by
  refine ofChars_induction (P := fun cs g => trim cs ≠ [] → ∀ t ∈ g.atoms, t ≠ "") ?_ ?_ cs
  · intro cs _ hne t ht
    obtain rfl := List.mem_singleton.mp ht
    intro hempty
    exact stripOuter_ne_nil hne (String.ofList_eq_empty_iff.mp hempty)
  · intro cs k parts hparts ih _ t ht
    rw [atoms_group, mem_atomsEach] at ht
    obtain ⟨g, hg, ht⟩ := ht
    obtain ⟨p, hp, rfl⟩ := List.mem_map.mp hg
    refine ih p hp ?_ t ht
    rw [trim_part hparts p hp]
    exact part_ne_nil hparts p hp

/-- **Reading leaves nothing to read.** Whatever the text is, every group of
its guard has two members or more, and every atom is trimmed and read as
itself. An atom is empty only if the text is blank. -/
theorem reading_is_complete (text : String) :
    (parse text).widthOK 2 = true
      ∧ (∀ t ∈ (parse text).atoms, strip t = t ∧ parse t = .atom t)
      ∧ ("" ∈ (parse text).atoms ↔ allBlank text = true) := by
  refine ⟨ofChars_widthOK text.toList, fun t ht => ?_, fun hempty => ?_, fun hblank => ?_⟩
  · have hatom := irreducible_of_mem_atoms text.toList t ht
    exact ⟨hatom.trimmed, hatom.read⟩
  · by_contra hblank
    refine atom_ne_empty text.toList (fun hnil => hblank ?_) "" hempty rfl
    exact List.all_eq_true.mpr (trim_eq_nil_iff.mp hnil)
  · rw [parse_of_blank (trim_eq_nil_iff.mpr (List.all_eq_true.mp hblank))]
    exact List.mem_singleton_self ""

/-- An operand that is missing, a parenthesis without a partner, and a group
around nothing but an operator. -/
theorem reading_is_complete_malformed :
    parse " (a &&) && b || ( c && (&&) || "
        = .any [.all [.atom "a &&", .atom "b"], .atom "( c && (&&) ||"]
      ∧ parse "a &&" = .atom "a &&" ∧ parse "( c && (&&) ||" = .atom "( c && (&&) ||" := by
  have hread : parse " (a &&) && b || ( c && (&&) || "
      = .any [.all [.atom "a &&", .atom "b"], .atom "( c && (&&) ||"] := by decide +kernel
  obtain ⟨-, hatoms, -⟩ := reading_is_complete " (a &&) && b || ( c && (&&) || "
  rw [hread] at hatoms
  exact ⟨hread, (hatoms "a &&" (by decide)).2, (hatoms "( c && (&&) ||" (by decide)).2⟩

end JobChart.Guard
