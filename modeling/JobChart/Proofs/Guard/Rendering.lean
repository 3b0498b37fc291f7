import JobChart.Proofs.Guard.Irreducible
import JobChart.Proofs.Guard.Printer

/-!
# Every way to write a guard

A guard with good atoms can be written in many ways: with or without blanks
around every piece, and with any number of parentheses around it and its
parts, as long as the operators bind as they should (`Renders`). Whichever
way it is written, it is read back (`rendering_reads_back`), and the printed
text is one of them.

What the reader relies on is kept at every step of the writing (`Readable`):
the text is balanced and more than blanks, it does not end in the character
of an operator, and where it stands as a member it is not cut.
-/

namespace JobChart.Guard

open Text

/-! ## Atoms that stay whole -/

/-- An atom that stays whole where it stands as one. -/
structure PlainAtom (t : String) : Prop where
  nonempty : t ≠ ""
  trimmed : strip t = t
  unwrapped : stripOuter t.toList = t.toList
  balanced : balancedFrom 0 t.toList = true
  uncut : ∀ (k : Connective) (xs ys : List Char),
    t.toList = xs ++ k.symbol.toList ++ ys → net xs ≠ 0

/-- An atom that stays whole, and apart from the operators next to it, wherever it
stands as one. -/
structure GoodAtom (t : String) : Prop extends PlainAtom t where
  first : ∀ k : Connective, t.toList.head? ≠ some k.char
  last : ∀ k : Connective, t.toList.getLast? ≠ some k.char

/-- An operator that stands nowhere at depth zero does not cut the text. -/
theorem uncut_symbol_iff {k : Connective} {cs : List Char} :
    (∀ xs ys, cs = xs ++ k.symbol.toList ++ ys → net xs ≠ 0)
      ↔ (pieces [k.char, k.char] cs).length = 1 := by
  rw [← single_iff_length k.rise_char, single_iff k.rise_char, k.toList_symbol]
  simp only [Int.zero_add]

theorem plainAtom_iff {t : String} :
    PlainAtom t ↔ t ≠ "" ∧ strip t = t ∧ stripOuter t.toList = t.toList
      ∧ balancedFrom 0 t.toList = true
      ∧ ∀ k : Connective, (pieces [k.char, k.char] t.toList).length = 1 := by
  constructor
  · rintro ⟨h₁, h₂, h₃, h₄, h₅⟩
    exact ⟨h₁, h₂, h₃, h₄, fun k => uncut_symbol_iff.mp (h₅ k)⟩
  · rintro ⟨h₁, h₂, h₃, h₄, h₅⟩
    exact ⟨h₁, h₂, h₃, h₄, fun k => uncut_symbol_iff.mpr (h₅ k)⟩

instance (t : String) : Decidable (PlainAtom t) := decidable_of_iff _ plainAtom_iff.symm

theorem goodAtom_iff {t : String} :
    GoodAtom t ↔ PlainAtom t
      ∧ ∀ k : Connective, t.toList.head? ≠ some k.char ∧ t.toList.getLast? ≠ some k.char := by
  constructor
  · intro h
    exact ⟨h.toPlainAtom, fun k => ⟨h.first k, h.last k⟩⟩
  · rintro ⟨hplain, hends⟩
    exact ⟨hplain, fun k => (hends k).1, fun k => (hends k).2⟩

instance (t : String) : Decidable (GoodAtom t) := decidable_of_iff _ goodAtom_iff.symm

/-- What the reader relies on in the text of an atom. -/
structure Whole (t : String) : Prop where
  balanced : Balanced t.toList
  trimmed : trim t.toList = t.toList
  nonempty : t.toList ≠ []
  single : ∀ k : Connective, Single k.char 0 t.toList
  read : ofChars t.toList = .atom t

theorem PlainAtom.whole {t : String} (h : PlainAtom t) : Whole t := by
  have hsingle : ∀ k : Connective, Single k.char 0 t.toList := fun k =>
    (single_iff_length k.rise_char).mpr (uncut_symbol_iff.mp (h.uncut k))
  refine ⟨balanced_iff.mpr h.balanced, ?_, ?_, hsingle,
    (irreducible_of_single h.unwrapped hsingle).read⟩
  · rw [← toList_strip, h.trimmed]
  · exact fun hnil => h.nonempty (String.toList_eq_nil_iff.mp hnil)

/-! ## Ways of writing -/

/-- A member of a group as it is written, in parentheses or not. -/
structure Operand where
  wrapped : Bool
  guard : Guard
  text : List Char

/-- The text is a way to write the guard, in parentheses if `wrapped` says so.
A member of a group stands in parentheses or is one that may stand bare. -/
inductive Renders : (wrapped : Bool) → Guard → List Char → Prop
  | atom (t : String) : Renders false (.atom t) t.toList
  | group (k : Connective) (ms : List Operand)
      (hmembers : ∀ m ∈ ms, Renders m.wrapped m.guard m.text)
      (hstand : ∀ m ∈ ms, m.wrapped = true ∨ standsBare k m.guard = true) :
      Renders false (k.group (ms.map (·.guard)))
        (k.symbol.toList.intercalate (ms.map (·.text)))
  | pad {wrapped : Bool} {g : Guard} {s as bs : List Char} (h : Renders wrapped g s)
      (has : Blanks as) (hbs : Blanks bs) : Renders wrapped g (as ++ s ++ bs)
  | wrap {wrapped : Bool} {g : Guard} {s : List Char} (h : Renders wrapped g s) :
      Renders true g ('(' :: s ++ [')'])

/-! ## What the reader relies on -/

/-- A written text as the reader needs it. -/
structure Readable (wrapped : Bool) (g : Guard) (s : List Char) : Prop where
  balanced : Balanced s
  nonblank : trim s ≠ []
  last : ∀ k : Connective, s.getLast? ≠ some k.char
  single : ∀ k : Connective, wrapped = true ∨ standsBare k g = true → Single k.char 0 s
  read : ofChars s = g

variable {wrapped : Bool} {g : Guard} {s : List Char}

theorem GoodAtom.readable {t : String} (h : GoodAtom t) : Readable false (.atom t) t.toList := by
  have hwhole := h.toPlainAtom.whole
  have hne : trim t.toList ≠ [] := hwhole.trimmed.symm ▸ hwhole.nonempty
  exact ⟨hwhole.balanced, hne, h.last, fun k _ => hwhole.single k, hwhole.read⟩

theorem getLast?_intercalate {c a : Char} {ts : List (List Char)} (hts : ts ≠ [])
    (h : ∀ t ∈ ts, trim t ≠ [] ∧ t.getLast? ≠ some a) :
    ([c, c].intercalate ts).getLast? ≠ some a := by
  refine (intercalate_induction (P := fun ts s =>
    (∀ t ∈ ts, trim t ≠ [] ∧ t.getLast? ≠ some a) → s ≠ [] ∧ s.getLast? ≠ some a)
    (fun t ht => ?_) ?_ hts h).2
  · obtain ⟨hne, hlast⟩ := ht t List.mem_cons_self
    exact ⟨fun hnil => hne (congrArg trim hnil), hlast⟩
  · intro t ts _ ih hall
    obtain ⟨hne, hlast⟩ := ih fun t ht => hall t (List.mem_cons_of_mem _ ht)
    rw [List.getLast?_append_of_ne_nil _ hne]
    exact ⟨List.append_ne_nil_of_right_ne_nil _ hne, hlast⟩

theorem getLast?_pad {as bs : List Char} (hbs : Blanks bs) (hs : s ≠ []) {c : Char}
    (hc : isBlank c = false) (hlast : s.getLast? ≠ some c) :
    (as ++ s ++ bs).getLast? ≠ some c := by
  rcases List.eq_nil_or_concat bs with rfl | ⟨bs, b, rfl⟩
  · rwa [List.append_nil, List.getLast?_append_of_ne_nil _ hs]
  · rw [List.concat_eq_append] at hbs ⊢
    rw [← List.append_assoc, List.getLast?_concat]
    intro hb
    have hblank := hbs b (List.mem_append_right _ List.mem_cons_self)
    rw [Option.some.inj hb, hc] at hblank
    cases hblank

theorem Readable.pad {as bs : List Char} (h : Readable wrapped g s) (has : Blanks as)
    (hbs : Blanks bs) : Readable wrapped g (as ++ s ++ bs) where
  balanced := h.balanced.pad has hbs
  nonblank := by
    rw [trim_pad has hbs]
    exact h.nonblank
  last := fun k => by
    refine getLast?_pad hbs ?_ k.isBlank_char (h.last k)
    rintro rfl
    exact h.nonblank rfl
  single := fun k hk => (h.single k hk).pad k.rise_char k.isBlank_char has hbs
  read := by rw [ofChars_pad has hbs, h.read]

theorem Readable.wrap (h : Readable wrapped g s) : Readable true g ('(' :: s ++ [')']) where
  balanced := h.balanced.wrap
  nonblank := by
    rw [trim_wrap]
    exact List.cons_ne_nil _ _
  last := fun k => by
    rw [List.getLast?_concat]
    cases k <;> decide
  single := fun k _ => single_wrap k.rise_char h.balanced
  read := by rw [ofChars_congr (stripOuter_wrap h.balanced h.nonblank), h.read]

section Group

variable {k : Connective} {ms : List Operand}

theorem apart_operands (h : ∀ m ∈ ms, Readable m.wrapped m.guard m.text) :
    Apart k.char (ms.map (·.text)) := by
  have hends : ∀ t ∈ ms.map (·.text), net t = 0 ∧ t.getLast? ≠ some k.char :=
    List.forall_mem_map.mpr fun m hm => ⟨(h m hm).balanced.level, (h m hm).last k⟩
  exact List.pairwise_of_forall_mem_list fun t ht _ _ => hends t ht

/-- What is written of an `all` group is not cut at `||`. -/
theorem single_operands (hms : ms ≠ []) (h : ∀ m ∈ ms, Readable m.wrapped m.guard m.text)
    (hstand : ∀ m ∈ ms, m.wrapped = true ∨ standsBare .all m.guard = true) :
    Single Connective.any.char 0 ([Connective.all.char, Connective.all.char].intercalate
      (ms.map (·.text))) := by
  have hapart : Apart Connective.all.char (ms.map (·.text)) := apart_operands h
  refine single_intercalate (Connective.rise_char _) (Connective.rise_char _) (by decide)
    (by simpa using hms) (hapart.imp fun h => h.1) (List.forall_mem_map.mpr fun m hm => ?_)
  exact (h m hm).single .any ((hstand m hm).imp_right standsBare_any_of_all)

/-- Members side by side are read as their group. -/
theorem ofChars_operands (htwo : 2 ≤ ms.length)
    (h : ∀ m ∈ ms, Readable m.wrapped m.guard m.text)
    (hstand : ∀ m ∈ ms, m.wrapped = true ∨ standsBare k m.guard = true) :
    ofChars ([k.char, k.char].intercalate (ms.map (·.text))) = k.group (ms.map (·.guard)) := by
  have hms : ms ≠ [] := by
    rintro rfl
    exact absurd htwo (by decide)
  have htexts : ∀ t ∈ ms.map (·.text), Single k.char 0 t ∧ trim t ≠ [] :=
    List.forall_mem_map.mpr fun m hm => ⟨(h m hm).single k (hstand m hm), (h m hm).nonblank⟩
  have hany : k = .all → (splitTop [Connective.any.char, Connective.any.char]
      ([k.char, k.char].intercalate (ms.map (·.text)))).length < 2 := by
    rintro rfl
    exact length_splitTop_lt_two (Connective.rise_char _) (single_operands hms h hstand)
  rw [ofChars_intercalate (by rwa [List.length_map]) (apart_operands h) htexts hany, List.map_map]
  exact congrArg k.group (List.map_congr_left fun m hm => (h m hm).read)

theorem Readable.group (htwo : 2 ≤ ms.length)
    (h : ∀ m ∈ ms, Readable m.wrapped m.guard m.text)
    (hstand : ∀ m ∈ ms, m.wrapped = true ∨ standsBare k m.guard = true) :
    Readable false (k.group (ms.map (·.guard)))
      (k.symbol.toList.intercalate (ms.map (·.text))) := by
  have hms : ms ≠ [] := by
    rintro rfl
    exact absurd htwo (by decide)
  have hne : ms.map (·.text) ≠ [] := by simpa using hms
  rw [k.toList_symbol]
  refine ⟨balanced_intercalate k.rise_char hne ?_, trim_intercalate_ne_nil hne ?_,
    fun l => getLast?_intercalate hne ?_, fun l hl => ?_, ofChars_operands htwo h hstand⟩
  · exact List.forall_mem_map.mpr fun m hm => (h m hm).balanced
  · exact List.forall_mem_map.mpr fun m hm => (h m hm).nonblank
  · exact List.forall_mem_map.mpr fun m hm => ⟨(h m hm).nonblank, (h m hm).last l⟩
  · have hbare := hl.resolve_left Bool.false_ne_true
    cases k with
    | any => cases l <;> cases hbare
    | all =>
        cases l with
        | all => cases hbare
        | any => exact single_operands hms h hstand

end Group

/-- Every way to write a guard is one the reader can read. -/
theorem Renders.readable (h : Renders wrapped g s) (hwidth : g.widthOK 2 = true)
    (hatoms : ∀ t ∈ g.atoms, GoodAtom t) : Readable wrapped g s := by
  induction h with
  | atom t => exact (hatoms t (by simp)).readable
  | group k ms _ hstand ih =>
      obtain ⟨htwo, hwidths⟩ := widthOK_group.mp hwidth
      rw [List.length_map] at htwo
      rw [atoms_group] at hatoms
      refine Readable.group htwo (fun m hm => ?_) hstand
      have hmem : m.guard ∈ ms.map (·.guard) := List.mem_map_of_mem hm
      exact ih m hm (hwidths _ hmem) fun t ht => hatoms t (mem_atomsEach.mpr ⟨_, hmem, ht⟩)
  | pad _ has hbs ih => exact (ih hwidth hatoms).pad has hbs
  | wrap _ ih => exact (ih hwidth hatoms).wrap

/-! ## The printed text is one of them -/

theorem renders_memberText (h : Renders false g g.text.toList) (k : Connective) :
    ∃ wrapped, Renders wrapped g (memberText k g)
      ∧ (wrapped = true ∨ standsBare k g = true) := by
  rw [memberText]
  split
  · next hbare => exact ⟨false, h, Or.inr hbare⟩
  · exact ⟨true, h.wrap, Or.inl rfl⟩

/-- The members of a group as they are printed, the spaces next to the
operators counted to their texts. -/
theorem exists_operands (k : Connective) {gs : List Guard}
    (h : ∀ g ∈ gs, Renders false g g.text.toList) {as : List Char} (has : Blanks as) :
    ∃ ms : List Operand, ms.map (·.guard) = gs
      ∧ ms.map (·.text) = spaced as (gs.map (memberText k))
      ∧ (∀ m ∈ ms, Renders m.wrapped m.guard m.text)
      ∧ ∀ m ∈ ms, m.wrapped = true ∨ standsBare k m.guard = true := by
  induction gs generalizing as with
  | nil => exact ⟨[], rfl, rfl, by simp, by simp⟩
  | cons g gs ih =>
      obtain ⟨hg, hgs⟩ := List.forall_mem_cons.mp h
      obtain ⟨wrapped, hrenders, hstand⟩ := renders_memberText hg k
      cases gs with
      | nil =>
          have hpad := hrenders.pad has blanks_nil
          rw [List.append_nil] at hpad
          exact ⟨[⟨wrapped, g, as ++ memberText k g⟩], rfl, rfl,
            List.forall_mem_singleton.mpr hpad, List.forall_mem_singleton.mpr hstand⟩
      | cons g' gs =>
          obtain ⟨ms, hguards, htexts, hms, hstands⟩ := ih hgs blanks_space
          refine ⟨⟨wrapped, g, as ++ memberText k g ++ [' ']⟩ :: ms, ?_, ?_,
            List.forall_mem_cons.mpr ⟨hrenders.pad has blanks_space, hms⟩,
            List.forall_mem_cons.mpr ⟨hstand, hstands⟩⟩
          · rw [List.map_cons, hguards]
          · rw [List.map_cons, htexts]
            rfl

theorem renders_text (h : g.widthOK 1 = true) : Renders false g g.text.toList := by
  induction g using group_induction with
  | atom t => exact .atom t
  | group k gs ih =>
      obtain ⟨hone, hwidths⟩ := widthOK_group.mp h
      have hne : gs ≠ [] := List.ne_nil_of_length_pos hone
      obtain ⟨ms, rfl, htexts, hms, hstand⟩ :=
        exists_operands k (fun g hg => ih g hg (hwidths g hg)) blanks_nil
      rw [toList_text_group, row_eq_intercalate k (by simpa using hne), ← htexts, ← k.toList_symbol]
      exact .group k ms hms hstand

/-- **Whatever way a guard is written, it is read back.** A guard whose groups
have two members or more and whose atoms are good is what every way to write
it is read as; its printed text is one of these ways. -/
theorem rendering_reads_back (g : Guard) (hwidth : g.widthOK 2 = true)
    (hatoms : ∀ t ∈ g.atoms, GoodAtom t) :
    (∀ wrapped s, Renders wrapped g s → parse (String.ofList s) = g)
      ∧ Renders false g g.text.toList ∧ parse g.text = g := by
  have hprinted : Renders false g g.text.toList := renders_text (widthOK_mono (by decide) g hwidth)
  refine ⟨fun wrapped s hs => ?_, hprinted, (hprinted.readable hwidth hatoms).read⟩
  rw [parse, String.toList_ofList]
  exact (hs.readable hwidth hatoms).read

/-- Without blanks, with more parentheses than needed, and with an operator in
a call and an atom that starts with a parenthesis. -/
theorem rendering_reads_back_nested :
    parse "a||(( f(x || y) )&&(b ||(c)(d)))"
        = .any [.atom "a", .all [.atom "f(x || y)", .any [.atom "b", .atom "(c)(d)"]]]
      ∧ parse "a || f(x || y) && (b || (c)(d))"
        = .any [.atom "a", .all [.atom "f(x || y)", .any [.atom "b", .atom "(c)(d)"]]] := by
  have hatoms : ∀ t ∈ ["a", "f(x || y)", "b", "(c)(d)"], GoodAtom t := by decide +kernel
  obtain ⟨hwritten, -, hprinted⟩ := rendering_reads_back
    (.any [.atom "a", .all [.atom "f(x || y)", .any [.atom "b", .atom "(c)(d)"]]])
    (by decide) hatoms
  refine ⟨?_, hprinted⟩
  have hcall : Renders true (.atom "f(x || y)") "( f(x || y) )".toList :=
    .wrap (.pad (.atom "f(x || y)") blanks_space blanks_space)
  have hinner : Renders true (.any [.atom "b", .atom "(c)(d)"]) "(b ||(c)(d))".toList :=
    .wrap (.group .any [⟨false, .atom "b", "b ".toList⟩, ⟨false, .atom "(c)(d)", "(c)(d)".toList⟩]
      (by simpa using ⟨.pad (.atom "b") blanks_nil blanks_space, .atom "(c)(d)"⟩)
      (by decide))
  have hall : Renders true (.all [.atom "f(x || y)", .any [.atom "b", .atom "(c)(d)"]])
      "(( f(x || y) )&&(b ||(c)(d)))".toList :=
    .wrap (.group .all [⟨true, .atom "f(x || y)", "( f(x || y) )".toList⟩,
        ⟨true, .any [.atom "b", .atom "(c)(d)"], "(b ||(c)(d))".toList⟩]
      (by simpa using ⟨hcall, hinner⟩) (by decide))
  have htext : Renders false
      (.any [.atom "a", .all [.atom "f(x || y)", .any [.atom "b", .atom "(c)(d)"]]])
      "a||(( f(x || y) )&&(b ||(c)(d)))".toList :=
    .group .any [⟨false, .atom "a", "a".toList⟩,
        ⟨true, .all [.atom "f(x || y)", .any [.atom "b", .atom "(c)(d)"]],
          "(( f(x || y) )&&(b ||(c)(d)))".toList⟩]
      (by simpa using ⟨.atom "a", hall⟩) (by decide)
  have hparse := hwritten false _ htext
  rwa [String.ofList_toList] at hparse

end JobChart.Guard
