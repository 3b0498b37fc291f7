import Mathlib.Algebra.Group.Nat.Even
import JobChart.Proofs.Guard.Checked

/-!
# Texts with their literals blanked out

Blanking goes through a text with one bit of state, whether a literal is open.
So a text in two parts is blanked part by part (`blankLiterals_append`), and a
part with an even number of quotes (`Closed`) is blanked on its own.

Quotes stay, and they are no blanks, so a closed text keeps its ends
(`getLast?_blanked`) and is trimmed before blanking or behind it alike
(`blanked_trim`).
-/

namespace JobChart.Guard

open Text

variable {c : Char} {cs xs ys zs : List Char}

/-! ## The state -/

/-- Every literal that starts in the text ends in it: its quotes come in pairs. -/
def Closed (cs : List Char) : Prop := Even (cs.count '\'')

instance (cs : List Char) : Decidable (Closed cs) := inferInstanceAs (Decidable (Even _))

/-- Whether a literal is open behind the text. -/
def openAfter : (inside : Bool) → List Char → Bool
  | inside, [] => inside
  | inside, c :: cs => openAfter (if c = '\'' then !inside else inside) cs

def blanked (cs : List Char) : List Char := blankLiterals false cs

theorem openAfter_not (inside : Bool) (cs : List Char) :
    openAfter (!inside) cs = !openAfter inside cs := by
  induction cs generalizing inside with
  | nil => rfl
  | cons c cs ih =>
      rw [openAfter, openAfter]
      split
      · exact ih (!inside)
      · exact ih inside

theorem closed_iff : Closed cs ↔ openAfter false cs = false := by
  induction cs with
  | nil => simp [Closed, openAfter]
  | cons c cs ih =>
      rw [Closed, openAfter]
      by_cases hc : c = '\''
      · rw [hc, List.count_cons_self, if_pos rfl, openAfter_not, Nat.even_add_one]
        rw [Closed] at ih
        rw [ih]
        simp
      · rw [List.count_cons_of_ne hc, if_neg hc]
        exact ih

theorem blankLiterals_append (inside : Bool) (xs ys : List Char) :
    blankLiterals inside (xs ++ ys)
      = blankLiterals inside xs ++ blankLiterals (openAfter inside xs) ys := by
  induction xs generalizing inside with
  | nil => rfl
  | cons c xs ih =>
      rw [List.cons_append, blankLiterals, blankLiterals, openAfter]
      split
      · rw [ih, List.cons_append]
      · rw [ih, List.cons_append]

theorem length_blankLiterals (inside : Bool) (cs : List Char) :
    (blankLiterals inside cs).length = cs.length := by
  induction cs generalizing inside with
  | nil => rfl
  | cons c cs ih =>
      rw [blankLiterals]
      split <;> rw [List.length_cons, ih, List.length_cons]

theorem count_quote_blankLiterals (inside : Bool) (cs : List Char) :
    (blankLiterals inside cs).count '\'' = cs.count '\'' := by
  induction cs generalizing inside with
  | nil => rfl
  | cons c cs ih =>
      rw [blankLiterals]
      split
      · next hc => rw [hc, List.count_cons_self, List.count_cons_self, ih]
      · next hc =>
        have hspace : (if inside = true then ' ' else c) ≠ '\'' := by
          split
          · decide
          · exact hc
        rw [List.count_cons_of_ne hspace, List.count_cons_of_ne hc, ih]

theorem blankLiterals_twice (inside : Bool) (cs : List Char) :
    blankLiterals inside (blankLiterals inside cs) = blankLiterals inside cs := by
  induction cs generalizing inside with
  | nil => rfl
  | cons c cs ih =>
      by_cases hc : c = '\''
      · rw [blankLiterals, if_pos hc, blankLiterals, if_pos hc, ih]
      · have hspace : (if inside = true then ' ' else c) ≠ '\'' := by
          split
          · decide
          · exact hc
        rw [blankLiterals, if_neg hc, blankLiterals, if_neg hspace, ih]
        cases inside <;> rfl

/-! ## Closed texts -/

theorem closed_nil : Closed [] := by decide

theorem closed_append (h : Closed xs) : Closed (xs ++ ys) ↔ Closed ys := by
  rw [Closed, Closed, List.count_append, Nat.even_add]
  exact ⟨fun hboth => hboth.mp h, fun hys => ⟨fun _ => hys, fun _ => h⟩⟩

theorem closed_of_not_mem (h : '\'' ∉ cs) : Closed cs := by
  rw [Closed, List.count_eq_zero_of_not_mem h]
  exact Even.zero

theorem quote_not_mem (h : Blanks cs) : '\'' ∉ cs := not_mem_blanks (by decide) h

theorem closed_blanks (h : Blanks cs) : Closed cs := closed_of_not_mem (quote_not_mem h)

theorem blanked_of_not_mem (h : '\'' ∉ cs) : blanked cs = cs := blankLiterals_of_not_mem h

theorem blanked_blanks (h : Blanks cs) : blanked cs = cs := blanked_of_not_mem (quote_not_mem h)

theorem blanked_append (h : Closed xs) (ys : List Char) :
    blanked (xs ++ ys) = blanked xs ++ blanked ys := by
  rw [blanked, blankLiterals_append, closed_iff.mp h]
  rfl

theorem toList_unquoted_eq (text : String) : (unquoted text).toList = blanked text.toList := by
  rw [unquoted, String.toList_ofList, blanked]

theorem closed_blanked : Closed (blanked cs) ↔ Closed cs := by
  rw [Closed, blanked, count_quote_blankLiterals, Closed]

theorem blanked_blanked (cs : List Char) : blanked (blanked cs) = blanked cs :=
  blankLiterals_twice false cs

/-- A part of a text that is blanked already is itself blanked, if the literals
in front of it are closed. -/
theorem blanked_middle (hxs : Closed xs) (h : blanked (xs ++ ys ++ zs) = xs ++ ys ++ zs) :
    blanked ys = ys := by
  rw [List.append_assoc, blanked_append hxs, blanked, blanked, blankLiterals_append] at h
  have hlen := length_blankLiterals false
  obtain ⟨-, hrest⟩ := List.append_inj h (hlen xs)
  exact (List.append_inj hrest (hlen ys)).1

/-- In a blanked text only blanks and quotes stand where a literal is open. -/
theorem closed_front (hc : isBlank c = false) (hquote : c ≠ '\'')
    (h : blanked (xs ++ c :: ys) = xs ++ c :: ys) : Closed xs := by
  rw [closed_iff]
  rw [blanked, blankLiterals_append] at h
  obtain ⟨-, hrest⟩ := List.append_inj h (length_blankLiterals false xs)
  rw [blankLiterals, if_neg hquote] at hrest
  have hhead := (List.cons.inj hrest).1
  cases hopen : openAfter false xs with
  | false => rfl
  | true =>
      rw [hopen, if_pos rfl] at hhead
      rw [← hhead] at hc
      exact absurd hc (by decide)

/-! ## The ends of a text -/

theorem head?_blanked (cs : List Char) : (blanked cs).head? = cs.head? := by
  cases cs with
  | nil => rfl
  | cons c cs =>
      rw [blanked, blankLiterals]
      split <;> rfl

theorem getLast?_blanked (h : Closed cs) : (blanked cs).getLast? = cs.getLast? := by
  rcases List.eq_nil_or_concat cs with rfl | ⟨cs, c, rfl⟩
  · rfl
  rw [List.concat_eq_append] at h ⊢
  rw [blanked, blankLiterals_append, List.getLast?_append, List.getLast?_concat]
  by_cases hc : c = '\''
  · rw [hc]
    rfl
  · have hcs : Closed cs := by
      rwa [Closed, List.count_append, List.count_singleton, if_neg (by simpa using hc),
        Nat.add_zero] at h
    rw [closed_iff.mp hcs, blankLiterals, if_neg hc]
    rfl

theorem closed_trim : Closed (trim cs) ↔ Closed cs := by
  rw [Closed, count_trim (by decide), Closed]

/-- Blanks around a closed text stay where they are. -/
theorem blanked_pad {as bs : List Char} (has : Blanks as) (hbs : Blanks bs) (h : Closed cs) :
    blanked (as ++ cs ++ bs) = as ++ blanked cs ++ bs := by
  rw [List.append_assoc, blanked_append (closed_blanks has), blanked_append h,
    blanked_blanks has, blanked_blanks hbs, List.append_assoc]

theorem blanked_trim (h : Closed cs) : blanked (trim cs) = trim (blanked cs) := by
  obtain ⟨as, bs, ha, hb, hcs⟩ := exists_pad cs
  have hpad := blanked_pad ha hb (closed_trim.mpr h)
  rw [← hcs] at hpad
  rw [hpad, trim_pad ha hb]
  refine (trim_of_ends (fun d hd => ?_) fun d hd => ?_).symm
  · rw [head?_blanked] at hd
    obtain ⟨ds, hds⟩ := List.head?_eq_some_iff.mp hd
    exact head_of_trim (hds ▸ trim_trim cs)
  · rw [getLast?_blanked (closed_trim.mpr h)] at hd
    obtain ⟨ds, hds⟩ := List.getLast?_eq_some_iff.mp hd
    exact last_of_trim (hds ▸ trim_trim cs)

theorem trim_blanked_eq_nil_iff : trim (blanked cs) = [] ↔ trim cs = [] := by
  constructor
  · intro h
    have hquote : '\'' ∉ cs := by
      rw [← List.count_eq_zero, ← count_quote_blankLiterals false, List.count_eq_zero]
      exact quote_not_mem (trim_eq_nil_iff.mp h)
    rwa [blanked_of_not_mem hquote] at h
  · intro h
    rwa [blanked_blanks (trim_eq_nil_iff.mp h)]

/-! ## Parentheses and operators -/

theorem blanked_wrap (h : Closed cs) :
    blanked ('(' :: cs ++ [')']) = '(' :: blanked cs ++ [')'] := by
  have hopen : blanked ['('] = ['('] := rfl
  have hclose : blanked [')'] = [')'] := rfl
  rw [← List.singleton_append, List.append_assoc, blanked_append (by decide),
    blanked_append h, hopen, hclose]
  rfl

theorem closed_wrap : Closed ('(' :: cs ++ [')']) ↔ Closed cs := by
  rw [Closed, count_wrap rfl, Closed]

/-- Closed texts with an operator between them are blanked one by one. -/
theorem blanked_intercalate (k : Connective) {ps : List (List Char)} (h : ∀ p ∈ ps, Closed p) :
    blanked ([k.char, k.char].intercalate ps) = [k.char, k.char].intercalate (ps.map blanked) := by
  have hoperator : blanked [k.char, k.char] = [k.char, k.char] ∧ Closed [k.char, k.char] := by
    cases k <;> decide
  induction ps with
  | nil => rfl
  | cons p ps ih =>
      obtain ⟨hp, hps⟩ := List.forall_mem_cons.mp h
      cases ps with
      | nil => simp only [List.map_cons, List.map_nil, List.intercalate_singleton]
      | cons q ps =>
          rw [List.intercalate_cons_cons, List.append_assoc, blanked_append hp,
            blanked_append hoperator.2, hoperator.1, ih hps]
          simp only [List.map_cons, List.intercalate_cons_cons, List.append_assoc]

end JobChart.Guard
