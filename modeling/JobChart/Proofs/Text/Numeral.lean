/-!
# Numerals

The decimal numerals that end an id. Different numbers have different
numerals, and no numeral holds an `_`, so an id can be cut at its last `_`.
-/

namespace JobChart.Text

theorem toString_nat_inj {m n : Nat} (h : toString m = toString n) : m = n := by
  have hdigits : Nat.toDigits 10 m = Nat.toDigits 10 n := by
    simpa [Nat.toString_eq_repr] using congrArg String.toList h
  have hvalue := congrArg (fun cs => Nat.ofDigitChars 10 cs 0) hdigits
  simpa only [Nat.ofDigitChars_ten_toDigits] using hvalue

theorem minus_not_mem_nat (n : Nat) : '-' ∉ (toString n).toList := by
  intro h
  rw [Nat.toString_eq_repr, Nat.toList_repr] at h
  exact absurd (Nat.isDigit_of_mem_toDigits (by decide) (by decide) h) (by decide)

/-- A negative number has a `-` in front of the numeral of its size. -/
theorem toString_int_eq (n : Int) :
    toString n = if 0 ≤ n then toString n.toNat else "-" ++ toString (-n).toNat := by
  simp only [Int.toString_eq_repr, Int.repr_eq_if, Nat.toString_eq_repr]

theorem toString_int_inj {m n : Int} (h : toString m = toString n) : m = n := by
  have hsign : ∀ a b : Nat, toString a ≠ "-" ++ toString b := fun a b hab =>
    minus_not_mem_nat a (by rw [hab]; simp)
  rw [toString_int_eq, toString_int_eq n] at h
  split at h <;> split at h
  · have := toString_nat_inj h
    omega
  · exact absurd h (hsign _ _)
  · exact absurd h.symm (hsign _ _)
  · have := toString_nat_inj ((String.append_right_inj "-").mp h)
    omega

theorem underscore_not_mem_int (n : Int) : '_' ∉ (toString n).toList := by
  rw [toString_int_eq]
  split <;> simp

/-- An id falls apart at its last `_` in one way only. -/
theorem last_part_inj {a b t u : String} (ht : '_' ∉ t.toList) (hu : '_' ∉ u.toList)
    (h : a ++ "_" ++ t = b ++ "_" ++ u) : a = b ∧ t = u := by
  have hchars : a.toList ++ '_' :: t.toList = b.toList ++ '_' :: u.toList := by
    simpa using congrArg String.toList h
  rcases List.append_eq_append_iff.mp hchars with ⟨w, hb, htail⟩ | ⟨w, ha, htail⟩
  · cases w with
    | nil =>
        simp only [List.append_nil, List.nil_append, List.cons.injEq, true_and] at hb htail
        exact ⟨(String.toList_inj.mp hb).symm, String.toList_inj.mp htail⟩
    | cons d w =>
        obtain ⟨-, htail⟩ := List.cons.inj htail
        exact absurd (htail ▸ by simp) ht
  · cases w with
    | nil =>
        simp only [List.append_nil, List.nil_append, List.cons.injEq, true_and] at ha htail
        exact ⟨String.toList_inj.mp ha, (String.toList_inj.mp htail).symm⟩
    | cons d w =>
        obtain ⟨-, htail⟩ := List.cons.inj htail
        exact absurd (htail ▸ by simp) hu

end JobChart.Text
