import JobChart.Text.Surrogate
import Mathlib.Data.List.TakeWhile

/-!
# Texts that can be encoded

Exactly the texts without a surrogate can be encoded in UTF-8.
-/

namespace JobChart.Text

theorem utf8Fault?_eq_none_iff {s : String} :
    utf8Fault? s = none ↔ ∀ c ∈ s.toList, surrogate? c = none := by
  rw [utf8Fault?, Option.map_eq_none_iff]
  constructor
  · intro h c hc
    by_contra hsome
    have hne : s.toList.dropWhile (fun c => (surrogate? c).isNone) ≠ [] := fun hnil =>
      hsome (Option.isNone_iff_eq_none.mp (List.dropWhile_eq_nil_iff.mp hnil c hc))
    have hfirst := List.head_dropWhile_not (fun c => (surrogate? c).isNone) hne
    rw [List.head?_eq_some_head hne, Option.bind_some] at h
    rw [h] at hfirst
    cases hfirst
  · intro h
    have hnil : s.toList.dropWhile (fun c => (surrogate? c).isNone) = [] :=
      List.dropWhile_eq_nil_iff.mpr fun c hc => Option.isNone_iff_eq_none.mpr (h c hc)
    rw [hnil]
    rfl

theorem exists_utf8Fault {s : String} {c : Char} (hc : c ∈ s.toList)
    (h : (surrogate? c).isSome = true) : ∃ f, utf8Fault? s = some f := by
  refine Option.ne_none_iff_exists'.mp fun hnone => ?_
  rw [utf8Fault?_eq_none_iff.mp hnone c hc] at h
  cases h

end JobChart.Text
