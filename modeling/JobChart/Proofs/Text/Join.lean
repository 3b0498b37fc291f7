import JobChart.Text.Join

/-!
# Joined texts

`joinWith` as concatenation of characters, which of the texts a character of
the joined text comes from, and how cutting at the separator gives the texts
back.
-/

namespace JobChart.Text

theorem toList_joinWith (sep : String) : ∀ ss : List String,
    (joinWith sep ss).toList = sep.toList.intercalate (ss.map String.toList)
  | [] => rfl
  | [s] => by rw [joinWith, List.map_singleton, List.intercalate_singleton]
  | s :: t :: ss => by
      have ih := toList_joinWith sep (t :: ss)
      rw [joinWith, String.toList_append, String.toList_append, ih]
      exact List.intercalate_cons_cons.symm

variable {sep : String} {c : Char}

/-- A character of joined texts stands in the separator or in one of them. -/
theorem mem_or_mem_of_mem_joinWith : ∀ {ss : List String}, c ∈ (joinWith sep ss).toList →
    c ∈ sep.toList ∨ ∃ s ∈ ss, c ∈ s.toList
  | [], h => by simp [joinWith] at h
  | [s], h => Or.inr ⟨s, List.mem_singleton_self s, h⟩
  | s :: t :: ss, h => by
      rw [joinWith, String.toList_append, String.toList_append, List.mem_append,
        List.mem_append] at h
      rcases h with (h | h) | h
      · exact Or.inr ⟨s, List.mem_cons_self, h⟩
      · exact Or.inl h
      · exact (mem_or_mem_of_mem_joinWith h).imp_right fun ⟨u, hu, hc⟩ =>
          ⟨u, List.mem_cons_of_mem s hu, hc⟩

/-- A character of the first of joined texts is kept. -/
theorem mem_joinWith_head {s : String} {ss : List String} (h : c ∈ s.toList) :
    c ∈ (joinWith sep (s :: ss)).toList := by
  cases ss with
  | nil => exact h
  | cons t ss => simp [joinWith, h]

/-- Joined texts end with the last of them. -/
theorem exists_joinWith_concat (sep s : String) :
    ∀ ss : List String, ∃ front, joinWith sep (ss ++ [s]) = front ++ s
  | [] => ⟨"", String.empty_append.symm⟩
  | [t] => ⟨t ++ sep, rfl⟩
  | t :: u :: ss => by
      obtain ⟨front, hfront⟩ := exists_joinWith_concat sep s (u :: ss)
      refine ⟨t ++ sep ++ front, ?_⟩
      rw [String.append_assoc, ← hfront]
      rfl

/-- Texts that do not hold the separator are got back by cutting there. -/
theorem splitOn_joinWith {ss : List String} (hne : ss ≠ [])
    (h : ∀ s ∈ ss, c ∉ s.toList) :
    (joinWith (String.singleton c) ss).toList.splitOn c = ss.map String.toList := by
  rw [toList_joinWith, String.toList_singleton]
  exact List.splitOn_intercalate c (by simpa using h) (by simpa using hne)

end JobChart.Text
