import JobChart.Cli.FileTree

/-!
# Writing a file

Where a path leads is read off its parts alone (`place`), as far as it leads
anywhere. Making directories leaves all files as they are, so a write that fails
does, and what keeps it from going through does so whatever is to be written
(`write_cases`). A write that goes through puts its bytes in the place of the
path and changes no other file.
-/

namespace JobChart.Cli.FileTree

variable {t t' : FileTree} {p : Path} {bytes : List UInt8}

/-! ## Where paths lead -/

/-- The place of a path, by its parts. -/
def place (t : FileTree) (p : Path) : List String := p.parts.foldl step (t.start p)

theorem walk_eq_foldl {parts here there : List String} (h : t.walk here parts = .ok there) :
    there = parts.foldl step here := by
  induction parts generalizing here with
  | nil => cases h; rfl
  | cons part parts ih =>
      rw [walk] at h
      split at h
      · exact ih h
      · cases h

theorem find_eq_place {there : List String} (h : t.find p = .ok there) : there = t.place p :=
  walk_eq_foldl h

/-! ## Directories -/

/-- The trees have the same files, and paths start in the same directory. -/
structure SameFiles (t t' : FileTree) : Prop where
  files : t'.files = t.files
  here : t'.here = t.here

theorem SameFiles.refl (t : FileTree) : SameFiles t t := ⟨rfl, rfl⟩

theorem SameFiles.trans {t'' : FileTree} (h : SameFiles t t') (h' : SameFiles t' t'') :
    SameFiles t t'' :=
  ⟨h'.files.trans h.files, h'.here.trans h.here⟩

theorem SameFiles.place_eq (h : SameFiles t t') (p : Path) : t'.place p = t.place p := by
  rw [place, place, start, start, h.here]

theorem SameFiles.file?_eq (h : SameFiles t t') (parts : List String) :
    t'.file? parts = t.file? parts := by
  rw [file?, file?, h.files]

theorem sameFiles_makeOne (h : t.makeOne p = .ok t') : SameFiles t t' := by
  rw [makeOne] at h
  split at h
  · cases h
  · cases h
  · split at h
    · cases h
      exact ⟨rfl, rfl⟩
    · cases h

theorem sameFiles_makeUnlessThere (t : FileTree) (p : Path) :
    SameFiles t (t.makeUnlessThere p).1 := by
  rw [makeUnlessThere]
  split
  · next h => exact sameFiles_makeOne h
  · exact .refl t

theorem sameFiles_make (t : FileTree) (root : String) (parts : List String) :
    SameFiles t (t.make root parts).1 := by
  induction parts with
  | nil => exact .refl t
  | cons part above ih =>
      rw [make]
      split
      · split
        · next h => rwa [h] at ih
        · next h => rw [h] at ih; exact ih.trans (sameFiles_makeUnlessThere _ _)
      · exact sameFiles_makeUnlessThere t _

/-! ## Files -/

theorem lookup_put (there : List String) (files : List (List String × List UInt8))
    (parts : List String) :
    (put there bytes files).lookup parts
      = if parts = there then some bytes else files.lookup parts := by
  induction files with
  | nil =>
      rw [put, List.lookup_cons]
      by_cases h : parts = there <;> simp [h, beq_false_of_ne]
  | cons f files ih =>
      rw [put]
      by_cases hf : f.1 = there
      · rw [if_pos hf, List.lookup_cons, List.lookup_cons, hf]
        by_cases h : parts = there <;> simp [h, beq_false_of_ne]
      · rw [if_neg hf, List.lookup_cons, List.lookup_cons, ih]
        by_cases h : parts = f.1 <;> simp [h, hf, beq_false_of_ne]

theorem target_eq_place {there : List String} (h : t.target p = .ok there) :
    there = t.place p := by
  rw [target] at h
  split at h
  · cases h
  · split at h
    · cases h
    · cases h
    · next hfind =>
        split at h
        · cases h
        · cases h
          exact find_eq_place hfind

/-- The second tree has the files of the first, with these bytes at the place of the path. -/
def Stored (t t' : FileTree) (p : Path) (bytes : List UInt8) : Prop :=
  t'.files = put (t.place p) bytes t.files

theorem Stored.file?_eq (h : Stored t t' p bytes) (parts : List String) :
    t'.file? parts = if parts = t.place p then some bytes else t.file? parts := by
  rw [file?, h, lookup_put, file?]

/-- Whatever is written to a path, it goes through or it fails in the same way. -/
theorem write_cases (t : FileTree) (p : Path) :
    (∃ t' e, SameFiles t t' ∧ ∀ bytes, t.write p bytes = (t', some e))
      ∨ ∀ bytes, (t.write p bytes).2 = none ∧ Stored t (t.write p bytes).1 p bytes := by
  by_cases hnul : p.parent.parts.any holdsNul
  · exact Or.inl ⟨t, .badPath, .refl t, fun bytes => by rw [write, if_pos hnul]⟩
  · have hmade := sameFiles_make t p.root p.parent.parts.reverse
    cases hmake : t.make p.root p.parent.parts.reverse with
    | mk made failure =>
        rw [hmake] at hmade
        cases failure with
        | some e =>
            refine Or.inl ⟨made, e, hmade, fun bytes => ?_⟩
            rw [write, if_neg hnul, hmake]
        | none =>
            cases htarget : made.target p with
            | error e =>
                refine Or.inl ⟨made, e, hmade, fun bytes => ?_⟩
                rw [write, if_neg hnul, hmake]
                simp only [htarget]
            | ok there =>
                refine Or.inr fun bytes => ?_
                rw [write, if_neg hnul, hmake]
                simp only [htarget, true_and]
                obtain rfl := target_eq_place htarget
                rw [Stored, hmade.place_eq, hmade.files]

def Writable (t : FileTree) (p : Path) : Prop := ∃ bytes, (t.write p bytes).2 = none

theorem write_of_writable (h : t.Writable p) (bytes : List UInt8) :
    (t.write p bytes).2 = none ∧ Stored t (t.write p bytes).1 p bytes := by
  obtain ⟨bytes', hbytes⟩ := h
  rcases write_cases t p with ⟨t', e, -, hfails⟩ | hstored
  · rw [hfails] at hbytes
    cases hbytes
  · exact hstored bytes

theorem sameFiles_of_unwritable (h : ¬t.Writable p) (bytes : List UInt8) :
    SameFiles t (t.write p bytes).1 ∧ ∃ e, (t.write p bytes).2 = some e := by
  rcases write_cases t p with ⟨t', e, hsame, hfails⟩ | hstored
  · rw [hfails]
    exact ⟨hsame, e, rfl⟩
  · exact absurd ⟨[], (hstored []).1⟩ h

end JobChart.Cli.FileTree
