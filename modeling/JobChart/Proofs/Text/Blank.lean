import Mathlib.Data.List.TakeWhile
import JobChart.Text.Blank

/-!
# Trimming

What is left when the blanks around a text go: the text is a trimmed text
between blanks (`exists_pad`), and blanks around it do not matter
(`trim_pad`). A text is trimmed when neither of its ends is blank
(`trim_of_ends`).
-/

namespace JobChart.Text

def Blanks (cs : List Char) : Prop := ∀ c ∈ cs, isBlank c = true

theorem blanks_nil : Blanks [] := fun _ h => (List.not_mem_nil h).elim

theorem blanks_space : Blanks [' '] := by
  intro c hc
  rw [List.mem_singleton.mp hc]
  decide

theorem Blanks.append {as bs : List Char} (ha : Blanks as) (hb : Blanks bs) :
    Blanks (as ++ bs) := fun c hc => (List.mem_append.mp hc).elim (ha c) (hb c)

theorem blanks_append {as bs : List Char} : Blanks (as ++ bs) ↔ Blanks as ∧ Blanks bs :=
  ⟨fun h => ⟨fun c hc => h c (List.mem_append_left _ hc),
    fun c hc => h c (List.mem_append_right _ hc)⟩, fun h => h.1.append h.2⟩

/-! ## Dropping blanks -/

theorem trimStart_pad {as : List Char} (ha : Blanks as) (cs : List Char) :
    trimStart (as ++ cs) = trimStart cs :=
  List.dropWhile_append_of_pos ha

theorem trimEnd_pad {bs : List Char} (hb : Blanks bs) (cs : List Char) :
    trimEnd (cs ++ bs) = trimEnd cs := by
  rw [trimEnd, List.reverse_append,
    List.dropWhile_append_of_pos fun c hc => hb c (List.mem_reverse.mp hc), trimEnd]

theorem trimStart_eq_nil_iff {cs : List Char} : trimStart cs = [] ↔ Blanks cs :=
  List.dropWhile_eq_nil_iff

theorem trimEnd_nil : trimEnd [] = [] := rfl

theorem exists_padStart (cs : List Char) : ∃ as, Blanks as ∧ cs = as ++ trimStart cs :=
  ⟨cs.takeWhile isBlank, fun _ hc => List.mem_takeWhile_imp hc,
    (List.takeWhile_append_dropWhile).symm⟩

theorem exists_padEnd (cs : List Char) : ∃ bs, Blanks bs ∧ cs = trimEnd cs ++ bs := by
  refine ⟨(cs.reverse.takeWhile isBlank).reverse, fun c hc => ?_, ?_⟩
  · exact List.mem_takeWhile_imp (List.mem_reverse.mp hc)
  · rw [trimEnd, ← List.reverse_append, List.takeWhile_append_dropWhile, List.reverse_reverse]

/-- Every text is its trimmed text between blanks. -/
theorem exists_pad (cs : List Char) :
    ∃ as bs, Blanks as ∧ Blanks bs ∧ cs = as ++ trim cs ++ bs := by
  obtain ⟨as, ha, has⟩ := exists_padStart cs
  obtain ⟨bs, hb, hbs⟩ := exists_padEnd (trimStart cs)
  refine ⟨as, bs, ha, hb, ?_⟩
  rw [trim, List.append_assoc, ← hbs]
  exact has

/-- Blanks around a text are dropped with its own. -/
theorem trim_pad {as bs : List Char} (ha : Blanks as) (hb : Blanks bs) (cs : List Char) :
    trim (as ++ cs ++ bs) = trim cs := by
  rw [trim, List.append_assoc, trimStart_pad ha, trim]
  by_cases hcs : Blanks cs
  · rw [trimStart_eq_nil_iff.mpr hcs, trimStart_eq_nil_iff.mpr (hcs.append hb)]
  · have hne : (trimStart cs).isEmpty = false := by
      rw [List.isEmpty_eq_false_iff]
      exact fun h => hcs (trimStart_eq_nil_iff.mp h)
    have happ : trimStart (cs ++ bs) = trimStart cs ++ bs := by
      simp only [trimStart] at hne ⊢
      rw [List.dropWhile_append, hne, if_neg Bool.false_ne_true]
    rw [happ, trimEnd_pad hb]

theorem trim_eq_nil_iff {cs : List Char} : trim cs = [] ↔ Blanks cs := by
  constructor
  · intro h
    obtain ⟨as, bs, ha, hb, hcs⟩ := exists_pad cs
    rw [hcs, h, List.append_nil]
    exact ha.append hb
  · intro h
    rw [trim, trimStart_eq_nil_iff.mpr h, trimEnd_nil]

@[simp] theorem trim_trim (cs : List Char) : trim (trim cs) = trim cs := by
  obtain ⟨as, bs, ha, hb, hcs⟩ := exists_pad cs
  have hpad := trim_pad ha hb (trim cs)
  rw [← hcs] at hpad
  exact hpad.symm

/-- Trimming drops blanks only. -/
theorem count_trim {c : Char} (hc : isBlank c = false) (cs : List Char) :
    (trim cs).count c = cs.count c := by
  have hblanks : ∀ {as : List Char}, Blanks as → as.count c = 0 := fun has =>
    List.count_eq_zero.mpr fun hmem => by simp [has c hmem] at hc
  obtain ⟨as, bs, ha, hb, hcs⟩ := exists_pad cs
  have hcount := congrArg (List.count c) hcs
  rw [List.count_append, List.count_append, hblanks ha, hblanks hb] at hcount
  omega

/-! ## Trimmed texts -/

theorem head_of_trim {c : Char} {cs : List Char} (h : trim (c :: cs) = c :: cs) :
    isBlank c = false := by
  cases hc : isBlank c with
  | false => rfl
  | true =>
      have hblank : Blanks [c] := fun d hd => List.mem_singleton.mp hd ▸ hc
      have hpad := trim_pad hblank blanks_nil cs
      have hlen := length_trim_le cs
      rw [List.append_nil, List.singleton_append, h] at hpad
      rw [← hpad, List.length_cons] at hlen
      omega

theorem last_of_trim {c : Char} {cs : List Char} (h : trim (cs ++ [c]) = cs ++ [c]) :
    isBlank c = false := by
  cases hc : isBlank c with
  | false => rfl
  | true =>
      have hblank : Blanks [c] := fun d hd => List.mem_singleton.mp hd ▸ hc
      have hpad := trim_pad blanks_nil hblank cs
      have hlen := length_trim_le cs
      rw [List.nil_append, h] at hpad
      rw [← hpad, List.length_append, List.length_singleton] at hlen
      omega

theorem trimStart_of_head {c : Char} (hc : isBlank c = false) (cs : List Char) :
    trimStart (c :: cs) = c :: cs := by
  rw [trimStart, List.dropWhile_cons, hc, if_neg Bool.false_ne_true]

theorem trimEnd_of_last {cs : List Char} (h : ∀ c, cs.getLast? = some c → isBlank c = false) :
    trimEnd cs = cs := by
  rcases List.eq_nil_or_concat cs with rfl | ⟨cs, c, rfl⟩
  · rfl
  · rw [List.concat_eq_append] at h ⊢
    have hc : isBlank c = false := h c List.getLast?_concat
    rw [trimEnd, List.reverse_concat, List.dropWhile_cons, hc, if_neg Bool.false_ne_true,
      List.reverse_cons, List.reverse_reverse]

/-- Nothing is dropped where both ends are no blanks. -/
theorem trim_of_ends {cs : List Char} (hhead : ∀ c, cs.head? = some c → isBlank c = false)
    (hlast : ∀ c, cs.getLast? = some c → isBlank c = false) : trim cs = cs := by
  cases cs with
  | nil => rfl
  | cons c cs => rw [trim, trimStart_of_head (hhead c rfl), trimEnd_of_last hlast]

/-- Of two texts put together only the outer ends are trimmed. -/
theorem exists_trim_append {xs ys : List Char} (hxs : trim xs ≠ []) (hys : trim ys ≠ []) :
    ∃ ms, trim (xs ++ ys) = trim xs ++ (ms ++ trim ys) := by
  obtain ⟨as, bs, ha, -, hxs'⟩ := exists_pad xs
  obtain ⟨as', bs', -, hb', hys'⟩ := exists_pad ys
  refine ⟨bs ++ as', ?_⟩
  have happ : xs ++ ys = as ++ (trim xs ++ (bs ++ as' ++ trim ys)) ++ bs' := by
    have hboth := congrArg₂ (· ++ ·) hxs' hys'
    simpa only [List.append_assoc] using hboth
  rw [happ, trim_pad ha hb']
  refine trim_of_ends (fun c hc => ?_) fun c hc => ?_
  · obtain ⟨d, ds, hd⟩ := List.exists_cons_of_ne_nil hxs
    have hhead := head_of_trim (hd ▸ trim_trim xs)
    rw [hd] at hc
    rwa [← Option.some.inj hc]
  · obtain ⟨ds, d, hd⟩ := (List.eq_nil_or_concat (trim ys)).resolve_left hys
    rw [List.concat_eq_append] at hd
    have hlast := last_of_trim (hd ▸ trim_trim ys)
    rw [hd, ← List.append_assoc, ← List.append_assoc, List.getLast?_concat] at hc
    rwa [← Option.some.inj hc]

/-! ## Trimming a `String` -/

@[simp] theorem toList_strip (s : String) : (strip s).toList = trim s.toList := by
  rw [strip, String.toList_ofList]

theorem allBlank_iff {s : String} : allBlank s = true ↔ trim s.toList = [] := by
  rw [trim_eq_nil_iff, allBlank, List.all_eq_true]
  rfl

end JobChart.Text
