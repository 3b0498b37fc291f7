import JobChart.Guard.Split
import JobChart.Proofs.Guard.Parens

/-!
# Scanning for an operator

The scanner that cuts a text at an operator goes character by character.
Induction along it (`scan_induction`) gives what two texts put together are
cut into (`piecesFrom_append`), and when a text is not cut at all
(`single_iff`).

An operator is one character twice, and that character is no parenthesis.
-/

namespace JobChart.Guard

open Text

variable {c : Char} {d : Int}

/-! ## The scanner -/

/-- The operator of this character stands here, outside all parentheses. -/
def OperatorAt (c : Char) (d : Int) (cs : List Char) : Prop := d = 0 ∧ [c, c] <+: cs

theorem operatorAt_cons_iff {a : Char} {cs : List Char} :
    OperatorAt c d (a :: cs) ↔ d = 0 ∧ a = c ∧ cs.head? = some c := by
  rw [OperatorAt, List.cons_prefix_cons, eq_comm]
  cases cs with
  | nil => simp
  | cons b cs => simp [eq_comm]

theorem piecesFrom_operator (hc : rise c = 0) (cs : List Char) :
    piecesFrom [c, c] 0 0 (c :: c :: cs) = [] :: piecesFrom [c, c] 0 0 cs := by
  have hopen : c ≠ '(' := by
    rintro rfl
    exact absurd hc (by decide)
  have hclose : c ≠ ')' := by
    rintro rfl
    exact absurd hc (by decide)
  rw [piecesFrom, if_neg hopen, if_neg hclose, if_pos ⟨rfl, by simp⟩]
  rfl

theorem piecesFrom_cons {a : Char} {cs : List Char} (h : ¬OperatorAt c d (a :: cs)) :
    piecesFrom [c, c] 0 d (a :: cs) = consFirst a (piecesFrom [c, c] 0 (d + rise a) cs) := by
  rw [piecesFrom]
  by_cases hopen : a = '('
  · subst hopen
    rw [if_pos rfl]
    rfl
  by_cases hclose : a = ')'
  · subst hclose
    rw [if_neg hopen, if_pos rfl]
    rfl
  · rw [if_neg hopen, if_neg hclose, rise_eq_zero hopen hclose, Int.add_zero, if_neg]
    rwa [List.isPrefixOf_iff_prefix]

/-- Induction along the scanner, from one cut or character to the next. -/
theorem scan_induction (c : Char) {P : Int → List Char → Prop} (nil : ∀ d, P d [])
    (plain : ∀ d a cs, ¬OperatorAt c d (a :: cs) → P (d + rise a) cs → P d (a :: cs))
    (operator : ∀ cs, P 0 cs → P 0 (c :: c :: cs)) (d : Int) (cs : List Char) : P d cs := by
  induction hn : cs.length using Nat.strongRecOn generalizing d cs with
  | ind n ih =>
      cases cs with
      | nil => exact nil d
      | cons a cs =>
          rw [List.length_cons] at hn
          by_cases h : OperatorAt c d (a :: cs)
          · obtain ⟨rfl, rfl, hhead⟩ := operatorAt_cons_iff.mp h
            obtain ⟨rest, rfl⟩ := List.head?_eq_some_iff.mp hhead
            rw [List.length_cons] at hn
            exact operator rest (ih rest.length (by omega) 0 rest rfl)
          · exact plain d a cs h (ih cs.length (by omega) _ cs rfl)

/-! ## Two texts put together -/

/-- The pieces of two texts put together: the last of the first and the first
of the second become one. -/
def glue : List (List Char) → List (List Char) → List (List Char)
  | [], qs => qs
  | [p], [] => [p]
  | [p], q :: qs => (p ++ q) :: qs
  | p :: q :: ps, qs => p :: glue (q :: ps) qs

theorem glue_cons {p : List Char} {ps : List (List Char)} (hps : ps ≠ [])
    (qs : List (List Char)) : glue (p :: ps) qs = p :: glue ps qs := by
  obtain ⟨q, ps, rfl⟩ := List.exists_cons_of_ne_nil hps
  rfl

theorem glue_nil_left {qs : List (List Char)} (hqs : qs ≠ []) : glue [[]] qs = qs := by
  obtain ⟨q, qs, rfl⟩ := List.exists_cons_of_ne_nil hqs
  rfl

theorem glue_nil_right {ps : List (List Char)} (hps : ps ≠ []) (qs : List (List Char)) :
    glue ps ([] :: qs) = ps ++ qs := by
  induction ps with
  | nil => exact absurd rfl hps
  | cons p ps ih =>
      cases ps with
      | nil => rw [glue, List.append_nil, List.singleton_append]
      | cons q ps =>
          rw [glue_cons (List.cons_ne_nil q ps), ih (List.cons_ne_nil q ps)]
          rfl

theorem consFirst_glue {a : Char} {ps : List (List Char)} (hps : ps ≠ [])
    {qs : List (List Char)} (hqs : qs ≠ []) :
    consFirst a (glue ps qs) = glue (consFirst a ps) qs := by
  obtain ⟨q, qs, rfl⟩ := List.exists_cons_of_ne_nil hqs
  obtain ⟨p, ps, rfl⟩ := List.exists_cons_of_ne_nil hps
  cases ps with
  | nil => rfl
  | cons p' ps => rfl

/-- Where no operator crosses the seam, two texts put together are cut as they
are cut alone. -/
theorem piecesFrom_append (hc : rise c = 0) (d : Int) (xs : List Char) {ys : List Char}
    (hseam : xs.getLast? ≠ some c ∨ ys.head? ≠ some c) :
    piecesFrom [c, c] 0 d (xs ++ ys)
      = glue (piecesFrom [c, c] 0 d xs) (piecesFrom [c, c] 0 (d + net xs) ys) := by
  induction d, xs using scan_induction c with
  | nil d =>
      rw [List.nil_append, net_nil, Int.add_zero, piecesFrom,
        glue_nil_left (piecesFrom_ne_nil _ _ _ _)]
  | operator cs ih =>
      have hrest : cs.getLast? ≠ some c ∨ ys.head? ≠ some c := by
        refine hseam.imp_left fun hlast h => hlast ?_
        simp [List.getLast?_cons, h]
      have hnet : net (c :: c :: cs) = net cs := by simp [hc]
      rw [List.cons_append, List.cons_append, piecesFrom_operator hc, piecesFrom_operator hc,
        ih hrest, glue_cons (piecesFrom_ne_nil _ _ _ _), hnet]
  | plain d a cs h ih =>
      have hrest : cs.getLast? ≠ some c ∨ ys.head? ≠ some c := by
        refine hseam.imp_left fun hlast h => hlast ?_
        simp [List.getLast?_cons, h]
      have hplain : ¬OperatorAt c d (a :: (cs ++ ys)) := by
        rw [operatorAt_cons_iff] at h ⊢
        rintro ⟨hd, rfl, hhead⟩
        cases cs with
        | nil => exact hseam.elim (fun hlast => hlast rfl) fun hys => hys hhead
        | cons e es => exact h ⟨hd, rfl, hhead⟩
      rw [List.cons_append, piecesFrom_cons hplain, piecesFrom_cons h, ih hrest, net_cons,
        Int.add_assoc, consFirst_glue (piecesFrom_ne_nil _ _ _ _) (piecesFrom_ne_nil _ _ _ _)]

/-! ## Texts in one piece -/

/-- From this depth on the text is not cut. -/
def Single (c : Char) (d : Int) (cs : List Char) : Prop := piecesFrom [c, c] 0 d cs = [cs]

theorem single_nil : Single c d [] := by rw [Single, piecesFrom]

theorem Single.cons {a : Char} {cs : List Char} (h : Single c (d + rise a) cs)
    (hplain : ¬OperatorAt c d (a :: cs)) : Single c d (a :: cs) := by
  rw [Single] at h ⊢
  rw [piecesFrom_cons hplain, h]
  rfl

theorem Single.append (hc : rise c = 0) {cs ds : List Char} (hcs : Single c d cs)
    (hds : Single c (d + net cs) ds) (hseam : cs.getLast? ≠ some c ∨ ds.head? ≠ some c) :
    Single c d (cs ++ ds) := by
  rw [Single] at hcs hds ⊢
  rw [piecesFrom_append hc d cs hseam, hcs, hds]
  rfl

theorem single_of_not_mem {cs : List Char} (h : c ∉ cs) : Single c d cs := by
  induction cs generalizing d with
  | nil => exact single_nil
  | cons a cs ih =>
      rw [List.mem_cons, not_or] at h
      refine (ih h.2).cons fun hop => ?_
      exact h.1 (operatorAt_cons_iff.mp hop).2.1.symm

/-- Inside a parenthesis nothing is cut. -/
theorem single_of_above {cs : List Char} (h : Above (d - 1) cs) : Single c d cs := by
  induction cs generalizing d with
  | nil => exact single_nil
  | cons a cs ih =>
      have hcs : Above (d + rise a - 1) cs := by
        have hshift : d + rise a - 1 = d - 1 + rise a := by omega
        rw [hshift]
        exact h.2
      refine (ih hcs).cons fun hop => ?_
      have hd := (operatorAt_cons_iff.mp hop).1
      have hlow := h.1
      omega

/-- A balanced text in parentheses is in one piece. -/
theorem single_wrap (hc : rise c = 0) {cs : List Char} (h : Balanced cs) :
    Single c 0 ('(' :: cs ++ [')']) := by
  have hopen : ('(' : Char) ≠ c := by
    rintro rfl
    exact absurd hc (by decide)
  have hclose : (')' : Char) ≠ c := by
    rintro rfl
    exact absurd hc (by decide)
  have hinside : Single c (0 + rise '(') cs := single_of_above h.above
  have hlast : Single c (0 + rise '(' + net cs) [')'] :=
    single_of_not_mem fun hmem => hclose (List.mem_singleton.mp hmem).symm
  have hseam : cs.getLast? ≠ some c ∨ [')'].head? ≠ some c :=
    Or.inr fun hhead => hclose (Option.some.inj hhead)
  exact (hinside.append hc hlast hseam).cons fun hop => hopen (operatorAt_cons_iff.mp hop).2.1

theorem not_mem_blanks (hc : isBlank c = false) {cs : List Char} (h : Blanks cs) : c ∉ cs :=
  fun hmem => by simp [h c hmem] at hc

theorem single_blanks (hc : isBlank c = false) {cs : List Char} (h : Blanks cs) :
    Single c d cs :=
  single_of_not_mem (not_mem_blanks hc h)

/-- Blanks around a text in one piece leave it in one piece. -/
theorem Single.pad (hc : rise c = 0) (hblank : isBlank c = false) {as cs bs : List Char}
    (h : Single c d cs) (ha : Blanks as) (hb : Blanks bs) : Single c d (as ++ cs ++ bs) := by
  have hfront : as.getLast? ≠ some c := fun hlast =>
    not_mem_blanks hblank ha (List.mem_of_getLast? hlast)
  have hback : bs.head? ≠ some c := fun hhead =>
    not_mem_blanks hblank hb (List.mem_of_head? hhead)
  have hcs : Single c (d + net as) cs := by rwa [net_blanks ha, Int.add_zero]
  exact ((single_blanks hblank ha).append hc hcs (Or.inl hfront)).append hc
    (single_blanks hblank hb) (Or.inr hback)

theorem Single.of_cons {a : Char} {cs : List Char} (h : Single c d (a :: cs))
    (hplain : ¬OperatorAt c d (a :: cs)) : Single c (d + rise a) cs := by
  rw [Single, piecesFrom_cons hplain] at h
  obtain ⟨p, ps, hps⟩ :=
    List.exists_cons_of_ne_nil (piecesFrom_ne_nil [c, c] 0 (d + rise a) cs)
  rw [hps, consFirst] at h
  obtain ⟨hp, rfl⟩ := List.cons.inj h
  rw [Single, hps, (List.cons.inj hp).2]

/-- In a text in one piece the operator stands inside parentheses only. -/
theorem Single.net_ne {cs xs ys : List Char} (hc : rise c = 0) (h : Single c d cs)
    (hcs : cs = xs ++ [c, c] ++ ys) : d + net xs ≠ 0 := by
  induction d, cs using scan_induction c generalizing xs ys with
  | nil d => simp at hcs
  | operator cs _ =>
      rw [Single, piecesFrom_operator hc] at h
      cases (List.cons.inj h).1
  | plain d a cs hplain ih =>
      cases xs with
      | nil =>
          intro hd
          rw [net_nil, Int.add_zero] at hd
          exact hplain ⟨hd, ys, hcs.symm⟩
      | cons b xs =>
          obtain ⟨rfl, hrest⟩ := List.cons.inj hcs
          rw [net_cons, ← Int.add_assoc]
          exact ih (h.of_cons hplain) hrest

theorem single_of_net_ne {cs : List Char}
    (h : ∀ xs ys, cs = xs ++ [c, c] ++ ys → d + net xs ≠ 0) : Single c d cs := by
  induction cs generalizing d with
  | nil => exact single_nil
  | cons a cs ih =>
      refine (ih fun xs ys hcs => ?_).cons ?_
      · have hstep := h (a :: xs) ys (by rw [hcs]; rfl)
        rwa [net_cons, ← Int.add_assoc] at hstep
      · rintro ⟨hd, rest, hrest⟩
        exact h [] rest hrest.symm (by rw [hd]; rfl)

/-- A text is in one piece when the operator stands in it inside parentheses
only. -/
theorem single_iff (hc : rise c = 0) {cs : List Char} :
    Single c d cs ↔ ∀ xs ys, cs = xs ++ [c, c] ++ ys → d + net xs ≠ 0 :=
  ⟨fun h _ _ => h.net_ne hc, single_of_net_ne⟩

end JobChart.Guard
