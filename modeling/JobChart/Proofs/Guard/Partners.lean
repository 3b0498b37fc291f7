import JobChart.Proofs.Guard.Checked

/-!
# Which parentheses belong together

The check of a guard's parentheses walks the text once, with a single depth.
Looking for the partner of a `(` is a walk of its own, from that `(` on. The
two agree: the check passes exactly if every `(` has a partner and every `)` is
the partner of one `(` (`balanced_iff_partners`).

What ties them is the text between partners, which is balanced
(`partners_iff`). A `(` is without a partner when the text behind it never
falls below its start (`closingAt_eq_none_iff`), and in a text that ends above
its start there is such a `(` (`exists_open`).

The pairs that are stripped off a text are partners in the text as a whole
(`Inside`), and nothing but blanks stands between one pair and the next.
-/

namespace JobChart.Guard

open Text

variable {cs : List Char} {i j : Nat}

/-! ## Partners -/

theorem exists_split_of_getElem? {c : Char} (h : cs[i]? = some c) :
    ∃ us vs, cs = us ++ c :: vs ∧ us.length = i := by
  obtain ⟨hi, rfl⟩ := List.getElem?_eq_some_iff.mp h
  refine ⟨cs.take i, cs.drop (i + 1), ?_, List.length_take_of_le (Nat.le_of_lt hi)⟩
  rw [List.getElem_cons_drop, List.take_append_drop]

theorem closingAt_open (us rest : List Char) :
    closingAt (us ++ '(' :: rest) us.length
      = (closing 1 rest).map fun n => us.length + 1 + n := by
  rw [closingAt, List.drop_left, closing, if_pos rfl, Int.zero_add, Option.map_map]
  congr 1
  funext n
  simp only [Function.comp_apply]
  omega

/-- The text behind a `(` without a partner never falls below its start. -/
theorem closingAt_eq_none_iff (us rest : List Char) :
    closingAt (us ++ '(' :: rest) us.length = none ↔ Above 0 rest := by
  rw [closingAt_open, Option.map_eq_none_iff]
  exact closing_eq_none_iff (Int.le_refl 0)

/-- The `(` at `i` is closed by the `)` at `j`. -/
def Partners (cs : List Char) (i j : Nat) : Prop :=
  cs[i]? = some '(' ∧ closingAt cs i = some j

instance : Decidable (Partners cs i j) := inferInstanceAs (Decidable (_ ∧ _))

/-- Partners have a balanced text between them. -/
theorem partners_iff :
    Partners cs i j ↔ ∃ us w vs, cs = us ++ '(' :: w ++ ')' :: vs ∧ Balanced w
      ∧ us.length = i ∧ (us ++ '(' :: w).length = j := by
  constructor
  · rintro ⟨hopen, hclose⟩
    obtain ⟨us, rest, rfl, rfl⟩ := exists_split_of_getElem? hopen
    rw [closingAt_open, Option.map_eq_some_iff] at hclose
    obtain ⟨n, hclosing, rfl⟩ := hclose
    obtain ⟨w, vs, rfl, rfl, habove, hnet⟩ := exists_of_closing (by decide) hclosing
    refine ⟨us, w, vs, by simp, ⟨habove, by omega⟩, rfl, ?_⟩
    simp only [List.length_append, List.length_cons]
    omega
  · rintro ⟨us, w, vs, rfl, hw, rfl, rfl⟩
    have hlast : closing 1 (w ++ ')' :: vs) = some w.length :=
      closing_append hw.above (by rw [hw.level]; rfl)
    rw [List.append_assoc, List.cons_append]
    refine ⟨by simp, ?_⟩
    rw [closingAt_open, hlast, Option.map_some, List.length_append, List.length_cons]
    congr 1
    omega

theorem Partners.balanced_between (h : Partners cs i j) :
    Balanced ((cs.take j).drop (i + 1)) := by
  obtain ⟨us, w, vs, rfl, hw, rfl, rfl⟩ := partners_iff.mp h
  rw [List.take_left, ← List.drop_drop, List.drop_left]
  exact hw

/-- A `)` is the partner of one `(` only. -/
theorem Partners.unique {i' : Nat} (h : Partners cs i j) (h' : Partners cs i' j) : i = i' := by
  -- of two `(` with a balanced text behind them, one cannot stand inside the other's text
  have hsame : ∀ {as w w' : List Char}, '(' :: w = as ++ '(' :: w' → Balanced w → Balanced w' →
      as = [] := by
    intro as w w' heq hw hw'
    cases as with
    | nil => rfl
    | cons a as =>
        rw [List.cons_append] at heq
        obtain ⟨rfl, rfl⟩ := List.cons.inj heq
        have hlow := (above_append.mp hw.above).1.stop
        have hlevel := hw.level
        rw [net_open, hw'.level] at hlevel
        omega
  obtain ⟨us, w, vs, rfl, hw, rfl, hj⟩ := partners_iff.mp h
  obtain ⟨us', w', vs', hcs, hw', rfl, hj'⟩ := partners_iff.mp h'
  obtain ⟨heq, -⟩ := List.append_inj hcs (hj.trans hj'.symm)
  rcases List.append_eq_append_iff.mp heq with ⟨as, rfl, hrest⟩ | ⟨as, rfl, hrest⟩
  · rw [hsame hrest hw hw', List.append_nil]
  · rw [hsame hrest hw' hw, List.append_nil]

/-! ## Open parentheses -/

/-- In a text that ends above its start a `(` stays open. -/
theorem exists_open {cs : List Char} (h : 1 ≤ net cs) :
    ∃ xs w, cs = xs ++ '(' :: w ∧ Balanced w := by
  induction hn : cs.length using Nat.strongRecOn generalizing cs with
  | ind n ih =>
      cases cs with
      | nil => exact absurd h (by decide)
      | cons c cs =>
          rw [net_cons] at h
          rw [List.length_cons] at hn
          by_cases hrest : 1 ≤ net cs
          · obtain ⟨xs, w, rfl, hw⟩ := ih cs.length (by omega) hrest rfl
            exact ⟨c :: xs, w, rfl, hw⟩
          obtain ⟨rfl, hrise⟩ : c = '(' ∧ rise c = 1 := by
            rcases rise_cases c with hopen | ⟨-, hrise⟩ | ⟨-, -, hrise⟩
            · exact hopen
            · omega
            · omega
          have hlevel : net cs = 0 := by omega
          cases hclosing : closing 1 cs with
          | none =>
              have habove : Above 0 cs := (closing_eq_none_iff (Int.le_refl 0)).mp hclosing
              exact ⟨[], cs, rfl, habove, hlevel⟩
          | some m =>
              obtain ⟨v, rest, rfl, rfl, -, hnet⟩ := exists_of_closing (by decide) hclosing
              rw [net_append, net_cons, rise_close] at hlevel
              rw [List.length_append, List.length_cons] at hn
              obtain ⟨xs, w, rfl, hw⟩ := ih rest.length (by omega) (by omega) rfl
              exact ⟨'(' :: v ++ ')' :: xs, w, by simp, hw⟩

/-! ## Balance by partners -/

theorem Balanced.closes (h : Balanced cs) (hopen : cs[i]? = some '(') : closingAt cs i ≠ none := by
  obtain ⟨us, rest, rfl, rfl⟩ := exists_split_of_getElem? hopen
  rw [Ne, closingAt_eq_none_iff]
  intro habove
  have hfront := (above_append.mp h.above).1.stop
  have hback := habove.stop
  have hlevel := h.level
  rw [net_open] at hlevel
  omega

theorem Balanced.opens (h : Balanced cs) (hclose : cs[j]? = some ')') : ∃ i, Partners cs i j := by
  obtain ⟨us, vs, rfl, rfl⟩ := exists_split_of_getElem? hclose
  have hlow := (above_append.mp h.above).2.2.start
  rw [rise_close] at hlow
  have hnet : 1 ≤ net us := by omega
  obtain ⟨xs, w, rfl, hw⟩ := exists_open hnet
  exact ⟨xs.length, partners_iff.mpr ⟨xs, w, vs, rfl, hw, rfl, rfl⟩⟩

/-- A text where every `)` has a partner never falls below its start: the first
`)` that did so would need a `(` in a text that is balanced without it. -/
theorem above_of_partners (h : ∀ j, cs[j]? = some ')' → ∃ i, Partners cs i j) : Above 0 cs := by
  by_contra hbelow
  rw [← closing_eq_none_iff (Int.le_refl 0)] at hbelow
  obtain ⟨n, hclosing⟩ := Option.ne_none_iff_exists'.mp hbelow
  obtain ⟨w, rest, rfl, rfl, habove, hnet⟩ := exists_of_closing (by decide) hclosing
  obtain ⟨i, hi⟩ := h w.length (by simp)
  obtain ⟨us, v, vs, hcs, hv, -, hj⟩ := partners_iff.mp hi
  obtain ⟨rfl, -⟩ := List.append_inj hcs hj.symm
  have hlow := (above_append.mp habove).1.stop
  rw [net_open, hv.level] at hnet
  omega

theorem balanced_of_partners (hopen : ∀ i, cs[i]? = some '(' → closingAt cs i ≠ none)
    (hclose : ∀ j, cs[j]? = some ')' → ∃ i, Partners cs i j) : Balanced cs := by
  have habove := above_of_partners hclose
  refine ⟨habove, ?_⟩
  by_contra hlevel
  have hnet : 1 ≤ net cs := by
    have hstop := habove.stop
    omega
  obtain ⟨xs, w, rfl, hw⟩ := exists_open hnet
  exact hopen xs.length (by simp) ((closingAt_eq_none_iff xs w).mpr hw.above)

/-- **The check and the search for partners agree.** A text without literals
passes the check of its parentheses iff every `(` has a partner and every `)` is
the partner of exactly one `(`. What stands between partners passes the check,
also in a text that does not. -/
theorem balanced_iff_partners (text : String) (hquote : '\'' ∉ text.toList) :
    (balanced text = true
        ↔ (∀ i, text.toList[i]? = some '(' → closingAt text.toList i ≠ none)
          ∧ ∀ j, text.toList[j]? = some ')' → ∃! i, Partners text.toList i j)
      ∧ ∀ i j, Partners text.toList i j →
        balanced (String.ofList ((text.toList.take j).drop (i + 1))) = true := by
  refine ⟨?_, fun i j h => ?_⟩
  · rw [balanced_eq_true_iff hquote]
    constructor
    · intro h
      refine ⟨fun i hi => h.closes hi, fun j hj => ?_⟩
      obtain ⟨i, hi⟩ := h.opens hj
      exact ⟨i, hi, fun i' hi' => hi'.unique hi⟩
    · rintro ⟨hopen, hclose⟩
      exact balanced_of_partners hopen fun j hj => (hclose j hj).exists
  · have hinside : '\'' ∉ (String.ofList ((text.toList.take j).drop (i + 1))).toList := by
      rw [String.toList_ofList]
      exact fun hmem => hquote (List.mem_of_mem_take (List.mem_of_mem_drop hmem))
    rw [balanced_eq_true_iff hinside, String.toList_ofList]
    exact h.balanced_between

/-- A call around a group and an empty pair, and a `(` that stays open. -/
theorem balanced_iff_partners_nested :
    '\'' ∉ "f((a) || ()) && (b".toList
      ∧ Partners "f((a) || ()) && (b".toList 1 11
      ∧ balanced (String.ofList "(a) || ()".toList) = true
      ∧ balanced "f((a) || ()) && (b" = false := by
  have hquote : '\'' ∉ "f((a) || ()) && (b".toList := by decide +kernel
  have hpair : Partners "f((a) || ()) && (b".toList 1 11 := by decide +kernel
  obtain ⟨hiff, hinside⟩ := balanced_iff_partners "f((a) || ()) && (b" hquote
  refine ⟨hquote, hpair, hinside 1 11 hpair, Bool.eq_false_iff.mpr fun h => ?_⟩
  exact (hiff.mp h).1 16 (by decide +kernel) (by decide +kernel)

/-! ## Wrapping pairs -/

/-- The body stands in the text between the front and the back, inside of this
many pairs of partners with only blanks between one pair and the next. -/
inductive Inside (cs : List Char) : (pairs : Nat) → (front body back : List Char) → Prop
  | bare : Inside cs 0 [] cs []
  | pair {n : Nat} {front as body bs back : List Char}
      (h : Inside cs n front ('(' :: (as ++ body ++ bs) ++ [')']) back) (ha : Blanks as)
      (hb : Blanks bs)
      (hpair : Partners cs front.length (front ++ '(' :: (as ++ body ++ bs)).length) :
      Inside cs (n + 1) (front ++ '(' :: as) body (bs ++ ')' :: back)

theorem Inside.eq {n : Nat} {front body back : List Char} (h : Inside cs n front body back) :
    cs = front ++ body ++ back := by
  induction h with
  | bare => simp
  | pair _ _ _ _ ih => simpa using ih

/-- Stripping a text on goes on from the pairs around it to those inside. -/
theorem Inside.stripped {text front back : List Char} {n : Nat}
    (h : Inside text n front (trim cs) back) :
    ∃ m front' back', Inside text m front' (stripOuter cs) back' := by
  refine stripOuter_induction (P := fun cs ds => ∀ n front back,
    Inside text n front (trim cs) back → ∃ m front' back', Inside text m front' ds back')
    ?_ ?_ cs n front back h
  · intro _ _ n front back h
    exact ⟨n, front, back, h⟩
  · intro cs w hw hbalanced _ ih n front back h
    obtain ⟨as, bs, ha, hb, hpad⟩ := exists_pad w
    rw [hw] at h
    have hpair : Partners text front.length (front ++ '(' :: w).length :=
      partners_iff.mpr ⟨front, w, back, by simpa using h.eq, hbalanced, rfl, rfl⟩
    rw [hpad] at h hpair
    exact ih (n + 1) _ _ (.pair h ha hb hpair)

theorem stripOuter_eq_nil_iff : stripOuter cs = [] ↔ trim cs = [] := by
  refine ⟨fun h => by_contra fun hne => stripOuter_ne_nil hne h, fun h => ?_⟩
  rw [stripOuter_of_none (by rw [h]; rfl), h]

theorem parse_wrap {text : String} (hne : trim text.toList ≠ []) (h : Balanced text.toList) :
    parse ("(" ++ text ++ ")") = parse text := by
  rw [parse, String.toList_append, String.toList_append]
  exact ofChars_congr (stripOuter_wrap h hne)

/-- **Stripping is exact.** Whatever the text is, it comes down to a trimmed body
from which nothing more is stripped and which is empty only if the text is blank.
All that goes are blanks and the pairs of partners that enclose the body. So a
balanced text that is more than blanks is read alike in parentheses. -/
theorem stripping_is_exact (text : String) :
    trim (stripOuter text.toList) = stripOuter text.toList
      ∧ (stripOuter text.toList = [] ↔ allBlank text = true)
      ∧ stripOuter (stripOuter text.toList) = stripOuter text.toList
      ∧ (∃ n front back, Inside (trim text.toList) n front (stripOuter text.toList) back)
      ∧ (allBlank text = false → Balanced text.toList →
        parse ("(" ++ text ++ ")") = parse text) := by
  refine ⟨trim_stripOuter _, stripOuter_eq_nil_iff.trans allBlank_iff.symm,
    stripOuter_stripOuter _, Inside.bare.stripped, fun hblank hbalanced => ?_⟩
  exact parse_wrap (mt allBlank_iff.mpr (Bool.eq_false_iff.mp hblank)) hbalanced

/-- Two pairs around two groups, the inner one with blanks around it, and an
operator too many. -/
theorem stripping_is_exact_nested :
    allBlank "( ((a) && (b) &&) )" = false ∧ Balanced "( ((a) && (b) &&) )".toList
      ∧ stripOuter "( ((a) && (b) &&) )".toList = "(a) && (b) &&".toList
      ∧ parse "(( ((a) && (b) &&) ))" = parse "( ((a) && (b) &&) )" := by
  have hblank : allBlank "( ((a) && (b) &&) )" = false := by decide +kernel
  have hbalanced : Balanced "( ((a) && (b) &&) )".toList :=
    balanced_iff.mpr (by decide +kernel)
  obtain ⟨-, -, -, -, hread⟩ := stripping_is_exact "( ((a) && (b) &&) )"
  exact ⟨hblank, hbalanced, by decide +kernel, hread hblank hbalanced⟩

end JobChart.Guard
