import JobChart.Guard.Check
import JobChart.Guard.Parens
import JobChart.Proofs.Text.Blank

/-!
# Parentheses that pair up

What the walks over a text with a running depth find, said by the depth
alone: `net` is how far a text moves the depth, and in a `Balanced` text the
depth never falls below its start and comes back to it.

A wrapping pair goes exactly when it stands around a balanced text that is
not blank (`peel?_eq_some`). So a text whose front part is back at depth
zero before the end keeps its parentheses (`peel?_eq_none`).
-/

namespace JobChart.Guard

open Text

/-! ## Depth -/

/-- How far a character moves the running depth. -/
def rise (c : Char) : Int := if c = '(' then 1 else if c = ')' then -1 else 0

/-- How far a text moves the running depth. -/
def net : List Char → Int
  | [] => 0
  | c :: cs => rise c + net cs

@[simp] theorem net_nil : net [] = 0 := rfl

@[simp] theorem net_cons (c : Char) (cs : List Char) : net (c :: cs) = rise c + net cs := rfl

@[simp] theorem net_append (cs ds : List Char) : net (cs ++ ds) = net cs + net ds := by
  induction cs with
  | nil => rw [List.nil_append, net_nil, Int.zero_add]
  | cons c cs ih => rw [List.cons_append, net_cons, ih, net_cons, Int.add_assoc]

theorem rise_open : rise '(' = 1 := rfl

theorem rise_close : rise ')' = -1 := rfl

theorem net_open (us ws : List Char) : net (us ++ '(' :: ws) = net us + 1 + net ws := by
  rw [net_append, net_cons, rise_open, Int.add_assoc]

theorem rise_eq_zero {c : Char} (hopen : c ≠ '(') (hclose : c ≠ ')') : rise c = 0 := by
  rw [rise, if_neg hopen, if_neg hclose]

theorem rise_blank {c : Char} (h : isBlank c = true) : rise c = 0 := by
  refine rise_eq_zero ?_ ?_
  · rintro rfl
    exact absurd h (by decide)
  · rintro rfl
    exact absurd h (by decide)

theorem net_eq_zero {cs : List Char} (h : ∀ c ∈ cs, rise c = 0) : net cs = 0 := by
  induction cs with
  | nil => rfl
  | cons c cs ih =>
      obtain ⟨hc, hcs⟩ := List.forall_mem_cons.mp h
      rw [net_cons, hc, ih hcs]
      rfl

theorem rise_cases (c : Char) :
    c = '(' ∧ rise c = 1 ∨ c = ')' ∧ rise c = -1 ∨ c ≠ '(' ∧ c ≠ ')' ∧ rise c = 0 := by
  by_cases hopen : c = '('
  · exact Or.inl ⟨hopen, by rw [hopen]; rfl⟩
  by_cases hclose : c = ')'
  · exact Or.inr (Or.inl ⟨hclose, by rw [hclose]; rfl⟩)
  · exact Or.inr (Or.inr ⟨hopen, hclose, rise_eq_zero hopen hclose⟩)

theorem net_eq_count (cs : List Char) : net cs = cs.count '(' - cs.count ')' := by
  induction cs with
  | nil => rfl
  | cons c cs ih =>
      rw [net_cons, ih, List.count_cons, List.count_cons]
      rcases rise_cases c with ⟨rfl, hrise⟩ | ⟨rfl, hrise⟩ | ⟨hopen, hclose, hrise⟩
      · simp [hrise]
        omega
      · simp [hrise]
        omega
      · simp [hrise, hopen, hclose]

theorem net_eq_zero_iff {cs : List Char} : net cs = 0 ↔ cs.count '(' = cs.count ')' := by
  rw [net_eq_count]
  omega

theorem net_blanks {cs : List Char} (h : Blanks cs) : net cs = 0 :=
  net_eq_zero fun c hc => rise_blank (h c hc)

@[simp] theorem net_trim (cs : List Char) : net (trim cs) = net cs := by
  obtain ⟨as, bs, ha, hb, hcs⟩ := exists_pad cs
  have hnet := congrArg net hcs
  rw [net_append, net_append, net_blanks ha, net_blanks hb] at hnet
  omega

/-! ## Balance -/

/-- From this depth on the running depth never falls below zero. -/
def Above : Int → List Char → Prop
  | depth, [] => 0 ≤ depth
  | depth, c :: cs => 0 ≤ depth ∧ Above (depth + rise c) cs

theorem Above.start {d : Int} {cs : List Char} (h : Above d cs) : 0 ≤ d := by
  cases cs with
  | nil => exact h
  | cons c cs => exact h.1

theorem above_append {d : Int} {cs ds : List Char} :
    Above d (cs ++ ds) ↔ Above d cs ∧ Above (d + net cs) ds := by
  induction cs generalizing d with
  | nil =>
      rw [List.nil_append, net_nil, Int.add_zero]
      exact ⟨fun h => ⟨h.start, h⟩, fun h => h.2⟩
  | cons c cs ih =>
      rw [List.cons_append, Above, Above, ih, net_cons, Int.add_assoc, and_assoc]

theorem Above.stop {d : Int} {cs : List Char} (h : Above d cs) : 0 ≤ d + net cs := by
  have happ : Above d (cs ++ []) := by rwa [List.append_nil]
  exact (above_append.mp happ).2

theorem Above.mono {d e : Int} (hde : d ≤ e) {cs : List Char} (h : Above d cs) : Above e cs := by
  induction cs generalizing d e with
  | nil => exact Int.le_trans h hde
  | cons c cs ih => exact ⟨Int.le_trans h.1 hde, ih (Int.add_le_add_right hde _) h.2⟩

theorem above_of_level {d : Int} {cs : List Char} (hd : 0 ≤ d) (h : ∀ c ∈ cs, rise c = 0) :
    Above d cs := by
  induction cs with
  | nil => exact hd
  | cons c cs ih =>
      obtain ⟨hc, hcs⟩ := List.forall_mem_cons.mp h
      refine ⟨hd, ?_⟩
      rw [hc, Int.add_zero]
      exact ih hcs

/-- The parentheses pair up: the depth never falls below where it started and
ends there. -/
structure Balanced (cs : List Char) : Prop where
  above : Above 0 cs
  level : net cs = 0

theorem balancedFrom_iff {cs : List Char} {d : Nat} :
    balancedFrom d cs = true ↔ Above d cs ∧ d + net cs = 0 := by
  induction cs generalizing d with
  | nil => simp [balancedFrom, Above]
  | cons c cs ih =>
      rw [Above, net_cons, and_iff_right (Int.natCast_nonneg d), ← Int.add_assoc]
      by_cases hopen : c = '('
      · subst hopen
        rw [balancedFrom.eq_def]
        exact ih
      by_cases hclose : c = ')'
      · subst hclose
        rw [balancedFrom.eq_def]
        cases d with
        | zero =>
            have hlow : ¬Above ((0 : Nat) + rise ')') cs := fun h =>
              absurd h.start (by decide)
            exact iff_of_false Bool.false_ne_true fun h => hlow h.1
        | succ d =>
            have hdown : ((d + 1 : Nat) : Int) + rise ')' = d := by
              rw [rise_close]
              omega
            rw [hdown]
            exact ih
      · rw [balancedFrom.eq_def, rise_eq_zero hopen hclose, Int.add_zero]
        simp only [if_neg hopen, if_neg hclose]
        exact ih

theorem balanced_iff {cs : List Char} : Balanced cs ↔ balancedFrom 0 cs = true := by
  rw [balancedFrom_iff]
  simp only [Int.natCast_zero, Int.zero_add]
  exact ⟨fun h => ⟨h.above, h.level⟩, fun h => ⟨h.1, h.2⟩⟩

theorem Balanced.append {cs ds : List Char} (hcs : Balanced cs) (hds : Balanced ds) :
    Balanced (cs ++ ds) where
  above := above_append.mpr ⟨hcs.above, by
    rw [hcs.level]
    exact hds.above⟩
  level := by rw [net_append, hcs.level, hds.level, Int.add_zero]

theorem balanced_of_level {cs : List Char} (h : ∀ c ∈ cs, rise c = 0) : Balanced cs :=
  ⟨above_of_level (Int.le_refl 0) h, net_eq_zero h⟩

theorem balanced_blanks {cs : List Char} (h : Blanks cs) : Balanced cs :=
  balanced_of_level fun c hc => rise_blank (h c hc)

/-- What stands between two texts that leave the depth where it is. -/
theorem Balanced.middle {as cs bs : List Char} (h : Balanced (as ++ cs ++ bs))
    (has : net as = 0) (hcs : net cs = 0) : Balanced cs := by
  have habove := (above_append.mp (above_append.mp h.above).1).2
  rw [has] at habove
  exact ⟨habove, hcs⟩

theorem Balanced.trim {cs : List Char} (h : Balanced cs) : Balanced (trim cs) := by
  obtain ⟨as, bs, ha, hb, hcs⟩ := exists_pad cs
  have hlevel : net (Text.trim cs) = 0 := by rw [net_trim, h.level]
  rw [hcs] at h
  exact h.middle (net_blanks ha) hlevel

theorem Balanced.pad {as cs bs : List Char} (h : Balanced cs) (ha : Blanks as) (hb : Blanks bs) :
    Balanced (as ++ cs ++ bs) :=
  ((balanced_blanks ha).append h).append (balanced_blanks hb)

theorem balanced_of_trim {cs : List Char} (h : Balanced (Text.trim cs)) : Balanced cs := by
  obtain ⟨as, bs, ha, hb, hcs⟩ := exists_pad cs
  rw [hcs]
  exact h.pad ha hb

/-- A pair of parentheses leaves the depth where the text between them does. -/
@[simp] theorem net_wrap (cs : List Char) : net ('(' :: cs ++ [')']) = net cs := by
  rw [List.cons_append, net_cons, net_append]
  show 1 + (net cs + (-1 + 0)) = net cs
  omega

theorem count_wrap {a : Char} (ha : rise a = 0) (cs : List Char) :
    ('(' :: cs ++ [')']).count a = cs.count a := by
  have hopen : '(' ≠ a := by
    rintro rfl
    exact absurd ha (by decide)
  have hclose : ')' ≠ a := by
    rintro rfl
    exact absurd ha (by decide)
  rw [List.cons_append, List.count_cons_of_ne hopen, List.count_append,
    List.count_cons_of_ne hclose, List.count_nil, Nat.add_zero]

theorem trim_wrap (cs : List Char) : trim ('(' :: cs ++ [')']) = '(' :: cs ++ [')'] := by
  refine trim_of_ends (fun c hc => ?_) fun c hc => ?_
  · rw [← Option.some.inj hc]
    decide
  · rw [List.getLast?_concat] at hc
    rw [← Option.some.inj hc]
    decide

/-- A balanced text in parentheses is balanced. -/
theorem Balanced.wrap {cs : List Char} (h : Balanced cs) : Balanced ('(' :: cs ++ [')']) := by
  refine ⟨⟨Int.le_refl 0, ?_⟩, ?_⟩
  · refine above_append.mpr ⟨h.above.mono (by decide), ?_⟩
    rw [h.level]
    exact ⟨by decide, show (0 : Int) ≤ 0 + 1 + 0 + -1 by decide⟩
  · rw [net_wrap, h.level]

/-! ## The closing parenthesis -/

theorem closing_cons {c : Char} {d : Int} (h : ¬(c = ')' ∧ d = 1)) (cs : List Char) :
    closing d (c :: cs) = (closing (d + rise c) cs).map (· + 1) := by
  rw [closing]
  rcases rise_cases c with ⟨rfl, hrise⟩ | ⟨rfl, hrise⟩ | ⟨hopen, hclose, hrise⟩
  · rw [if_pos rfl, hrise]
  · rw [if_neg (by decide), if_pos rfl, if_neg fun hd => h ⟨rfl, hd⟩, hrise, Int.sub_eq_add_neg]
  · rw [if_neg hopen, if_neg hclose, hrise, Int.add_zero]

/-- The walk stays inside the parenthesis that it looks for the end of. -/
theorem one_le_rise {c : Char} {d : Int} (hd : 1 ≤ d) (h : ¬(c = ')' ∧ d = 1)) :
    1 ≤ d + rise c := by
  rcases rise_cases c with ⟨-, hrise⟩ | ⟨hclose, hrise⟩ | ⟨-, -, hrise⟩
  · omega
  · have hne : d ≠ 1 := fun hone => h ⟨hclose, hone⟩
    omega
  · omega

theorem closing_append {d : Int} {w rest : List Char} (h : Above (d - 1) w) (hnet : d + net w = 1) :
    closing d (w ++ ')' :: rest) = some w.length := by
  induction w generalizing d with
  | nil =>
      rw [net_nil, Int.add_zero] at hnet
      rw [hnet]
      rfl
  | cons c w ih =>
      obtain ⟨-, hrest⟩ := h
      rw [Int.sub_eq_add_neg, Int.add_right_comm, ← Int.sub_eq_add_neg] at hrest
      rw [net_cons, ← Int.add_assoc] at hnet
      have hinside : ¬(c = ')' ∧ d = 1) := by
        rintro ⟨rfl, rfl⟩
        exact absurd hrest.start (by decide)
      rw [List.cons_append, closing_cons hinside, ih hrest hnet]
      rfl

theorem exists_of_closing {d : Int} {cs : List Char} {n : Nat} (hd : 1 ≤ d)
    (h : closing d cs = some n) :
    ∃ w rest, cs = w ++ ')' :: rest ∧ w.length = n ∧ Above (d - 1) w ∧ d + net w = 1 := by
  induction cs generalizing d n with
  | nil => cases h
  | cons c cs ih =>
      by_cases hend : c = ')' ∧ d = 1
      · obtain ⟨rfl, rfl⟩ := hend
        exact ⟨[], cs, rfl, Option.some.inj h, Int.le_refl 0, rfl⟩
      · rw [closing_cons hend, Option.map_eq_some_iff] at h
        obtain ⟨m, hclosing, rfl⟩ := h
        obtain ⟨w, rest, rfl, rfl, habove, hnet⟩ := ih (one_le_rise hd hend) hclosing
        refine ⟨c :: w, rest, rfl, rfl, ⟨by omega, ?_⟩, ?_⟩
        · rwa [Int.sub_eq_add_neg, Int.add_right_comm, ← Int.sub_eq_add_neg]
        · rw [net_cons, ← Int.add_assoc, hnet]

/-- The walk finds no end in a text that never falls below its start. -/
theorem closing_eq_none_iff {d : Int} {cs : List Char} (hd : 0 ≤ d) :
    closing (d + 1) cs = none ↔ Above d cs := by
  induction cs generalizing d with
  | nil => simp [closing, Above, hd]
  | cons c cs ih =>
      rw [Above, and_iff_right hd]
      by_cases hend : c = ')' ∧ d + 1 = 1
      · obtain ⟨rfl, hone⟩ := hend
        obtain rfl : d = 0 := by omega
        exact iff_of_false (by simp [closing]) fun h => absurd h.start (by decide)
      · have hrise : 0 ≤ d + rise c := by
          have hlow := one_le_rise (by omega) hend
          omega
        rw [closing_cons hend, Option.map_eq_none_iff, Int.add_right_comm, ih hrise]

/-! ## Wrapping pairs -/

/-- A wrapping pair stands around a balanced text that is not blank. -/
theorem peel?_eq_some {cs ds : List Char} :
    peel? cs = some ds ↔
      ∃ w, cs = '(' :: w ++ [')'] ∧ Balanced w ∧ trim w = ds ∧ ds ≠ [] := by
  constructor
  · intro h
    cases cs with
    | nil => cases h
    | cons c cs =>
        rw [peel?] at h
        split at h
        · next hpair =>
          obtain ⟨rfl, hclosing⟩ := hpair
          rw [closing, if_pos rfl, Option.map_eq_some_iff] at hclosing
          obtain ⟨n, hclosing, hn⟩ := hclosing
          obtain ⟨w, rest, rfl, hlen, habove, hnet⟩ := exists_of_closing (by decide) hclosing
          have hrest : rest = [] := by
            rw [List.length_append, List.length_cons] at hn
            exact List.length_eq_zero_iff.mp (by omega)
          subst hrest
          rw [List.dropLast_concat] at h
          refine ⟨w, rfl, ⟨habove, by omega⟩, ?_⟩
          split at h
          · cases h
          · next d ds hd =>
            cases h
            exact ⟨hd, List.cons_ne_nil d ds⟩
        · cases h
  · rintro ⟨w, rfl, hw, rfl, hne⟩
    have hclosing : closing 0 ('(' :: (w ++ [')'])) = some (w ++ [')']).length := by
      rw [closing, if_pos rfl, closing_append (by simpa using hw.above) (by rw [hw.level]; rfl)]
      simp
    rw [List.cons_append, peel?, if_pos ⟨rfl, hclosing⟩, List.dropLast_concat]
    split
    · next hnil => exact absurd hnil hne
    · next d ds hd => rw [hd]

/-- A text whose front part is back where it started keeps its parentheses. -/
theorem peel?_eq_none {cs ds : List Char} (hcs : cs ≠ []) (hds : ds ≠ []) (hnet : net cs = 0) :
    peel? (cs ++ ds) = none := by
  refine Option.eq_none_iff_forall_ne_some.mpr fun es h => ?_
  obtain ⟨w, hw, hbalanced, -⟩ := peel?_eq_some.mp h
  obtain ⟨c, cs, rfl⟩ := List.exists_cons_of_ne_nil hcs
  rw [List.cons_append, List.cons_append] at hw
  obtain ⟨rfl, hinside⟩ := List.cons.inj hw
  have hfront : cs ++ ds.dropLast = w := by
    have hlast := congrArg List.dropLast hinside
    rwa [List.dropLast_append_of_ne_nil hds, List.dropLast_concat] at hlast
  have habove := hbalanced.above
  rw [← hfront] at habove
  have hlow := (above_append.mp habove).1.stop
  rw [net_cons, rise_open] at hnet
  omega

/-! ## Stripping -/

theorem stripOuter_trim (cs : List Char) : stripOuter (trim cs) = stripOuter cs := by
  cases h : peel? (trim cs) with
  | none => rw [stripOuter_of_none (by rw [trim_trim, h]), stripOuter_of_none h, trim_trim]
  | some ds => rw [stripOuter_of_some (by rw [trim_trim, h]), stripOuter_of_some h]

/-- Nothing goes from a trimmed text without a wrapping pair. -/
theorem stripOuter_eq_self {cs : List Char} (htrim : trim cs = cs) (hpeel : peel? cs = none) :
    stripOuter cs = cs := by
  rw [stripOuter_of_none (by rw [htrim, hpeel]), htrim]

/-- Parentheses around a balanced text go, unless it is blank. -/
theorem stripOuter_wrap {cs : List Char} (h : Balanced cs) (hne : trim cs ≠ []) :
    stripOuter ('(' :: cs ++ [')']) = stripOuter cs := by
  have hpeel : peel? (trim ('(' :: cs ++ [')'])) = some (trim cs) := by
    rw [trim_wrap]
    exact peel?_eq_some.mpr ⟨cs, rfl, h, rfl, hne⟩
  rw [stripOuter_of_some hpeel, stripOuter_trim]

/-- **Induction over the pairs that go.** What holds of a trimmed text without
a wrapping pair, and of a text when it holds of what a wrapping pair leaves,
holds of every text and what it is stripped to. -/
theorem stripOuter_induction {P : List Char → List Char → Prop}
    (bare : ∀ cs, peel? (trim cs) = none → P cs (trim cs))
    (wrapped : ∀ cs w, trim cs = '(' :: w ++ [')'] → Balanced w → trim w ≠ [] →
      P w (stripOuter w) → P cs (stripOuter w))
    (cs : List Char) : P cs (stripOuter cs) := by
  induction hn : cs.length using Nat.strongRecOn generalizing cs with
  | ind n ih =>
      cases h : peel? (trim cs) with
      | none =>
          rw [stripOuter_of_none h]
          exact bare cs h
      | some ds =>
          obtain ⟨w, hw, hbalanced, rfl, hne⟩ := peel?_eq_some.mp h
          rw [stripOuter_of_some h, stripOuter_trim]
          refine wrapped cs w hw hbalanced hne (ih w.length ?_ w rfl)
          have hlen := congrArg List.length hw
          have hle := length_trim_le cs
          simp only [List.length_append, List.length_cons, List.length_nil] at hlen
          omega

theorem trim_stripOuter (cs : List Char) : trim (stripOuter cs) = stripOuter cs :=
  stripOuter_induction (P := fun _ ds => trim ds = ds) (fun cs _ => trim_trim cs)
    (fun _ _ _ _ _ h => h) cs

theorem peel?_stripOuter (cs : List Char) : peel? (stripOuter cs) = none :=
  stripOuter_induction (P := fun _ ds => peel? ds = none) (fun _ h => h)
    (fun _ _ _ _ _ h => h) cs

theorem stripOuter_stripOuter (cs : List Char) : stripOuter (stripOuter cs) = stripOuter cs :=
  stripOuter_eq_self (trim_stripOuter cs) (peel?_stripOuter cs)

theorem stripOuter_ne_nil {cs : List Char} : trim cs ≠ [] → stripOuter cs ≠ [] :=
  stripOuter_induction (P := fun cs ds => trim cs ≠ [] → ds ≠ []) (fun _ _ h => h)
    (fun _ _ _ _ hne ih _ => ih hne) cs

@[simp] theorem net_stripOuter (cs : List Char) : net (stripOuter cs) = net cs := by
  refine stripOuter_induction (P := fun cs ds => net ds = net cs) (fun cs _ => net_trim cs) ?_ cs
  intro cs w hw _ _ ih
  rw [ih, ← net_trim cs, hw, net_wrap]

theorem Balanced.stripOuter {cs : List Char} : Balanced cs → Balanced (stripOuter cs) :=
  stripOuter_induction (P := fun cs ds => Balanced cs → Balanced ds) (fun _ _ h => h.trim)
    (fun _ _ _ hbalanced _ ih _ => ih hbalanced) cs

theorem balanced_of_stripOuter {cs : List Char} : Balanced (Guard.stripOuter cs) → Balanced cs := by
  refine stripOuter_induction (P := fun cs ds => Balanced ds → Balanced cs)
    (fun _ _ h => balanced_of_trim h) (fun cs w hw hbalanced _ _ _ => ?_) cs
  exact balanced_of_trim (hw ▸ hbalanced.wrap)

/-- Only blanks and parentheses go. -/
theorem count_stripOuter {c : Char} (hblank : isBlank c = false) (hrise : rise c = 0)
    (cs : List Char) : (stripOuter cs).count c = cs.count c := by
  refine stripOuter_induction (P := fun cs ds => ds.count c = cs.count c)
    (fun cs _ => count_trim hblank cs) ?_ cs
  intro cs w hw _ _ ih
  rw [ih, ← count_trim hblank cs, hw, count_wrap hrise]

end JobChart.Guard
