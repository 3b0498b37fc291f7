import Mathlib.Algebra.Order.BigOperators.Group.List
import Mathlib.Algebra.Order.Ring.Int
import Mathlib.Algebra.Order.Ring.Nat
import JobChart.Guard.Basic
import JobChart.Proofs.Guard.Scan

/-!
# Splitting at the top level, as a whole

What comes of a cut is said here without the scanner: the pieces with the
operator between them are the text again (`intercalate_pieces`), no piece can
be cut further, and all but the last end at the depth they started from
(`cut_pieces`). That is all there is to a split (`top_level_split_exact`): the
parts are the pieces, trimmed, without those that are blank. The other way
round, texts with the operator between them have the parts that each of them
has, as long as they come `Apart` (`splitTop_intercalate`).
-/

namespace JobChart

open Text

/-! ## The two operators -/

namespace Connective

/-- The character the operator is made of. -/
def char : Connective → Char
  | all => '&'
  | any => '|'

theorem toList_symbol (k : Connective) : k.symbol.toList = [k.char, k.char] := by
  cases k <;> rfl

@[simp] theorem rise_char (k : Connective) : Guard.rise k.char = 0 := by
  cases k <;> rfl

@[simp] theorem isBlank_char (k : Connective) : isBlank k.char = false := by
  cases k <;> decide

end Connective

namespace Guard

variable {c : Char} {d : Int}

/-! ## The cut -/

/-- Texts that come apart again when the operator stands between them: every
one but the last leaves the depth where it is and does not end in the
operator's character. -/
def Apart (c : Char) (ts : List (List Char)) : Prop :=
  ts.Pairwise fun t _ => net t = 0 ∧ t.getLast? ≠ some c

/-- Pieces as the scanner leaves them: none can be cut further, and they come
apart again. -/
structure Cut (c : Char) (ps : List (List Char)) : Prop where
  single : ∀ p ∈ ps, Single c 0 p
  apart : Apart c ps

/-- What a text is cut into from this depth on: a first piece, which goes on at
the depth, and a cut behind it. -/
structure CutFrom (c : Char) (d : Int) (cs p : List Char) (ps : List (List Char)) : Prop where
  join : [c, c].intercalate (p :: ps) = cs
  single : Single c d p
  last : ps ≠ [] → d + net p = 0 ∧ p.getLast? ≠ some c
  cut : Cut c ps

theorem CutFrom.nil : CutFrom c d [] [] [] where
  join := rfl
  single := single_nil
  last := fun h => absurd rfl h
  cut := ⟨fun _ h => (List.not_mem_nil h).elim, .nil⟩

theorem CutFrom.operator {cs p : List Char} {ps : List (List Char)} (h : CutFrom c 0 cs p ps) :
    CutFrom c 0 (c :: c :: cs) [] (p :: ps) where
  join := by
    rw [List.intercalate_cons_cons, h.join]
    rfl
  single := single_nil
  last := fun _ => ⟨rfl, by simp⟩
  cut := by
    refine ⟨List.forall_mem_cons.mpr ⟨h.single, h.cut.single⟩,
      List.pairwise_cons.mpr ⟨fun q hq => ?_, h.cut.apart⟩⟩
    have hend := h.last (List.ne_nil_of_mem hq)
    rwa [Int.zero_add] at hend

theorem CutFrom.cons (hc : rise c = 0) {a : Char} {cs p : List Char} {ps : List (List Char)}
    (h : CutFrom c (d + rise a) cs p ps) (hplain : ¬OperatorAt c d (a :: cs)) :
    CutFrom c d (a :: cs) (a :: p) ps := by
  rw [operatorAt_cons_iff] at hplain
  refine ⟨?_, h.single.cons ?_, fun hps => ?_, h.cut⟩
  · rw [← h.join]
    cases ps <;> simp [List.intercalate_cons_cons]
  · rw [operatorAt_cons_iff]
    rintro ⟨hd, ha, hhead⟩
    refine hplain ⟨hd, ha, ?_⟩
    obtain ⟨rest, rfl⟩ := List.head?_eq_some_iff.mp hhead
    rw [← h.join]
    cases ps <;> simp [List.intercalate_cons_cons]
  · obtain ⟨hnet, hend⟩ := h.last hps
    refine ⟨by rw [net_cons]; omega, ?_⟩
    cases p with
    | cons b p => simpa [List.getLast?_cons] using hend
    | nil =>
        intro hac
        obtain rfl : a = c := by simpa using hac
        obtain ⟨q, qs, rfl⟩ := List.exists_cons_of_ne_nil hps
        refine hplain ⟨?_, rfl, ?_⟩
        · rw [net_nil, hc] at hnet
          omega
        · rw [← h.join, List.intercalate_cons_cons]
          rfl

theorem cut_piecesFrom (hc : rise c = 0) (d : Int) (cs : List Char) :
    ∃ p ps, piecesFrom [c, c] 0 d cs = p :: ps ∧ CutFrom c d cs p ps := by
  induction d, cs using scan_induction c with
  | nil d => exact ⟨[], [], by rw [piecesFrom], .nil⟩
  | operator cs ih =>
      obtain ⟨p, ps, hpieces, h⟩ := ih
      exact ⟨[], p :: ps, by rw [piecesFrom_operator hc, hpieces], h.operator⟩
  | plain d a cs hplain ih =>
      obtain ⟨p, ps, hpieces, h⟩ := ih
      refine ⟨a :: p, ps, ?_, h.cons hc hplain⟩
      rw [piecesFrom_cons hplain, hpieces]
      rfl

theorem cut_pieces (hc : rise c = 0) (cs : List Char) : Cut c (pieces [c, c] cs) := by
  obtain ⟨p, ps, hpieces, h⟩ := cut_piecesFrom hc 0 cs
  rw [pieces, hpieces]
  exact h.operator.cut

/-- With the operator between them the pieces are the text again. -/
theorem intercalate_pieces (hc : rise c = 0) (cs : List Char) :
    [c, c].intercalate (pieces [c, c] cs) = cs := by
  obtain ⟨p, ps, hpieces, h⟩ := cut_piecesFrom hc 0 cs
  rw [pieces, hpieces, h.join]

theorem net_operator (hc : rise c = 0) : net [c, c] = 0 := by simp [hc]

theorem single_iff_length (hc : rise c = 0) {cs : List Char} :
    Single c 0 cs ↔ (pieces [c, c] cs).length = 1 := by
  refine ⟨fun h => by rw [pieces, h]; rfl, fun h => ?_⟩
  obtain ⟨p, hp⟩ := List.length_eq_one_iff.mp h
  have hjoin := intercalate_pieces hc cs
  rw [hp, List.intercalate_singleton] at hjoin
  rwa [hjoin] at hp

/-- What stands in front of a piece and behind it. -/
theorem Cut.around (hc : rise c = 0) {ps : List (List Char)} {p : List Char} (h : Cut c ps)
    (hp : p ∈ ps) :
    ∃ xs ys, [c, c].intercalate ps = xs ++ p ++ ys ∧ net xs = 0 ∧ (xs = [] ∨ xs.getLast? = some c)
      ∧ (ys = [] ∨ net p = 0 ∧ ys.head? = some c) := by
  induction ps with
  | nil => cases hp
  | cons q ps ih =>
      cases ps with
      | nil =>
          rw [List.mem_singleton.mp hp, List.intercalate_singleton]
          exact ⟨[], [], by simp, rfl, Or.inl rfl, Or.inl rfl⟩
      | cons q' ps =>
          have hends := List.pairwise_cons.mp h.apart
          have hnet := (hends.1 q' List.mem_cons_self).1
          rw [List.intercalate_cons_cons]
          rcases List.mem_cons.mp hp with rfl | hp
          · exact ⟨[], _, by rw [List.nil_append, List.append_assoc], rfl, Or.inl rfl,
              Or.inr ⟨hnet, rfl⟩⟩
          · obtain ⟨xs, ys, hjoin, hxs, hlast, hys⟩ :=
              ih ⟨fun p hp => h.single p (List.mem_cons_of_mem _ hp), hends.2⟩ hp
            refine ⟨q ++ [c, c] ++ xs, ys, by rw [hjoin]; simp only [List.append_assoc], ?_,
              Or.inr ?_, hys⟩
            · rw [net_append, net_append, net_operator hc, hnet, hxs]
              rfl
            · rcases hlast with rfl | hlast
              · simp
              · rw [List.getLast?_append, hlast]
                rfl

/-- The pieces of a balanced text are balanced. -/
theorem Balanced.piece (hc : rise c = 0) {cs p : List Char} (h : Balanced cs)
    (hp : p ∈ pieces [c, c] cs) : Balanced p := by
  obtain ⟨xs, ys, hcs, hxs, -, hys⟩ := (cut_pieces hc cs).around hc hp
  rw [intercalate_pieces hc] at hcs
  have hnet : net p = 0 := by
    rcases hys with rfl | ⟨hnet, -⟩
    · have hlevel := h.level
      rw [hcs, net_append, net_append, hxs, net_nil] at hlevel
      omega
    · exact hnet
  exact (hcs ▸ h).middle hxs hnet

/-! ## Texts side by side -/

section Intercalate

variable {ts : List (List Char)}

/-- Induction over texts with an operator between them. -/
theorem intercalate_induction {op : List Char} {P : List (List Char) → List Char → Prop}
    (one : ∀ t, P [t] t)
    (more : ∀ t ts, ts ≠ [] → P ts (op.intercalate ts) →
      P (t :: ts) (t ++ op ++ op.intercalate ts))
    (hts : ts ≠ []) : P ts (op.intercalate ts) := by
  induction ts with
  | nil => exact absurd rfl hts
  | cons t ts ih =>
      by_cases hnil : ts = []
      · rw [hnil, List.intercalate_singleton]
        exact one t
      · rw [List.intercalate_cons_of_ne_nil hnil]
        exact more t ts hnil (ih hnil)

theorem net_intercalate (hc : rise c = 0) (hts : ts ≠ []) :
    net ([c, c].intercalate ts) = (ts.map net).sum := by
  refine intercalate_induction (P := fun ts s => net s = (ts.map net).sum) (fun t => ?_) ?_ hts
  · simp
  · intro t ts _ ih
    rw [net_append, net_append, net_operator hc, ih]
    simp

theorem count_intercalate (a : Char) (hts : ts ≠ []) :
    ([c, c].intercalate ts).count a + [c, c].count a
      = (ts.map (List.count a)).sum + ts.length * [c, c].count a := by
  refine intercalate_induction (P := fun ts s => s.count a + [c, c].count a
    = (ts.map (List.count a)).sum + ts.length * [c, c].count a) (fun t => ?_) ?_ hts
  · simp
  · intro t ts _ ih
    rw [List.count_append, List.count_append, List.map_cons, List.sum_cons, List.length_cons,
      Nat.succ_mul]
    omega

theorem balanced_intercalate (hc : rise c = 0) (hts : ts ≠ []) (h : ∀ t ∈ ts, Balanced t) :
    Balanced ([c, c].intercalate ts) := by
  have hoperator : Balanced [c, c] := balanced_of_level fun a ha => by simp_all
  refine intercalate_induction (P := fun ts s => (∀ t ∈ ts, Balanced t) → Balanced s)
    (fun t ht => ht t List.mem_cons_self) ?_ hts h
  intro t ts _ ih hall
  obtain ⟨ht, hrest⟩ := List.forall_mem_cons.mp hall
  exact (ht.append hoperator).append (ih hrest)

/-- Texts that another operator does not cut are not cut by it side by side. -/
theorem single_intercalate {a : Char} (ha : rise a = 0) (hc : rise c = 0) (hne : c ≠ a)
    (hts : ts ≠ []) (hends : ts.Pairwise fun t _ => net t = 0) (h : ∀ t ∈ ts, Single a 0 t) :
    Single a 0 ([c, c].intercalate ts) := by
  refine intercalate_induction (P := fun ts s => (ts.Pairwise fun t _ => net t = 0) →
    (∀ t ∈ ts, Single a 0 t) → Single a 0 s) (fun t _ ht => ht t List.mem_cons_self) ?_ hts hends h
  intro t ts hrest ih hends hall
  obtain ⟨hlevel, hends⟩ := List.pairwise_cons.mp hends
  obtain ⟨ht, hall⟩ := List.forall_mem_cons.mp hall
  obtain ⟨u, hu⟩ := List.exists_mem_of_ne_nil ts hrest
  have hoperator : Single a (0 + net t) [c, c] :=
    single_of_not_mem (by simpa using Ne.symm hne)
  have hfront : Single a 0 (t ++ [c, c]) :=
    ht.append ha hoperator (Or.inr (by simpa using hne))
  have hnet : net (t ++ [c, c]) = 0 := by
    rw [net_append, hlevel u hu, net_operator hc]
    rfl
  exact hfront.append ha (by rw [hnet]; exact ih hends hall) (Or.inl (by simpa using hne))

theorem pieces_operator (hc : rise c = 0) {xs : List Char} (hnet : net xs = 0)
    (hlast : xs.getLast? ≠ some c) (ys : List Char) :
    pieces [c, c] (xs ++ [c, c] ++ ys) = pieces [c, c] xs ++ pieces [c, c] ys := by
  rw [pieces, List.append_assoc, piecesFrom_append hc 0 xs (Or.inl hlast), hnet, Int.add_zero,
    List.cons_append, List.singleton_append, piecesFrom_operator hc,
    glue_nil_right (piecesFrom_ne_nil _ _ _ _)]
  rfl

/-- Texts that come apart have the pieces that each of them has. -/
theorem pieces_intercalate (hc : rise c = 0) (hts : ts ≠ []) (h : Apart c ts) :
    pieces [c, c] ([c, c].intercalate ts) = ts.flatMap (pieces [c, c]) := by
  refine intercalate_induction (P := fun ts s =>
    Apart c ts → pieces [c, c] s = ts.flatMap (pieces [c, c])) (fun t _ => ?_) ?_ hts h
  · exact (List.flatMap_singleton _ t).symm
  · intro t ts hne ih hapart
    obtain ⟨ht, hrest⟩ := List.pairwise_cons.mp hapart
    obtain ⟨u, us, rfl⟩ := List.exists_cons_of_ne_nil hne
    obtain ⟨hnet, hlast⟩ := ht u List.mem_cons_self
    rw [pieces_operator hc hnet hlast, ih hrest]
    exact List.flatMap_cons.symm

end Intercalate

/-- How often a character stands in the pieces and the operators. -/
theorem count_pieces (hc : rise c = 0) (a : Char) (cs : List Char) :
    cs.count a + [c, c].count a
      = ((pieces [c, c] cs).map (List.count a)).sum
        + (pieces [c, c] cs).length * [c, c].count a := by
  have hcount := count_intercalate a (pieces_ne_nil [c, c] cs) (c := c)
  rwa [intercalate_pieces hc] at hcount

/-! ## Parts -/

theorem map_trim_glue_left {as : List Char} (ha : Blanks as) {qs : List (List Char)}
    (hqs : qs ≠ []) : (glue [as] qs).map trim = qs.map trim := by
  obtain ⟨q, qs, rfl⟩ := List.exists_cons_of_ne_nil hqs
  have hpad := trim_pad ha blanks_nil q
  rw [List.append_nil] at hpad
  rw [glue, List.map_cons, hpad, List.map_cons]

theorem map_trim_glue_right {bs : List Char} (hb : Blanks bs) {ps : List (List Char)}
    (hps : ps ≠ []) : (glue ps [bs]).map trim = ps.map trim := by
  induction ps with
  | nil => exact absurd rfl hps
  | cons p ps ih =>
      cases ps with
      | nil => exact congrArg (fun q => [q]) (trim_pad blanks_nil hb p)
      | cons q ps =>
          rw [glue_cons (List.cons_ne_nil q ps), List.map_cons, ih (List.cons_ne_nil q ps)]
          rfl

/-- Blanks around a text come off its pieces. -/
theorem map_trim_pieces_pad (hc : rise c = 0) (hblank : isBlank c = false) {as bs : List Char}
    (ha : Blanks as) (hb : Blanks bs) (cs : List Char) :
    (pieces [c, c] (as ++ cs ++ bs)).map trim = (pieces [c, c] cs).map trim := by
  have hfront : as.getLast? ≠ some c := fun h =>
    not_mem_blanks hblank ha (List.mem_of_getLast? h)
  have hback : bs.head? ≠ some c := fun h =>
    not_mem_blanks hblank hb (List.mem_of_head? h)
  have hend : (pieces [c, c] (cs ++ bs)).map trim = (pieces [c, c] cs).map trim := by
    rw [pieces, piecesFrom_append hc 0 cs (Or.inr hback), single_blanks hblank hb,
      map_trim_glue_right hb (piecesFrom_ne_nil _ _ _ _)]
    rfl
  rw [pieces, List.append_assoc, piecesFrom_append hc 0 as (Or.inl hfront), net_blanks ha,
    Int.add_zero, single_blanks hblank ha, map_trim_glue_left ha (piecesFrom_ne_nil _ _ _ _)]
  exact hend

theorem mem_splitTop {op cs p : List Char} :
    p ∈ splitTop op cs ↔ p ≠ [] ∧ ∃ q ∈ pieces op cs, trim q = p := by
  rw [splitTop, List.mem_filter, List.mem_map, and_comm]
  simp

theorem trim_of_mem_splitTop {op cs p : List Char} (h : p ∈ splitTop op cs) : trim p = p := by
  obtain ⟨-, q, -, rfl⟩ := mem_splitTop.mp h
  exact trim_trim q

theorem length_splitTop_le (op cs : List Char) :
    (splitTop op cs).length ≤ (pieces op cs).length := by
  have hle := List.length_filter_le (fun p : List Char => decide (p ≠ [])) ((pieces op cs).map trim)
  rwa [List.length_map] at hle

theorem length_splitTop_lt_two (hc : rise c = 0) {cs : List Char} (h : Single c 0 cs) :
    (splitTop [c, c] cs).length < 2 := by
  refine Nat.lt_of_le_of_lt (length_splitTop_le _ _) ?_
  rw [(single_iff_length hc).mp h]
  decide

/-- Where no piece is blank none is left out. -/
theorem splitTop_of_nonblank {op cs : List Char} (h : ∀ q ∈ pieces op cs, trim q ≠ []) :
    splitTop op cs = (pieces op cs).map trim := by
  rw [splitTop, List.filter_eq_self]
  exact List.forall_mem_map.mpr fun q hq => decide_eq_true (h q hq)

/-- Blanks around a text do not show in its parts. -/
theorem splitTop_pad (hc : rise c = 0) (hblank : isBlank c = false) {as bs : List Char}
    (ha : Blanks as) (hb : Blanks bs) (cs : List Char) :
    splitTop [c, c] (as ++ cs ++ bs) = splitTop [c, c] cs := by
  rw [splitTop, map_trim_pieces_pad hc hblank ha hb, splitTop]

theorem splitTop_trim (hc : rise c = 0) (hblank : isBlank c = false) (cs : List Char) :
    splitTop [c, c] (trim cs) = splitTop [c, c] cs := by
  obtain ⟨as, bs, ha, hb, hcs⟩ := exists_pad cs
  have hpad := splitTop_pad hc hblank ha hb (trim cs)
  rw [← hcs] at hpad
  exact hpad.symm

/-- Texts that come apart have the parts that each of them has. -/
theorem splitTop_intercalate (hc : rise c = 0) {ts : List (List Char)} (hts : ts ≠ [])
    (h : Apart c ts) :
    splitTop [c, c] ([c, c].intercalate ts) = ts.flatMap (splitTop [c, c]) := by
  rw [splitTop, pieces_intercalate hc hts h, List.map_flatMap, List.filter_flatMap]
  rfl

/-- A text in one piece is its only part. -/
theorem splitTop_of_single {cs : List Char} (h : Single c 0 cs) (hne : trim cs ≠ []) :
    splitTop [c, c] cs = [trim cs] := by
  rw [Single] at h
  rw [splitTop, pieces, h]
  simp [hne]

/-- A part is not split again. -/
theorem splitTop_part (hc : rise c = 0) (hblank : isBlank c = false) {cs p : List Char}
    (hp : p ∈ splitTop [c, c] cs) : splitTop [c, c] p = [p] := by
  obtain ⟨hne, q, hq, rfl⟩ := mem_splitTop.mp hp
  rw [splitTop_trim hc hblank, splitTop_of_single ((cut_pieces hc cs).single q hq) hne]

/-- Of the parts all but the last come back to the depth they started from. -/
theorem splitTop_ends (hc : rise c = 0) (cs : List Char) :
    (splitTop [c, c] cs).Pairwise fun p _ => net p = 0 := by
  refine List.Pairwise.filter _ (List.pairwise_map.mpr ?_)
  refine (cut_pieces hc cs).apart.imp fun h => ?_
  rw [net_trim]
  exact h.1

/-- What blanks do not count for adds up alike over the parts and the pieces. -/
theorem sum_map_splitTop {M : Type} [AddMonoid M] {f : List Char → M} (hnil : f [] = 0)
    (htrim : ∀ p, f (trim p) = f p) (op cs : List Char) :
    ((splitTop op cs).map f).sum = ((pieces op cs).map f).sum := by
  rw [splitTop]
  induction pieces op cs with
  | nil => rfl
  | cons p ps ih =>
      rw [List.map_cons, List.filter_cons]
      split
      · rw [List.map_cons, List.sum_cons, ih, htrim, List.map_cons, List.sum_cons]
      · next hp =>
        have hblank : trim p = [] := by simpa using hp
        rw [ih, List.map_cons, List.sum_cons, ← htrim p, hblank, hnil, zero_add]

theorem net_splitTop (hc : rise c = 0) (cs : List Char) :
    ((splitTop [c, c] cs).map net).sum = net cs := by
  rw [sum_map_splitTop rfl net_trim, ← net_intercalate hc (pieces_ne_nil _ _),
    intercalate_pieces hc]

theorem Apart.of_mem_dropLast {ts : List (List Char)} {t : List Char} (h : Apart c ts)
    (ht : t ∈ ts.dropLast) : net t = 0 ∧ t.getLast? ≠ some c := by
  rcases List.eq_nil_or_concat ts with rfl | ⟨front, last, rfl⟩
  · cases ht
  · rw [List.concat_eq_append] at h ht
    rw [List.dropLast_concat] at ht
    exact (List.pairwise_append.mp h).2.2 t ht last (List.mem_singleton_self last)

/-- **The split is exact.** Every text is made of raw parts with the operator
between them. All but the last have as many `(` as `)` and leave no half of an
operator at their end, and in no part the operator stands behind as many `(` as
`)`. The split gives these parts, trimmed and without the blank ones, and each of
them is its own only part. -/
theorem top_level_split_exact (k : Connective) (text : String) :
    ∃ ps, ps ≠ [] ∧ k.symbol.toList.intercalate ps = text.toList
      ∧ (∀ p ∈ ps.dropLast, p.count '(' = p.count ')' ∧ p.getLast? ≠ some k.char)
      ∧ (∀ p ∈ ps, ∀ xs ys, p = xs ++ k.symbol.toList ++ ys → xs.count '(' ≠ xs.count ')')
      ∧ splitTop k.symbol.toList text.toList = (ps.map trim).filter (· ≠ [])
      ∧ ∀ p ∈ splitTop k.symbol.toList text.toList, splitTop k.symbol.toList p = [p] := by
  have hcut := cut_pieces k.rise_char text.toList
  rw [k.toList_symbol]
  refine ⟨pieces [k.char, k.char] text.toList, pieces_ne_nil _ _, intercalate_pieces k.rise_char _,
    fun p hp => ?_, fun p hp xs ys hxs => ?_, rfl,
    fun p hp => splitTop_part k.rise_char k.isBlank_char hp⟩
  · obtain ⟨hnet, hlast⟩ := hcut.apart.of_mem_dropLast hp
    exact ⟨net_eq_zero_iff.mp hnet, hlast⟩
  · have hnet := (hcut.single p hp).net_ne k.rise_char hxs
    rwa [Int.zero_add, Ne, net_eq_zero_iff] at hnet

/-- Three bars in a row, an operator in parentheses, one behind a `)` without a
partner, and two operators with nothing between them. -/
theorem top_level_split_exact_bars :
    splitTop Connective.any.symbol.toList "a|||b || (c || d)||||e) || f".toList
        = ["a".toList, "|b".toList, "(c || d)".toList, "e) || f".toList]
      ∧ splitTop Connective.any.symbol.toList "e) || f".toList = ["e) || f".toList] := by
  have hsplit : splitTop Connective.any.symbol.toList "a|||b || (c || d)||||e) || f".toList
      = ["a".toList, "|b".toList, "(c || d)".toList, "e) || f".toList] := by decide +kernel
  obtain ⟨ps, -, -, -, -, -, hagain⟩ :=
    top_level_split_exact .any "a|||b || (c || d)||||e) || f"
  exact ⟨hsplit, hagain _ (by rw [hsplit]; simp)⟩

/-! ## Parts at another operator -/

/-- How many pieces are more than blanks. -/
def partCount (ps : List (List Char)) : Nat := ps.countP fun p => trim p ≠ []

theorem length_splitTop (op cs : List Char) :
    (splitTop op cs).length = partCount (pieces op cs) := by
  rw [splitTop, ← List.countP_eq_length_filter, List.countP_map]
  rfl

theorem partCount_cons (p : List Char) (ps : List (List Char)) :
    partCount (p :: ps) = partCount ps + if trim p ≠ [] then 1 else 0 := by
  rw [partCount, partCount, List.countP_cons]
  simp

/-- A piece that grows stays more than blanks. -/
theorem partCount_grow {p q : List Char} (h : trim p ≠ [] → trim q ≠ [])
    (ps : List (List Char)) : partCount (p :: ps) ≤ partCount (q :: ps) := by
  rw [partCount_cons, partCount_cons]
  by_cases hp : trim p ≠ []
  · rw [if_pos hp, if_pos (h hp)]
  · rw [if_neg hp]
    omega

theorem trim_append_ne_nil {p q : List Char} (h : trim p ≠ [] ∨ trim q ≠ []) :
    trim (p ++ q) ≠ [] := by
  rw [Ne, trim_eq_nil_iff, blanks_append]
  rintro ⟨hp, hq⟩
  exact h.elim (fun h => h (trim_eq_nil_iff.mpr hp)) fun h => h (trim_eq_nil_iff.mpr hq)

theorem partCount_le_glue_left (ps qs : List (List Char)) :
    partCount ps ≤ partCount (glue ps qs) := by
  induction ps with
  | nil => exact Nat.zero_le _
  | cons p ps ih =>
      cases ps with
      | nil =>
          cases qs with
          | nil => exact Nat.le_refl _
          | cons q qs =>
              have hgrow : partCount [p] ≤ partCount [p ++ q] :=
                partCount_grow (fun hp => trim_append_ne_nil (Or.inl hp)) []
              refine Nat.le_trans hgrow ?_
              rw [glue, partCount_cons, partCount_cons]
              exact Nat.add_le_add_right (Nat.zero_le _) _
      | cons p' ps =>
          rw [glue_cons (List.cons_ne_nil p' ps), partCount_cons, partCount_cons p]
          exact Nat.add_le_add_right ih _

theorem partCount_le_glue_right {ps : List (List Char)} (hps : ps ≠ []) (qs : List (List Char)) :
    partCount qs ≤ partCount (glue ps qs) := by
  induction ps with
  | nil => exact absurd rfl hps
  | cons p ps ih =>
      cases ps with
      | nil =>
          cases qs with
          | nil => exact Nat.zero_le _
          | cons q qs => exact partCount_grow (fun hq => trim_append_ne_nil (Or.inr hq)) qs
      | cons p' ps =>
          rw [glue_cons (List.cons_ne_nil p' ps), partCount_cons]
          exact Nat.le_trans (ih (List.cons_ne_nil p' ps)) (Nat.le_add_right _ _)

/-- A part has no more parts at another operator than the text it is part of. -/
theorem length_splitTop_part {a : Char} (hc : rise c = 0) (ha : rise a = 0)
    (hblank : isBlank a = false) (hne : c ≠ a) {cs p : List Char} (hp : p ∈ splitTop [c, c] cs) :
    (splitTop [a, a] p).length ≤ (splitTop [a, a] cs).length := by
  obtain ⟨-, q, hq, rfl⟩ := mem_splitTop.mp hp
  obtain ⟨xs, ys, hcs, hxs, hfront, hback⟩ := (cut_pieces hc cs).around hc hq
  rw [intercalate_pieces hc] at hcs
  have hseam : xs.getLast? ≠ some a := by
    rcases hfront with rfl | hfront
    · simp
    · rw [hfront]
      exact fun h => hne (Option.some.inj h)
  have hseam' : q.getLast? ≠ some a ∨ ys.head? ≠ some a := by
    rcases hback with rfl | ⟨-, hback⟩
    · exact Or.inr (by simp)
    · rw [hback]
      exact Or.inr fun h => hne (Option.some.inj h)
  rw [splitTop_trim ha hblank, length_splitTop, length_splitTop, hcs, pieces, pieces,
    List.append_assoc, piecesFrom_append ha 0 xs (Or.inl hseam), hxs, Int.add_zero,
    piecesFrom_append ha 0 q hseam']
  exact Nat.le_trans (partCount_le_glue_left _ _)
    (partCount_le_glue_right (piecesFrom_ne_nil _ _ _ _) _)

end Guard

end JobChart
