import JobChart.Guard.Printer
import JobChart.Proofs.Guard.Shape
import JobChart.Proofs.Guard.Split
import JobChart.Proofs.Text.Join

/-!
# The printed text of a guard

A group is printed as a row: the texts of its members with the operator and
a space on either side of it between them. What holds of the members' texts
carries over to the row: depth, balance, trimmed ends, and the parts, as long
as all members but the last come back to depth zero.
-/

namespace JobChart

open Text

theorem Connective.group_inj {k l : Connective} {gs hs : List Guard}
    (h : k.group gs = l.group hs) : k = l ∧ gs = hs := by
  cases k <;> cases l <;> cases h <;> exact ⟨rfl, rfl⟩

theorem Connective.forall_iff {p : Connective → Prop} : (∀ k, p k) ↔ p .all ∧ p .any := by
  refine ⟨fun h => ⟨h .all, h .any⟩, fun h k => ?_⟩
  cases k with
  | all => exact h.1
  | any => exact h.2

instance Connective.decidableForall {p : Connective → Prop} [∀ k, Decidable (p k)] :
    Decidable (∀ k, p k) :=
  decidable_of_iff _ Connective.forall_iff.symm

namespace Guard

/-! ## Rows -/

/-- Texts with the operator, set in spaces, between them. -/
def row (k : Connective) (ms : List (List Char)) : List Char :=
  [' ', k.char, k.char, ' '].intercalate ms

/-- Texts with the spaces around the operators in a row, the first behind
`lead`. -/
def spaced : (lead : List Char) → List (List Char) → List (List Char)
  | _, [] => []
  | lead, [m] => [lead ++ m]
  | lead, m :: n :: ms => (lead ++ m ++ [' ']) :: spaced [' '] (n :: ms)

variable {k : Connective} {m n lead : List Char} {ms : List (List Char)}

theorem row_singleton (k : Connective) (m : List Char) : row k [m] = m :=
  List.intercalate_singleton

theorem row_cons_cons (k : Connective) (m n : List Char) (ms : List (List Char)) :
    row k (m :: n :: ms) = m ++ [' '] ++ [k.char, k.char] ++ ([' '] ++ row k (n :: ms)) := by
  rw [row, List.intercalate_cons_cons, row]
  simp only [List.append_assoc]
  rfl

theorem spaced_ne_nil (lead : List Char) (hms : ms ≠ []) : spaced lead ms ≠ [] := by
  match ms, hms with
  | [_], _ => exact List.cons_ne_nil _ _
  | _ :: _ :: _, _ => exact List.cons_ne_nil _ _

/-- A row is the spaced texts with the bare operator between them. -/
theorem intercalate_spaced (k : Connective) (lead : List Char) (hms : ms ≠ []) :
    [k.char, k.char].intercalate (spaced lead ms) = lead ++ row k ms := by
  induction ms generalizing lead with
  | nil => exact absurd rfl hms
  | cons m ms ih =>
      cases ms with
      | nil => rw [spaced, List.intercalate_singleton, row_singleton]
      | cons n ms =>
          have hne := List.cons_ne_nil n ms
          rw [spaced, List.intercalate_cons_of_ne_nil (spaced_ne_nil _ hne), ih _ hne,
            row_cons_cons]
          simp only [List.append_assoc]

theorem row_eq_intercalate (k : Connective) (hms : ms ≠ []) :
    row k ms = [k.char, k.char].intercalate (spaced [] ms) := by
  rw [intercalate_spaced k [] hms, List.nil_append]

/-- What blanks around a text do not change is the same for spaced texts. -/
theorem map_spaced {β : Type} {f : List Char → β}
    (hf : ∀ {as bs : List Char}, Blanks as → Blanks bs → ∀ m, f (as ++ m ++ bs) = f m)
    (hlead : Blanks lead) (ms : List (List Char)) : (spaced lead ms).map f = ms.map f := by
  induction ms generalizing lead with
  | nil => rfl
  | cons m ms ih =>
      cases ms with
      | nil =>
          have hm := hf hlead blanks_nil m
          rw [List.append_nil] at hm
          rw [spaced, List.map_singleton, hm, List.map_singleton]
      | cons n ms =>
          rw [spaced, List.map_cons, hf hlead blanks_space m, ih blanks_space]
          rfl

theorem length_spaced (hlead : Blanks lead) (ms : List (List Char)) :
    (spaced lead ms).length = ms.length := by
  have hunits := congrArg List.length
    (map_spaced (f := fun _ => ()) (fun _ _ _ => rfl) hlead ms)
  rwa [List.length_map, List.length_map] at hunits

/-- What holds of texts with blanks around them holds of spaced texts. -/
theorem forall_spaced {P : List Char → Prop} (hlead : Blanks lead)
    (h : ∀ m ∈ ms, ∀ as bs, Blanks as → Blanks bs → P (as ++ m ++ bs)) :
    ∀ t ∈ spaced lead ms, P t := by
  induction ms generalizing lead with
  | nil => exact fun _ ht => (List.not_mem_nil ht).elim
  | cons m ms ih =>
      obtain ⟨hm, hms⟩ := List.forall_mem_cons.mp h
      cases ms with
      | nil =>
          have hP := hm lead [] hlead blanks_nil
          rw [List.append_nil] at hP
          exact List.forall_mem_singleton.mpr hP
      | cons n ms =>
          exact List.forall_mem_cons.mpr ⟨hm lead [' '] hlead blanks_space, ih blanks_space hms⟩

theorem net_pad {as bs : List Char} (ha : Blanks as) (hb : Blanks bs) (m : List Char) :
    net (as ++ m ++ bs) = net m := by
  rw [net_append, net_append, net_blanks ha, net_blanks hb]
  omega

/-- Spaced texts come apart when all but the last leave the depth where it is:
a space stands in front of every operator. -/
theorem apart_spaced (hlead : Blanks lead) (hends : ms.Pairwise fun m _ => net m = 0) :
    Apart k.char (spaced lead ms) := by
  induction ms generalizing lead with
  | nil => exact .nil
  | cons m ms ih =>
      cases ms with
      | nil => exact List.pairwise_singleton _ _
      | cons n ms =>
          obtain ⟨hm, hms⟩ := List.pairwise_cons.mp hends
          refine List.pairwise_cons.mpr ⟨fun _ _ => ⟨?_, ?_⟩, ih blanks_space hms⟩
          · rw [net_pad hlead blanks_space, hm n List.mem_cons_self]
          · rw [List.getLast?_concat]
            cases k <;> decide

theorem net_row (k : Connective) (hms : ms ≠ []) : net (row k ms) = (ms.map net).sum := by
  rw [row_eq_intercalate k hms, net_intercalate k.rise_char (spaced_ne_nil _ hms),
    map_spaced net_pad blanks_nil]

theorem count_row {a : Char} (ha : isBlank a = false) (hms : ms ≠ []) :
    (row k ms).count a + [k.char, k.char].count a
      = (ms.map (List.count a)).sum + ms.length * [k.char, k.char].count a := by
  have hpad : ∀ {as bs : List Char}, Blanks as → Blanks bs →
      ∀ m, (as ++ m ++ bs).count a = m.count a := fun has hbs m => by
    rw [← count_trim ha, trim_pad has hbs, count_trim ha]
  rw [row_eq_intercalate k hms, count_intercalate a (spaced_ne_nil _ hms),
    map_spaced hpad blanks_nil, length_spaced blanks_nil]

theorem balanced_row (hms : ms ≠ []) (h : ∀ m ∈ ms, Balanced m) : Balanced (row k ms) := by
  rw [row_eq_intercalate k hms]
  refine balanced_intercalate k.rise_char (spaced_ne_nil _ hms) (forall_spaced blanks_nil ?_)
  exact fun m hm as bs ha hb => (h m hm).pad ha hb

theorem head?_row (hm : m ≠ []) : (row k (m :: ms)).head? = m.head? := by
  cases ms with
  | nil => rw [row_singleton]
  | cons n ms =>
      obtain ⟨c, cs, rfl⟩ := List.exists_cons_of_ne_nil hm
      rw [row_cons_cons]
      rfl

theorem getLast?_row (h : ∀ m ∈ ms, m ≠ []) (hms : ms ≠ []) :
    ∃ m ∈ ms, (row k ms).getLast? = m.getLast? := by
  induction ms with
  | nil => exact absurd rfl hms
  | cons m ms ih =>
      cases ms with
      | nil => exact ⟨m, List.mem_cons_self, by rw [row_singleton]⟩
      | cons n ms =>
          obtain ⟨l, hl, hlast⟩ := ih (fun m hm => h m (List.mem_cons_of_mem _ hm))
            (List.cons_ne_nil n ms)
          refine ⟨l, List.mem_cons_of_mem _ hl, ?_⟩
          obtain ⟨cs, c, rfl⟩ := List.eq_nil_or_concat l |>.resolve_left
            (h l (List.mem_cons_of_mem _ hl))
          rw [List.concat_eq_append, List.getLast?_concat] at hlast ⊢
          rw [row_cons_cons, List.getLast?_append, List.getLast?_append, hlast]
          rfl

/-- A row of trimmed texts is trimmed. -/
theorem trim_row (htrim : ∀ m ∈ ms, trim m = m) (h : ∀ m ∈ ms, m ≠ []) :
    trim (row k ms) = row k ms := by
  refine trim_of_ends (fun c hc => ?_) fun c hc => ?_
  · cases ms with
    | nil => cases hc
    | cons m ms =>
        rw [head?_row (h m List.mem_cons_self)] at hc
        obtain ⟨cs, rfl⟩ := List.head?_eq_some_iff.mp hc
        exact head_of_trim (htrim _ List.mem_cons_self)
  · cases ms with
    | nil => cases hc
    | cons m ms =>
        obtain ⟨l, hl, hlast⟩ := getLast?_row (k := k) h (List.cons_ne_nil m ms)
        rw [hlast] at hc
        obtain ⟨cs, rfl⟩ := List.getLast?_eq_some_iff.mp hc
        exact last_of_trim (htrim _ hl)

theorem row_ne_nil (h : ∀ m ∈ ms, m ≠ []) (hms : ms ≠ []) : row k ms ≠ [] := by
  obtain ⟨m, ms, rfl⟩ := List.exists_cons_of_ne_nil hms
  intro hnil
  have hhead := @head?_row k m ms (h m List.mem_cons_self)
  rw [hnil] at hhead
  exact h m List.mem_cons_self (List.head?_eq_none_iff.mp hhead.symm)

/-- A row of two texts or more keeps the parentheses at its ends. -/
theorem peel?_row (h : ∀ m ∈ ms, m ≠ []) (hends : ms.Pairwise fun m _ => net m = 0)
    (htwo : 2 ≤ ms.length) : peel? (row k ms) = none := by
  obtain ⟨m, n, ms, rfl⟩ : ∃ m n ms', ms = m :: n :: ms' := by
    match ms, htwo with
    | m :: n :: ms', _ => exact ⟨m, n, ms', rfl⟩
  have hm : net m = 0 := (List.pairwise_cons.mp hends).1 n List.mem_cons_self
  rw [row_cons_cons, List.append_assoc, List.append_assoc]
  exact peel?_eq_none (h m List.mem_cons_self) (by simp) hm

/-- The pieces of a row are those of its texts. -/
theorem length_pieces_row (hends : ms.Pairwise fun m _ => net m = 0) (hms : ms ≠ []) :
    (pieces [k.char, k.char] (row k ms)).length
      = (ms.map fun m => (pieces [k.char, k.char] m).length).sum := by
  have hpad : ∀ {as bs : List Char}, Blanks as → Blanks bs → ∀ m : List Char,
      (pieces [k.char, k.char] (as ++ m ++ bs)).length = (pieces [k.char, k.char] m).length :=
    fun has hbs m => by
      have hlen := congrArg List.length
        (map_trim_pieces_pad k.rise_char k.isBlank_char has hbs m)
      rwa [List.length_map, List.length_map] at hlen
  rw [row_eq_intercalate k hms, pieces_intercalate k.rise_char (spaced_ne_nil _ hms)
    (apart_spaced blanks_nil hends), List.length_flatMap, map_spaced hpad blanks_nil]

/-- The parts of a row are those of its texts. -/
theorem splitTop_row (hends : ms.Pairwise fun m _ => net m = 0) (hms : ms ≠ []) :
    splitTop [k.char, k.char] (row k ms) = ms.flatMap (splitTop [k.char, k.char]) := by
  have hparts := map_spaced (splitTop_pad k.rise_char k.isBlank_char) blanks_nil ms
  rw [row_eq_intercalate k hms, splitTop_intercalate k.rise_char (spaced_ne_nil _ hms)
    (apart_spaced blanks_nil hends), List.flatMap, hparts]
  rfl

/-- A row of texts that another operator does not cut is not cut by it. -/
theorem single_row {a : Char} (ha : rise a = 0) (hblank : isBlank a = false) (hne : k.char ≠ a)
    (hends : ms.Pairwise fun m _ => net m = 0) (hms : ms ≠ []) (h : ∀ m ∈ ms, Single a 0 m) :
    Single a 0 (row k ms) := by
  rw [row_eq_intercalate k hms]
  exact single_intercalate ha k.rise_char hne (spaced_ne_nil _ hms)
    ((apart_spaced blanks_nil hends (k := k)).imp fun h => h.1)
    (forall_spaced blanks_nil fun m hm as bs hb hb' => (h m hm).pad ha hblank hb hb')

/-! ## Members -/

def memberText (k : Connective) (g : Guard) : List Char :=
  if standsBare k g then g.text.toList else '(' :: g.text.toList ++ [')']

theorem standsBare_any_of_all {g : Guard} (h : standsBare .all g = true) :
    standsBare .any g = true := by
  cases g <;> first | rfl | cases h

theorem map_memberTexts (k : Connective) : ∀ gs : List Guard,
    (memberTexts k gs).map String.toList = gs.map (memberText k)
  | [] => rfl
  | g :: gs => by
      rw [memberTexts, List.map_cons, map_memberTexts k gs, List.map_cons, memberText]
      split
      · rfl
      · simp

@[simp] theorem text_atom (t : String) : (atom t).text = t := rfl

theorem toList_text_group (k : Connective) (gs : List Guard) :
    (k.group gs).text.toList = row k (gs.map (memberText k)) := by
  rw [row, ← map_memberTexts]
  cases k <;> exact toList_joinWith _ _

end Guard

end JobChart
