import JobChart.Proofs.Chain.Walk

/-!
# What the `always` flag says

The flag of a compiled chain is not about all of its badges. A series has it
when it has no skips, and fallbacks only have the skips of the last: before an
`always()` a fallback may fail and leave no skip. So the flag of a series rests
on the atoms without a fallback behind them (`Guard.lastResorts`), the flag of
fallbacks on the flags of all members (`Guard.weighed`).

It follows that a chain of plain `always()` badges has the flag, but that a
chain with the flag may have badges that fail. What the flag does promise is
that nothing skips the chain, and that its guard holds.
-/

namespace JobChart

namespace Guard

/-! ## The atoms that count -/

mutual

/-- The atoms without a fallback behind them. -/
def lastResorts : Guard → List String
  | atom t => [t]
  | all gs => lastResortsEach gs
  | any gs => lastResortsLast gs

/-- `lastResorts` of every guard in a row. -/
def lastResortsEach : List Guard → List String
  | [] => []
  | g :: gs => g.lastResorts ++ lastResortsEach gs

/-- `lastResorts` of the last guard in a row. -/
def lastResortsLast : List Guard → List String
  | [] => []
  | [g] => g.lastResorts
  | _ :: g :: gs => lastResortsLast (g :: gs)

end

mutual

/-- The atoms that the flag rests on: a series asks only for its last resorts. -/
def weighed : Guard → List String
  | atom t => [t]
  | all gs => lastResortsEach gs
  | any gs => weighedEach gs

/-- `weighed` of every guard in a row. -/
def weighedEach : List Guard → List String
  | [] => []
  | g :: gs => g.weighed ++ weighedEach gs

end

theorem lastResortsEach_eq_flatMap : ∀ gs : List Guard,
    lastResortsEach gs = gs.flatMap lastResorts
  | [] => rfl
  | g :: gs => by rw [lastResortsEach, lastResortsEach_eq_flatMap gs, List.flatMap_cons]

theorem lastResortsLast_cons : ∀ (g : Guard) (gs : List Guard),
    lastResortsLast (g :: gs) = (gs.getLastD g).lastResorts
  | g, [] => rfl
  | _, g :: gs => by rw [lastResortsLast, lastResortsLast_cons g gs, List.getLastD_cons]

theorem weighedEach_eq_flatMap : ∀ gs : List Guard, weighedEach gs = gs.flatMap weighed
  | [] => rfl
  | g :: gs => by rw [weighedEach, weighedEach_eq_flatMap gs, List.flatMap_cons]

theorem flatMap_subset_atomsEach {f : Guard → List String} {gs : List Guard}
    (h : ∀ g ∈ gs, f g ⊆ g.atoms) : gs.flatMap f ⊆ atomsEach gs := by
  intro t ht
  obtain ⟨g, hg, ht⟩ := List.mem_flatMap.mp ht
  exact mem_atomsEach.mpr ⟨g, hg, h g hg ht⟩

theorem lastResorts_subset (g : Guard) : g.lastResorts ⊆ g.atoms := by
  induction g using group_induction with
  | atom t => exact List.Subset.refl _
  | group k gs ih =>
      rw [atoms_group]
      cases k with
      | all =>
          rw [Connective.group, lastResorts, lastResortsEach_eq_flatMap]
          exact flatMap_subset_atomsEach ih
      | any =>
          cases gs with
          | nil => exact List.nil_subset _
          | cons g gs =>
              rw [Connective.group, lastResorts, lastResortsLast_cons]
              have hlast : gs.getLastD g ∈ g :: gs := List.getLastD_mem_cons
              exact fun t ht => mem_atomsEach.mpr ⟨_, hlast, ih _ hlast ht⟩

theorem weighed_subset (g : Guard) : g.weighed ⊆ g.atoms := by
  induction g using group_induction with
  | atom t => exact List.Subset.refl _
  | group k gs ih =>
      cases k with
      | all => exact lastResorts_subset (.all gs)
      | any =>
          rw [atoms_group, Connective.group, weighed, weighedEach_eq_flatMap]
          exact flatMap_subset_atomsEach ih

end Guard

namespace Chain

open Chart JobChart.Numbering

/-- Atoms that are all plain `always()`. -/
def AllAlways (ts : List String) : Prop := ∀ t ∈ ts, Badge.isAlways t = true

theorem allAlways_singleton {t : String} : AllAlways [t] ↔ Badge.isAlways t = true := by
  simp [AllAlways]

/-! ## One compilation -/

/-- What the atoms of a guard say about the skips and the flag of its chain. -/
structure Flagged (g : Guard) (c : Chain Node Edge) : Prop where
  skips : c.skips = [] ↔ AllAlways g.lastResorts
  always : c.always = true ↔ AllAlways g.weighed

theorem flagged_ofAtom (id text : String) : Flagged (.atom text) (ofAtom id text) where
  skips := by
    rw [Guard.lastResorts, allAlways_singleton]
    cases h : Badge.isAlways text <;> simp [ofAtom, h]
  always := by
    rw [Guard.weighed, allAlways_singleton]
    rfl

section

variable {gs : List Guard} {cs : List (Chain Node Edge)}

/-- What holds of a chain iff these atoms of its guard are plain `always()`
holds of a row of chains iff these atoms of all guards are. -/
theorem forall_iff_allAlways {p : Chain Node Edge → Prop} {f : Guard → List String}
    (h : List.Forall₂ (fun g c => p c ↔ AllAlways (f g)) gs cs) :
    (∀ c ∈ cs, p c) ↔ AllAlways (gs.flatMap f) := by
  induction h with
  | nil => simp [AllAlways]
  | cons hc _ ih =>
      rw [List.forall_mem_cons, List.flatMap_cons, AllAlways, List.forall_mem_append, hc, ih]
      rfl

theorem flagged_getLastD : ∀ {g : Guard} {gs : List Guard} {c : Chain Node Edge}
    {cs : List (Chain Node Edge)}, List.Forall₂ Flagged (g :: gs) (c :: cs) →
      Flagged (gs.getLastD g) (cs.getLastD c)
  | _, [], _, [], .cons hc .nil => hc
  | _, _ :: _, _, _ :: _, .cons _ hcs => by
      rw [List.getLastD_cons, List.getLastD_cons]
      exact flagged_getLastD hcs

theorem flagged_joined {k : Connective} {c : Chain Node Edge}
    (h : List.Forall₂ Flagged gs (c :: cs)) : Flagged (k.group gs) (joined k c cs) := by
  cases k with
  | all =>
      have hskips : (joined .all c cs).skips = [] ↔ AllAlways (Guard.all gs).lastResorts := by
        rw [Guard.lastResorts, Guard.lastResortsEach_eq_flatMap,
          ← forall_iff_allAlways (h.imp fun _ _ hc => hc.skips)]
        exact List.flatMap_eq_nil_iff
      exact ⟨hskips, List.isEmpty_iff.trans hskips⟩
  | any =>
      refine ⟨?_, ?_⟩
      · obtain ⟨g, gs, -, -, rfl⟩ := List.forall₂_cons_right_iff.mp h
        rw [Connective.group, Guard.lastResorts, Guard.lastResortsLast_cons]
        exact (flagged_getLastD h).skips
      · rw [Connective.group, Guard.weighed, Guard.weighedEach_eq_flatMap,
          ← forall_iff_allAlways (h.imp fun _ _ hc => hc.always)]
        exact List.all_eq_true

end

theorem flagged_compile (base : String) (g : Guard) (hg : g.widthOK 1 = true) (n : Int) :
    ∃ c, runFrom n (compile base g) = (.ok c, n + g.atoms.length) ∧ Flagged g c :=
  compile_induction (P := fun _ g c => Flagged g c) (fun _ _ => flagged_ofAtom _ _)
    (fun _ _ _ _ _ hrow => flagged_joined (forall₂_of_eachFrom hrow)) g hg n

/-! ## What the flag promises -/

/-- Without skips the guard can only hold: the chain leads to a way out of the
guard's value, and there is none for a guard that fails. -/
theorem holdsOn_of_skips_eq_nil {base : String} {val : String → Bool} {g : Guard} {n : Int}
    {c : Chain Node Edge} (h : LeadsBy base val n g c)
    (halways : AlwaysTrue val (badges base n g.atoms)) (hskips : c.skips = []) :
    g.holdsOn val (badges base n g.atoms) = true := by
  obtain ⟨id, -, -, hway⟩ := holdsOn_badges h halways
  cases hvalue : g.holdsOn val (badges base n g.atoms) with
  | true => rfl
  | false =>
      rw [hvalue, way, hskips] at hway
      exact absurd hway List.not_mem_nil

/-- **What the flag says.** The chain of a guard without empty groups has it
iff the atoms that it rests on are plain `always()`. So it has it when all of
its atoms are, and when it has it, no failure leads past the chain and the
guard holds, whatever the other badges do. -/
theorem always_flag_iff (base : String) (g : Guard) (start : Int) (h : g.widthOK 1 = true) :
    ∃ c, runFrom start (compile base g) = (.ok c, start + g.atoms.length)
      ∧ (c.always = true ↔ AllAlways g.weighed)
      ∧ (AllAlways g.atoms → c.always = true)
      ∧ (c.always = true → c.skips = [] ∧ ∀ val, AlwaysTrue val (badges base start g.atoms) →
        g.holdsOn val (badges base start g.atoms) = true) := by
  obtain ⟨c, hrun, hflagged⟩ := flagged_compile base g h start
  have hleads : ∀ val, LeadsBy base val start g c := by
    intro val
    obtain ⟨c', hrun', hleads⟩ := leadsBy_compile base val g h start
    rw [hrun] at hrun'
    obtain rfl : c = c' := by simpa using hrun'
    exact hleads
  refine ⟨c, hrun, hflagged.always, fun hall => ?_, fun halways => ?_⟩
  · exact hflagged.always.mpr fun t ht => hall t (g.weighed_subset ht)
  · have hskips : c.skips = [] := (hleads fun _ => true).1.always halways
    exact ⟨hskips, fun val hval => holdsOn_of_skips_eq_nil (hleads val) hval hskips⟩

/-- Inside a series a badge that can fail does not count when an `always()` is
its fallback. -/
theorem always_flag_of_series :
    let g : Guard := .any [.all [.any [.atom "a", .atom "always()"]], .atom "always()"]
    g.widthOK 1 = true ∧ ∃ c, runFrom 5 (compile "j" g) = (.ok c, 8) ∧ c.always = true
      ∧ c.skips = [] ∧ ∀ val, AlwaysTrue val (badges "j" 5 g.atoms) →
        g.holdsOn val (badges "j" 5 g.atoms) = true := by
  intro g
  obtain ⟨c, hrun, hweighed, -, hpromise⟩ := always_flag_iff "j" g 5 rfl
  have halways : c.always = true := hweighed.mpr (by unfold AllAlways; decide)
  exact ⟨rfl, c, hrun, halways, hpromise halways⟩

/-- The first badge can fail and the chain has the flag: its failure leads to
the `always()` behind it. -/
theorem always_flag_covers_fallible :
    let g : Guard := .all [.any [.atom "a", .atom "always()"], .atom "always()"]
    g.widthOK 2 = true ∧ ∃ c, runFrom 0 (compile "g" g) = (.ok c, 3) ∧ c.always = true
      ∧ ¬AllAlways g.atoms := by
  refine ⟨rfl, _, rfl, rfl, fun h => ?_⟩
  exact absurd (h "a" (by decide)) (by decide)

end Chain

end JobChart
