import Mathlib.Data.List.Nodup
import Mathlib.Logic.Relation
import JobChart.Proofs.Chain.Wiring
import JobChart.Proofs.Guard.Reading

/-!
# Walking a chain

A walk over a chain starts at the entry and leaves each badge by the way out
that the badge's value asks for, until it passes the chain or skips what the
chain guards. The value of the whole guard decides which of the two it is
(`Decides`): that is what a chain is for.

There are two halves. Along the values of its members a guard leads from its
entry to a way out of its own value (`leads_joined`, by the induction over a
compilation). And no badge has two ways out of one value, since the ways out
of a wired chain are its badges, each once (`step_unique`); so the walk that
was found is the only one.
-/

namespace JobChart

open Chart JobChart.Numbering Relation

/-- The value of a guard when each of its atoms has the value of its badge. -/
def Guard.holdsOn (val : String → Bool) (bs : List (String × String)) (g : Guard) : Bool :=
  g.holds (fun i => (bs[i]?).elim false fun b => val b.1) 0

namespace Chain

/-! ## Steps -/

/-- Where a walk is: at a badge, or behind the chain on one of its sides. -/
inductive Place where
  | badge (id : String)
  | passed
  | skipped

/-- Whether an edge leaves its source the way the source's value asks for. -/
def followed (val : String → Bool) (e : Edge) : Bool :=
  if val e.source then e.isAnd else e.isOr

/-- One step of a walk: a true badge is left by an `AND` edge or an exit, a
false badge by an `OR` edge or a skip. -/
inductive Step (c : Chain Node Edge) (val : String → Bool) : Place → Place → Prop
  | follow {e : Edge} {id : String} (he : e ∈ c.links) (hid : e.source = id)
      (hval : followed val e = true) : Step c val (.badge id) (.badge e.target)
  | pass {x : Exit} {id : String} (hx : x ∈ c.exits) (hid : x.source = id)
      (hval : val id = true) : Step c val (.badge id) .passed
  | skip {id : String} (hid : id ∈ c.skips) (hval : val id = false) :
      Step c val (.badge id) .skipped

/-- The walk from the entry ends, it never has a choice and never gets stuck
at a badge, and `b` says on which side of the chain it ends. -/
structure Decides (c : Chain Node Edge) (val : String → Bool) (b : Bool) : Prop where
  ends : Acc (fun q p => Step c val p q) (.badge c.entry)
  unique : ∀ p q r, Step c val p q → Step c val p r → q = r
  goesOn : ∀ id, ReflTransGen (Step c val) (.badge c.entry) (.badge id) →
    ∃ q, Step c val (.badge id) q
  passed_iff : ReflTransGen (Step c val) (.badge c.entry) .passed ↔ b = true
  skipped_iff : ReflTransGen (Step c val) (.badge c.entry) .skipped ↔ b = false

/-! ## From the entry to a way out -/

/-- The badges from which the chain is left on this side. -/
def way (c : Chain Node Edge) : Bool → List String
  | true => c.exits.map (·.source)
  | false => c.skips

/-- One step between badges along these edges. -/
def Hop (links : List Edge) (val : String → Bool) (a b : String) : Prop :=
  ∃ e ∈ links, e.source = a ∧ e.target = b ∧ followed val e = true

/-- These edges lead from the entry of the chain to a badge of value `b` from
which the chain is left on that side. -/
def Leads (links : List Edge) (val : String → Bool) (c : Chain Node Edge) (b : Bool) : Prop :=
  ∃ id, ReflTransGen (Hop links val) c.entry id ∧ val id = b ∧ id ∈ c.way b

theorem Leads.mono {links links' : List Edge} {val : String → Bool} {c : Chain Node Edge}
    {b : Bool} (hsub : ∀ e ∈ links, e ∈ links') (h : Leads links val c b) :
    Leads links' val c b := by
  obtain ⟨id, hpath, hval, hway⟩ := h
  refine ⟨id, ReflTransGen.mono ?_ _ _ hpath, hval, hway⟩
  exact fun _ _ ⟨e, he, hrest⟩ => ⟨e, hsub e he, hrest⟩

/-- A way out of the rest of a series is a way out of the series. -/
theorem mem_way_series_cons {c d : Chain Node Edge} {cs : List (Chain Node Edge)} {b : Bool}
    {a : String} (h : a ∈ (series id d cs).way b) : a ∈ (series id c (d :: cs)).way b := by
  cases b with
  | true =>
      simp only [way, series, List.getLastD_cons] at h ⊢
      exact h
  | false => exact List.mem_append_right _ h

/-- A way out of the rest of fallbacks is a way out of the fallbacks. -/
theorem mem_way_fallbacks_cons {c d : Chain Node Edge} {cs : List (Chain Node Edge)} {b : Bool}
    {a : String} (h : a ∈ (fallbacks id d cs).way b) : a ∈ (fallbacks id c (d :: cs)).way b := by
  cases b with
  | true =>
      obtain ⟨x, hx, rfl⟩ := List.mem_map.mp h
      exact List.mem_map.mpr ⟨x, List.mem_append_right _ hx, rfl⟩
  | false =>
      simp only [way, fallbacks, List.getLastD_cons] at h ⊢
      exact h

theorem leads_series {links : List Edge} {val : String → Bool} {c : Chain Node Edge}
    {cs : List (Chain Node Edge)} {bs : List Bool}
    (h : List.Forall₂ (Leads links val) (c :: cs) bs)
    (hlinks : ∀ e ∈ seriesEdges (c :: cs), e ∈ links) :
    Leads links val (series id c cs) (bs.all id) := by
  induction cs generalizing c bs with
  | nil =>
      obtain ⟨b, bs', hc, hnil, rfl⟩ := List.forall₂_cons_left_iff.mp h
      cases hnil
      cases b <;> simpa [Leads, way, series] using hc
  | cons d cs ih =>
      obtain ⟨b, bs', hc, hcs, rfl⟩ := List.forall₂_cons_left_iff.mp h
      obtain ⟨a, hpath, hval, hway⟩ := hc
      cases b with
      | false =>
          refine ⟨a, hpath, by simpa using hval, ?_⟩
          exact List.mem_flatMap.mpr ⟨c, List.mem_cons_self, hway⟩
      | true =>
          obtain ⟨x, hx, rfl⟩ := List.mem_map.mp hway
          have hedge : (⟨x.source, d.entry, some "AND", solid⟩ : Edge) ∈ links :=
            hlinks _ (List.mem_append_left _ (List.mem_map.mpr ⟨x, hx, rfl⟩))
          have hhop : Hop links val x.source d.entry :=
            ⟨_, hedge, rfl, rfl, by simp [followed, hval, Edge.isAnd]⟩
          obtain ⟨z, hpath', hval', hway'⟩ :=
            ih hcs fun e he => hlinks e (List.mem_append_right _ he)
          rw [List.all_cons, id_eq, Bool.true_and]
          exact ⟨z, (hpath.tail hhop).trans hpath', hval', mem_way_series_cons hway'⟩

theorem leads_fallbacks {links : List Edge} {val : String → Bool} {c : Chain Node Edge}
    {cs : List (Chain Node Edge)} {bs : List Bool}
    (h : List.Forall₂ (Leads links val) (c :: cs) bs)
    (hlinks : ∀ e ∈ fallbackEdges (c :: cs), e ∈ links) :
    Leads links val (fallbacks id c cs) (bs.any id) := by
  induction cs generalizing c bs with
  | nil =>
      obtain ⟨b, bs', hc, hnil, rfl⟩ := List.forall₂_cons_left_iff.mp h
      cases hnil
      cases b <;> simpa [Leads, way, fallbacks] using hc
  | cons d cs ih =>
      obtain ⟨b, bs', hc, hcs, rfl⟩ := List.forall₂_cons_left_iff.mp h
      obtain ⟨a, hpath, hval, hway⟩ := hc
      cases b with
      | true =>
          refine ⟨a, hpath, by simpa using hval, ?_⟩
          obtain ⟨x, hx, rfl⟩ := List.mem_map.mp hway
          exact List.mem_map.mpr ⟨x, List.mem_flatMap.mpr ⟨c, List.mem_cons_self, hx⟩, rfl⟩
      | false =>
          have hedge : (⟨a, d.entry, some "OR", dashed⟩ : Edge) ∈ links :=
            hlinks _ (List.mem_append_left _ (List.mem_map.mpr ⟨a, hway, rfl⟩))
          have hhop : Hop links val a d.entry :=
            ⟨_, hedge, rfl, rfl, by simp [followed, hval, Edge.isOr]⟩
          obtain ⟨z, hpath', hval', hway'⟩ :=
            ih hcs fun e he => hlinks e (List.mem_append_right _ he)
          rw [List.any_cons, id_eq, Bool.false_or]
          exact ⟨z, (hpath.tail hhop).trans hpath', hval', mem_way_fallbacks_cons hway'⟩

/-- A group leads where the values of its members send it. -/
theorem leads_joined {k : Connective} {val : String → Bool} {c : Chain Node Edge}
    {cs : List (Chain Node Edge)} {bs : List Bool}
    (h : List.Forall₂ (fun d b => Leads d.links val d b) (c :: cs) bs) :
    Leads (joined k c cs).links val (joined k c cs) (k.value bs) := by
  have hmember : ∀ d ∈ c :: cs, ∀ e ∈ d.links, e ∈ (joined k c cs).links := by
    intro d hd e he
    cases k <;> exact List.mem_append_left _ (List.mem_flatMap.mpr ⟨d, hd, he⟩)
  have hin : List.Forall₂ (Leads (joined k c cs).links val) (c :: cs) bs :=
    (List.forall₂_and_left _ _).mpr ⟨fun _ hd => hd, h⟩ |>.imp
      fun d b ⟨hd, hlead⟩ => hlead.mono (hmember d hd)
  cases k with
  | all => exact leads_series hin fun e he => List.mem_append_right _ (by simpa using he)
  | any => exact leads_fallbacks hin fun e he => List.mem_append_right _ (by simpa using he)

/-! ## No choice on the way -/

/-- The ways out of the badges that have this value, each with the badge that
it leaves and the place that it leads to. -/
def outs (c : Chain Node Edge) : Bool → List (String × Place)
  | true => (c.links.filter Edge.isAnd).map (fun e => (e.source, .badge e.target))
      ++ c.exits.map fun x => (x.source, .passed)
  | false => (c.links.filter Edge.isOr).map (fun e => (e.source, .badge e.target))
      ++ c.skips.map fun id => (id, .skipped)

theorem outs_true_sources (c : Chain Node Edge) : (c.outs true).map (·.1) = c.passSources := by
  simp [outs, passSources, Function.comp_def]

theorem outs_false_sources (c : Chain Node Edge) : (c.outs false).map (·.1) = c.failSources := by
  simp [outs, failSources, Function.comp_def]

/-- A step takes one of the ways out. -/
theorem mem_outs_of_step {c : Chain Node Edge} {val : String → Bool} {id : String} {q : Place}
    (h : Step c val (.badge id) q) : (id, q) ∈ c.outs (val id) := by
  cases h with
  | @follow e _ he hid hval =>
      rw [followed, hid] at hval
      cases hv : val id with
      | true =>
          rw [hv, if_pos rfl] at hval
          exact List.mem_append_left _
            (List.mem_map.mpr ⟨e, List.mem_filter.mpr ⟨he, hval⟩, by rw [hid]⟩)
      | false =>
          rw [hv, if_neg Bool.false_ne_true] at hval
          exact List.mem_append_left _
            (List.mem_map.mpr ⟨e, List.mem_filter.mpr ⟨he, hval⟩, by rw [hid]⟩)
  | @pass x _ hx hid hval =>
      rw [hval]
      exact List.mem_append_right _ (List.mem_map.mpr ⟨x, hx, by rw [hid]⟩)
  | skip hs hval =>
      rw [hval]
      exact List.mem_append_right _ (List.mem_map.mpr ⟨id, hs, rfl⟩)

/-- The ways out of one value leave every badge of a wired chain once. -/
theorem Wired.nodup_outs {bs : List (String × String)} {c : Chain Node Edge} (h : Wired bs c)
    (hbs : (bs.map (·.1)).Nodup) (b : Bool) : ((c.outs b).map (·.1)).Nodup := by
  cases b with
  | true =>
      rw [outs_true_sources]
      exact h.pass.nodup_iff.mpr hbs
  | false =>
      rw [outs_false_sources]
      exact h.fail.nodup_iff.mpr (hbs.sublist (List.filter_sublist.map _))

theorem step_unique {bs : List (String × String)} {c : Chain Node Edge} (h : Wired bs c)
    (hbs : (bs.map (·.1)).Nodup) {val : String → Bool} {p q r : Place}
    (hq : Step c val p q) (hr : Step c val p r) : q = r := by
  cases p with
  | badge id =>
      have heq := List.inj_on_of_nodup_map (h.nodup_outs hbs (val id))
        (mem_outs_of_step hq) (mem_outs_of_step hr) rfl
      exact congrArg Prod.snd heq
  | passed => cases hq
  | skipped => cases hq

/-! ## The whole walk -/

/-- Where the step is a function, a walk that gets to a last place is the only
walk: every other walk is a part of it, so none is endless. -/
theorem acc_of_reaches_last {α : Type} {r : α → α → Prop} (hr : ∀ a b c, r a b → r a c → b = c)
    {a z : α} (h : ReflTransGen r a z) (hz : ∀ b, ¬r z b) : Acc (fun b a => r a b) a := by
  induction h using ReflTransGen.head_induction_on with
  | refl => exact ⟨_, fun b hb => (hz b hb).elim⟩
  | head hab _ ih => exact ⟨_, fun c hc => hr _ _ _ hab hc ▸ ih⟩

/-- The side on which a walk ends that found a way out of this value. -/
def side : Bool → Place
  | true => .passed
  | false => .skipped

theorem not_step_side {c : Chain Node Edge} {val : String → Bool} {b : Bool} {q : Place} :
    ¬Step c val (side b) q := by
  intro h
  cases b <;> cases h

theorem reaches_side {c : Chain Node Edge} {val : String → Bool} {b : Bool}
    (h : Leads c.links val c b) : ReflTransGen (Step c val) (.badge c.entry) (side b) := by
  obtain ⟨id, hpath, hval, hway⟩ := h
  have hwalk : ReflTransGen (Step c val) (.badge c.entry) (.badge id) := by
    refine hpath.lift Place.badge ?_
    rintro a _ ⟨e, he, rfl, rfl, hfollow⟩
    exact .follow he rfl hfollow
  refine hwalk.tail ?_
  cases b with
  | true =>
      obtain ⟨x, hx, hid⟩ := List.mem_map.mp hway
      exact .pass hx hid hval
  | false => exact .skip hway hval

/-- A wired chain decides by the value that it leads to. -/
theorem Wired.decides {bs : List (String × String)} {c : Chain Node Edge}
    {val : String → Bool} {b : Bool} (h : Wired bs c) (hbs : (bs.map (·.1)).Nodup)
    (hlead : Leads c.links val c b) : Decides c val b := by
  have hunique : ∀ p q r, Step c val p q → Step c val p r → q = r :=
    fun _ _ _ => step_unique h hbs
  have hside := reaches_side hlead
  have hlast : ∀ b', ReflTransGen (Step c val) (.badge c.entry) (side b') → b' = b := by
    intro b' hb'
    have hmeet : ∀ {x y : Bool}, ReflTransGen (Step c val) (side x) (side y) → x = y := by
      intro x y hxy
      rcases hxy.cases_head with heq | ⟨q, hq, -⟩
      · cases x <;> cases y <;> simp_all [side]
      · exact absurd hq not_step_side
    rcases ReflTransGen.total_of_right_unique hunique hb' hside with hbb | hbb
    · exact hmeet hbb
    · exact (hmeet hbb).symm
  refine ⟨acc_of_reaches_last hunique hside fun _ => not_step_side, hunique, fun id hid => ?_,
    ⟨fun hp => (hlast true hp).symm, fun hb => ?_⟩, ⟨fun hs => (hlast false hs).symm, fun hb => ?_⟩⟩
  · rcases ReflTransGen.total_of_right_unique hunique hid hside with hbb | hbb
    · rcases hbb.cases_head with heq | ⟨q, hq, -⟩
      · cases b <;> cases heq
      · exact ⟨q, hq⟩
    · rcases hbb.cases_head with heq | ⟨q, hq, -⟩
      · cases b <;> cases heq
      · exact absurd hq not_step_side
  · rw [hb] at hside
    exact hside
  · rw [hb] at hside
    exact hside

/-! ## Compiled chains -/

/-- No badge of a plain `always()` is false. -/
def AlwaysTrue (val : String → Bool) (bs : List (String × String)) : Prop :=
  ∀ b ∈ bs, Badge.isAlways b.2 = true → val b.1 = true

theorem AlwaysTrue.left {val : String → Bool} {as bs : List (String × String)}
    (h : AlwaysTrue val (as ++ bs)) : AlwaysTrue val as :=
  fun b hb => h b (List.mem_append_left _ hb)

theorem AlwaysTrue.right {val : String → Bool} {as bs : List (String × String)}
    (h : AlwaysTrue val (as ++ bs)) : AlwaysTrue val bs :=
  fun b hb => h b (List.mem_append_right _ hb)

theorem leads_ofAtom {val : String → Bool} {id text : String}
    (h : AlwaysTrue val [(id, text)]) :
    Leads (ofAtom id text).links val (ofAtom id text) (val id) := by
  refine ⟨id, .refl, rfl, ?_⟩
  cases hval : val id with
  | true => simp [way, ofAtom]
  | false =>
      have halways : Badge.isAlways text = false := by
        cases ha : Badge.isAlways text with
        | false => rfl
        | true => simpa [hval] using h (id, text) (by simp) ha
      simp [way, ofAtom, halways]

/-- What the induction over a compilation carries: the chain is wired, and it
leads by the value of the guard, wherever the guard's atoms stand. -/
def LeadsBy (base : String) (val : String → Bool) (n : Int) (g : Guard)
    (c : Chain Node Edge) : Prop :=
  Wired (badges base n g.atoms) c ∧
    ∀ (value : Nat → Bool) (first : Nat), AlwaysTrue val (badges base n g.atoms) →
      (∀ i < g.atoms.length, value (first + i) = val (partId base (n + i))) →
      Leads c.links val c (g.holds value first)

theorem leads_of_eachFrom {base : String} {val : String → Bool} {value : Nat → Bool} :
    ∀ {n : Int} {first : Nat} {gs : List Guard} {cs : List (Chain Node Edge)},
      EachFrom (LeadsBy base val) n gs cs →
      AlwaysTrue val (badges base n (Guard.atomsEach gs)) →
      (∀ i < (Guard.atomsEach gs).length, value (first + i) = val (partId base (n + i))) →
      List.Forall₂ (fun c b => Leads c.links val c b) cs (Guard.holdsEach value first gs)
  | _, _, _, _, .nil _, _, _ => .nil
  | n, first, g :: gs, c :: cs, .cons hc hcs, halways, hvalue => by
      rw [Guard.atomsEach_cons, badges_append] at halways
      rw [Guard.atomsEach_cons, List.length_append] at hvalue
      refine .cons (hc.2 value first halways.left fun i hi => hvalue i (by omega)) ?_
      refine leads_of_eachFrom hcs halways.right fun i hi => ?_
      have hi' := hvalue (g.atoms.length + i) (by omega)
      rw [← Nat.add_assoc] at hi'
      rw [hi']
      congr 2
      omega

theorem leadsBy_compile (base : String) (val : String → Bool) (g : Guard)
    (hg : g.widthOK 1 = true) (n : Int) :
    ∃ c, runFrom n (compile base g) = (.ok c, n + g.atoms.length) ∧ LeadsBy base val n g c := by
  refine compile_induction (fun n t => ⟨wired_ofAtom _ _, ?_⟩) (fun n k gs c cs hrow => ⟨?_, ?_⟩)
    g hg n
  · intro value first halways hvalue
    have hval : value first = val (partId base n) := by simpa using hvalue 0 (by simp)
    rw [Guard.holds, hval]
    exact leads_ofAtom halways
  · obtain ⟨bss, hbss, hflat⟩ :=
      badges_of_eachFrom (R := Wired) (hrow.imp fun _ _ _ h => h.1)
    rw [Guard.atoms_group, ← hflat]
    exact wired_joined k hbss
  · intro value first halways hvalue
    rw [Guard.atoms_group] at halways hvalue
    rw [Guard.holds_group]
    exact leads_joined (leads_of_eachFrom hrow halways hvalue)

/-- The badges of the chain of a guard that was read from a text: a guard that
is one atom keeps the base for its id. -/
def textBadges (base : String) : Guard → List (String × String)
  | .atom t => [(base, t)]
  | g => badges base 0 g.atoms

theorem nodup_textBadges (base : String) (g : Guard) : ((textBadges base g).map (·.1)).Nodup := by
  cases g with
  | atom t => exact List.nodup_singleton _
  | all gs => exact nodup_badges
  | any gs => exact nodup_badges

theorem holdsOn_badges {base : String} {val : String → Bool} {g : Guard} {n : Int}
    {c : Chain Node Edge} (h : LeadsBy base val n g c)
    (halways : AlwaysTrue val (badges base n g.atoms)) :
    Leads c.links val c (g.holdsOn val (badges base n g.atoms)) := by
  refine h.2 _ 0 halways fun i hi => ?_
  rw [Nat.zero_add, getElem?_badges, List.getElem?_eq_getElem hi]
  rfl

/-- Every text has a chain, it is wired, and it leads by the value of the guard
that the text is read as. -/
theorem leads_ofText (base text : String) (val : String → Bool) :
    ∃ c, ofText base text = .ok c ∧ Wired (textBadges base (Guard.parse text)) c
      ∧ (AlwaysTrue val (textBadges base (Guard.parse text)) →
        Leads c.links val c
          ((Guard.parse text).holdsOn val (textBadges base (Guard.parse text)))) := by
  have hwidth := Guard.parse_widthOK text
  rw [ofText, Guard.parse_strip]
  cases hparse : Guard.parse text with
  | atom t => exact ⟨ofAtom base t, rfl, wired_ofAtom base t, leads_ofAtom⟩
  | all gs =>
      obtain ⟨c, hrun, hc⟩ := leadsBy_compile base val _ (hparse ▸ hwidth) 0
      exact ⟨c, congrArg Prod.fst hrun, hc.1, holdsOn_badges hc⟩
  | any gs =>
      obtain ⟨c, hrun, hc⟩ := leadsBy_compile base val _ (hparse ▸ hwidth) 0
      exact ⟨c, congrArg Prod.fst hrun, hc.1, holdsOn_badges hc⟩

/-- **A chain decides its guard.** Whatever values its badges have, as long as
no plain `always()` is false: the chain of a guard without empty groups, its
parts numbered from anywhere, is passed when the guard holds for these values
and skipped when it does not, by the only walk there is. The same goes for
the chain of any text and the guard that the text is read as. -/
theorem compiled_chain_decides (base : String) (val : String → Bool) :
    (∀ (g : Guard) (start : Int), g.widthOK 1 = true →
      AlwaysTrue val (badges base start g.atoms) →
      ∃ c, runFrom start (compile base g) = (.ok c, start + g.atoms.length)
        ∧ Decides c val (g.holdsOn val (badges base start g.atoms)))
    ∧ ∀ text : String, AlwaysTrue val (textBadges base (Guard.parse text)) →
      ∃ c, ofText base text = .ok c
        ∧ Decides c val ((Guard.parse text).holdsOn val (textBadges base (Guard.parse text))) := by
  constructor
  · intro g start hg halways
    obtain ⟨c, hrun, hc⟩ := leadsBy_compile base val g hg start
    exact ⟨c, hrun, hc.1.decides nodup_badges (holdsOn_badges hc halways)⟩
  · intro text halways
    obtain ⟨c, hc, hwired, hleads⟩ := leads_ofText base text val
    exact ⟨c, hc, hwired.decides (nodup_textBadges base _) (hleads halways)⟩

/-- A series with fallbacks inside: its last fallback saves it, and it is
skipped when neither fallback holds. -/
theorem compiled_chain_decides_nested :
    (∃ c, runFrom 3 (compile "j" (.all [.atom "always()", .any [.atom "a", .atom "b"]]))
        = (.ok c, 6) ∧ Decides c (fun id => id != "j_p4") true)
    ∧ ∃ c, ofText "j" "always() && (a || b)" = .ok c
        ∧ Decides c (fun id => id == "j_p0") false := by
  have hparse : Guard.parse "always() && (a || b)"
      = .all [.atom "always()", .any [.atom "a", .atom "b"]] := by decide +kernel
  constructor
  · exact (compiled_chain_decides "j" fun id => id != "j_p4").1
      (.all [.atom "always()", .any [.atom "a", .atom "b"]]) 3 (by decide)
      (by unfold AlwaysTrue; decide)
  · have hdecides := (compiled_chain_decides "j" fun id => id == "j_p0").2
      "always() && (a || b)"
    rw [hparse] at hdecides
    exact hdecides (by unfold AlwaysTrue; decide)

end Chain

end JobChart
