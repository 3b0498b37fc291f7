import JobChart.Chain.Compile
import JobChart.Proofs.Guard.Shape
import JobChart.Proofs.Text.Numeral

/-!
# Numbered badges

The ids that one compilation gives to its badges, and the induction that
every statement about a compiled chain goes through.

`compile_induction` is the only place that runs the numbering: a relation
between a part number, a guard and a chain that holds of every atom's chain
and is kept by joining holds of every chain that `compile` makes. It also
says that a guard without empty groups always compiles, and how far the part
number moves.
-/

namespace JobChart

open Text

namespace Numbering

theorem partId_eq (base : String) (k : Int) :
    partId base k = base ++ "_" ++ ("p" ++ toString k) := by
  rw [partId, show "_p" = "_" ++ "p" from rfl]
  simp only [String.append_assoc]

theorem underscore_not_mem_partPart (k : Int) : '_' ∉ ("p" ++ toString k).toList := by
  simpa using underscore_not_mem_int k

/-- An id of a part tells its base and its number. -/
theorem partId_inj {base base' : String} {m n : Int} (h : partId base m = partId base' n) :
    base = base' ∧ m = n := by
  rw [partId_eq, partId_eq] at h
  obtain ⟨hbase, hnumber⟩ :=
    last_part_inj (underscore_not_mem_partPart m) (underscore_not_mem_partPart n) h
  exact ⟨hbase, toString_int_inj ((String.append_right_inj _).mp hnumber)⟩

/-- The badges of a row of atoms, each with its id and its text, numbered from
`start` on. -/
def badges (base : String) : (start : Int) → List String → List (String × String)
  | _, [] => []
  | n, t :: ts => (partId base n, t) :: badges base (n + 1) ts

theorem badges_append {base : String} : ∀ {n : Int} {ts us : List String},
    badges base n (ts ++ us) = badges base n ts ++ badges base (n + ts.length) us
  | n, [], us => by simp [badges]
  | n, t :: ts, us => by
      rw [List.cons_append, badges, badges, badges_append, List.cons_append, List.length_cons]
      congr 3
      omega

theorem length_badges {base : String} : ∀ {n : Int} {ts : List String},
    (badges base n ts).length = ts.length
  | _, [] => rfl
  | n, t :: ts => by rw [badges, List.length_cons, length_badges, List.length_cons]

theorem getElem?_badges {base : String} : ∀ {n : Int} {ts : List String} {i : Nat},
    (badges base n ts)[i]? = (ts[i]?).map fun t => (partId base (n + i), t)
  | _, [], i => by simp [badges]
  | n, t :: ts, 0 => by simp [badges]
  | n, t :: ts, i + 1 => by
      have hplace : n + 1 + (i : Int) = n + ((i + 1 : Nat) : Int) := by omega
      rw [badges, List.getElem?_cons_succ, List.getElem?_cons_succ, getElem?_badges, hplace]

theorem mem_badges {base : String} {n : Int} {ts : List String} {b : String × String} :
    b ∈ badges base n ts ↔ ∃ i : Nat, ts[i]? = some b.2 ∧ b.1 = partId base (n + i) := by
  rw [List.mem_iff_getElem?]
  refine exists_congr fun i => ?_
  rw [getElem?_badges, Option.map_eq_some_iff]
  constructor
  · rintro ⟨t, ht, rfl⟩
    exact ⟨ht, rfl⟩
  · rintro ⟨ht, hid⟩
    exact ⟨b.2, ht, Prod.ext hid.symm rfl⟩

theorem nodup_badges {base : String} : ∀ {n : Int} {ts : List String},
    ((badges base n ts).map (·.1)).Nodup
  | _, [] => List.nodup_nil
  | n, t :: ts => by
      rw [badges, List.map_cons, List.nodup_cons]
      refine ⟨fun h => ?_, nodup_badges⟩
      obtain ⟨b, hb, hid⟩ := List.mem_map.mp h
      obtain ⟨i, -, hi⟩ := mem_badges.mp hb
      have := (partId_inj (hid.symm.trans hi)).2
      omega

/-! ## Running the numbering -/

section

variable {ε σ α β : Type} {x : ExceptT ε (StateM σ) α} {s s' : σ}

/-- Work goes on with what came out of the work before it. -/
theorem run_bind_of_ok {a : α} (f : α → ExceptT ε (StateM σ) β)
    (h : (ExceptT.run x).run s = (.ok a, s')) :
    (ExceptT.run (x >>= f)).run s = (ExceptT.run (f a)).run s' := by
  have h' : (x : StateT σ Id (Except ε α)) s = (.ok a, s') := h
  show (ExceptT.bind x f : StateT σ Id (Except ε β)) s = _
  simp only [ExceptT.bind, ExceptT.mk, bind, StateT.bind]
  rw [h']
  rfl

/-- A failure ends the work, and the state stays where it was then. -/
theorem run_bind_of_error {e : ε} (f : α → ExceptT ε (StateM σ) β)
    (h : (ExceptT.run x).run s = (.error e, s')) :
    (ExceptT.run (x >>= f)).run s = (.error e, s') := by
  have h' : (x : StateT σ Id (Except ε α)) s = (.error e, s') := h
  show (ExceptT.bind x f : StateT σ Id (Except ε β)) s = _
  simp only [ExceptT.bind, ExceptT.mk, bind, StateT.bind]
  rw [h']
  rfl

end

variable {α β : Type}

theorem runFrom_pure (n : Int) (a : α) : runFrom n (pure a : Numbering α) = (.ok a, n) := rfl

theorem runFrom_bind_ok {n m : Int} {x : Numbering α} {a : α} (f : α → Numbering β)
    (hx : runFrom n x = (.ok a, m)) : runFrom n (x >>= f) = runFrom m (f a) :=
  run_bind_of_ok f hx

end Numbering

/-! ## What compiling preserves -/

namespace Chain

open JobChart.Numbering Chart

def joined (k : Connective) (c : Chain Node Edge) (cs : List (Chain Node Edge)) :
    Chain Node Edge :=
  match k with
  | .all => series id c cs
  | .any => fallbacks id c cs

theorem entry_joined (k : Connective) (c : Chain Node Edge) (cs : List (Chain Node Edge)) :
    (joined k c cs).entry = c.entry := by
  cases k <;> rfl

theorem nodes_joined (k : Connective) (c : Chain Node Edge) (cs : List (Chain Node Edge)) :
    (joined k c cs).nodes = (c :: cs).flatMap (·.nodes) := by
  cases k <;> rfl

/-- A row of guards and the row of their chains are related one by one; the
parts of each guard are numbered behind those of the guards before it. -/
inductive EachFrom (P : Int → Guard → Chain Node Edge → Prop) :
    Int → List Guard → List (Chain Node Edge) → Prop
  | nil (n : Int) : EachFrom P n [] []
  | cons {n : Int} {g : Guard} {c : Chain Node Edge} {gs : List Guard}
      {cs : List (Chain Node Edge)} (head : P n g c)
      (tail : EachFrom P (n + g.atoms.length) gs cs) : EachFrom P n (g :: gs) (c :: cs)

theorem EachFrom.imp {P Q : Int → Guard → Chain Node Edge → Prop}
    (himp : ∀ n g c, P n g c → Q n g c) {n : Int} {gs : List Guard}
    {cs : List (Chain Node Edge)} (h : EachFrom P n gs cs) : EachFrom Q n gs cs := by
  induction h with
  | nil n => exact .nil n
  | cons hc _ ih => exact .cons (himp _ _ _ hc) ih

theorem runFrom_compile_group {base : String} {k : Connective} {gs : List Guard}
    {n m : Int} {c : Chain Node Edge} {cs : List (Chain Node Edge)}
    (h : runFrom n (compileEach base gs) = (.ok (c :: cs), m)) :
    runFrom n (compile base (k.group gs)) = (.ok (joined k c cs), m) := by
  cases k with
  | all =>
      show runFrom n (compileEach base gs >>= joinChains .all) = _
      rw [runFrom_bind_ok _ h]
      rfl
  | any =>
      show runFrom n (compileEach base gs >>= joinChains .any) = _
      rw [runFrom_bind_ok _ h]
      rfl

theorem runFrom_compileEach_cons {base : String} {g : Guard} {gs : List Guard}
    {n m l : Int} {c : Chain Node Edge} {cs : List (Chain Node Edge)}
    (hg : runFrom n (compile base g) = (.ok c, m))
    (hgs : runFrom m (compileEach base gs) = (.ok cs, l)) :
    runFrom n (compileEach base (g :: gs)) = (.ok (c :: cs), l) := by
  rw [compileEach, runFrom_bind_ok _ hg, runFrom_bind_ok _ hgs]
  rfl

/-- **Induction over a compilation.** Every guard without empty groups has a
chain, it takes one part number for each atom, and what atoms' chains satisfy
and joining keeps holds of it. -/
theorem compile_induction {P : Int → Guard → Chain Node Edge → Prop} {base : String}
    (hatom : ∀ n t, P n (.atom t) (ofAtom (partId base n) t))
    (hjoin : ∀ n k gs c cs, EachFrom P n gs (c :: cs) → P n (k.group gs) (joined k c cs))
    (g : Guard) (hg : g.widthOK 1 = true) (n : Int) :
    ∃ c, runFrom n (compile base g) = (.ok c, n + g.atoms.length) ∧ P n g c := by
  induction g using Guard.group_induction generalizing n with
  | atom t => exact ⟨ofAtom (partId base n) t, rfl, hatom n t⟩
  | group k gs ih =>
      obtain ⟨hlen, hgs⟩ := Guard.widthOK_group.mp hg
      have hrow : ∀ (hs : List Guard), (∀ h ∈ hs, h ∈ gs) → ∀ n, ∃ cs,
          runFrom n (compileEach base hs) = (.ok cs, n + (Guard.atomsEach hs).length)
            ∧ EachFrom P n hs cs := by
        intro hs hsub
        induction hs with
        | nil => exact fun n => ⟨[], by simp [compileEach, runFrom_pure], .nil n⟩
        | cons h hs ihs =>
            intro n
            have hmem : h ∈ gs := hsub h List.mem_cons_self
            obtain ⟨c, hc, hPc⟩ := ih h hmem (hgs h hmem) n
            obtain ⟨cs, hcs, hPcs⟩ :=
              ihs (fun h' hh' => hsub h' (List.mem_cons_of_mem _ hh')) (n + h.atoms.length)
            refine ⟨c :: cs, ?_, .cons hPc hPcs⟩
            rw [runFrom_compileEach_cons hc hcs, Guard.atomsEach_cons, List.length_append,
              Int.natCast_add, Int.add_assoc]
      obtain ⟨cs, hcs, hPcs⟩ := hrow gs (fun _ h => h) n
      cases hPcs with
      | nil => simp at hlen
      | @cons _ _ c _ cs' hhead htail =>
          refine ⟨joined k c cs', ?_, hjoin n k _ c cs' (.cons hhead htail)⟩
          rw [runFrom_compile_group hcs, Guard.atoms_group]

end Chain

end JobChart
