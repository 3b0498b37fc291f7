import JobChart.Proofs.Chain.Layout

/-!
# Calls that share a count

One count may serve many calls. A call of `nextId` takes one part number, and
compiling a guard takes one for each atom on the way, also when it then meets
an empty group and no chain comes of it. The ids given out on the way to such
a failure are in no result, so they are put on record here: `compileWith` is
`compile` with the supply of ids left open (`compileWith_nextId`), and with a
supply that keeps a record it runs as before and also tells which ids it gave
out (`Serves`).

Compiling goes through the leaves of a guard, atoms and empty groups, from
left to right, and ends at the first empty group. So all that is said of a run
is said of a list of leaves, and runs are put together as such lists are
(`Serves.bind`).
-/

namespace JobChart

open Chart JobChart.Numbering

/-! ## Leaves -/

namespace Guard

mutual

/-- The atoms and the empty groups from left to right, an empty group as `none`. -/
def leaves : Guard → List (Option String)
  | atom t => [some t]
  | all gs => if gs.isEmpty then [none] else leavesEach gs
  | any gs => if gs.isEmpty then [none] else leavesEach gs

/-- The leaves of a row of guards. -/
def leavesEach : List Guard → List (Option String)
  | [] => []
  | g :: gs => g.leaves ++ leavesEach gs

end

/-- The texts in front of the first leaf without one. -/
def textsInFront : List (Option String) → List String
  | some t :: ls => t :: textsInFront ls
  | _ => []

/-- The atoms to the left of the first empty group; all of them if there is none. -/
def atomsInFront (g : Guard) : List String := textsInFront g.leaves

theorem leaves_group (k : Connective) (gs : List Guard) :
    (k.group gs).leaves = if gs.isEmpty then [none] else leavesEach gs := by
  cases k <;> rfl

theorem textsInFront_append_of_mem {ls : List (Option String)} (h : none ∈ ls)
    (ls' : List (Option String)) : textsInFront (ls ++ ls') = textsInFront ls := by
  fun_induction textsInFront ls with
  | case1 t ls ih => simpa [textsInFront] using ih (by simpa using h)
  | case2 ls hls =>
      match ls, h with
      | none :: ls, _ => rfl
      | some t :: ls, _ => exact absurd rfl (hls t ls)

theorem textsInFront_append_of_notMem {ls : List (Option String)} (h : none ∉ ls)
    (ls' : List (Option String)) :
    textsInFront (ls ++ ls') = textsInFront ls ++ textsInFront ls' := by
  induction ls with
  | nil => rfl
  | cons l ls ih =>
      cases l with
      | none => simp at h
      | some t => simpa [textsInFront] using ih (by simpa using h)

theorem mem_leavesEach {l : Option String} {gs : List Guard} :
    l ∈ leavesEach gs ↔ ∃ g ∈ gs, l ∈ g.leaves := by
  induction gs with
  | nil => simp [leavesEach]
  | cons g gs ih => simp [leavesEach, ih]

theorem widthOK_iff_leaves (g : Guard) : g.widthOK 1 = true ↔ none ∉ g.leaves := by
  induction g using group_induction with
  | atom t => simp [leaves]
  | group k gs ih =>
      rw [widthOK_group, leaves_group]
      cases gs with
      | nil => simp
      | cons g gs =>
          rw [if_neg (by simp), mem_leavesEach]
          simp only [not_exists, not_and]
          exact ⟨fun h g' hg' => (ih g' hg').mp (h.2 g' hg'),
            fun h => ⟨by simp, fun g' hg' => (ih g' hg').mpr (h g' hg')⟩⟩

theorem textsInFront_leavesEach {gs : List Guard}
    (h : ∀ g ∈ gs, none ∉ g.leaves ∧ g.atomsInFront = g.atoms) :
    textsInFront (leavesEach gs) = atomsEach gs := by
  induction gs with
  | nil => rfl
  | cons g gs ih =>
      obtain ⟨hg, hgs⟩ := List.forall_mem_cons.mp h
      rw [leavesEach, textsInFront_append_of_notMem hg.1, ih hgs, atomsEach_cons]
      exact congrArg (· ++ atomsEach gs) hg.2

theorem atomsInFront_eq_atoms (g : Guard) (h : none ∉ g.leaves) : g.atomsInFront = g.atoms := by
  induction g using group_induction with
  | atom t => rfl
  | group k gs ih =>
      rw [leaves_group] at h
      split at h
      · simp at h
      · next hgs =>
        rw [mem_leavesEach, not_exists] at h
        rw [atomsInFront, leaves_group, if_neg hgs, atoms_group]
        exact textsInFront_leavesEach fun g hg =>
          have hleaves := fun hnone => h g ⟨hg, hnone⟩
          ⟨hleaves, ih g hg hleaves⟩

end Guard

/-! ## Ids on record -/

/-- Numbering that keeps a record of the ids it gave out. -/
abbrev Recording := ExceptT JoinError (StateM (Int × List String))

namespace Recording

/-- The id of the next part, put on record. -/
def nextId (base : String) : Recording String := do
  let (n, ids) ← get
  set (n + 1, ids ++ [partId base n])
  return partId base n

/-- The outcome, the part number reached and the record, counting from `start`. -/
def runFrom {α : Type} (start : Int) (ids : List String) (work : Recording α) :
    Except JoinError α × Int × List String :=
  (ExceptT.run work).run (start, ids)

end Recording

namespace Chain

section

variable {m : Type → Type} [Monad m] [MonadExceptOf JoinError m]

mutual

/-- The chain of a guard, its atoms named by this supply of ids. -/
def compileWith (next : m String) : Guard → m (Chain Node Edge)
  | .atom t => return ofAtom (← next) t
  | .all gs => do ofExcept (join .all id (← compileEachWith next gs))
  | .any gs => do ofExcept (join .any id (← compileEachWith next gs))

def compileEachWith (next : m String) : List Guard → m (List (Chain Node Edge))
  | [] => return []
  | g :: gs => do
    let c ← compileWith next g
    let cs ← compileEachWith next gs
    return c :: cs

end

theorem compileWith_group (next : m String) (k : Connective) (gs : List Guard) :
    compileWith next (k.group gs)
      = compileEachWith next gs >>= fun cs => ofExcept (join k id cs) := by
  cases k <;> rfl

end

theorem joinChains_eq (k : Connective) (cs : List (Chain Node Edge)) :
    joinChains k cs = ofExcept (join k id cs) := by
  rw [joinChains]
  cases join k id cs <;> rfl

theorem compile_group (base : String) (k : Connective) (gs : List Guard) :
    compile base (k.group gs) = compileEach base gs >>= joinChains k := by
  cases k <;> rfl

/-- Compiling is compiling with the supply that only counts. -/
theorem compileWith_nextId (base : String) (g : Guard) :
    compileWith (Numbering.nextId base) g = compile base g := by
  induction g using Guard.group_induction with
  | atom t => rfl
  | group k gs ih =>
      have heach : compileEachWith (Numbering.nextId base) gs = compileEach base gs := by
        induction gs with
        | nil => rfl
        | cons g gs ihs =>
            obtain ⟨hg, hgs⟩ := List.forall_mem_cons.mp ih
            rw [compileEachWith, compileEach, hg, ihs hgs]
      rw [compileWith_group, compile_group, heach]
      exact congrArg _ (funext fun cs => (joinChains_eq k cs).symm)

end Chain

/-! ## What a run takes from the count -/

/-- The ids of the badges of these atoms. -/
def Numbering.ids (base : String) (n : Int) (ts : List String) : List String :=
  (badges base n ts).map (·.1)

theorem Numbering.ids_append {base : String} {n : Int} {ts us : List String} :
    ids base n (ts ++ us) = ids base n ts ++ ids base (n + ts.length) us := by
  rw [ids, badges_append, List.map_append]
  rfl

/-- A run goes through these leaves. From any number on it takes one number for
each atom in front of the first empty group, the recorded run puts the ids of
these numbers on record and is the same otherwise, and it fails just in case
there is an empty group; what comes of it else satisfies `Q`. -/
def Serves {α : Type} (base : String) (ls : List (Option String)) (Q : α → Prop)
    (x : Numbering α) (y : Recording α) : Prop :=
  ∀ n, ∃ r, Numbering.runFrom n x = (r, n + (Guard.textsInFront ls).length)
    ∧ (∀ old, Recording.runFrom n old y = (r, n + (Guard.textsInFront ls).length,
        old ++ Numbering.ids base n (Guard.textsInFront ls)))
    ∧ ((none ∉ ls ∧ ∃ a, r = .ok a ∧ Q a) ∨ (none ∈ ls ∧ ∃ e, r = .error e))

namespace Serves

variable {α β : Type} {base : String} {ls ls' : List (Option String)} {Q : α → Prop}
  {R : β → Prop} {x : Numbering α} {y : Recording α}

theorem pure {a : α} (h : Q a) : Serves base [] Q (pure a) (pure a) := by
  intro n
  refine ⟨.ok a, ?_, fun old => ?_, Or.inl ⟨by simp, a, rfl, h⟩⟩
  · rw [runFrom_pure]
    simp [Guard.textsInFront]
  · show (Except.ok a, n, old) = _
    simp [Guard.textsInFront, Numbering.ids, badges]

theorem nextId (base t : String) :
    Serves base [some t] (fun _ => True) (Numbering.nextId base) (Recording.nextId base) :=
  fun n => ⟨.ok (partId base n), rfl, fun _ => rfl, Or.inl ⟨by simp, _, rfl, trivial⟩⟩

theorem throw (e : JoinError) :
    Serves base [none] Q (throwThe JoinError e) (throwThe JoinError e) := by
  intro n
  refine ⟨.error e, ?_, fun old => ?_, Or.inr ⟨by simp, e, rfl⟩⟩
  · show (Except.error e, n) = _
    simp [Guard.textsInFront]
  · show (Except.error e, n, old) = _
    simp [Guard.textsInFront, Numbering.ids, badges]

/-- Work goes on through the leaves behind, if none before was empty. -/
theorem bind {f : α → Numbering β} {f' : α → Recording β} (h : Serves base ls Q x y)
    (hf : ∀ a, Q a → Serves base ls' R (f a) (f' a)) :
    Serves base (ls ++ ls') R (x >>= f) (y >>= f') := by
  intro n
  obtain ⟨r, hx, hy, ⟨hls, a, rfl, ha⟩ | ⟨hls, e, rfl⟩⟩ := h n
  · obtain ⟨r, hx', hy', hr⟩ := hf a ha (n + (Guard.textsInFront ls).length)
    rw [Guard.textsInFront_append_of_notMem hls, List.length_append, Int.natCast_add,
      ← Int.add_assoc]
    refine ⟨r, ?_, fun old => ?_, by simpa [hls] using hr⟩
    · rw [Numbering.runFrom, run_bind_of_ok f hx]
      exact hx'
    · rw [Recording.runFrom, run_bind_of_ok f' (hy old), ids_append, ← List.append_assoc]
      exact hy' _
  · rw [Guard.textsInFront_append_of_mem hls]
    refine ⟨.error e, ?_, fun old => ?_, Or.inr ⟨List.mem_append_left _ hls, e, rfl⟩⟩
    · rw [Numbering.runFrom, run_bind_of_error f hx]
    · rw [Recording.runFrom, run_bind_of_error f' (hy old)]

end Serves

namespace Chain

/-- A row of guards is served if each of them is, and gives a chain for each. -/
theorem serves_each {base : String} {gs : List Guard}
    (h : ∀ g ∈ gs, Serves base g.leaves (fun _ => True) (compileWith (Numbering.nextId base) g)
      (compileWith (Recording.nextId base) g)) :
    Serves base (Guard.leavesEach gs) (fun cs => cs.length = gs.length)
      (compileEachWith (Numbering.nextId base) gs)
      (compileEachWith (Recording.nextId base) gs) := by
  induction gs with
  | nil => exact .pure rfl
  | cons g gs ih =>
      obtain ⟨hg, hgs⟩ := List.forall_mem_cons.mp h
      refine hg.bind fun c _ => ?_
      rw [← List.append_nil (Guard.leavesEach gs)]
      exact (ih hgs).bind fun cs hcs => .pure (congrArg (· + 1) hcs)

theorem serves_compileWith (base : String) (g : Guard) :
    Serves base g.leaves (fun _ => True) (compileWith (Numbering.nextId base) g)
      (compileWith (Recording.nextId base) g) := by
  induction g using Guard.group_induction with
  | atom t =>
      exact (Serves.nextId base t).bind fun id _ => .pure trivial
  | group k gs ih =>
      rw [compileWith_group, compileWith_group, Guard.leaves_group]
      cases gs with
      | nil =>
          refine (serves_each ih).bind fun cs hcs => ?_
          rw [List.eq_nil_of_length_eq_zero hcs]
          exact .throw .emptyGroup
      | cons g gs =>
          rw [if_neg (by simp), ← List.append_nil (Guard.leavesEach _)]
          refine (serves_each ih).bind fun cs hcs => ?_
          obtain ⟨c, cs, rfl⟩ := List.exists_cons_of_length_eq_add_one hcs
          cases k <;> exact .pure trivial

end Chain

/-! ## Sessions -/

open Chain

/-- What is asked of a count. -/
inductive Call where
  | nextId (base : String)
  | compile (base : String) (g : Guard)

namespace Call

/-- The part number behind a call that starts from `n`. -/
def after (n : Int) : Call → Int
  | nextId base => (Numbering.runFrom n (Numbering.nextId base)).2
  | compile base g => (Numbering.runFrom n (Chain.compile base g)).2

/-- The ids that a call from `n` on gives out. -/
def issued (n : Int) : Call → List String
  | nextId base => (Recording.runFrom n [] (Recording.nextId base)).2.2
  | compile base g => (Recording.runFrom n [] (compileWith (Recording.nextId base) g)).2.2

end Call

/-- Calls one after the other, each with the part number it starts from. -/
def session : Int → List Call → List (Int × Call)
  | _, [] => []
  | n, c :: cs => (n, c) :: session (c.after n) cs

/-- All ids that these calls give out, those of failing calls included. -/
def issuedIds (start : Int) (calls : List Call) : List String :=
  (session start calls).flatMap fun s => s.2.issued s.1

/-- What a call from `n` on does to the count. -/
def Counted (n : Int) : Call → Prop
  | .nextId base => Numbering.runFrom n (Numbering.nextId base) = (.ok (partId base n), n + 1)
      ∧ (Call.nextId base).issued n = [partId base n]
  | .compile base g =>
      let run := Numbering.runFrom n (Chain.compile base g)
      let onRecord := Recording.runFrom n [] (compileWith (Recording.nextId base) g)
      (run.1 = .error .emptyGroup ↔ none ∈ g.leaves)
        ∧ run.2 = n + g.atomsInFront.length
        ∧ (none ∉ g.leaves → ∃ c, run.1 = .ok c ∧ g.atomsInFront = g.atoms
          ∧ onRecord.2.2 = c.nodes.map (·.id))
        ∧ onRecord = (run.1, run.2, Numbering.ids base n g.atomsInFront)

/-- These ids carry the numbers from `n` on, one each, under any bases. -/
def Spread : Int → List String → Prop
  | _, [] => True
  | n, id :: ids => (∃ base, id = partId base n) ∧ Spread (n + 1) ids

theorem Spread.append : ∀ {n : Int} {ids ids' : List String}, Spread n ids →
    Spread (n + ids.length) ids' → Spread n (ids ++ ids')
  | _, [], _, _, h' => by simpa using h'
  | n, id :: ids, ids', ⟨hid, h⟩, h' => by
      refine ⟨hid, h.append ?_⟩
      rw [List.length_cons] at h'
      convert h' using 1
      omega

theorem Spread.number : ∀ {n : Int} {ids : List String} {id : String}, Spread n ids → id ∈ ids →
    ∃ m ≥ n, ∃ base, id = partId base m
  | n, _ :: _, _, ⟨⟨base, hid⟩, h⟩, hmem => by
      rcases List.mem_cons.mp hmem with rfl | hmem
      · exact ⟨n, Int.le_refl n, base, hid⟩
      · obtain ⟨m, hm, hbase⟩ := h.number hmem
        exact ⟨m, by omega, hbase⟩

/-- Numbers tell ids apart, whatever the bases are. -/
theorem Spread.nodup : ∀ {n : Int} {ids : List String}, Spread n ids → ids.Nodup
  | _, [], _ => List.nodup_nil
  | n, id :: ids, ⟨⟨base, hid⟩, h⟩ => by
      refine List.nodup_cons.mpr ⟨fun hmem => ?_, h.nodup⟩
      obtain ⟨m, hm, base', hid'⟩ := h.number hmem
      have := (partId_inj (hid.symm.trans hid')).2
      omega

theorem spread_ids (base : String) : ∀ (n : Int) (ts : List String), Spread n (ids base n ts)
  | _, [] => trivial
  | n, _ :: ts => ⟨⟨base, rfl⟩, spread_ids base (n + 1) ts⟩

theorem length_ids (base : String) (n : Int) (ts : List String) :
    (ids base n ts).length = ts.length := by
  rw [ids, List.length_map, length_badges]

theorem counted (n : Int) (c : Call) : Counted n c := by
  cases c with
  | nextId base => exact ⟨rfl, rfl⟩
  | compile base g =>
      obtain ⟨r, hrun, hrecord, hr⟩ := serves_compileWith base g n
      rw [compileWith_nextId] at hrun
      have hrecord := hrecord []
      rw [Counted, hrun, hrecord]
      refine ⟨?_, rfl, fun hleaves => ?_, rfl⟩
      · rcases hr with ⟨hleaves, a, rfl, -⟩ | ⟨hleaves, ⟨⟩, rfl⟩
        · simp [hleaves]
        · simp [hleaves]
      · obtain ⟨c, hc, hwired, -⟩ :=
          exists_ordered_chain base g ((Guard.widthOK_iff_leaves g).mpr hleaves) n
        have hatoms := g.atomsInFront_eq_atoms hleaves
        refine ⟨c, congrArg Prod.fst (hrun.symm.trans hc), hatoms, ?_⟩
        rw [hwired.nodes, List.map_map, ← hatoms]
        exact List.map_congr_left fun b _ => (Badge.id_node b.1 b.2).symm

/-- A call gives out the numbers from where it starts to where it ends. -/
theorem spread_issued (n : Int) (c : Call) :
    Spread n (c.issued n) ∧ c.after n = n + (c.issued n).length := by
  have hcounted := counted n c
  cases c with
  | nextId base => exact ⟨⟨⟨base, rfl⟩, trivial⟩, rfl⟩
  | compile base g =>
      obtain ⟨-, hafter, -, hrecord⟩ := hcounted
      have hissued : (Call.compile base g).issued n = ids base n g.atomsInFront :=
        congrArg (·.2.2) hrecord
      rw [hissued, length_ids]
      exact ⟨spread_ids base n _, hafter⟩

theorem spread_session : ∀ (n : Int) (calls : List Call), Spread n (issuedIds n calls)
  | _, [] => trivial
  | n, c :: calls => by
      obtain ⟨hissued, hafter⟩ := spread_issued n c
      rw [issuedIds, session, List.flatMap_cons]
      exact hissued.append (hafter ▸ spread_session (c.after n) calls)

/-- **A shared count never repeats an id.** -/
theorem shared_count_never_repeats (start : Int) (calls : List Call) :
    (session start calls).map (·.2) = calls
      ∧ (∀ s ∈ session start calls, Counted s.1 s.2)
      ∧ (issuedIds start calls).Nodup := by
  refine ⟨?_, fun s _ => counted s.1 s.2, (spread_session start calls).nodup⟩
  induction calls generalizing start with
  | nil => rfl
  | cons c calls ih => rw [session, List.map_cons, ih]

/-- A compilation that fails between two calls: the id that it gave out before
it failed is not given out again, though its base has the look of one. -/
theorem shared_count_survives_failure :
    let failing : Call := .compile "x_p1" (.all [.atom "a", .any [], .atom "b"])
    let calls : List Call := [.nextId "x", failing, .nextId "x"]
    issuedIds 0 calls = ["x_p0", "x_p1_p1", "x_p2"]
      ∧ (issuedIds 0 calls).Nodup
      ∧ (1, failing) ∈ session 0 calls ∧ Counted 1 failing := by
  intro failing calls
  have hmem : (1, failing) ∈ session 0 calls := List.mem_cons_of_mem _ List.mem_cons_self
  obtain ⟨-, hcounted, hnodup⟩ := shared_count_never_repeats 0 calls
  exact ⟨by decide, hnodup, hmem, hcounted _ hmem⟩

end JobChart
