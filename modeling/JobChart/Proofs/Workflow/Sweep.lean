import JobChart.Proofs.Workflow.Order

/-!
# The order keeps to the declared order

The walk takes the declared jobs one after the other, and a job that it finds
new brings what it leads to along needs, and nothing else. So what the first
jobs lead to stands in front of all that only a later job leads to
(`order_follows_declared`).

The walk over a row of jobs is the front part of the walk over a longer one
(`walk_prefix`), so it is enough to know what a walk finds when its stack is
empty. Until then it has found what it has entered, and is still to find what
the stack says (`Sweep`): all it has entered is led to from the row, and what
the row or an entered job asks for is entered or waits on the stack.

Cycles do not matter here. That a job is entered before its needs are looked
at is what ends the walk, and it is all the invariant speaks of.
-/

namespace JobChart

open Relation

namespace Order

variable {needs : Needs} {roots done entered : List String} {tasks : List Task} {n d : String}

/-! ## One task -/

theorem walk_entered (h : n ∈ entered) (tasks : List Task) :
    walk needs entered (.enter n :: tasks) = walk needs entered tasks := by
  rw [walk, dif_pos h]

theorem walk_undeclared (h : n ∉ needs.map (·.1)) (tasks : List Task) :
    walk needs entered (.enter n :: tasks) = walk needs entered tasks := by
  rw [walk]
  split
  · rfl
  · split
    · rfl
    · next hlookup => exact absurd (Workflow.declared_of_lookup hlookup) h

theorem walk_new {deps : List String} (hnew : n ∉ entered) (h : needs.lookup n = some deps)
    (tasks : List Task) :
    walk needs entered (.enter n :: tasks)
      = walk needs (n :: entered) (deps.map .enter ++ .leave n :: tasks) := by
  rw [walk, dif_neg hnew]
  split
  · next hnone => rw [h] at hnone; cases hnone
  · next deps' hdeps =>
    obtain rfl := Option.some.inj (h.symm.trans hdeps)
    rfl

theorem walk_leave (tasks : List Task) :
    walk needs entered (.leave n :: tasks) = n :: walk needs entered tasks := by
  rw [walk]

/-- More tasks below do not change what comes of the tasks above them. -/
theorem walk_prefix (needs : Needs) (entered : List String) (tasks more : List Task) :
    walk needs entered tasks <+: walk needs entered (tasks ++ more) := by
  fun_induction walk needs entered tasks with
  | case1 entered => exact List.nil_prefix
  | case2 entered n tasks ih =>
      rw [List.cons_append, walk_leave]
      exact (List.prefix_cons_inj n).mpr ih
  | case3 entered n tasks hn ih => rwa [List.cons_append, walk_entered hn]
  | case4 entered n tasks hn hnone ih =>
      rwa [List.cons_append, walk_undeclared (Workflow.undeclared_of_lookup hnone)]
  | case5 entered n tasks hnew deps hlookup ih =>
      rw [List.append_assoc, List.cons_append] at ih
      rwa [List.cons_append, walk_new hnew hlookup]

/-! ## What the walk finds -/

/-- A job of the row leads to `n` along needs. -/
def LedTo (needs : Needs) (roots : List String) (n : String) : Prop :=
  ∃ r ∈ roots, ReflTransGen (Requires needs) r n

/-- What holds of a walk over the row `roots` that has left the jobs `done`
and has these tasks to do. -/
structure Sweep (needs : Needs) (roots done entered : List String) (tasks : List Task) : Prop where
  entered_led : ∀ n ∈ entered, LedTo needs roots n
  tasks_led : ∀ n ∈ needs.map (·.1), .enter n ∈ tasks → LedTo needs roots n
  root_kept : ∀ r ∈ roots, r ∈ needs.map (·.1) → r ∈ entered ∨ .enter r ∈ tasks
  need_kept : ∀ n ∈ entered, ∀ d, Requires needs n d → d ∈ entered ∨ .enter d ∈ tasks
  entered_iff : ∀ n, n ∈ entered ↔ n ∈ done ∨ .leave n ∈ tasks

theorem Sweep.start (needs : Needs) (roots : List String) :
    Sweep needs roots [] [] (roots.map .enter) where
  entered_led := fun _ h => (List.not_mem_nil h).elim
  tasks_led := fun n _ hn => ⟨n, by simpa using hn, .refl⟩
  root_kept := fun r hr _ => Or.inr (List.mem_map_of_mem hr)
  need_kept := fun _ h => (List.not_mem_nil h).elim
  entered_iff := by simp

theorem Sweep.leave (h : Sweep needs roots done entered (.leave n :: tasks)) :
    Sweep needs roots (done ++ [n]) entered tasks where
  entered_led := h.entered_led
  tasks_led := fun m hm hmem => h.tasks_led m hm (List.mem_cons_of_mem _ hmem)
  root_kept := by simpa using h.root_kept
  need_kept := by simpa using h.need_kept
  entered_iff := by simpa [or_assoc] using h.entered_iff

/-- A task of entering goes without loss when its job is entered, or is no job. -/
theorem Sweep.pass (h : Sweep needs roots done entered (.enter n :: tasks))
    (hn : n ∈ needs.map (·.1) → n ∈ entered) : Sweep needs roots done entered tasks := by
  have hkept : ∀ m ∈ needs.map (·.1), m ∈ entered ∨ .enter m ∈ .enter n :: tasks →
      m ∈ entered ∨ .enter m ∈ tasks := by
    intro m hm hmem
    rcases hmem with hmem | hmem
    · exact Or.inl hmem
    · rcases List.mem_cons.mp hmem with heq | hmem
      · obtain rfl := Task.enter.inj heq
        exact Or.inl (hn hm)
      · exact Or.inr hmem
  exact {
    entered_led := h.entered_led
    tasks_led := fun m hm hmem => h.tasks_led m hm (List.mem_cons_of_mem _ hmem)
    root_kept := fun r hr hdeclared => hkept r hdeclared (h.root_kept r hr hdeclared)
    need_kept := fun m hm d hd => hkept d hd.2 (h.need_kept m hm d hd)
    entered_iff := by simpa using h.entered_iff }

/-- A job that is entered asks for its needs, and they wait on the stack. -/
theorem Sweep.enter {deps : List String} (h : Sweep needs roots done entered (.enter n :: tasks))
    (hlookup : needs.lookup n = some deps) :
    Sweep needs roots done (n :: entered) (deps.map .enter ++ .leave n :: tasks) := by
  have hled : LedTo needs roots n :=
    h.tasks_led n (Workflow.declared_of_lookup hlookup) List.mem_cons_self
  have hkept : ∀ m, m ∈ entered ∨ .enter m ∈ .enter n :: tasks →
      m ∈ n :: entered ∨ .enter m ∈ deps.map .enter ++ .leave n :: tasks := by
    intro m hmem
    rcases hmem with hmem | hmem
    · exact Or.inl (List.mem_cons_of_mem _ hmem)
    · rcases List.mem_cons.mp hmem with heq | hmem
      · obtain rfl := Task.enter.inj heq
        exact Or.inl List.mem_cons_self
      · exact Or.inr (by simp [hmem])
  refine ⟨List.forall_mem_cons.mpr ⟨hled, h.entered_led⟩, fun m hm hmem => ?_,
    fun r hr hdeclared => hkept r (h.root_kept r hr hdeclared), fun m hm d hd => ?_, fun m => ?_⟩
  · rcases List.mem_append.mp hmem with hdep | htask
    · obtain ⟨r, hr, hpath⟩ := hled
      have hdep : m ∈ deps := by simpa using hdep
      exact ⟨r, hr, hpath.tail ⟨⟨deps, hlookup, hdep⟩, hm⟩⟩
    · exact h.tasks_led m hm (by simpa using Or.inr htask)
  · rcases List.mem_cons.mp hm with rfl | hm
    · obtain ⟨⟨deps', hlookup', hdep⟩, -⟩ := hd
      obtain rfl := Option.some.inj (hlookup.symm.trans hlookup')
      exact Or.inr (List.mem_append_left _ (List.mem_map_of_mem hdep))
    · exact hkept d (h.need_kept m hm d hd)
  · have hentered := h.entered_iff m
    simp only [List.mem_cons, reduceCtorEq, false_or] at hentered
    simp [hentered, or_left_comm]

theorem kept_sweep (needs : Needs) (roots : List String) : Kept needs (Sweep needs roots) where
  leave := Sweep.leave
  pass_entered := fun h hn => h.pass fun _ => hn
  pass_undeclared := fun h hn => h.pass fun hdeclared => absurd hdeclared hn
  enter := fun h _ hlookup => h.enter hlookup

/-- With nothing left to do, what was left is what the row leads to. -/
theorem Sweep.mem_iff (h : Sweep needs roots done entered [])
    (hroots : ∀ r ∈ roots, r ∈ needs.map (·.1)) : n ∈ done ↔ LedTo needs roots n := by
  have hdone : ∀ m, m ∈ entered ↔ m ∈ done := by simpa using h.entered_iff
  rw [← hdone]
  refine ⟨h.entered_led n, ?_⟩
  rintro ⟨r, hr, hpath⟩
  induction hpath with
  | refl => simpa using h.root_kept r hr (hroots r hr)
  | tail _ hstep ih => simpa using h.need_kept _ ih _ hstep

theorem mem_walk_iff (hroots : ∀ r ∈ roots, r ∈ needs.map (·.1)) :
    n ∈ walk needs [] (roots.map .enter) ↔ LedTo needs roots n := by
  obtain ⟨entered, h⟩ := (kept_sweep needs roots).walk (Sweep.start needs roots)
  exact h.mem_iff hroots

/-! ## A declared order that needs no change -/

/-- Tasks of entering go when none of them is about a job that is new. -/
theorem walk_passes {deps : List String} (h : ∀ d ∈ deps, d ∈ needs.map (·.1) → d ∈ entered)
    (tasks : List Task) :
    walk needs entered (deps.map .enter ++ tasks) = walk needs entered tasks := by
  induction deps with
  | nil => rfl
  | cons d deps ih =>
      obtain ⟨hd, hdeps⟩ := List.forall_mem_cons.mp h
      rw [List.map_cons, List.cons_append]
      by_cases hdeclared : d ∈ needs.map (·.1)
      · rw [walk_entered (hd hdeclared), ih hdeps]
      · rw [walk_undeclared hdeclared, ih hdeps]

/-- A row of new jobs whose needs are entered, or stand in front of them in the
row, is left in the order of the row. -/
theorem walk_of_ordered {row : List String} (hnodup : row.Nodup)
    (hnew : ∀ n ∈ row, n ∉ entered) (hdeclared : ∀ n ∈ row, n ∈ needs.map (·.1))
    (hneeds : ∀ n ∈ row, ∀ d, Requires needs n d → d ∈ entered ∨ [d, n].Sublist row) :
    walk needs entered (row.map .enter) = row := by
  induction row generalizing entered with
  | nil => rw [List.map_nil, walk]
  | cons n row ih =>
      obtain ⟨hn, hnodup⟩ := List.nodup_cons.mp hnodup
      obtain ⟨hnnew, hnew⟩ := List.forall_mem_cons.mp hnew
      obtain ⟨hndeclared, hdeclared⟩ := List.forall_mem_cons.mp hdeclared
      obtain ⟨hnneeds, hneeds⟩ := List.forall_mem_cons.mp hneeds
      obtain ⟨deps, hlookup⟩ := Workflow.exists_lookup hndeclared
      have hpass : ∀ d ∈ deps, d ∈ needs.map (·.1) → d ∈ n :: entered := by
        intro d hd hdeclared
        refine List.mem_cons_of_mem n
          ((hnneeds d ⟨⟨deps, hlookup, hd⟩, hdeclared⟩).resolve_right ?_)
        intro hsub
        rcases List.sublist_cons_iff.mp hsub with hsub | ⟨l, hl, hsub⟩
        · exact hn (hsub.subset (by simp))
        · obtain ⟨-, rfl⟩ := List.cons.inj hl
          exact hn (hsub.subset (by simp))
      rw [List.map_cons, walk_new hnnew hlookup, walk_passes hpass, walk_leave]
      refine congrArg (n :: ·) (ih hnodup (fun m hm => ?_) hdeclared fun m hm d hd => ?_)
      · rw [List.mem_cons, not_or]
        exact ⟨fun heq => hn (heq ▸ hm), hnew m hm⟩
      · rcases hneeds m hm d hd with hentered | hsub
        · exact Or.inl (List.mem_cons_of_mem n hentered)
        · rcases List.sublist_cons_iff.mp hsub with hsub | ⟨l, hl, -⟩
          · exact Or.inr hsub
          · exact Or.inl ((List.cons.inj hl).1 ▸ List.mem_cons_self)

end Order

namespace Workflow

theorem order_eq_walk (w : Workflow) :
    w.order = Order.walk w.needs [] ((w.jobs.map (·.1)).map .enter) := by
  rw [← names_needs, List.map_map]
  rfl

/-- **The order keeps to the declared order as far as needs allow.** Whatever
the jobs need, what the first `k` declared jobs lead to along needs is what a
front part of the order lists. And where each job is declared behind the
declared jobs it needs, the order is the declared order. -/
theorem order_follows_declared (w : Workflow) :
    (∀ k, ∃ m, ∀ n, n ∈ w.order.take m ↔
        ∃ r ∈ (w.jobs.map (·.1)).take k, ReflTransGen w.Requires r n)
      ∧ ((w.jobs.map (·.1)).Nodup →
        (∀ n d, w.Requires n d → [d, n].Sublist (w.jobs.map (·.1))) →
          w.order = w.jobs.map (·.1)) := by
  rw [requires_eq, order_eq_walk]
  refine ⟨fun k => ?_, fun hnodup hneeds => ?_⟩
  · let front := Order.walk w.needs [] (((w.jobs.map (·.1)).take k).map .enter)
    have hfront := Order.walk_prefix w.needs [] (((w.jobs.map (·.1)).take k).map .enter)
      (((w.jobs.map (·.1)).drop k).map .enter)
    rw [← List.map_append, List.take_append_drop] at hfront
    refine ⟨front.length, fun n => ?_⟩
    rw [← List.prefix_iff_eq_take.mp hfront, Order.mem_walk_iff, Order.LedTo]
    intro r hr
    rw [names_needs]
    exact List.mem_of_mem_take hr
  · refine Order.walk_of_ordered hnodup (fun n _ => List.not_mem_nil) (fun n hn => ?_)
      fun n _ d hd => Or.inr (hneeds n d hd)
    rw [names_needs]
    exact hn

/-- Jobs declared behind what they need; the last one needs a job that is not
declared, too. -/
def layered : Workflow where
  jobs := [("a", {}), ("b", { needs := ["a"] }), ("c", { needs := ["x", "b", "a"] })]

/-- The first of two jobs that need each other leads to both; and jobs that are
declared in order. -/
theorem order_follows_declared_circular :
    (∃ m, ∀ n, n ∈ circular.order.take m ↔
        ∃ r ∈ ["a"], ReflTransGen circular.Requires r n)
      ∧ layered.order = ["a", "b", "c"] := by
  refine ⟨(order_follows_declared circular).1 1,
    (order_follows_declared layered).2 (by decide) ?_⟩
  rintro n d ⟨job, hjob, hd, hdeclared⟩
  have hentry := mem_of_lookup hjob
  simp only [layered, List.mem_cons, List.not_mem_nil, or_false, Prod.mk.injEq] at hentry
  rcases hentry with ⟨rfl, rfl⟩ | ⟨rfl, rfl⟩ | ⟨rfl, rfl⟩
  · cases hd
  · obtain rfl := List.mem_singleton.mp hd
    decide
  · simp only [List.mem_cons, List.not_mem_nil, or_false] at hd
    rcases hd with rfl | rfl | rfl
    · exact absurd hdeclared (by decide)
    · decide
    · decide

end Workflow

end JobChart
