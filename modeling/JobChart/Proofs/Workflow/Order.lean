import Mathlib.Data.List.Permutation
import Mathlib.Logic.Relation
import JobChart.Proofs.Workflow.Names
import JobChart.Workflow.Order

/-!
# The order of jobs puts needs first

What the walk over the jobs leaves behind, for any needs, cyclic or not:
every declared job once, and each after the declared jobs it needs, except
where a need lies on a cycle.

The walk is followed task by task. A job is *open* from when it is entered
until it is left, so the open jobs are those with a `leave` on the stack. Two
things hold all the time (`Sound`). The open jobs are a path of needs, from
the lowest on the stack to the highest (`Stacked`). And whatever an open job
needs is left already, or is named by a task above its `leave`, or leads back
to the job. So when a job is left, with nothing above it any more, all it
needs stands in front of it or leads back to it.
-/

namespace JobChart

open Relation

namespace Order

variable {needs : Needs} {done entered : List String} {tasks : List Task} {n m d : String}

/-! ## Needs as a relation -/

/-- The job `n` is declared with `d` among its needs. -/
def Lists (needs : Needs) (n d : String) : Prop :=
  ∃ deps, needs.lookup n = some deps ∧ d ∈ deps

/-- The job `n` needs the declared job `d`. -/
def Requires (needs : Needs) (n d : String) : Prop :=
  Lists needs n d ∧ d ∈ needs.map (·.1)

theorem Lists.declared (h : Lists needs n d) : n ∈ needs.map (·.1) := by
  obtain ⟨deps, hlookup, -⟩ := h
  exact Workflow.declared_of_lookup hlookup

/-! ## The stack -/

def Task.name : Task → String
  | enter n => n
  | leave n => n

/-- The open jobs of a stack, the last one entered first. -/
def opened : List Task → List String
  | [] => []
  | .enter _ :: tasks => opened tasks
  | .leave n :: tasks => n :: opened tasks

@[simp] theorem opened_append (as bs : List Task) : opened (as ++ bs) = opened as ++ opened bs := by
  induction as with
  | nil => rfl
  | cons t as ih => cases t <;> simp [opened, ih]

@[simp] theorem opened_enters (deps : List String) : opened (deps.map .enter) = [] := by
  induction deps with
  | nil => rfl
  | cons d deps ih => exact ih

theorem mem_opened : n ∈ opened tasks ↔ Task.leave n ∈ tasks := by
  induction tasks with
  | nil => simp [opened]
  | cons t tasks ih => cases t <;> simp [opened, ih]

/-- The task of leaving a job stands behind tasks that only enter. -/
theorem exists_above_of_enters {deps : List String} {above below : List Task}
    (h : deps.map .enter ++ tasks = above ++ .leave m :: below) :
    ∃ above', above = deps.map .enter ++ above' ∧ tasks = above' ++ .leave m :: below := by
  induction deps generalizing above with
  | nil => exact ⟨above, rfl, h⟩
  | cons d deps ih =>
      cases above with
      | nil => cases (List.cons.inj h).1
      | cons t above =>
          obtain ⟨rfl, hrest⟩ := List.cons.inj h
          obtain ⟨above', rfl, htasks⟩ := ih hrest
          exact ⟨above', rfl, htasks⟩

/-- Every task is about something that the open job below it lists. -/
def Stacked (needs : Needs) : List Task → Prop
  | [] => True
  | t :: tasks => (∀ a, (opened tasks).head? = some a → Lists needs a t.name) ∧ Stacked needs tasks

theorem Stacked.drop {as bs : List Task} (h : Stacked needs (as ++ bs)) : Stacked needs bs := by
  induction as with
  | nil => exact h
  | cons t as ih => exact ih h.2

theorem stacked_enters : ∀ names : List String, Stacked needs (names.map .enter)
  | [] => trivial
  | _ :: names => by
      refine ⟨fun a ha => ?_, stacked_enters names⟩
      rw [opened_enters] at ha
      cases ha

/-- The needs of a job that is entered go on the stack with its own `leave`. -/
theorem Stacked.enters {deps : List String} (h : Stacked needs (.leave n :: tasks))
    (hdeps : ∀ d ∈ deps, Lists needs n d) :
    Stacked needs (deps.map .enter ++ .leave n :: tasks) := by
  induction deps with
  | nil => exact h
  | cons d deps ih =>
      obtain ⟨hd, hrest⟩ := List.forall_mem_cons.mp hdeps
      refine ⟨fun a ha => ?_, ih hrest⟩
      have htop : some n = some a := by simpa [opened] using ha
      obtain rfl := Option.some.inj htop
      exact hd

/-- The open jobs below a task lead to the job it is about. -/
theorem Stacked.reaches {t : Task} (h : Stacked needs (t :: tasks))
    (ht : t.name ∈ needs.map (·.1)) (hn : n ∈ opened tasks) :
    ReflTransGen (Requires needs) n t.name := by
  induction tasks generalizing t with
  | nil => cases hn
  | cons u tasks ih =>
      obtain ⟨htop, hrest⟩ := h
      cases u with
      | enter x => exact ih ⟨htop, hrest.2⟩ ht hn
      | leave a =>
          have hstep : Requires needs a t.name := ⟨htop a rfl, ht⟩
          rcases List.mem_cons.mp hn with rfl | hn
          · exact .single hstep
          · exact (ih hrest hstep.1.declared hn).tail hstep

/-! ## The invariant -/

/-- In the order `d` stands before `n`, or `d` leads back to `n`. -/
def BeforeOrCyclic (needs : Needs) (order : List String) (d n : String) : Prop :=
  [d, n].Sublist order ∨ ReflTransGen (Requires needs) d n

theorem BeforeOrCyclic.append (h : BeforeOrCyclic needs done d n) (more : List String) :
    BeforeOrCyclic needs (done ++ more) d n :=
  h.imp_left fun hsub => hsub.trans (List.sublist_append_left done more)

/-- What holds whenever the walk has left the jobs `done` and has these tasks
to do. -/
structure Sound (needs : Needs) (done entered : List String) (tasks : List Task) : Prop where
  once : (done ++ opened tasks).Nodup
  entered_iff : ∀ n, n ∈ entered ↔ n ∈ done ∨ n ∈ opened tasks
  declared : ∀ n ∈ entered, n ∈ needs.map (·.1)
  covered : ∀ n ∈ needs.map (·.1), n ∈ done ∨ ∃ t ∈ tasks, t.name = n
  stacked : Stacked needs tasks
  pending : ∀ above n below, tasks = above ++ .leave n :: below → ∀ d, Requires needs n d →
    d ∈ done ∨ ReflTransGen (Requires needs) d n ∨ ∃ t ∈ above, t.name = d
  sorted : ∀ n ∈ done, ∀ d, Requires needs n d → BeforeOrCyclic needs done d n

theorem Sound.start (needs : Needs) : Sound needs [] [] ((needs.map (·.1)).map .enter) where
  once := by
    rw [opened_enters]
    exact List.nodup_nil
  entered_iff := by
    intro n
    rw [opened_enters]
    simp
  declared := fun _ h => (List.not_mem_nil h).elim
  covered := fun n hn => Or.inr ⟨.enter n, List.mem_map_of_mem hn, rfl⟩
  stacked := stacked_enters _
  pending := by
    intro above n below htasks
    have hopen : n ∈ opened ((needs.map (·.1)).map .enter) := mem_opened.mpr (by rw [htasks]; simp)
    rw [opened_enters] at hopen
    cases hopen
  sorted := fun _ h => (List.not_mem_nil h).elim

/-! ## What a task preserves -/

/-- Leaving a job puts it behind all it needs. -/
theorem Sound.leave (h : Sound needs done entered (.leave n :: tasks)) :
    Sound needs (done ++ [n]) entered tasks where
  once := by simpa [opened] using h.once
  entered_iff := by
    intro m
    rw [h.entered_iff m]
    simp [opened, or_assoc]
  declared := h.declared
  covered := by
    intro m hm
    rcases h.covered m hm with hdone | ⟨t, ht, rfl⟩
    · exact Or.inl (List.mem_append_left _ hdone)
    · rcases List.mem_cons.mp ht with rfl | ht
      · exact Or.inl (by simp [Task.name])
      · exact Or.inr ⟨t, ht, rfl⟩
  stacked := h.stacked.2
  pending := by
    intro above m below htasks d hd
    rcases h.pending (.leave n :: above) m below (by rw [htasks]; rfl) d hd with
      hdone | hcycle | ⟨t, ht, rfl⟩
    · exact Or.inl (List.mem_append_left _ hdone)
    · exact Or.inr (Or.inl hcycle)
    · rcases List.mem_cons.mp ht with rfl | ht
      · exact Or.inl (by simp [Task.name])
      · exact Or.inr (Or.inr ⟨t, ht, rfl⟩)
  sorted := by
    intro m hm d hd
    rcases List.mem_append.mp hm with hm | hm
    · exact (h.sorted m hm d hd).append [n]
    · obtain rfl := List.mem_singleton.mp hm
      rcases h.pending [] m tasks rfl d hd with hdone | hcycle | ⟨t, ht, -⟩
      · exact Or.inl ((List.singleton_sublist.mpr hdone).append (List.Sublist.refl [m]))
      · exact Or.inr hcycle
      · cases ht

/-- A task of entering may go when what is said of its job holds without it. -/
theorem Sound.pass (h : Sound needs done entered (.enter n :: tasks))
    (hcovered : n ∈ needs.map (·.1) → n ∈ done ∨ ∃ t ∈ tasks, t.name = n)
    (hpending : ∀ above m below, tasks = above ++ .leave m :: below → Requires needs m n →
      n ∈ done ∨ ReflTransGen (Requires needs) n m ∨ ∃ t ∈ above, t.name = n) :
    Sound needs done entered tasks where
  once := h.once
  entered_iff := h.entered_iff
  declared := h.declared
  covered := by
    intro m hm
    rcases h.covered m hm with hdone | ⟨t, ht, rfl⟩
    · exact Or.inl hdone
    · rcases List.mem_cons.mp ht with rfl | ht
      · exact hcovered hm
      · exact Or.inr ⟨t, ht, rfl⟩
  stacked := h.stacked.2
  pending := by
    intro above m below htasks d hd
    rcases h.pending (.enter n :: above) m below (by rw [htasks]; rfl) d hd with
      hdone | hcycle | ⟨t, ht, rfl⟩
    · exact Or.inl hdone
    · exact Or.inr (Or.inl hcycle)
    · rcases List.mem_cons.mp ht with rfl | ht
      · exact hpending above m below htasks hd
      · exact Or.inr (Or.inr ⟨t, ht, rfl⟩)
  sorted := h.sorted

/-- A job that was entered before is passed over: where it is still open, it
leads to the jobs above it on the stack. -/
theorem Sound.pass_entered (h : Sound needs done entered (.enter n :: tasks)) (hn : n ∈ entered) :
    Sound needs done entered tasks := by
  have hdone_or_open : n ∈ done ∨ n ∈ opened tasks := (h.entered_iff n).mp hn
  refine h.pass (fun _ => ?_) fun above m below htasks hm => ?_
  · exact hdone_or_open.imp_right fun hopen => ⟨.leave n, mem_opened.mp hopen, rfl⟩
  · have hstacked := h.stacked.2
    rw [htasks] at hstacked
    rw [htasks, opened_append, List.mem_append, opened, List.mem_cons] at hdone_or_open
    rcases hdone_or_open with hdone | habove | rfl | hbelow
    · exact Or.inl hdone
    · exact Or.inr (Or.inr ⟨.leave n, mem_opened.mp habove, rfl⟩)
    · exact Or.inr (Or.inl .refl)
    · exact Or.inr (Or.inl (hstacked.drop.reaches hm.1.declared hbelow))

/-- A name that is not declared is passed over: no job requires it. -/
theorem Sound.pass_undeclared (h : Sound needs done entered (.enter n :: tasks))
    (hn : n ∉ needs.map (·.1)) : Sound needs done entered tasks :=
  h.pass (fun hdeclared => absurd hdeclared hn) fun _ _ _ _ hm => absurd hm.2 hn

/-- A job that is entered is open from then on, with all it needs above it. -/
theorem Sound.enter {deps : List String} (h : Sound needs done entered (.enter n :: tasks))
    (hnew : n ∉ entered) (hlookup : needs.lookup n = some deps) :
    Sound needs done (n :: entered) (deps.map .enter ++ .leave n :: tasks) where
  once := by
    have hout := mt (h.entered_iff n).mpr hnew
    rw [not_or] at hout
    rw [opened_append, opened_enters, List.nil_append, opened, List.nodup_middle, List.nodup_cons,
      List.mem_append, not_or]
    exact ⟨hout, h.once⟩
  entered_iff := by
    intro m
    rw [List.mem_cons, h.entered_iff m, opened_append, opened_enters, List.nil_append, opened,
      opened, List.mem_cons]
    exact or_left_comm
  declared := List.forall_mem_cons.mpr ⟨Workflow.declared_of_lookup hlookup, h.declared⟩
  covered := by
    intro m hm
    refine (h.covered m hm).imp_right fun ⟨t, ht, hname⟩ => ?_
    rcases List.mem_cons.mp ht with rfl | ht
    · exact ⟨.leave n, by simp, hname⟩
    · exact ⟨t, by simp [ht], hname⟩
  stacked := Stacked.enters h.stacked fun d hd => ⟨deps, hlookup, hd⟩
  pending := by
    intro above m below htasks d hd
    obtain ⟨above', rfl, hrest⟩ := exists_above_of_enters htasks
    rcases List.cons_eq_append_iff.mp hrest with ⟨rfl, hcons⟩ | ⟨above'', rfl, htasks'⟩
    · obtain ⟨hleave, rfl⟩ := List.cons.inj hcons
      obtain rfl := Task.leave.inj hleave
      obtain ⟨⟨deps', hlookup', hd⟩, -⟩ := hd
      obtain rfl := Option.some.inj (hlookup.symm.trans hlookup')
      exact Or.inr (Or.inr ⟨.enter d, by simpa using hd, rfl⟩)
    · refine (h.pending (.enter n :: above'') m below (by rw [htasks']; rfl) d hd).imp_right
        fun hd => hd.imp_right fun ⟨t, ht, hname⟩ => ?_
      rcases List.mem_cons.mp ht with rfl | ht
      · exact ⟨.leave n, by simp, hname⟩
      · exact ⟨t, by simp [ht], hname⟩
  sorted := h.sorted

/-! ## The whole walk -/

/-- What holds of the jobs left, the jobs entered and the tasks stays true,
whichever task comes next. -/
structure Kept (needs : Needs) (inv : List String → List String → List Task → Prop) : Prop where
  leave : ∀ {done entered n tasks}, inv done entered (.leave n :: tasks) →
    inv (done ++ [n]) entered tasks
  pass_entered : ∀ {done entered n tasks}, inv done entered (.enter n :: tasks) → n ∈ entered →
    inv done entered tasks
  pass_undeclared : ∀ {done entered n tasks}, inv done entered (.enter n :: tasks) →
    n ∉ needs.map (·.1) → inv done entered tasks
  enter : ∀ {done entered n tasks deps}, inv done entered (.enter n :: tasks) → n ∉ entered →
    needs.lookup n = some deps → inv done (n :: entered) (deps.map .enter ++ .leave n :: tasks)

/-- What each task preserves, the walk preserves to its end. -/
theorem Kept.walk {inv : List String → List String → List Task → Prop} (hkept : Kept needs inv)
    (h : inv done entered tasks) :
    ∃ entered', inv (done ++ walk needs entered tasks) entered' [] := by
  fun_induction Order.walk needs entered tasks generalizing done with
  | case1 entered => exact ⟨entered, by rwa [List.append_nil]⟩
  | case2 entered n tasks ih =>
      obtain ⟨entered', h'⟩ := ih (hkept.leave h)
      exact ⟨entered', by rwa [List.append_assoc] at h'⟩
  | case3 entered n tasks hn ih => exact ih (hkept.pass_entered h hn)
  | case4 entered n tasks _ hnone ih =>
      exact ih (hkept.pass_undeclared h (Workflow.undeclared_of_lookup hnone))
  | case5 entered n tasks hnew deps hlookup ih => exact ih (hkept.enter h hnew hlookup)

theorem kept_sound (needs : Needs) : Kept needs (Sound needs) :=
  ⟨Sound.leave, Sound.pass_entered, Sound.pass_undeclared, Sound.enter⟩

theorem Sound.mem_iff (h : Sound needs done entered []) : n ∈ done ↔ n ∈ needs.map (·.1) := by
  constructor
  · intro hn
    exact h.declared n ((h.entered_iff n).mpr (Or.inl hn))
  · intro hn
    exact (h.covered n hn).resolve_right fun ⟨_, ht, _⟩ => List.not_mem_nil ht

theorem Sound.nodup (h : Sound needs done entered []) : done.Nodup := by
  have honce := h.once
  rwa [opened, List.append_nil] at honce

/-- The whole walk: every declared job once, each behind what it requires. -/
theorem jobs_sound (needs : Needs) : ∃ entered, Sound needs (jobs needs) entered [] := by
  have hwalk := (kept_sound needs).walk (Sound.start needs)
  rwa [List.map_map] at hwalk

end Order

namespace Workflow

/-- The job `n` needs the declared job `d`. -/
def Requires (w : Workflow) (n d : String) : Prop :=
  ∃ job, w.jobs.lookup n = some job ∧ d ∈ job.needs ∧ d ∈ w.jobs.map (·.1)

theorem lookup_needs (w : Workflow) (n : String) :
    w.needs.lookup n = (w.jobs.lookup n).map (·.needs) := by
  rw [needs]
  induction w.jobs with
  | nil => rfl
  | cons j jobs ih =>
      rw [List.map_cons, List.lookup_cons, List.lookup_cons]
      split
      · rfl
      · exact ih

theorem names_needs (w : Workflow) : w.needs.map (·.1) = w.jobs.map (·.1) := by
  rw [needs, List.map_map]
  rfl

theorem requires_iff {w : Workflow} {n d : String} :
    w.Requires n d ↔ Order.Requires w.needs n d := by
  rw [Order.Requires, Order.Lists, names_needs, lookup_needs, Requires]
  simp only [Option.map_eq_some_iff, exists_exists_and_eq_and]
  constructor
  · rintro ⟨job, hjob, hd, hdeclared⟩
    exact ⟨⟨job, hjob, hd⟩, hdeclared⟩
  · rintro ⟨⟨job, hjob, hd⟩, hdeclared⟩
    exact ⟨job, hjob, hd, hdeclared⟩

theorem requires_eq (w : Workflow) : w.Requires = Order.Requires w.needs := by
  funext n d
  exact propext requires_iff

/-- The order lists the declared jobs. -/
theorem mem_order {w : Workflow} {n : String} : n ∈ w.order ↔ n ∈ w.jobs.map (·.1) := by
  obtain ⟨entered, h⟩ := Order.jobs_sound w.needs
  rw [← names_needs]
  exact h.mem_iff

/-- Where no two jobs have one name, the order lists the jobs once each. -/
theorem order_perm {w : Workflow} (hnames : (w.jobs.map (·.1)).Nodup) :
    w.order.Perm (w.jobs.map (·.1)) := by
  obtain ⟨entered, h⟩ := Order.jobs_sound w.needs
  exact (List.perm_ext_iff_of_nodup h.nodup hnames).mpr fun _ => mem_order

/-- **Needs come first.** Whatever the jobs of a workflow need, the order has
every declared job once and nothing else. A job stands behind each declared
job it needs, unless that job leads back to it along needs; so without cycles
every need comes first. -/
theorem order_respects_needs (w : Workflow) :
    w.order.Nodup ∧ (∀ n, n ∈ w.order ↔ n ∈ w.jobs.map (·.1))
      ∧ (∀ n d, w.Requires n d → [d, n].Sublist w.order ∨ ReflTransGen w.Requires d n)
      ∧ ((∀ n, ¬TransGen w.Requires n n) → ∀ n d, w.Requires n d → [d, n].Sublist w.order) := by
  obtain ⟨entered, h⟩ := Order.jobs_sound w.needs
  have hsorted : ∀ n d, w.Requires n d →
      [d, n].Sublist w.order ∨ ReflTransGen w.Requires d n := by
    intro n d hd
    rw [requires_eq] at hd ⊢
    exact h.sorted n (h.mem_iff.mpr hd.1.declared) d hd
  refine ⟨h.nodup, fun _ => mem_order, hsorted, fun hacyclic n d hd => ?_⟩
  exact (hsorted n d hd).resolve_right fun hback => hacyclic n (.head' hd hback)

/-- Two jobs that need each other, and a third that needs the first of them
and a job that is not declared. -/
def circular : Workflow where
  jobs := [("a", { needs := ["b"] }), ("b", { needs := ["a"] }),
    ("c", { needs := ["x", "a", "a"] })]

/-- The need that is not met leads back to its job. -/
theorem circular_need_dropped :
    circular.order = ["b", "a", "c"] ∧ circular.Requires "b" "a"
      ∧ ReflTransGen circular.Requires "a" "b" := by
  have horder : circular.order = ["b", "a", "c"] := by cbv
  have hneeds : circular.Requires "b" "a" := ⟨{ needs := ["a"] }, rfl, by decide, by decide⟩
  refine ⟨horder, hneeds, ?_⟩
  have hsorted := (order_respects_needs circular).2.2.1 "b" "a" hneeds
  rw [horder] at hsorted
  exact hsorted.resolve_left (by decide)

end Workflow

end JobChart
