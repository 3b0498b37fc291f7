import JobChart.Workflow.Basic

/-!
# Order of jobs

The jobs in an order that puts each after the jobs it needs, as far as there
is one. The walk is depth first: it starts at each job in declared order and
first visits what a job needs, in the order of its `needs`. Names that are
not declared are passed over. On a cycle the need that leads back to a job
already entered is dropped.

The walk keeps a stack of tasks. Entering a job puts its needs on the stack
and below them the task of leaving it; the order lists jobs as they are left.
-/

namespace JobChart

/-- Declared jobs with what each needs. -/
abbrev Needs := List (String × List String)

namespace Order

inductive Task where
  | enter (name : String)
  | leave (name : String)
deriving DecidableEq, Repr

/-- The declared jobs that were not entered yet. -/
def unentered (needs : Needs) (entered : List String) : List String :=
  (needs.map (·.1)).filter (· ∉ entered)

theorem length_filter_lt_of {α : Type} {p q : α → Bool} {l : List α} {a : α}
    (hle : ∀ x, q x = true → p x = true) (ha : a ∈ l) (hp : p a = true) (hq : q a = false) :
    (l.filter q).length < (l.filter p).length := by
  induction l with
  | nil => simp at ha
  | cons b l ih =>
    have hmono : (l.filter q).length ≤ (l.filter p).length := by
      clear ih ha
      induction l with
      | nil => simp
      | cons c l ih =>
        simp only [List.filter_cons]
        by_cases hqc : q c = true
        · simp [hqc, hle c hqc, ih]
        · by_cases hpc : p c = true <;> simp [hqc, hpc] <;> omega
    rcases List.mem_cons.1 ha with rfl | ha
    · simp [hp, hq]; omega
    · have := ih ha
      simp only [List.filter_cons]
      by_cases hqb : q b = true
      · simp [hqb, hle b hqb, this]
      · by_cases hpb : p b = true <;> simp [hqb, hpb] <;> omega

theorem unentered_lt {needs : Needs} {entered : List String} {name : String} {deps : List String}
    (h : needs.lookup name = some deps) (hnew : name ∉ entered) :
    (unentered needs (name :: entered)).length < (unentered needs entered).length := by
  have hmem : name ∈ needs.map (·.1) := by
    induction needs with
    | nil => simp at h
    | cons p needs ih =>
      rw [List.lookup_cons] at h
      split at h
      · next heq => simp [beq_iff_eq.1 heq]
      · simp only [List.map_cons, List.mem_cons]
        exact .inr (ih h)
  refine length_filter_lt_of ?_ hmem (by simpa using hnew) (by simp)
  intro x hx
  simp only [List.mem_cons, not_or, decide_eq_true_eq] at hx ⊢
  exact hx.2

def walk (needs : Needs) (entered : List String) : List Task → List String
  | [] => []
  | .leave name :: tasks => name :: walk needs entered tasks
  | .enter name :: tasks =>
    if _hnew : name ∈ entered then walk needs entered tasks
    else
      match _h : needs.lookup name with
      | none => walk needs entered tasks
      | some deps =>
        walk needs (name :: entered) (deps.map .enter ++ .leave name :: tasks)
termination_by tasks => ((unentered needs entered).length, tasks.length)
decreasing_by
  · exact Prod.Lex.right _ (by simp)
  · exact Prod.Lex.right _ (by simp)
  · exact Prod.Lex.right _ (by simp)
  · exact Prod.Lex.left _ _ (unentered_lt _h _hnew)

def jobs (needs : Needs) : List String := walk needs [] (needs.map fun n => .enter n.1)

end Order

namespace Workflow

def needs (w : Workflow) : Needs := w.jobs.map fun j => (j.1, j.2.needs)

/-- The names of the jobs, each after what it needs. -/
def order (w : Workflow) : List String := Order.jobs w.needs

end Workflow

end JobChart
