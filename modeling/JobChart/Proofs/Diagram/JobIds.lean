import JobChart.Proofs.Diagram.Outline
import JobChart.Proofs.Diagram.StepIds

/-!
# The ids of different jobs

Which of the ids in a job's part of a chart can be the ids of another job. An id
is known by its `Role`: the box of the job or the node of a step, a badge in
front of one of these, or the node that stands for missing steps. The id of a
job's name stands in all of them, with a front and a back that the role decides.

Two roles can give the same id only in the few ways of `Meets`. The others are
told apart by how the ids begin, or by their last part: behind the last `_`
stand `uses`, `empty`, the place of a step or the number of a badge
(`last_part_inj`). Within one job no roles meet (`not_meets_self`).
-/

namespace JobChart.Diagram

open Text Chart JobChart.Numbering Chain

/-! ## Roles -/

/-- What a guard can stand in front of: the job, or the step at a place. -/
inductive Spot where
  | job
  | step (index : Nat)
deriving DecidableEq, Repr

/-- What an id in a job's part of the chart belongs to. -/
inductive Role where
  | spot (s : Spot)
  | call
  | empty
  /-- A badge in front of this spot: the only one, or the one of this number. -/
  | badge (s : Spot) (part : Option Nat)
deriving DecidableEq, Repr

def Spot.id (job : String) : Spot → String
  | .job => jobId job
  | .step i => stepId job i

/-- The id of a part, or of the whole. -/
def withPart (base : String) : Option Nat → String
  | none => base
  | some n => partId base n

def Role.id (job : String) : Role → String
  | .spot s => s.id job
  | .call => jobId job ++ "_uses"
  | .empty => jobId job ++ "_empty"
  | .badge s part => "cond_" ++ withPart (s.id job) part

/-- The badges in front of a spot: one for a guard that is an atom, else one for
each part. -/
def badgeRoles (s : Spot) : Guard → List Role
  | .atom _ => [.badge s none]
  | g => (List.range g.atoms.length).map fun n => .badge s (some n)

def guardRoles (s : Spot) (guard : Option String) : List Role :=
  match given guard with
  | some text => badgeRoles s (Guard.parse text)
  | none => []

def rowRoles : (index : Nat) → List Step → List Role
  | _, [] => []
  | i, s :: steps =>
    guardRoles (.step i) s.guard ++ [.spot (.step i)] ++ rowRoles (i + 1) steps

def contentRoles (job : Job) : List Role :=
  match given job.uses with
  | some _ => [.call]
  | none => if job.steps.isEmpty then [.empty] else rowRoles 0 job.steps

/-- What is drawn for a job. -/
def roles (job : Job) : List Role :=
  guardRoles .job job.guard ++ .spot .job :: contentRoles job

theorem eq_badge_of_mem {s : Spot} {guard : Option String} {r : Role}
    (h : r ∈ guardRoles s guard) : ∃ part, r = .badge s part := by
  rw [guardRoles] at h
  split at h
  · next text _ =>
    unfold badgeRoles at h
    split at h
    · exact ⟨none, List.mem_singleton.mp h⟩
    · obtain ⟨n, -, rfl⟩ := List.mem_map.mp h
      exact ⟨some n, rfl⟩
  · cases h

section

variable {name : String}

theorem ids_badges (base : String) (n : Int) (ts : List String) :
    (badges base n ts).map (·.1)
      = (List.range ts.length).map fun i : Nat => partId base (n + (i : Int)) := by
  refine List.ext_getElem? fun i => ?_
  rw [List.getElem?_map, List.getElem?_map, getElem?_badges]
  by_cases hi : i < ts.length <;> simp [hi]

theorem jobGuardId_eq (job : String) : jobGuardId job = "cond_" ++ jobId job := by
  rw [jobGuardId, jobId, ← String.append_assoc]
  rfl

theorem partId_cond (base : String) (n : Int) :
    partId ("cond_" ++ base) n = "cond_" ++ partId base n := by
  simp only [partId, String.append_assoc]

theorem guardIds_eq (s : Spot) (guard : Option String) :
    guardIds ("cond_" ++ s.id name) guard = (guardRoles s guard).map (Role.id name) := by
  have hparts : ∀ ts : List String, (badges ("cond_" ++ s.id name) 0 ts).map (·.1)
      = ((List.range ts.length).map fun n => Role.badge s (some n)).map (Role.id name) := by
    intro ts
    rw [ids_badges, List.map_map]
    refine List.map_congr_left fun n _ => ?_
    rw [Int.zero_add, partId_cond]
    rfl
  rw [guardIds, guardBadges, guardRoles]
  cases given guard with
  | none => rfl
  | some text =>
      show (textBadges _ (Guard.parse text)).map (·.1)
        = (badgeRoles s (Guard.parse text)).map (Role.id name)
      cases Guard.parse text with
      | atom t => rfl
      | all gs => exact hparts _
      | any gs => exact hparts _

theorem rowIds_eq (i : Nat) (steps : List Step) :
    rowIds name i steps = (rowRoles i steps).map (Role.id name) := by
  induction steps generalizing i with
  | nil => rfl
  | cons s steps ih =>
      rw [rowIds, rowRoles, ih, List.map_append, List.map_append, ← guardIds_eq]
      rfl

/-- The ids in a job's part of the chart are those of its roles. -/
theorem jobIds_eq (job : Job) :
    guardIds (jobGuardId name) job.guard ++ boxIds name job
      = (roles job).map (Role.id name) := by
  have hcontent : contentIds name job = (contentRoles job).map (Role.id name) := by
    rw [contentIds, contentRoles]
    cases given job.uses with
    | some call => rfl
    | none =>
        cases job.steps with
        | nil => rfl
        | cons s steps => exact rowIds_eq 0 (s :: steps)
  rw [roles, List.map_append, List.map_cons, ← hcontent, ← guardIds_eq, jobGuardId_eq]
  rfl

end

/-! ## Which roles can meet -/

section

variable {a b : String} {p q : Spot} {m n : Option Nat} {r s : Role}

theorem idOf_eq_of_jobId (h : jobId a = jobId b) : idOf a = idOf b :=
  (String.append_right_inj "job_").mp h

theorem cond_inj {x y : String} (h : "cond_" ++ x = "cond_" ++ y) : x = y :=
  (String.append_right_inj "cond_").mp h

/-- The box of one job and a badge of another are told apart by their first letter. -/
theorem job_ne_cond (x y : String) : "job_" ++ x ≠ "cond_" ++ y := by
  intro h
  have hchars := congrArg String.toList h
  simp at hchars

/-- **The ways to meet.** The id of the first role, in a job called `a`, is that
of the second one in a job called `b`. -/
inductive Meets (a b : String) : Role → Role → Prop
  | call (h : idOf a = idOf b ++ "_uses") : Meets a b (.spot .job) .call
  | empty (h : idOf a = idOf b ++ "_empty") : Meets a b (.spot .job) .empty
  | step {i : Nat} (h : jobId a = stepId b i) : Meets a b (.spot .job) (.spot (.step i))
  | badge {i : Nat} (h : jobGuardId a = stepId b i) :
    Meets a b (.badge .job none) (.spot (.step i))
  | stepBadge {i : Nat} (h : idOf b = "cond_" ++ idOf a) :
    Meets a b (.badge (.step i) none) (.spot (.step i))
  | part {n : Nat} (h : idOf a = idOf b ++ "_p" ++ toString n) :
    Meets a b (.badge .job none) (.badge .job (some n))
  | stepPart {i n : Nat} (h : jobId a = partId (stepId b i) n) :
    Meets a b (.badge .job none) (.badge (.step i) (some n))
  | badges {i : Nat} {part : Option Nat} (h : jobId a = stepId b i) :
    Meets a b (.badge .job part) (.badge (.step i) part)

/-- The roles are one and the names have one id, or the roles meet. -/
def Coincide (a b : String) (r s : Role) : Prop :=
  (idOf a = idOf b ∧ r = s) ∨ Meets a b r s ∨ Meets b a s r

theorem Coincide.symm (h : Coincide a b r s) : Coincide b a s r := by
  rcases h with ⟨hid, rfl⟩ | h | h
  · exact Or.inl ⟨hid.symm, rfl⟩
  · exact Or.inr (Or.inr h)
  · exact Or.inr (Or.inl h)

theorem coincide_spots (h : p.id a = q.id b) : Coincide a b (.spot p) (.spot q) := by
  cases p with
  | job =>
      cases q with
      | job => exact Or.inl ⟨idOf_eq_of_jobId h, rfl⟩
      | step i => exact Or.inr (Or.inl (.step h))
  | step i =>
      cases q with
      | job => exact Or.inr (Or.inr (.step h.symm))
      | step l =>
          simp only [Spot.id, stepId_eq] at h
          obtain ⟨hid, hlast⟩ := last_part_inj (underscore_not_mem_stepPart i)
            (underscore_not_mem_stepPart l) h
          exact Or.inl ⟨hid, by rw [stepPart_inj hlast]⟩

/-- Of the spots only a job's box can be called like a node that stands for
missing steps: behind the last `_` of a step's id stands `s`. -/
theorem coincide_spot_stub (back : String) (hback : '_' ∉ back.toList)
    (hlead : back.toList.head? ≠ some 's')
    (hmeets : idOf a = idOf b ++ ("_" ++ back) → Meets a b (.spot .job) r)
    (h : p.id a = jobId b ++ ("_" ++ back)) : Coincide a b (.spot p) r := by
  cases p with
  | job =>
      rw [Spot.id, jobId, jobId, String.append_assoc] at h
      exact Or.inr (Or.inl (hmeets ((String.append_right_inj "job_").mp h)))
  | step i =>
      have hends : idOf a ++ "_" ++ ("s" ++ toString i) = jobId b ++ "_" ++ back := by
        rw [← stepId_eq, String.append_assoc]
        exact h
      have hlast := (last_part_inj (underscore_not_mem_stepPart i) hback hends).2
      exact absurd (by rw [← hlast, String.toList_append]; rfl) hlead

theorem coincide_spot_badge (h : p.id a = "cond_" ++ withPart (q.id b) n) :
    Coincide a b (.spot p) (.badge q n) := by
  cases p with
  | job => exact absurd h (job_ne_cond _ _)
  | step i =>
      cases n with
      | some k =>
          rw [withPart, ← partId_cond] at h
          exact absurd h (stepId_ne_partId a _ i k)
      | none =>
          cases q with
          | job => exact Or.inr (Or.inr (.badge ((jobGuardId_eq b).trans h.symm)))
          | step l =>
              change stepId a i = stepGuardId b l at h
              rw [stepId_eq, stepGuardId_eq] at h
              obtain ⟨hid, hlast⟩ := last_part_inj (underscore_not_mem_stepPart i)
                (underscore_not_mem_stepPart l) h
              obtain rfl := stepPart_inj hlast
              exact Or.inr (Or.inr (.stepBadge hid))

/-- What stands behind `cond_` is the id of a spot or of a part. -/
theorem coincide_spot_part {k : Nat} (h : p.id a = partId (q.id b) k) :
    Coincide a b (.badge p none) (.badge q (some k)) := by
  cases p with
  | step i => exact absurd h (stepId_ne_partId a _ i k)
  | job =>
      cases q with
      | step l => exact Or.inr (Or.inl (.stepPart h))
      | job =>
          rw [Spot.id, Spot.id, jobId, jobId, partId, String.append_assoc, String.append_assoc] at h
          refine Or.inr (Or.inl (.part ?_))
          rw [(String.append_right_inj "job_").mp h, String.append_assoc]
          rfl

theorem coincide_badges (h : withPart (p.id a) m = withPart (q.id b) n) :
    Coincide a b (.badge p m) (.badge q n) := by
  have hspots : p.id a = q.id b → Coincide a b (.badge p m) (.badge q m) := by
    intro h
    rcases coincide_spots h with ⟨hid, heq⟩ | hmeet | hmeet
    · obtain rfl := Role.spot.inj heq
      exact Or.inl ⟨hid, rfl⟩
    · cases hmeet with
      | step hstep => exact Or.inr (Or.inl (.badges hstep))
    · cases hmeet with
      | step hstep => exact Or.inr (Or.inr (.badges hstep))
  cases m with
  | none =>
      cases n with
      | none => exact hspots h
      | some k => exact coincide_spot_part h
  | some k =>
      cases n with
      | none => exact (coincide_spot_part h.symm).symm
      | some l =>
          obtain ⟨hbase, hpart⟩ := partId_inj h
          obtain rfl : k = l := Int.ofNat_inj.mp hpart
          exact hspots hbase

theorem call_ne_empty : Role.call.id a ≠ Role.empty.id b := by
  intro h
  have hlast : jobId a ++ "_" ++ "uses" = jobId b ++ "_" ++ "empty" := by
    rw [String.append_assoc, String.append_assoc]
    exact h
  exact absurd (last_part_inj (by decide) (by decide) hlast).2 (by decide)

/-- Two roles of one id are the same, or they meet. -/
theorem coincide_of_id_eq (h : r.id a = s.id b) : Coincide a b r s := by
  have hcall : ∀ {a b : String} {p : Spot}, p.id a = Role.call.id b →
      Coincide a b (.spot p) .call := coincide_spot_stub "uses" (by decide) (by decide) .call
  have hempty : ∀ {a b : String} {p : Spot}, p.id a = Role.empty.id b →
      Coincide a b (.spot p) .empty := coincide_spot_stub "empty" (by decide) (by decide) .empty
  have hlead : ∀ (x y back : String), jobId x ++ back ≠ "cond_" ++ y := by
    intro x y back
    rw [jobId, String.append_assoc]
    exact job_ne_cond _ _
  cases r with
  | spot p =>
      cases s with
      | spot q => exact coincide_spots h
      | call => exact hcall h
      | empty => exact hempty h
      | badge q n => exact coincide_spot_badge h
  | call =>
      cases s with
      | spot q => exact (hcall h.symm).symm
      | call => exact Or.inl ⟨idOf_eq_of_jobId ((String.append_left_inj "_uses").mp h), rfl⟩
      | empty => exact absurd h call_ne_empty
      | badge q n => exact absurd h (hlead _ _ _)
  | empty =>
      cases s with
      | spot q => exact (hempty h.symm).symm
      | call => exact absurd h.symm call_ne_empty
      | empty => exact Or.inl ⟨idOf_eq_of_jobId ((String.append_left_inj "_empty").mp h), rfl⟩
      | badge q n => exact absurd h (hlead _ _ _)
  | badge p m =>
      cases s with
      | spot q => exact (coincide_spot_badge h.symm).symm
      | call => exact absurd h.symm (hlead _ _ _)
      | empty => exact absurd h.symm (hlead _ _ _)
      | badge q n => exact coincide_badges (cond_inj h)

/-- Roles that meet have one id. -/
theorem Meets.id_eq (h : Meets a b r s) : r.id a = s.id b := by
  cases h with
  | call h =>
      show jobId a = jobId b ++ "_uses"
      rw [jobId, h, ← String.append_assoc]
      rfl
  | empty h =>
      show jobId a = jobId b ++ "_empty"
      rw [jobId, h, ← String.append_assoc]
      rfl
  | step h => exact h
  | badge h => exact (jobGuardId_eq a).symm.trans h
  | @stepBadge i h =>
      show stepGuardId a i = stepId b i
      rw [stepGuardId_eq, stepId_eq, h]
  | @part n h =>
      show "cond_" ++ jobId a = "cond_" ++ partId (jobId b) n
      rw [jobId, h, partId, jobId]
      simp only [String.append_assoc]
      rfl
  | stepPart h => exact congrArg ("cond_" ++ ·) h
  | @badges i part h =>
      show "cond_" ++ withPart (jobId a) part = "cond_" ++ withPart (stepId b i) part
      rw [h]

/-! ## Within one job -/

/-- A text put in front of another is not one put behind it, if a letter tells them apart. -/
theorem front_ne_back {front back : String} {c : Char} (hfront : c ∉ front.toList)
    (hback : c ∈ back.toList) (x : String) : front ++ x ≠ x ++ back := by
  intro h
  have hcount := congrArg (fun t : String => t.toList.count c) h
  have hpos := List.count_pos_iff.mpr hback
  simp only [String.toList_append, List.count_append, List.count_eq_zero.mpr hfront] at hcount
  omega

theorem jobId_ne_stepId (a : String) (i : Nat) : jobId a ≠ stepId a i := by
  rw [jobId, stepId, String.append_assoc]
  exact front_ne_back (c := 's') (by decide) (by simp) _

/-- No two roles of one job meet. -/
theorem not_meets_self : ¬Meets a a r s := by
  have hlonger : ∀ {x t : String}, x = x ++ t → t = "" := fun {x t} h => by
    simpa using congrArg String.length h
  intro h
  cases h with
  | call h => exact absurd (hlonger h) (by decide)
  | empty h => exact absurd (hlonger h) (by decide)
  | step h => exact jobId_ne_stepId a _ h
  | badge h =>
      rw [jobGuardId, stepId, String.append_assoc] at h
      exact front_ne_back (c := 's') (by decide) (by simp) _ h
  | stepBadge h => simpa using congrArg String.length h
  | part h =>
      rw [String.append_assoc] at h
      simpa using hlonger h
  | stepPart h =>
      rw [jobId, partId, stepId, String.append_assoc, String.append_assoc, String.append_assoc] at h
      exact front_ne_back (c := 's') (by decide) (by simp) _ h
  | badges h => exact jobId_ne_stepId a _ h

end

end JobChart.Diagram
