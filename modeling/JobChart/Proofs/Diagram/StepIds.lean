import JobChart.Diagram.Ident
import JobChart.Proofs.Chain.Walk

/-!
# The ids inside a box

The steps of one job and the badges in front of them never share an id,
whatever the job is called. An id is cut at its last `_`: behind it stands
`s` and the place of a step, or `p` and the number of a part, and what stands
before it then has to agree too.

`Owns` says which ids belong to a step's place, and `owns_unique` that an id
belongs to one place only.
-/

namespace JobChart.Diagram

open Text Chart JobChart.Numbering Chain

/-! ## The last part of an id -/

theorem stepId_eq (job : String) (i : Nat) :
    stepId job i = idOf job ++ "_" ++ ("s" ++ toString i) := by
  rw [stepId, show "_s" = "_" ++ "s" from rfl]
  simp only [String.append_assoc]

theorem stepGuardId_eq (job : String) (i : Nat) :
    stepGuardId job i = "cond_" ++ idOf job ++ "_" ++ ("s" ++ toString i) := by
  rw [stepGuardId, stepId_eq]
  simp only [String.append_assoc]

theorem underscore_not_mem_stepPart (i : Nat) : '_' ∉ ("s" ++ toString i).toList := by
  simp

theorem stepPart_ne_partPart (i : Nat) (k : Int) : "s" ++ toString i ≠ "p" ++ toString k := by
  intro h
  have hchars := congrArg String.toList h
  simp only [String.toList_append] at hchars
  exact absurd (List.cons.inj hchars).1 (by decide)

theorem stepPart_inj {i j : Nat} (h : "s" ++ toString i = "s" ++ toString j) : i = j :=
  toString_nat_inj ((String.append_right_inj "s").mp h)

/-! ## Ids of steps and of their badges -/

theorem stepId_inj {job : String} {i j : Nat} (h : stepId job i = stepId job j) : i = j := by
  rw [stepId_eq, stepId_eq] at h
  exact stepPart_inj (last_part_inj (underscore_not_mem_stepPart i)
    (underscore_not_mem_stepPart j) h).2

theorem stepGuardId_inj {job : String} {i j : Nat} (h : stepGuardId job i = stepGuardId job j) :
    i = j :=
  stepId_inj ((String.append_right_inj "cond_").mp h)

theorem stepId_ne_stepGuardId (job : String) (i j : Nat) : stepId job i ≠ stepGuardId job j := by
  intro h
  rw [stepId_eq, stepGuardId_eq] at h
  have hfront := (last_part_inj (underscore_not_mem_stepPart i)
    (underscore_not_mem_stepPart j) h).1
  have hlen := congrArg String.length hfront
  rw [String.length_append, show "cond_".length = 5 from rfl] at hlen
  omega

/-- What ends in the place of a step is not the id of a part. -/
theorem stepEnd_ne_partId (front base : String) (i : Nat) (k : Int) :
    front ++ "_" ++ ("s" ++ toString i) ≠ partId base k := by
  intro h
  rw [partId_eq] at h
  exact stepPart_ne_partPart i k (last_part_inj (underscore_not_mem_stepPart i)
    (underscore_not_mem_partPart k) h).2

theorem stepId_ne_partId (job base : String) (i : Nat) (k : Int) :
    stepId job i ≠ partId base k :=
  stepId_eq job i ▸ stepEnd_ne_partId (idOf job) base i k

theorem stepGuardId_ne_partId (job base : String) (i : Nat) (k : Int) :
    stepGuardId job i ≠ partId base k :=
  stepGuardId_eq job i ▸ stepEnd_ne_partId ("cond_" ++ idOf job) base i k

/-- The id of a badge in front of the step at this place. -/
def IsStepBadge (job : String) (i : Nat) (id : String) : Prop :=
  id = stepGuardId job i ∨ ∃ k, id = partId (stepGuardId job i) k

/-- An id that belongs to the step at this place: its own or a badge's. -/
def Owns (job : String) (i : Nat) (id : String) : Prop :=
  id = stepId job i ∨ IsStepBadge job i id

theorem isStepBadge_of_mem {job : String} {i : Nat} {g : Guard} {id : String}
    (h : id ∈ (textBadges (stepGuardId job i) g).map (·.1)) : IsStepBadge job i id := by
  obtain ⟨b, hb, rfl⟩ := List.mem_map.mp h
  have hpart : ∀ {ts}, b ∈ badges (stepGuardId job i) 0 ts → IsStepBadge job i b.1 :=
    fun hb => let ⟨_, _, hid⟩ := mem_badges.mp hb; Or.inr ⟨_, hid⟩
  cases g with
  | atom t => exact Or.inl (by rw [List.mem_singleton.mp hb])
  | all gs => exact hpart hb
  | any gs => exact hpart hb

theorem stepId_not_badge {job : String} {i j : Nat} : ¬IsStepBadge job j (stepId job i) := by
  rintro (h | ⟨k, h⟩)
  · exact stepId_ne_stepGuardId job i j h
  · exact stepId_ne_partId job _ i k h

theorem isStepBadge_unique {job id : String} {i j : Nat} (hi : IsStepBadge job i id)
    (hj : IsStepBadge job j id) : i = j := by
  rcases hi with rfl | ⟨k, rfl⟩
  · rcases hj with h | ⟨k, h⟩
    · exact stepGuardId_inj h
    · exact absurd h (stepGuardId_ne_partId job _ i k)
  · rcases hj with h | ⟨k', h⟩
    · exact absurd h.symm (stepGuardId_ne_partId job _ j k)
    · exact stepGuardId_inj ((partId_inj h).1)

/-- No id belongs to two places. -/
theorem owns_unique {job id : String} {i j : Nat} (hi : Owns job i id) (hj : Owns job j id) :
    i = j := by
  rcases hi with rfl | hi
  · rcases hj with h | hj
    · exact stepId_inj h
    · exact absurd hj stepId_not_badge
  · rcases hj with rfl | hj
    · exact absurd hi stepId_not_badge
    · exact isStepBadge_unique hi hj

end JobChart.Diagram
