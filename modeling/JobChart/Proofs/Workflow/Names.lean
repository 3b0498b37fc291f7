import Mathlib.Data.List.Nodup
import JobChart.Workflow.Reader

/-!
# Names of jobs

A workflow that was read from a document has no two jobs of one name, so a
look-up by name finds each of them (`lookup_of_mem`).
-/

namespace JobChart.Workflow

theorem names_putJob (name : String) (job : Job) : ∀ js : List (String × Job),
    (putJob name job js).map (·.1)
      = if name ∈ js.map (·.1) then js.map (·.1) else js.map (·.1) ++ [name]
  | [] => rfl
  | j :: js => by
      rw [putJob]
      by_cases hname : j.1 = name
      · rw [if_pos hname, if_pos (by simp [hname]), List.map_cons, List.map_cons, hname]
      · have hmem : name ∈ j.1 :: js.map (·.1) ↔ name ∈ js.map (·.1) := by
          simp [Ne.symm hname]
        rw [if_neg hname, List.map_cons, names_putJob name job js, List.map_cons,
          if_congr hmem rfl rfl]
        split <;> rfl

/-- Putting in a job keeps the names distinct. -/
theorem nodup_putJob {name : String} {job : Job} {js : List (String × Job)}
    (h : (js.map (·.1)).Nodup) : ((putJob name job js).map (·.1)).Nodup := by
  rw [names_putJob]
  split
  · exact h
  · next hnew => exact List.concat_eq_append ▸ h.concat hnew

theorem nodup_jobsOf (entries : List (Value × Value)) : ((jobsOf entries).map (·.1)).Nodup := by
  have hfold : ∀ (es : List (Value × Value)) (js : List (String × Job)), (js.map (·.1)).Nodup →
      ((es.foldl (fun js e => putJob e.1.text (Job.ofValue e.2) js) js).map (·.1)).Nodup := by
    intro es
    induction es with
    | nil => exact fun _ h => h
    | cons e es ih => exact fun js h => ih _ (nodup_putJob h)
  exact hfold entries [] List.nodup_nil

theorem nodup_names {data : Value} {w : Workflow} (h : ofValue data = .ok w) :
    (w.jobs.map (·.1)).Nodup := by
  unfold ofValue at h
  split at h
  · split at h
    · cases h
      exact nodup_jobsOf _
    · cases h
  · cases h

theorem nodup_names_of_map {f : String → String} {w : Workflow}
    (h : (w.jobs.map fun j => f j.1).Nodup) : (w.jobs.map (·.1)).Nodup := by
  refine List.Nodup.of_map f ?_
  rwa [List.map_map]

variable {β : Type} {name : String} {b : β} {entries : List (String × β)}

/-- Where names are distinct, every entry is found by its name. -/
theorem lookup_of_mem (hnames : (entries.map (·.1)).Nodup) (h : (name, b) ∈ entries) :
    entries.lookup name = some b := by
  induction entries with
  | nil => cases h
  | cons e entries ih =>
      rw [List.map_cons, List.nodup_cons] at hnames
      rw [List.lookup_cons]
      rcases List.mem_cons.mp h with rfl | h
      · rw [beq_self_eq_true]
      · have hne : name ≠ e.1 := by
          rintro rfl
          exact hnames.1 (List.mem_map.mpr ⟨_, h, rfl⟩)
        rw [beq_false_of_ne hne]
        exact ih hnames.2 h

theorem mem_of_lookup (h : entries.lookup name = some b) : (name, b) ∈ entries := by
  obtain ⟨front, back, rfl, -⟩ := List.lookup_eq_some_iff.mp h
  simp

theorem declared_of_lookup (h : entries.lookup name = some b) : name ∈ entries.map (·.1) :=
  List.mem_map_of_mem (mem_of_lookup h)

theorem undeclared_of_lookup (h : entries.lookup name = none) : name ∉ entries.map (·.1) := by
  intro hmem
  obtain ⟨e, he, rfl⟩ := List.mem_map.mp hmem
  simpa using List.lookup_eq_none_iff.mp h e he

theorem exists_lookup (h : name ∈ entries.map (·.1)) : ∃ b, entries.lookup name = some b := by
  cases hlookup : entries.lookup name with
  | none => exact absurd h (undeclared_of_lookup hlookup)
  | some b => exact ⟨b, rfl⟩

end JobChart.Workflow
