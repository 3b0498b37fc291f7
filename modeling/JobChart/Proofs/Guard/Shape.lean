import JobChart.Guard.Basic

/-!
# The shape of a guard

Induction over a guard with its two kinds of group treated alike, the guard
with other texts for its atoms, the least number of members of its groups,
and its value when its atoms have values.

Atoms are told apart by their place, counted from the left, and not by their
text: the same text may stand in two places and hold in only one of them.
-/

namespace JobChart

namespace Guard

/-! ## Induction -/

/-- What holds of every atom, and of every group when it holds of its
members, holds of every guard. -/
theorem group_induction {P : Guard → Prop} (atom : ∀ t, P (.atom t))
    (group : ∀ (k : Connective) (gs : List Guard), (∀ g ∈ gs, P g) → P (k.group gs))
    (g : Guard) : P g := by
  refine @Guard.rec P (fun gs => ∀ g ∈ gs, P g) atom (group .all) (group .any) ?_ ?_ g
  · exact fun _ hg => (List.not_mem_nil hg).elim
  · intro h hs hh hhs g hg
    rcases List.mem_cons.mp hg with rfl | hg'
    · exact hh
    · exact hhs g hg'

/-! ## Atoms -/

@[simp] theorem atoms_atom (t : String) : (atom t).atoms = [t] := rfl

@[simp] theorem atoms_group (k : Connective) (gs : List Guard) :
    (k.group gs).atoms = atomsEach gs := by
  cases k <;> rfl

@[simp] theorem atomsEach_nil : atomsEach [] = [] := rfl

@[simp] theorem atomsEach_cons (g : Guard) (gs : List Guard) :
    atomsEach (g :: gs) = g.atoms ++ atomsEach gs := rfl

theorem mem_atomsEach {t : String} {gs : List Guard} :
    t ∈ atomsEach gs ↔ ∃ g ∈ gs, t ∈ g.atoms := by
  induction gs with
  | nil => simp
  | cons g gs ih => simp [ih]

/-! ## Other atoms -/

mutual

/-- The guard with the texts of its atoms changed. -/
def mapAtoms (f : String → String) : Guard → Guard
  | atom t => atom (f t)
  | all gs => all (mapAtomsEach f gs)
  | any gs => any (mapAtomsEach f gs)

/-- `mapAtoms` of every guard in a row. -/
def mapAtomsEach (f : String → String) : List Guard → List Guard
  | [] => []
  | g :: gs => g.mapAtoms f :: mapAtomsEach f gs

end

/-- The kinds of the groups and their numbers of members, without the atoms' texts. -/
def shape (g : Guard) : Guard := g.mapAtoms fun _ => ""

theorem mapAtomsEach_eq_map (f : String → String) : ∀ gs : List Guard,
    mapAtomsEach f gs = gs.map (mapAtoms f)
  | [] => rfl
  | g :: gs => by rw [mapAtomsEach, mapAtomsEach_eq_map f gs, List.map_cons]

theorem mapAtoms_group (f : String → String) (k : Connective) (gs : List Guard) :
    (k.group gs).mapAtoms f = k.group (gs.map (mapAtoms f)) := by
  cases k <;> exact congrArg _ (mapAtomsEach_eq_map f gs)

theorem atomsEach_mapAtoms {f : String → String} {gs : List Guard}
    (h : ∀ g ∈ gs, (g.mapAtoms f).atoms = g.atoms.map f) :
    atomsEach (gs.map (mapAtoms f)) = (atomsEach gs).map f := by
  induction gs with
  | nil => rfl
  | cons g gs ih =>
      obtain ⟨hg, hgs⟩ := List.forall_mem_cons.mp h
      rw [List.map_cons, atomsEach_cons, atomsEach_cons, List.map_append, hg, ih hgs]

theorem atoms_mapAtoms (f : String → String) (g : Guard) :
    (g.mapAtoms f).atoms = g.atoms.map f := by
  induction g using group_induction with
  | atom t => rfl
  | group k gs ih => rw [mapAtoms_group, atoms_group, atoms_group, atomsEach_mapAtoms ih]

/-- Changing the texts of the atoms keeps the shape. -/
theorem shape_mapAtoms (f : String → String) (g : Guard) : (g.mapAtoms f).shape = g.shape := by
  rw [shape, shape]
  induction g using group_induction with
  | atom t => rfl
  | group k gs ih =>
      rw [mapAtoms_group, mapAtoms_group, mapAtoms_group, List.map_map]
      exact congrArg k.group (List.map_congr_left ih)

/-! ## The size of groups -/

mutual

/-- Every group in the guard has at least `n` members. -/
def widthOK (n : Nat) : Guard → Bool
  | atom _ => true
  | all gs => decide (n ≤ gs.length) && widthsOK n gs
  | any gs => decide (n ≤ gs.length) && widthsOK n gs

/-- `widthOK` of every guard in a row. -/
def widthsOK (n : Nat) : List Guard → Bool
  | [] => true
  | g :: gs => g.widthOK n && widthsOK n gs

end

theorem widthsOK_iff {n : Nat} : ∀ {gs : List Guard},
    widthsOK n gs = true ↔ ∀ g ∈ gs, g.widthOK n = true
  | [] => by simp [widthsOK]
  | g :: gs => by
      have ih := @widthsOK_iff n gs
      simp [widthsOK, ih]

@[simp] theorem widthOK_atom (n : Nat) (t : String) : (atom t).widthOK n = true := rfl

theorem widthOK_group {n : Nat} {k : Connective} {gs : List Guard} :
    (k.group gs).widthOK n = true ↔ n ≤ gs.length ∧ ∀ g ∈ gs, g.widthOK n = true := by
  cases k <;> simp [Connective.group, widthOK, widthsOK_iff]

theorem widthOK_mono {m n : Nat} (hmn : m ≤ n) (g : Guard) (h : g.widthOK n = true) :
    g.widthOK m = true := by
  induction g using group_induction with
  | atom t => rfl
  | group k gs ih =>
      obtain ⟨hlen, hgs⟩ := widthOK_group.mp h
      exact widthOK_group.mpr ⟨Nat.le_trans hmn hlen, fun g hg => ih g hg (hgs g hg)⟩

end Guard

/-! ## Values -/

/-- The value of a group from the values of its members. -/
def Connective.value : Connective → List Bool → Bool
  | .all, bs => bs.all id
  | .any, bs => bs.any id

namespace Guard

mutual

/-- The value of the guard when the atom at place `i` has the value
`value i`; the guard's own first atom stands at place `first`. -/
def holds (value : Nat → Bool) (first : Nat) : Guard → Bool
  | atom _ => value first
  | all gs => Connective.all.value (holdsEach value first gs)
  | any gs => Connective.any.value (holdsEach value first gs)

/-- The values of a row of guards. -/
def holdsEach (value : Nat → Bool) (first : Nat) : List Guard → List Bool
  | [] => []
  | g :: gs => g.holds value first :: holdsEach value (first + g.atoms.length) gs

end

@[simp] theorem holds_group (value : Nat → Bool) (first : Nat) (k : Connective)
    (gs : List Guard) :
    (k.group gs).holds value first = k.value (holdsEach value first gs) := by
  cases k <;> rfl

end Guard

end JobChart
