import JobChart.Text.Blank

/-!
# Splitting at the top level

A text cut at every occurrence of an operator that no parenthesis encloses.
`pieces` gives the raw pieces between the operators (`pieces_ne_nil`: at
least one), and a text with an operator in it has only pieces shorter than
itself (`length_lt_of_mem_piecesFrom`). `splitTop` drops the blanks around each
piece and then the empty pieces.
-/

namespace JobChart.Guard

open Text

/-- Puts a character in front of the first piece. -/
def consFirst (c : Char) : List (List Char) → List (List Char)
  | [] => [[c]]
  | p :: ps => (c :: p) :: ps

/-- The pieces between the occurrences of `op` at running depth zero; the
first `skip` characters belong to an operator already seen. -/
def piecesFrom (op : List Char) : (skip : Nat) → (depth : Int) → List Char → List (List Char)
  | _, _, [] => [[]]
  | skip + 1, depth, _ :: cs => piecesFrom op skip depth cs
  | 0, depth, c :: cs =>
    if c = '(' then consFirst c (piecesFrom op 0 (depth + 1) cs)
    else if c = ')' then consFirst c (piecesFrom op 0 (depth - 1) cs)
    else if depth = 0 ∧ op.isPrefixOf (c :: cs) then
      [] :: piecesFrom op (op.length - 1) depth cs
    else consFirst c (piecesFrom op 0 depth cs)

/-- The raw pieces of a text between the occurrences of `op` outside all
parentheses. -/
def pieces (op cs : List Char) : List (List Char) := piecesFrom op 0 0 cs

/-- The pieces without the blanks around them, empty ones left out. -/
def splitTop (op cs : List Char) : List (List Char) :=
  ((pieces op cs).map trim).filter (· ≠ [])

/-! ## The pieces are shorter than the text -/

@[simp] theorem length_consFirst (c : Char) (ps : List (List Char)) :
    (consFirst c ps).length = max 1 ps.length := by
  cases ps with
  | nil => rfl
  | cons => simp [consFirst]

theorem consFirst_ne_nil (c : Char) (ps : List (List Char)) : consFirst c ps ≠ [] := by
  cases ps <;> simp [consFirst]

theorem piecesFrom_ne_nil (op : List Char) (skip : Nat) (depth : Int) (cs : List Char) :
    piecesFrom op skip depth cs ≠ [] := by
  fun_induction piecesFrom op skip depth cs <;> simp_all [consFirst_ne_nil]

theorem pieces_ne_nil (op cs : List Char) : pieces op cs ≠ [] :=
  piecesFrom_ne_nil op 0 0 cs

theorem length_le_of_mem_consFirst {c : Char} {ps : List (List Char)} {p : List Char} {n : Nat}
    (h : ∀ q ∈ ps, q.length ≤ n) (hp : p ∈ consFirst c ps) : p.length ≤ n + 1 := by
  cases ps with
  | nil => simp [consFirst] at hp; simp [hp]
  | cons q ps =>
    simp only [consFirst, List.mem_cons] at hp
    rcases hp with rfl | hp
    · have := h q (by simp); simp; omega
    · have := h p (by simp [hp]); omega

theorem length_le_of_mem_piecesFrom {op : List Char} {skip : Nat} {depth : Int}
    {cs p : List Char} (hp : p ∈ piecesFrom op skip depth cs) : p.length ≤ cs.length := by
  induction cs generalizing skip depth p with
  | nil =>
    cases skip <;> simp [piecesFrom] at hp <;> simp [hp]
  | cons c cs ih =>
    cases skip with
    | succ skip =>
      rw [piecesFrom] at hp
      have := ih hp
      simp; omega
    | zero =>
      rw [piecesFrom] at hp
      split at hp
      · exact length_le_of_mem_consFirst (fun q hq => ih hq) hp
      split at hp
      · exact length_le_of_mem_consFirst (fun q hq => ih hq) hp
      split at hp
      · rcases List.mem_cons.1 hp with rfl | hp
        · simp
        · have := ih hp
          simp; omega
      · exact length_le_of_mem_consFirst (fun q hq => ih hq) hp

/-- With two pieces or more an operator stood in the text, so each piece is
shorter than the text. -/
theorem length_lt_of_mem_piecesFrom {op : List Char} {skip : Nat} {depth : Int}
    {cs p : List Char} (htwo : 2 ≤ (piecesFrom op skip depth cs).length)
    (hp : p ∈ piecesFrom op skip depth cs) : p.length < cs.length := by
  induction cs generalizing skip depth p with
  | nil => cases skip <;> simp [piecesFrom] at htwo
  | cons c cs ih =>
    have step : ∀ d, 2 ≤ (consFirst c (piecesFrom op 0 d cs)).length →
        p ∈ consFirst c (piecesFrom op 0 d cs) → p.length < (c :: cs).length := by
      intro d htwo hp
      rw [length_consFirst] at htwo
      have h2 : 2 ≤ (piecesFrom op 0 d cs).length := by omega
      have hlt : ∀ q ∈ piecesFrom op 0 d cs, q.length ≤ cs.length - 1 := fun q hq => by
        have := ih h2 hq
        omega
      have hpos : 0 < cs.length := by
        cases cs with
        | nil => simp [piecesFrom] at h2
        | cons => simp
      have := length_le_of_mem_consFirst hlt hp
      simp only [List.length_cons]; omega
    cases skip with
    | succ skip =>
      rw [piecesFrom] at htwo hp
      have := ih htwo hp
      simp only [List.length_cons]; omega
    | zero =>
      rw [piecesFrom] at htwo hp
      split at hp
      · next h => rw [if_pos h] at htwo; exact step _ htwo hp
      next h1 =>
      rw [if_neg h1] at htwo
      split at hp
      · next h => rw [if_pos h] at htwo; exact step _ htwo hp
      next h2 =>
      rw [if_neg h2] at htwo
      split at hp
      · rcases List.mem_cons.1 hp with rfl | hp
        · simp
        · have := length_le_of_mem_piecesFrom hp
          simp only [List.length_cons]; omega
      next h3 =>
      rw [if_neg h3] at htwo
      exact step _ htwo hp

theorem length_lt_of_mem_splitTop {op cs p : List Char} (htwo : 2 ≤ (splitTop op cs).length)
    (hp : p ∈ splitTop op cs) : p.length < cs.length := by
  simp only [splitTop, List.mem_filter, List.mem_map] at hp
  obtain ⟨⟨q, hq, rfl⟩, -⟩ := hp
  have hlen : 2 ≤ (pieces op cs).length := by
    have := List.length_filter_le (fun q : List Char => decide (q ≠ [])) ((pieces op cs).map trim)
    simp only [List.length_map] at this
    simp only [splitTop] at htwo
    omega
  exact Nat.lt_of_le_of_lt (length_trim_le q) (length_lt_of_mem_piecesFrom hlen hq)

end JobChart.Guard
