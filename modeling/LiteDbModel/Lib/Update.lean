import Mathlib

/-!
# Updates of a table, one after another

A table is a list of rows, and an update changes each row by itself or refuses
the whole table. Updates in sequence act row by row, and when at most one of
them selects a row, that one decides the row's fate.
-/

namespace Update
set_option autoImplicit false

variable {ρ : Type} {υ : Type}

/-- Change every row; a refused row refuses the table. -/
def each (f : ρ → Option ρ) (table : List ρ) : Option (List ρ) := table.mapM f

/-- Run the updates in order. -/
def sequence (apply : υ → ρ → Option ρ) (us : List υ) (table : List ρ) : Option (List ρ) :=
  us.foldlM (fun table u => each (apply u) table) table

/-- What the updates in order make of one row. -/
def rowSequence (apply : υ → ρ → Option ρ) (us : List υ) (row : ρ) : Option ρ :=
  us.foldlM (fun row u => apply u row) row

theorem each_bind (f g : ρ → Option ρ) (table : List ρ) :
    (each f table).bind (each g) = each (fun row => (f row).bind g) table := by
  induction table with
  | nil => rfl
  | cons row table ih =>
    simp only [each, List.mapM_cons, Option.bind_eq_bind] at ih ⊢
    rcases hf : f row with _ | row'
    · rfl
    · simp only [Option.bind_some]
      rw [← ih]
      rcases List.mapM f table with _ | table'
      · rcases g row' with _ | row'' <;> rfl
      · rcases hg : g row' with _ | row'' <;> simp [each, List.mapM_cons, hg]

/-- Updates in sequence act on each row by itself. -/
theorem sequence_eq_each (apply : υ → ρ → Option ρ) (us : List υ) (table : List ρ) :
    sequence apply us table = each (rowSequence apply us) table := by
  induction us generalizing table with
  | nil =>
    have hid : ∀ table : List ρ, each some table = some table := by
      intro table
      induction table with
      | nil => rfl
      | cons row table ih =>
        simp only [each, List.mapM_cons] at ih ⊢
        rw [ih]
        rfl
    exact (hid table).symm
  | cons u us ih =>
    have hfun : (fun table => sequence apply us table) = each (rowSequence apply us) :=
      funext fun table => ih table
    rw [sequence, List.foldlM_cons]
    change (each (apply u) table).bind (fun table => sequence apply us table) = _
    rw [hfun, each_bind]
    congr 1

/-- Two updates agree on every table exactly when they agree on every row. -/
theorem each_eq_iff {f g : ρ → Option ρ} : (∀ table, each f table = each g table) ↔
    ∀ row, f row = g row := by
  constructor
  · intro h row
    have hone := h [row]
    simp only [each, List.mapM_cons, List.mapM_nil] at hone
    rcases hf : f row with _ | a
    · rcases hg : g row with _ | b
      · rfl
      · simp [hf, hg] at hone
    · rcases hg : g row with _ | b
      · simp [hf, hg] at hone
      · simpa [hf, hg] using hone
  · intro h table
    rw [funext h]

/-- An update leaves alone what it does not select, and selection is stable under updates. -/
structure Selective (selects : υ → ρ → Bool) (apply : υ → ρ → Option ρ) : Prop where
  idle : ∀ u row, selects u row = false → apply u row = some row
  stable : ∀ u v row row', apply u row = some row' → selects v row' = selects v row

theorem rowSequence_idle {selects : υ → ρ → Bool} {apply : υ → ρ → Option ρ}
    (h : Selective selects apply) {us : List υ} {row : ρ}
    (hidle : ∀ u ∈ us, selects u row = false) : rowSequence apply us row = some row := by
  induction us with
  | nil => rfl
  | cons u us ih =>
    obtain ⟨hu, hus⟩ := List.forall_mem_cons.mp hidle
    rw [rowSequence, List.foldlM_cons, h.idle u row hu]
    exact ih hus

/-- When at most one update selects a row, the row is left to it. -/
theorem rowSequence_eq_find {selects : υ → ρ → Bool} {apply : υ → ρ → Option ρ}
    (h : Selective selects apply) {us : List υ} {row : ρ}
    (honce : us.Pairwise fun u v => ¬ (selects u row = true ∧ selects v row = true)) :
    rowSequence apply us row =
      match us.find? (fun u => selects u row) with
      | some u => apply u row
      | none => some row := by
  induction us with
  | nil => rfl
  | cons u us ih =>
    obtain ⟨hu, hus⟩ := List.pairwise_cons.mp honce
    rw [rowSequence, List.foldlM_cons]
    rcases hsel : selects u row with _ | _
    · rw [h.idle u row hsel, List.find?_cons_of_neg (by simp [hsel])]
      exact ih hus
    · rw [List.find?_cons_of_pos (by simp [hsel])]
      rcases happly : apply u row with _ | row'
      · exact happly.symm
      · change rowSequence apply us row' = apply u row
        rw [happly]
        apply rowSequence_idle h
        intro v hv
        rw [h.stable u v row row' happly]
        have hnot := hu v hv
        simpa [hsel] using hnot

end Update
