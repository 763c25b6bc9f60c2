import LiteDbModel.Lib.SqlCond

/-!
# Membership with nulls

`x IN (…)` is a disjunction of comparisons, and a comparison with a null is
unknown. A row is accepted where the result is true, and neither false nor
unknown accepts it.
-/

namespace Membership
set_option autoImplicit false
open SqlCond

variable {α β : Type}

def not3 (a : Option Bool) : Option Bool := a.map (!·)

/-- `x IN (vs)` for an `x` that is not null; `none` is a null among the values. -/
def member3 (equals : α → β → Bool) (x : α) : List (Option β) → Option Bool
  | [] => some false
  | v :: vs => or3 (v.map (equals x)) (member3 equals x vs)

variable {equals : α → β → Bool} {x : α} {vs : List (Option β)}

theorem member3_true : member3 equals x vs = some true ↔ ∃ v, some v ∈ vs ∧ equals x v = true := by
  induction vs with
  | nil => simp [member3]
  | cons v vs ih =>
    rw [member3, or3_true, ih, Option.map_eq_some_iff]
    constructor
    · intro h
      rcases h with ⟨w, rfl, hw⟩ | ⟨w, hw, hx⟩
      · exact ⟨w, List.mem_cons_self, hw⟩
      · exact ⟨w, List.mem_cons_of_mem v hw, hx⟩
    · intro h
      obtain ⟨w, hw, hx⟩ := h
      rcases List.mem_cons.mp hw with rfl | hw
      · exact Or.inl ⟨w, rfl, hx⟩
      · exact Or.inr ⟨w, hw, hx⟩

theorem or3_false {a b : Option Bool} :
    or3 a b = some false ↔ a = some false ∧ b = some false := by
  rcases a with _ | _ | _ <;> rcases b with _ | _ | _ <;> simp [or3]

theorem member3_false :
    member3 equals x vs = some false ↔ ∀ v ∈ vs, ∃ w, v = some w ∧ equals x w = false := by
  induction vs with
  | nil => simp [member3]
  | cons v vs ih =>
    rw [member3, or3_false, ih, List.forall_mem_cons, Option.map_eq_some_iff]

theorem not3_true {a : Option Bool} : not3 a = some true ↔ a = some false := by
  rcases a with _ | _ | _ <;> simp [not3]

/-- A negated list with a null in it accepts nothing. -/
theorem not_member3_true : not3 (member3 equals x vs) = some true ↔
    none ∉ vs ∧ ∀ v, some v ∈ vs → equals x v = false := by
  rw [not3_true, member3_false]
  constructor
  · intro h
    refine ⟨?_, ?_⟩
    · intro hnone
      obtain ⟨w, hw, _⟩ := h none hnone
      cases hw
    · intro v hv
      obtain ⟨w, hw, hx⟩ := h (some v) hv
      cases hw
      exact hx
  · intro h v hv
    cases v with
    | none => exact absurd hv h.1
    | some v => exact ⟨v, rfl, h.2 v hv⟩

end Membership
