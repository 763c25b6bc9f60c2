import Mathlib

/-!
# Steps in an order

Each element has a step that reads what other elements have written and writes the element itself,
once. An order in which no element reads what it or a later one writes ends in the one store that
every step agrees with, so what is left does not depend on the order.
-/

namespace Schedule
set_option autoImplicit false

variable {ι V ε : Type}

/-- What the elements have written so far. -/
abbrev Store (ι V : Type) := ι → Option V

/-- A step depends on what it reads and on nothing else. -/
def Local (step : ι → Store ι V → Except ε V) (reads : ι → ι → Prop) : Prop :=
  ∀ i s t, (∀ j, reads i j → s j = t j) → step i s = step i t

/-- Each element is there once, after what it reads, and does not read itself. -/
structure Ordered (reads : ι → ι → Prop) (order : List ι) : Prop where
  nodup : order.Nodup
  irrefl : ∀ i ∈ order, ¬ reads i i
  after : order.Pairwise fun i j => ¬ reads i j

/-- Every element of the order holds what its step makes of the store itself. -/
structure Settled (step : ι → Store ι V → Except ε V) (order : List ι) (s t : Store ι V) : Prop where
  written : ∀ i ∈ order, ∃ v, step i t = .ok v ∧ t i = some v
  kept : ∀ i, i ∉ order → t i = s i

variable {step : ι → Store ι V → Except ε V} {reads : ι → ι → Prop} {order : List ι}
  {s t : Store ι V}

theorem settled_nil : Settled step [] s t ↔ s = t := by
  constructor
  · intro h
    funext i
    exact (h.kept i List.not_mem_nil).symm
  · rintro rfl
    exact ⟨by simp, fun _ _ => rfl⟩

/-- What the first element reads is not written any more. -/
theorem step_head (hlocal : Local step reads) {i : ι} (hordered : Ordered reads (i :: order))
    (hkept : ∀ j, j ∉ i :: order → t j = s j) : step i t = step i s := by
  apply hlocal
  intro j hread
  apply hkept
  intro hmem
  rcases List.mem_cons.mp hmem with rfl | hmem
  · exact hordered.irrefl j List.mem_cons_self hread
  · exact (List.pairwise_cons.mp hordered.after).1 j hmem hread

theorem Ordered.tail {i : ι} (h : Ordered reads (i :: order)) : Ordered reads order :=
  ⟨(List.nodup_cons.mp h.nodup).2, fun j hj => h.irrefl j (List.mem_cons_of_mem i hj),
    (List.pairwise_cons.mp h.after).2⟩

variable [DecidableEq ι]

def run (step : ι → Store ι V → Except ε V) : List ι → Store ι V → Except ε (Store ι V)
  | [], s => .ok s
  | i :: order, s => do
    let v ← step i s
    run step order (Function.update s i (some v))

theorem settled_cons (hlocal : Local step reads) {i : ι} (hordered : Ordered reads (i :: order)) :
    Settled step (i :: order) s t ↔
      ∃ v, step i s = .ok v ∧ Settled step order (Function.update s i (some v)) t := by
  have hnot : i ∉ order := (List.nodup_cons.mp hordered.nodup).1
  constructor
  · intro h
    obtain ⟨v, hv, hi⟩ := h.written i List.mem_cons_self
    refine ⟨v, (step_head hlocal hordered h.kept).symm.trans hv, ?_, ?_⟩
    · exact fun j hj => h.written j (List.mem_cons_of_mem i hj)
    · intro j hj
      by_cases hji : j = i
      · subst hji
        rw [hi, Function.update_self]
      · rw [Function.update_of_ne hji]
        exact h.kept j (by simp [hji, hj])
  · rintro ⟨v, hv, h⟩
    have hkept : ∀ j, j ∉ i :: order → t j = s j := by
      intro j hj
      have hji : j ≠ i := fun heq => hj (by simp [heq])
      rw [h.kept j (fun hmem => hj (List.mem_cons_of_mem i hmem)), Function.update_of_ne hji]
    refine ⟨?_, hkept⟩
    intro j hj
    rcases List.mem_cons.mp hj with rfl | hj
    · refine ⟨v, (step_head hlocal hordered hkept).trans hv, ?_⟩
      rw [h.kept j hnot, Function.update_self]
    · exact h.written j hj

theorem run_cons_ok {i : ι} : run step (i :: order) s = .ok t ↔
    ∃ v, step i s = .ok v ∧ run step order (Function.update s i (some v)) = .ok t := by
  rw [run]
  cases step i s with
  | error e => simp [bind, Except.bind]
  | ok v => simp [bind, Except.bind]

/-- A run ends in the store that its steps agree with, and nowhere else. -/
theorem run_ok_iff (hlocal : Local step reads) (hordered : Ordered reads order) :
    run step order s = .ok t ↔ Settled step order s t := by
  induction order generalizing s with
  | nil =>
    rw [settled_nil, run]
    exact ⟨Except.ok.inj, congrArg Except.ok⟩
  | cons i order ih =>
    rw [settled_cons hlocal hordered, run_cons_ok]
    apply exists_congr
    intro v
    rw [ih hordered.tail]

end Schedule
