import Mathlib

/-!
# Resources that have one holder each

Resources are numbered as they are made. `Balanced` says that of those made, the
ones not closed have exactly one holder each, that a holder has none but these, and
that nothing was closed twice. Making, handing over and closing keep it.
-/

namespace Ledger
set_option autoImplicit false

variable {H : Type}

structure Balanced (made : Nat) (closed : List Nat) (held : H → Option Nat) : Prop where
  held_iff : ∀ i, (∃ h, held h = some i) ↔ i < made ∧ i ∉ closed
  once : ∀ h h' i, held h = some i → held h' = some i → h = h'
  made : ∀ i ∈ closed, i < made
  nodup : closed.Nodup

variable {made : Nat} {closed : List Nat} {held : H → Option Nat} {h : H} {i : Nat}

theorem Balanced.open_of_held (hb : Balanced made closed held) (hi : held h = some i) :
    i < made ∧ i ∉ closed := (hb.held_iff i).mp ⟨h, hi⟩

theorem Balanced.existsUnique (hb : Balanced made closed held) (i : Nat) :
    (∃! h, held h = some i) ↔ i < made ∧ i ∉ closed := by
  rw [← hb.held_iff]
  constructor
  · exact ExistsUnique.exists
  · rintro ⟨h, hi⟩
    exact ⟨h, hi, fun h' hi' => hb.once h' h i hi' hi⟩

theorem Balanced.nil : Balanced 0 [] (fun _ : H => none) where
  held_iff i := by simp
  once h h' i hi := absurd hi (by simp)
  made i hi := absurd hi List.not_mem_nil
  nodup := List.nodup_nil

/-- Where nobody holds anything, everything was closed. -/
theorem Balanced.all_closed (hb : Balanced made closed fun _ : H => none) (i : Nat) :
    i ∈ closed ↔ i < made := by
  constructor
  · exact hb.made i
  · intro hi
    by_contra hopen
    obtain ⟨h, hheld⟩ := (hb.held_iff i).mpr ⟨hi, hopen⟩
    cases hheld

variable [DecidableEq H]

/-- A new resource, for a holder that had none. -/
theorem Balanced.make (hb : Balanced made closed held) (hnone : held h = none) :
    Balanced (made + 1) closed (Function.update held h (some made)) where
  held_iff i := by
    constructor
    · rintro ⟨h', hi⟩
      by_cases heq : h' = h
      · rw [heq, Function.update_self] at hi
        obtain rfl := Option.some.inj hi
        exact ⟨Nat.lt_succ_self _, fun hmem => (hb.made _ hmem).ne rfl⟩
      · rw [Function.update_of_ne heq] at hi
        have hopen := hb.open_of_held hi
        exact ⟨Nat.lt_succ_of_lt hopen.1, hopen.2⟩
    · rintro ⟨hi, hopen⟩
      rcases Nat.lt_succ_iff_lt_or_eq.mp hi with hi | rfl
      · obtain ⟨h', hi'⟩ := (hb.held_iff i).mpr ⟨hi, hopen⟩
        have heq : h' ≠ h := by
          rintro rfl
          rw [hnone] at hi'
          cases hi'
        exact ⟨h', by rw [Function.update_of_ne heq, hi']⟩
      · exact ⟨h, Function.update_self ..⟩
  once h₁ h₂ i h₁i h₂i := by
    have hfresh : ∀ h', held h' ≠ some made := fun h' hi => (hb.open_of_held hi).1.ne rfl
    by_cases heq₁ : h₁ = h <;> by_cases heq₂ : h₂ = h
    · rw [heq₁, heq₂]
    · rw [heq₁, Function.update_self] at h₁i
      rw [Function.update_of_ne heq₂, ← h₁i] at h₂i
      exact absurd h₂i (hfresh h₂)
    · rw [heq₂, Function.update_self] at h₂i
      rw [Function.update_of_ne heq₁, ← h₂i] at h₁i
      exact absurd h₁i (hfresh h₁)
    · rw [Function.update_of_ne heq₁] at h₁i
      rw [Function.update_of_ne heq₂] at h₂i
      exact hb.once h₁ h₂ i h₁i h₂i
  made i hi := Nat.lt_succ_of_lt (hb.made i hi)
  nodup := hb.nodup

/-- What a list of holders had is closed. -/
theorem Balanced.close {es : List (H × Nat)} (hb : Balanced made closed held)
    (hnodup : (es.map Prod.fst).Nodup) (hheld : ∀ e ∈ es, held e.1 = some e.2) :
    Balanced made (es.map Prod.snd ++ closed)
      (fun h => if h ∈ es.map Prod.fst then none else held h) where
  held_iff i := by
    constructor
    · rintro ⟨h, hi⟩
      by_cases hmem : h ∈ es.map Prod.fst
      · rw [if_pos hmem] at hi
        cases hi
      · rw [if_neg hmem] at hi
        have hopen := hb.open_of_held hi
        refine ⟨hopen.1, ?_⟩
        rw [List.mem_append, not_or]
        refine ⟨?_, hopen.2⟩
        intro hlist
        obtain ⟨e, he, rfl⟩ := List.mem_map.mp hlist
        obtain rfl := hb.once h e.1 _ hi (hheld e he)
        exact hmem (List.mem_map_of_mem he)
    · rintro ⟨hi, hopen⟩
      rw [List.mem_append, not_or] at hopen
      obtain ⟨h, hh⟩ := (hb.held_iff i).mpr ⟨hi, hopen.2⟩
      refine ⟨h, ?_⟩
      rw [if_neg, hh]
      intro hmem
      obtain ⟨e, he, rfl⟩ := List.mem_map.mp hmem
      have heq := hheld e he
      rw [hh] at heq
      exact hopen.1 (List.mem_map.mpr ⟨e, he, (Option.some.inj heq).symm⟩)
  once h₁ h₂ i h₁i h₂i := by
    split at h₁i
    · cases h₁i
    · split at h₂i
      · cases h₂i
      · exact hb.once h₁ h₂ i h₁i h₂i
  made i hi := by
    rcases List.mem_append.mp hi with hi | hi
    · obtain ⟨e, he, rfl⟩ := List.mem_map.mp hi
      exact (hb.open_of_held (hheld e he)).1
    · exact hb.made i hi
  nodup := by
    refine List.Nodup.append ?_ hb.nodup ?_
    · refine List.Nodup.map_on ?_ (List.Nodup.of_map Prod.fst hnodup)
      intro e he e' he' heq
      exact Prod.ext (hb.once e.1 e'.1 _ (hheld e he) (heq ▸ hheld e' he')) heq
    · intro i hi hi'
      obtain ⟨e, he, rfl⟩ := List.mem_map.mp hi
      exact (hb.open_of_held (hheld e he)).2 hi'

/-- What one holder had goes to another that had none. -/
theorem Balanced.move {h' : H} (hb : Balanced made closed held) (hi : held h = some i)
    (hnone : held h' = none) :
    Balanced made closed (Function.update (Function.update held h none) h' (some i)) := by
  have hne : h ≠ h' := by
    rintro rfl
    rw [hnone] at hi
    cases hi
  have hat : ∀ x j, Function.update (Function.update held h none) h' (some i) x = some j ↔
      (x = h' ∧ j = i) ∨ (x ≠ h ∧ held x = some j) := by
    intro x j
    by_cases hx' : x = h'
    · subst hx'
      rw [Function.update_self, hnone]
      simp [eq_comm]
    · rw [Function.update_of_ne hx']
      by_cases hx : x = h
      · subst hx
        simp [hx']
      · rw [Function.update_of_ne hx]
        simp [hx, hx']
  constructor
  · intro j
    rw [← hb.held_iff]
    constructor
    · rintro ⟨x, hx⟩
      rcases (hat x j).mp hx with ⟨rfl, rfl⟩ | ⟨-, hx⟩
      · exact ⟨h, hi⟩
      · exact ⟨x, hx⟩
    · rintro ⟨x, hx⟩
      by_cases heq : x = h
      · subst heq
        exact ⟨h', (hat h' j).mpr (.inl ⟨rfl, Option.some.inj (hx.symm.trans hi)⟩)⟩
      · exact ⟨x, (hat x j).mpr (.inr ⟨heq, hx⟩)⟩
  · intro x y j hx hy
    rcases (hat x j).mp hx with ⟨hxh', hji⟩ | ⟨hxh, hx'⟩ <;>
      rcases (hat y j).mp hy with ⟨hyh', hji'⟩ | ⟨hyh, hy'⟩
    · rw [hxh', hyh']
    · rw [hji] at hy'
      exact absurd (hb.once y h i hy' hi) hyh
    · rw [hji'] at hx'
      exact absurd (hb.once x h i hx' hi) hxh
    · exact hb.once x y j hx' hy'
  · exact hb.made
  · exact hb.nodup

/-- What one holder had is closed. -/
theorem Balanced.drop (hb : Balanced made closed held) (hi : held h = some i) :
    Balanced made (i :: closed) (Function.update held h none) := by
  have hheld : ∀ e ∈ [(h, i)], held e.1 = some e.2 := by
    intro e he
    rw [List.mem_singleton.mp he, hi]
  have hnodup : ([(h, i)].map Prod.fst).Nodup := List.nodup_singleton h
  have hclose := hb.close hnodup hheld
  have heq : (fun h' => if h' ∈ [h] then none else held h') = Function.update held h none := by
    funext h'
    by_cases hh : h' = h
    · rw [hh, Function.update_self, if_pos (List.mem_singleton_self h)]
    · rw [Function.update_of_ne hh, if_neg (mt List.mem_singleton.mp hh)]
  exact heq ▸ hclose

end Ledger
