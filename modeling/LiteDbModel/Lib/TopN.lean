import Mathlib

/-!
# The first rows of an order

`FirstN` says which rows a window of `n` may hold: none left out comes strictly
before one that was chosen, and ties fall either way. A list grouped by a key is
taken apart again by filtering for the key.
-/

namespace TopN
set_option autoImplicit false

variable {ρ κ : Type}

/-- `chosen` is a first `n` of `all`. -/
def FirstN (le : ρ → ρ → Prop) (n : Nat) (all chosen : List ρ) : Prop :=
  chosen.length = min n all.length ∧
    ∃ rest, all.Perm (chosen ++ rest) ∧ ∀ a ∈ chosen, ∀ b ∈ rest, le a b

variable {le : ρ → ρ → Prop} {n : Nat} {all all' chosen chosen' : List ρ}

theorem firstN_take (h : all.Pairwise le) (n : Nat) : FirstN le n all (all.take n) := by
  refine ⟨List.length_take, all.drop n, ?_, ?_⟩
  · rw [List.take_append_drop]
  · rw [← List.take_append_drop n all, List.pairwise_append] at h
    exact h.2.2

theorem FirstN.perm (h : FirstN le n all chosen) (hall : all.Perm all')
    (hchosen : chosen.Perm chosen') : FirstN le n all' chosen' := by
  obtain ⟨hlen, rest, hperm, hle⟩ := h
  refine ⟨by rw [← hchosen.length_eq, ← hall.length_eq, hlen], rest, ?_, ?_⟩
  · exact (hall.symm.trans hperm).trans (hchosen.append_right rest)
  · intro a ha
    exact hle a (hchosen.mem_iff.mpr ha)

/-- All of a short list is its first `n`, in any order. -/
theorem firstN_short (h : all.length ≤ n) : FirstN le n all (all.take n) := by
  rw [List.take_of_length_le h]
  refine ⟨(Nat.min_eq_right h).symm, [], by simp, ?_⟩
  intro a _ b hb
  exact absurd hb List.not_mem_nil

theorem firstN_zero : FirstN le 0 all [] :=
  ⟨(Nat.zero_min all.length).symm, all, by simp, fun a ha => absurd ha List.not_mem_nil⟩

theorem FirstN.length_le (h : FirstN le n all chosen) : chosen.length ≤ all.length := by
  rw [h.1]
  exact Nat.min_le_right n all.length

theorem FirstN.mem (h : FirstN le n all chosen) {a : ρ} (ha : a ∈ chosen) : a ∈ all := by
  obtain ⟨_, rest, hperm, _⟩ := h
  exact hperm.mem_iff.mpr (List.mem_append_left rest ha)

theorem firstN_nil_iff : FirstN le n [] chosen ↔ chosen = [] := by
  constructor
  · intro h
    exact List.eq_nil_of_length_eq_zero (by simpa using h.1)
  · rintro rfl
    exact ⟨by simp, [], by simp, fun a ha => absurd ha List.not_mem_nil⟩

/-- What was put under each key comes back under that key. -/
theorem filter_flatMap_key {β : Type} [DecidableEq κ] [DecidableEq β] {tag : κ → β}
    (htag : tag.Injective) {key : ρ → β} {f : κ → List ρ} {ps : List κ} (hn : ps.Nodup)
    (hf : ∀ p ∈ ps, ∀ r ∈ f p, key r = tag p) (k : κ) :
    (ps.flatMap f).filter (fun r => key r = tag k) = if k ∈ ps then f k else [] := by
  induction ps with
  | nil => rfl
  | cons p ps ih =>
    obtain ⟨hp, hn⟩ := List.nodup_cons.mp hn
    obtain ⟨hfp, hf⟩ := List.forall_mem_cons.mp hf
    rw [List.flatMap_cons, List.filter_append, ih hn hf]
    by_cases hpk : p = k
    · subst hpk
      have hall : (f p).filter (fun r => key r = tag p) = f p :=
        List.filter_eq_self.mpr fun r hr => decide_eq_true (hfp r hr)
      rw [hall, if_neg hp, List.append_nil, if_pos List.mem_cons_self]
    · have hnone : (f p).filter (fun r => key r = tag k) = [] := by
        rw [List.filter_eq_nil_iff]
        intro r hr heq
        exact hpk (htag ((hfp r hr).symm.trans (of_decide_eq_true heq)))
      have hmem : k ∈ p :: ps ↔ k ∈ ps := by simp [Ne.symm hpk]
      rw [hnone, List.nil_append]
      simp only [hmem]

end TopN
