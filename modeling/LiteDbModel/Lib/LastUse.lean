import Mathlib

/-!
# Moving a value out at its last use

Claimants share the values of a map. A counter for each key says how many claimants are left; the
last one takes the value away, the ones before it take a copy.
-/

namespace LastUse
set_option autoImplicit false

variable {α κ β : Type} [DecidableEq κ]

/-- The values that are left, and how many claimants of each key are. -/
structure Store (κ β : Type) where
  values : κ → Option β
  remaining : κ → Option Nat

/-- A claimant counts itself off; the last one takes the value away. A key that was not counted is
never taken for the last. -/
def claim (s : Store κ β) (k : κ) : Option β × Store κ β :=
  match s.remaining k with
  | none => (s.values k, s)
  | some n =>
    if n - 1 = 0 then
      (s.values k, ⟨Function.update s.values k none,
        Function.update s.remaining k (some (n - 1))⟩)
    else (s.values k, ⟨s.values, Function.update s.remaining k (some (n - 1))⟩)

/-- A claimant without a key claims nothing. -/
def claimOf (s : Store κ β) : Option κ → Option β × Store κ β
  | none => (none, s)
  | some k => claim s k

def claims (key : α → Option κ) (s : Store κ β) : List α → List (Option β)
  | [] => []
  | a :: l => (claimOf s (key a)).1 :: claims key (claimOf s (key a)).2 l

/-- How many elements claim each key that is claimed at all. -/
def counted (key : α → Option κ) (l : List α) : κ → Option Nat :=
  l.foldl (fun counts a =>
    match key a with
    | none => counts
    | some k => Function.update counts k (some ((counts k).getD 0 + 1))) fun _ => none

/-- The elements that are left are counted, and the values of their keys are there. -/
structure Covers (key : α → Option κ) (values : κ → Option β) (s : Store κ β) (l : List α) :
    Prop where
  counts : ∀ k, (∃ a ∈ l, key a = some k) → s.remaining k = some (l.countP (key · = some k))
  kept : ∀ k, (∃ a ∈ l, key a = some k) → s.values k = values k

theorem counted_eq (key : α → Option κ) (l : List α) (k : κ) :
    counted key l k = if l.countP (key · = some k) = 0 then none
      else some (l.countP (key · = some k)) := by
  unfold counted
  induction l using List.reverseRecOn with
  | nil => rfl
  | append_singleton l a ih =>
    rw [List.foldl_append, List.foldl_cons, List.foldl_nil, List.countP_append]
    cases ha : key a with
    | none =>
      simpa [ha] using ih
    | some k' =>
      by_cases hk : k = k'
      · subst hk
        dsimp only
        rw [Function.update_self, ih]
        split <;> simp_all
      · dsimp only
        rw [Function.update_of_ne hk, ih]
        have hne : ¬ k' = k := fun h => hk h.symm
        simp [ha, hne]

theorem covers_counted (key : α → Option κ) (values : κ → Option β) (l : List α) :
    Covers key values ⟨values, counted key l⟩ l := by
  refine ⟨?_, fun _ _ => rfl⟩
  rintro k ⟨a, ha, hkey⟩
  have hpos : 0 < l.countP (key · = some k) := List.countP_pos_iff.mpr ⟨a, ha, by simpa using hkey⟩
  dsimp only
  rw [counted_eq, if_neg hpos.ne']

/-- What a claim gives, and that it keeps the rest covered. -/
theorem claimOf_covers {key : α → Option κ} {values : κ → Option β} {s : Store κ β} {a : α}
    {l : List α} (h : Covers key values s (a :: l)) :
    (claimOf s (key a)).1 = (key a).bind values ∧ Covers key values (claimOf s (key a)).2 l := by
  have hmem : ∀ k, (∃ b ∈ l, key b = some k) → ∃ b ∈ a :: l, key b = some k :=
    fun k ⟨b, hb, hkey⟩ => ⟨b, List.mem_cons_of_mem a hb, hkey⟩
  cases ha : key a with
  | none =>
    refine ⟨rfl, fun k hk => ?_, fun k hk => h.kept k (hmem k hk)⟩
    have hcount := h.counts k (hmem k hk)
    simpa [claimOf, ha] using hcount
  | some k =>
    have hself : ∃ b ∈ a :: l, key b = some k := ⟨a, List.mem_cons_self, ha⟩
    have hremaining := h.counts k hself
    have hvalue := h.kept k hself
    rw [List.countP_cons_of_pos (by simpa using ha)] at hremaining
    have hcount : ∀ k' ≠ k, (∃ b ∈ l, key b = some k') →
        s.remaining k' = some (l.countP (key · = some k')) := by
      intro k' hne hk'
      rw [h.counts k' (hmem k' hk'), List.countP_cons_of_neg]
      simp [ha, Ne.symm hne]
    simp only [claimOf, claim, hremaining, Nat.add_sub_cancel, Option.bind_some]
    split
    · next hzero =>
      refine ⟨hvalue, fun k' hk' => ?_, fun k' hk' => ?_⟩
      · have hne : k' ≠ k := by
          rintro rfl
          obtain ⟨b, hb, hkey⟩ := hk'
          exact List.countP_eq_zero.mp hzero b hb (by simpa using hkey)
        dsimp only
        rw [Function.update_of_ne hne]
        exact hcount k' hne hk'
      · have hne : k' ≠ k := by
          rintro rfl
          obtain ⟨b, hb, hkey⟩ := hk'
          exact List.countP_eq_zero.mp hzero b hb (by simpa using hkey)
        dsimp only
        rw [Function.update_of_ne hne]
        exact h.kept k' (hmem k' hk')
    · refine ⟨hvalue, fun k' hk' => ?_, fun k' hk' => h.kept k' (hmem k' hk')⟩
      by_cases hne : k' = k
      · subst hne
        exact Function.update_self ..
      · dsimp only
        rw [Function.update_of_ne hne]
        exact hcount k' hne hk'

/-- Every claimant is given the whole value of its key. -/
theorem claims_eq {key : α → Option κ} {values : κ → Option β} {s : Store κ β} {l : List α}
    (h : Covers key values s l) : claims key s l = l.map fun a => (key a).bind values := by
  induction l generalizing s with
  | nil => rfl
  | cons a l ih =>
    obtain ⟨hvalue, hrest⟩ := claimOf_covers h
    rw [claims, List.map_cons, hvalue, ih hrest]

end LastUse
