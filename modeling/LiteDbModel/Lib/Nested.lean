import Mathlib

/-!
# Cutting a text at its outer separators

Each symbol changes the depth by its weight; a separator cuts the text where the depth is
zero. Texts that return to depth zero and are joined by separators are cut one by one.
-/

namespace Nested
set_option autoImplicit false

variable {α : Type}

/-- Put a text before the first piece. -/
def glue (l : List α) : List (List α) → List (List α)
  | [] => [l]
  | p :: ps => (l ++ p) :: ps

theorem glue_glue (k l : List α) (ps : List (List α)) : glue k (glue l ps) = glue (k ++ l) ps := by
  cases ps with
  | nil => rfl
  | cons p ps => rw [glue, glue, glue, List.append_assoc]

theorem glue_append (l : List α) {ps : List (List α)} (h : ps ≠ []) (qs : List (List α)) :
    glue l (ps ++ qs) = glue l ps ++ qs := by
  cases ps with
  | nil => exact absurd rfl h
  | cons p ps => rfl

theorem glue_nil {ps : List (List α)} (h : ps ≠ []) : glue [] ps = ps := by
  cases ps with
  | nil => exact absurd rfl h
  | cons p ps => rfl

variable [DecidableEq α] (weight : α → Int) (sep : α)

def depth (d : Int) (l : List α) : Int := l.foldl (fun d c => d + weight c) d

/-- The pieces between the separators that stand at depth zero. -/
def pieces : Int → List α → List (List α)
  | _, [] => [[]]
  | d, c :: cs =>
    if c = sep ∧ d + weight c = 0 then [] :: pieces (d + weight c) cs
    else glue [c] (pieces (d + weight c) cs)

variable {weight} {sep} {d : Int} {l r : List α}

theorem pieces_ne_nil (d : Int) (l : List α) : pieces weight sep d l ≠ [] := by
  cases l with
  | nil => exact List.cons_ne_nil _ _
  | cons c l =>
    rw [pieces]
    split
    · exact List.cons_ne_nil _ _
    · cases pieces weight sep (d + weight c) l with
      | nil => exact List.cons_ne_nil _ _
      | cons p ps => exact List.cons_ne_nil _ _

theorem pieces_append_sep (hsep : weight sep = 0) (h : depth weight d l = 0) (r : List α) :
    pieces weight sep d (l ++ sep :: r) = pieces weight sep d l ++ pieces weight sep 0 r := by
  induction l generalizing d with
  | nil =>
    have hd : d = 0 := h
    rw [List.nil_append, pieces.eq_def]
    simp only [hsep, hd, Int.add_zero, and_self, if_true]
    rfl
  | cons c l ih =>
    rw [List.cons_append, pieces, pieces, ih h]
    split
    · rfl
    · exact glue_append [c] (pieces_ne_nil _ l) _

/-- Texts that return to depth zero are cut one by one; the last one need not. -/
theorem pieces_intercalate (hsep : weight sep = 0) {ts : List (List α)} (hne : ts ≠ [])
    (h : ∀ t ∈ ts.dropLast, depth weight 0 t = 0) :
    pieces weight sep 0 ([sep].intercalate ts) = ts.flatMap (pieces weight sep 0) := by
  induction ts with
  | nil => exact absurd rfl hne
  | cons t ts ih =>
    rcases ts with _ | ⟨u, ts⟩
    · simp [List.intercalate_singleton]
    · rw [List.intercalate_cons_cons, List.append_assoc, List.singleton_append,
        pieces_append_sep hsep (h t List.mem_cons_self),
        ih (List.cons_ne_nil u ts) fun v hv => h v (List.mem_cons_of_mem t hv)]
      rfl

/-- The first piece is the whole text or ends at a separator. -/
theorem first_piece {p : List α} {ps : List (List α)} (h : pieces weight sep d l = p :: ps) :
    l = p ∧ ps = [] ∨ ∃ r, l = p ++ sep :: r := by
  induction l generalizing d p ps with
  | nil =>
    left
    rw [pieces] at h
    exact ⟨(List.cons.inj h).1, (List.cons.inj h).2.symm⟩
  | cons c l ih =>
    rw [pieces] at h
    split at h
    next hc =>
      right
      obtain ⟨hp, -⟩ := List.cons.inj h
      exact ⟨l, by rw [← hp, hc.1, List.nil_append]⟩
    next =>
      cases hl : pieces weight sep (d + weight c) l with
      | nil => exact absurd hl (pieces_ne_nil _ l)
      | cons q qs =>
        rw [hl, glue] at h
        obtain ⟨hp, hps⟩ := List.cons.inj h
        rcases ih hl with ⟨hq, hqs⟩ | ⟨r, hr⟩
        · left
          exact ⟨by rw [← hp, hq]; rfl, by rw [← hps, hqs]⟩
        · right
          exact ⟨r, by rw [← hp, hr]; rfl⟩

end Nested
