import Mathlib

/-!
# Lists by key

`firsts` keeps the first element of each key, `groups` collects the elements of
each key in the order the keys are first seen, and `put` is an insertion-ordered
map's assignment. The key is any function to a type with decidable equality.
-/

namespace Keyed
set_option autoImplicit false

variable {α κ κ' β : Type} [DecidableEq κ] [DecidableEq κ']

theorem filter_eq_iff {p q : α → Bool} {l : List α} :
    l.filter p = l.filter q ↔ ∀ a ∈ l, p a = q a := by
  constructor
  · intro h a ha
    apply Bool.eq_iff_iff.mpr
    have hmem : a ∈ l.filter p ↔ a ∈ l.filter q := by rw [h]
    simpa [List.mem_filter, ha] using hmem
  · exact List.filter_congr

/-- The last element with one property is the first with another exactly when it has that one too
and no element before it does. -/
theorem getLast?_filter_eq_head? {p q : α → Bool} {l : List α} (hn : l.Nodup)
    (hqp : ∀ a ∈ l, q a → p a) :
    (l.filter p).getLast? = (l.filter q).head? ↔
      ∀ before a after, l = before ++ a :: after → p a → (∀ b ∈ after, p b = false) →
        q a ∧ ∀ b ∈ before, q b = false := by
  constructor
  · rintro heq before a after rfl ha hafter
    have hnone : after.filter p = [] := List.filter_eq_nil_iff.mpr fun b hb => by simp [hafter b hb]
    rw [List.filter_append, List.filter_cons_of_pos ha, hnone, List.getLast?_append,
      List.getLast?_singleton, Option.some_or, List.head?_filter] at heq
    obtain ⟨hq, as, bs, hsplit, has⟩ := List.find?_eq_some_iff_append.mp heq.symm
    have hbefore : a ∉ before := fun h =>
      (List.nodup_append.mp hn).2.2 a h a List.mem_cons_self rfl
    have hafter' : a ∉ after := (List.nodup_cons.mp (List.nodup_append.mp hn).2.1).1
    have hbs : before = as := ((List.append_cons_inj_of_notMem hbefore hafter').mp hsplit).1
    subst hbs
    refine ⟨hq, fun b hb => ?_⟩
    simpa using has b hb
  · intro h
    rw [List.getLast?_filter, List.head?_filter]
    cases hlast : l.reverse.find? p with
    | none =>
      symm
      apply List.find?_eq_none.mpr
      intro a ha hq
      exact List.find?_eq_none.mp hlast a (List.mem_reverse.mpr ha) (hqp a ha hq)
    | some a =>
      obtain ⟨hpa, as, bs, hsplit, has⟩ := List.find?_eq_some_iff_append.mp hlast
      have hl : l = bs.reverse ++ a :: as.reverse := by
        have := congrArg List.reverse hsplit
        simpa using this
      obtain ⟨hqa, hbefore⟩ := h _ _ _ hl hpa fun b hb => by
        simpa using has b (List.mem_reverse.mp hb)
      symm
      apply List.find?_eq_some_iff_append.mpr
      exact ⟨hqa, _, _, hl, fun b hb => by simp [hbefore b hb]⟩

/-! ## The first element of each key -/

def firsts (key : α → κ) : List α → List α
  | [] => []
  | a :: l => a :: (firsts key l).filter fun b => key b ≠ key a

/-- The same list, built with the keys seen so far. -/
def fresh (key : α → κ) : List κ → List α → List α
  | _, [] => []
  | seen, a :: l => if key a ∈ seen then fresh key seen l else a :: fresh key (key a :: seen) l

theorem fresh_eq (key : α → κ) (seen : List κ) (l : List α) :
    fresh key seen l = (firsts key l).filter fun b => key b ∉ seen := by
  induction l generalizing seen with
  | nil => rfl
  | cons a l ih =>
    simp only [fresh, firsts]
    split
    · rename_i hmem
      rw [ih, List.filter_cons_of_neg (by simpa using hmem), List.filter_filter]
      apply List.filter_congr
      intro b _
      by_cases hb : key b = key a
      · simp [hb, hmem]
      · simp [hb]
    · rename_i hmem
      rw [ih, List.filter_cons_of_pos (by simpa using hmem), List.filter_filter]
      congr 1
      apply List.filter_congr
      intro b _
      simp [Bool.and_comm]

theorem fresh_nil (key : α → κ) (l : List α) : fresh key [] l = firsts key l := by
  rw [fresh_eq]
  simp

theorem firsts_sublist (key : α → κ) (l : List α) : (firsts key l).Sublist l := by
  induction l with
  | nil => exact List.Sublist.refl []
  | cons a l ih => exact (List.filter_sublist.trans ih).cons_cons a

theorem firsts_covers {key : α → κ} {l : List α} {a : α} (h : a ∈ l) :
    ∃ b ∈ firsts key l, key b = key a := by
  induction l with
  | nil => cases h
  | cons c l ih =>
    by_cases hc : key c = key a
    · exact ⟨c, List.mem_cons_self, hc⟩
    · have ha : a ∈ l := by
        rcases List.mem_cons.mp h with rfl | h
        · exact absurd rfl hc
        · exact h
      obtain ⟨b, hb, hkey⟩ := ih ha
      refine ⟨b, List.mem_cons_of_mem c (List.mem_filter.mpr ⟨hb, ?_⟩), hkey⟩
      rw [hkey]
      simpa using fun heq : key a = key c => hc heq.symm

theorem firsts_keys_nodup (key : α → κ) (l : List α) : ((firsts key l).map key).Nodup := by
  induction l with
  | nil => exact List.nodup_nil
  | cons a l ih =>
    refine List.nodup_cons.mpr ⟨?_, ih.sublist (List.filter_sublist.map key)⟩
    intro hmem
    obtain ⟨b, hb, hkey⟩ := List.mem_map.mp hmem
    have := (List.mem_filter.mp hb).2
    simp [hkey] at this

theorem eq_of_firsts {key : α → κ} {l : List α} {a b : α} (ha : a ∈ firsts key l)
    (hb : b ∈ firsts key l) (h : key a = key b) : a = b :=
  List.inj_on_of_nodup_map (firsts_keys_nodup key l) ha hb h

/-- An element is kept exactly when no element before it has its key. -/
theorem firsts_append (key : α → κ) (l l' : List α) :
    firsts key (l ++ l') = firsts key l ++ (firsts key l').filter fun b => key b ∉ l.map key := by
  induction l with
  | nil => simp [firsts]
  | cons a l ih =>
    simp only [List.cons_append, firsts, ih, List.filter_append, List.filter_filter,
      List.map_cons, List.mem_cons, not_or, Bool.decide_and]

theorem firsts_congr {key : α → κ} {key' : α → κ'} {l : List α}
    (h : ∀ a ∈ l, ∀ b ∈ l, key a = key b ↔ key' a = key' b) : firsts key l = firsts key' l := by
  induction l with
  | nil => rfl
  | cons a l ih =>
    have hl := ih fun b hb c hc => h b (List.mem_cons_of_mem a hb) c (List.mem_cons_of_mem a hc)
    simp only [firsts, hl]
    congr 1
    apply List.filter_congr
    intro b hb
    have hb' : b ∈ a :: l := List.mem_cons_of_mem a ((firsts_sublist key' l).subset hb)
    simp [h b hb' a List.mem_cons_self]

/-- A coarser key keeps the same elements exactly when it separates what the finer one does. -/
theorem firsts_eq_iff {key : α → κ} {fine : α → κ'} {l : List α}
    (hcoarse : ∀ a ∈ l, ∀ b ∈ l, fine a = fine b → key a = key b) :
    firsts key l = firsts fine l ↔ ∀ a ∈ l, ∀ b ∈ l, key a = key b → fine a = fine b := by
  constructor
  · intro heq a ha b hb hkey
    obtain ⟨a', ha', hfa⟩ : ∃ a' ∈ firsts fine l, fine a' = fine a := firsts_covers ha
    obtain ⟨b', hb', hfb⟩ : ∃ b' ∈ firsts fine l, fine b' = fine b := firsts_covers hb
    have hla := (firsts_sublist fine l).subset ha'
    have hlb := (firsts_sublist fine l).subset hb'
    have hab : a' = b' := by
      rw [← heq] at ha' hb'
      apply eq_of_firsts ha' hb'
      rw [hcoarse a' hla a ha hfa, hkey, hcoarse b' hlb b hb hfb]
    rw [← hfa, ← hfb, hab]
  · intro h
    exact firsts_congr fun a ha b hb => ⟨h a ha b hb, hcoarse a ha b hb⟩

/-! ## Groups -/

/-- Add an element to its key's group, which is opened at the end when there is none. -/
def push (k : κ) (a : α) : List (κ × List α) → List (κ × List α)
  | [] => [(k, [a])]
  | (k', as) :: gs => if k' = k then (k', as ++ [a]) :: gs else (k', as) :: push k a gs

def groups (key : α → κ) (l : List α) : List (κ × List α) :=
  l.foldl (fun gs a => push (key a) a gs) []

theorem push_of_not_mem {k : κ} (a : α) {gs : List (κ × List α)} (h : k ∉ gs.map (·.1)) :
    push k a gs = gs ++ [(k, [a])] := by
  induction gs with
  | nil => rfl
  | cons g gs ih =>
    obtain ⟨k', as⟩ := g
    simp only [List.map_cons, List.mem_cons, not_or] at h
    rw [push, if_neg fun heq => h.1 heq.symm, ih h.2, List.cons_append]

theorem push_map {γ : Type} (k : κ) (a : α) (f : γ → κ) (g : γ → List α) (l : List γ)
    (hn : (l.map f).Nodup) (hk : k ∈ l.map f) :
    push k a (l.map fun c => (f c, g c)) =
      l.map fun c => (f c, if f c = k then g c ++ [a] else g c) := by
  induction l with
  | nil => cases hk
  | cons c l ih =>
    obtain ⟨hnot, hrest⟩ := List.nodup_cons.mp hn
    simp only [List.map_cons, push]
    by_cases hc : f c = k
    · rw [if_pos hc, if_pos hc]
      congr 1
      apply List.map_congr_left
      intro d hd
      rw [if_neg]
      intro hfd
      exact hnot (by rw [hc, ← hfd]; exact List.mem_map_of_mem hd)
    · rw [if_neg hc, if_neg hc]
      congr 1
      exact ih hrest ((List.mem_cons.mp hk).resolve_left fun h => hc h.symm)

/-- There is one group for each key, in first-seen order, and it holds the key's elements. -/
theorem groups_eq (key : α → κ) (l : List α) :
    groups key l = (firsts key l).map fun a => (key a, l.filter fun b => key b = key a) := by
  induction l using List.reverseRecOn with
  | nil => rfl
  | append_singleton l a ih =>
    have hkeys : ∀ k, k ∈ (firsts key l).map key ↔ k ∈ l.map key := by
      intro k
      constructor
      · intro h
        exact ((firsts_sublist key l).map key).subset h
      · intro h
        obtain ⟨b, hb, rfl⟩ := List.mem_map.mp h
        obtain ⟨c, hc, hkey⟩ : ∃ c ∈ firsts key l, key c = key b := firsts_covers hb
        exact hkey ▸ List.mem_map_of_mem hc
    have hstep : groups key (l ++ [a]) = push (key a) a (groups key l) := by
      simp only [groups, List.foldl_append, List.foldl_cons, List.foldl_nil]
    rw [hstep, ih, firsts_append]
    by_cases hmem : key a ∈ l.map key
    · rw [push_map _ _ _ _ _ (firsts_keys_nodup key l) ((hkeys _).mpr hmem)]
      have hnone : (firsts key [a]).filter (fun b => key b ∉ l.map key) = [] := by
        rw [firsts, firsts, List.filter_nil, List.filter_cons_of_neg (by simpa using hmem),
          List.filter_nil]
      rw [hnone, List.append_nil]
      apply List.map_congr_left
      intro c _
      by_cases hc : key c = key a
      · simp [hc, List.filter_append]
      · have hc' : key a ≠ key c := fun h => hc h.symm
        simp [hc, hc', List.filter_append]
    · have hnot : key a ∉ ((firsts key l).map fun c => (key c, l.filter fun b => key b = key c)).map
          (·.1) := by
        rw [List.map_map]
        intro h
        exact hmem ((hkeys _).mp h)
      have hone : (firsts key [a]).filter (fun b => key b ∉ l.map key) = [a] := by
        rw [firsts, firsts, List.filter_nil, List.filter_cons_of_pos (by simpa using hmem),
          List.filter_nil]
      have hnew : l.filter (fun b => key b = key a) = [] := by
        apply List.filter_eq_nil_iff.mpr
        intro b hb heq
        exact hmem ((of_decide_eq_true heq) ▸ List.mem_map_of_mem hb)
      rw [push_of_not_mem a hnot, hone, List.map_append]
      congr 1
      · apply List.map_congr_left
        intro c hc
        have hc' : key a ≠ key c := by
          intro h
          exact hmem (h ▸ (hkeys _).mp (List.mem_map_of_mem hc))
        simp [hc', List.filter_append]
      · simp only [List.map_cons, List.map_nil, List.filter_append, hnew]
        simp

theorem push_perm (k : κ) (a : α) (gs : List (κ × List α)) :
    ((push k a gs).flatMap (·.2)).Perm (gs.flatMap (·.2) ++ [a]) := by
  induction gs with
  | nil => simp [push]
  | cons g gs ih =>
    obtain ⟨k', as⟩ := g
    rw [push]
    split
    · simp only [List.flatMap_cons, List.append_assoc]
      exact List.Perm.append_left as List.perm_append_comm
    · simp only [List.flatMap_cons, List.append_assoc]
      exact ih.append_left as

/-- Every element lies in exactly one group. -/
theorem groups_perm (key : α → κ) (l : List α) : ((groups key l).flatMap (·.2)).Perm l := by
  induction l using List.reverseRecOn with
  | nil => exact List.Perm.refl []
  | append_singleton l a ih =>
    have hstep : groups key (l ++ [a]) = push (key a) a (groups key l) := by
      simp only [groups, List.foldl_append, List.foldl_cons, List.foldl_nil]
    rw [hstep]
    exact (push_perm (key a) a _).trans (ih.append_right [a])

theorem mem_groups {key : α → κ} {l : List α} {g : κ × List α} (h : g ∈ groups key l) :
    g.2 = l.filter (fun b => key b = g.1) ∧ ∃ a ∈ g.2, key a = g.1 := by
  rw [groups_eq] at h
  obtain ⟨a, ha, rfl⟩ := List.mem_map.mp h
  refine ⟨rfl, a, ?_, rfl⟩
  exact List.mem_filter.mpr ⟨(firsts_sublist key l).subset ha, decide_eq_true rfl⟩

theorem exists_mem_groups (key : α → κ) {l : List α} {a : α} (h : a ∈ l) :
    ∃ g ∈ groups key l, g.1 = key a := by
  obtain ⟨b, hb, hkey⟩ : ∃ b ∈ firsts key l, key b = key a := firsts_covers h
  refine ⟨(key b, l.filter fun c => key c = key b), ?_, hkey⟩
  rw [groups_eq]
  exact List.mem_map_of_mem hb

/-- Elements of one key form one group. -/
theorem groups_of_one {key : α → κ} {l : List α} {k : κ} (hne : l ≠ [])
    (h : ∀ a ∈ l, key a = k) : groups key l = [(k, l)] := by
  induction l using List.reverseRecOn with
  | nil => exact absurd rfl hne
  | append_singleton l a ih =>
    have hstep : groups key (l ++ [a]) = push (key a) a (groups key l) := by
      simp only [groups, List.foldl_append, List.foldl_cons, List.foldl_nil]
    have ha : key a = k := h a (List.mem_append_right l (List.mem_singleton_self a))
    rcases l with _ | ⟨b, l⟩
    · rw [hstep, ha]
      rfl
    · have hl := ih (List.cons_ne_nil b l) fun c hc => h c (List.mem_append_left [a] hc)
      rw [hstep, hl, ha, push, if_pos rfl]

theorem push_mapped {γ : Type} (f : α → γ) (k : κ) (a : α) (gs : List (κ × List α)) :
    push k (f a) (gs.map fun g => (g.1, g.2.map f)) =
      (push k a gs).map fun g => (g.1, g.2.map f) := by
  induction gs with
  | nil => rfl
  | cons g gs ih =>
    obtain ⟨k', as⟩ := g
    rw [List.map_cons, push, push]
    by_cases hk : k' = k
    · simp [hk]
    · simp [hk, ih]

/-- Grouping images groups the elements by the key of their image. -/
theorem groups_mapped {γ : Type} (f : α → γ) (key : γ → κ) (l : List α) :
    groups key (l.map f) = (groups (fun a => key (f a)) l).map fun g => (g.1, g.2.map f) := by
  induction l using List.reverseRecOn with
  | nil => rfl
  | append_singleton l a ih =>
    have hstep : groups (fun a => key (f a)) (l ++ [a]) =
        push (key (f a)) a (groups (fun a => key (f a)) l) := by
      simp only [groups, List.foldl_append, List.foldl_cons, List.foldl_nil]
    rw [hstep, ← push_mapped, ← ih, List.map_append]
    simp only [groups, List.map_cons, List.map_nil, List.foldl_append, List.foldl_cons,
      List.foldl_nil]

theorem lookup_cons_eq (k k₀ : κ) (b : β) (m : List (κ × β)) :
    ((k₀, b) :: m).lookup k = if k = k₀ then some b else m.lookup k := by
  rw [List.lookup_cons]
  by_cases h : k = k₀
  · rw [if_pos h, beq_iff_eq.mpr h]
  · rw [if_neg h, beq_false_of_ne h]

theorem lookup_of_mem {m : List (κ × β)} (hn : (m.map (·.1)).Nodup) {p : κ × β} (hp : p ∈ m) :
    m.lookup p.1 = some p.2 := by
  obtain ⟨before, after, rfl⟩ := List.append_of_mem hp
  refine List.lookup_eq_some_iff.mpr ⟨before, after, rfl, fun q hq => ?_⟩
  rw [List.map_append, List.map_cons] at hn
  have hne : q.1 ≠ p.1 := fun heq =>
    (List.nodup_append.mp hn).2.2 q.1 (List.mem_map_of_mem hq) p.1 List.mem_cons_self heq
  simpa using hne.symm

theorem mem_of_lookup {m : List (κ × β)} {k : κ} {b : β} (h : m.lookup k = some b) : (k, b) ∈ m := by
  obtain ⟨before, after, rfl, -⟩ := List.lookup_eq_some_iff.mp h
  exact List.mem_append_right before List.mem_cons_self

theorem lookup_push (k k' : κ) (a : α) (gs : List (κ × List α)) :
    (push k a gs).lookup k' =
      if k' = k then some ((gs.lookup k).getD [] ++ [a]) else gs.lookup k' := by
  induction gs with
  | nil => simp [push, lookup_cons_eq]
  | cons g gs ih =>
    obtain ⟨k₀, as⟩ := g
    simp only [push]
    split
    · rename_i h₀
      subst h₀
      by_cases h : k' = k₀ <;> simp [lookup_cons_eq, h]
    · rename_i h₀
      have h₀' : ¬ k = k₀ := fun h => h₀ h.symm
      by_cases h : k' = k₀
      · simp [h, h₀]
      · simp [lookup_cons_eq, h, h₀', ih]

theorem lookup_foldl_push (key : α → κ) (l : List α) (gs : List (κ × List α)) (k : κ) :
    (((l.foldl (fun gs a => push (key a) a gs) gs).lookup k).getD []) =
      (gs.lookup k).getD [] ++ l.filter fun a => key a = k := by
  induction l generalizing gs with
  | nil => simp
  | cons a l ih =>
    rw [List.foldl_cons, ih, lookup_push]
    by_cases h : k = key a
    · subst h
      simp
    · have h' : ¬ key a = k := fun heq => h heq.symm
      simp [h, h']

/-- What a key's group holds. -/
theorem lookup_groups (key : α → κ) (l : List α) (k : κ) :
    ((groups key l).lookup k).getD [] = l.filter fun a => key a = k := by
  rw [groups, lookup_foldl_push]
  simp

/-! ## Assignment: the last value wins -/

def put (k : κ) (b : β) : List (κ × β) → List (κ × β)
  | [] => [(k, b)]
  | (k', b') :: m => if k' = k then (k', b) :: m else (k', b') :: put k b m

theorem put_keys_nodup {k : κ} {b : β} {m : List (κ × β)}
    (h : (m.map (·.1)).Nodup) : ((put k b m).map (·.1)).Nodup := by
  have hkeys : ∀ m : List (κ × β), ∀ k', k' ∈ (put k b m).map (·.1) → k' = k ∨
      k' ∈ m.map (·.1) := by
    intro m
    induction m with
    | nil => simp [put]
    | cons p m ih =>
      intro k' hmem
      rw [put] at hmem
      split at hmem
      · exact Or.inr hmem
      · rcases List.mem_cons.mp hmem with rfl | hmem
        · exact Or.inr List.mem_cons_self
        · exact (ih k' hmem).imp_right (List.mem_cons_of_mem _)
  induction m with
  | nil => simp [put]
  | cons p m ih =>
    obtain ⟨hp, hm⟩ := List.nodup_cons.mp h
    rw [put]
    split
    · exact h
    · rename_i hne
      refine List.nodup_cons.mpr ⟨?_, ih hm⟩
      intro hmem
      rcases hkeys m _ hmem with heq | hmem
      · exact hne heq
      · exact hp hmem

theorem put_map {γ : Type} (f : β → γ) (k : κ) (b : β) (m : List (κ × β)) :
    put k (f b) (m.map fun p => (p.1, f p.2)) = (put k b m).map fun p => (p.1, f p.2) := by
  induction m with
  | nil => rfl
  | cons q m ih =>
    rw [List.map_cons, put, put, ih]
    split
    · rfl
    · rfl

theorem foldl_put_map {γ : Type} (f : β → γ) (l m : List (κ × β)) :
    (l.map fun p => (p.1, f p.2)).foldl (fun m p => put p.1 p.2 m) (m.map fun p => (p.1, f p.2)) =
      (l.foldl (fun m p => put p.1 p.2 m) m).map fun p => (p.1, f p.2) := by
  induction l generalizing m with
  | nil => rfl
  | cons p l ih =>
    have hput := put_map f p.1 p.2 m
    rw [List.foldl_cons, ← ih, ← hput]
    rfl

theorem foldl_put_keys_nodup {l m : List (κ × β)} (h : (m.map (·.1)).Nodup) :
    ((l.foldl (fun m p => put p.1 p.2 m) m).map (·.1)).Nodup := by
  induction l generalizing m with
  | nil => exact h
  | cons p l ih => exact ih (put_keys_nodup h)

theorem lookup_put (k k' : κ) (b : β) (m : List (κ × β)) :
    (put k b m).lookup k' = if k' = k then some b else m.lookup k' := by
  induction m with
  | nil => simp [put, lookup_cons_eq]
  | cons p m ih =>
    obtain ⟨k₀, b₀⟩ := p
    simp only [put]
    split
    · rename_i h₀
      subst h₀
      by_cases h : k' = k₀ <;> simp [lookup_cons_eq, h]
    · rename_i h₀
      by_cases h : k' = k₀
      · simp [h, h₀]
      · simp [lookup_cons_eq, h, ih]

theorem lookup_foldl_put (key : α → κ) (l : List α) (m : List (κ × α)) (k : κ) :
    (l.foldl (fun m a => put (key a) a m) m).lookup k =
      ((l.filter fun a => key a = k).getLast?).or (m.lookup k) := by
  induction l generalizing m with
  | nil => simp
  | cons a l ih =>
    rw [List.foldl_cons, ih, lookup_put]
    by_cases h : key a = k
    · subst h
      rw [if_pos rfl, List.filter_cons_of_pos (by simp), List.getLast?_cons]
      cases (l.filter fun b => key b = key a).getLast? <;> rfl
    · have h' : ¬ k = key a := fun heq => h heq.symm
      rw [if_neg h', List.filter_cons_of_neg (by simpa using h)]

theorem mem_put {k : κ} {b : β} {m : List (κ × β)} {p : κ × β} (h : p ∈ put k b m) :
    p = (k, b) ∨ p ∈ m := by
  induction m with
  | nil => exact Or.inl (List.mem_singleton.mp h)
  | cons q m ih =>
    rw [put] at h
    split at h
    next hq =>
      rcases List.mem_cons.mp h with rfl | h
      · left
        rw [hq]
      · exact Or.inr (List.mem_cons_of_mem q h)
    next =>
      rcases List.mem_cons.mp h with rfl | h
      · exact Or.inr List.mem_cons_self
      · exact (ih h).imp_right (List.mem_cons_of_mem q)

theorem mem_keys_put {k k' : κ} {b : β} {m : List (κ × β)} :
    k' ∈ (put k b m).map (·.1) ↔ k' = k ∨ k' ∈ m.map (·.1) := by
  induction m with
  | nil => simp [put]
  | cons q m ih =>
    rw [put]
    split
    next hq =>
      simp only [List.map_cons, List.mem_cons, hq]
      tauto
    next =>
      rw [List.map_cons, List.mem_cons, ih, List.map_cons, List.mem_cons]
      tauto

theorem put_of_fresh {k : κ} {b : β} {m : List (κ × β)} (h : k ∉ m.map (·.1)) :
    put k b m = m ++ [(k, b)] := by
  induction m with
  | nil => rfl
  | cons q m ih =>
    rw [List.map_cons, List.mem_cons, not_or] at h
    rw [put, if_neg (Ne.symm h.1), ih h.2]
    rfl

/-- Assignments to keys that differ are all kept. -/
theorem foldl_put_fresh {m l : List (κ × β)} (h : ((m ++ l).map (·.1)).Nodup) :
    l.foldl (fun m p => put p.1 p.2 m) m = m ++ l := by
  induction l generalizing m with
  | nil => exact (List.append_nil m).symm
  | cons p l ih =>
    have hp : p.1 ∉ m.map (·.1) := by
      intro hmem
      rw [List.map_append, List.map_cons] at h
      exact (List.nodup_append.mp h).2.2 p.1 hmem p.1 List.mem_cons_self rfl
    have hassoc : m ++ p :: l = m ++ [p] ++ l := by
      rw [List.append_assoc]
      rfl
    rw [List.foldl_cons, put_of_fresh hp, ih (by rwa [hassoc] at h)]
    exact hassoc.symm

theorem mem_foldl_put {m l : List (κ × β)} {p : κ × β}
    (h : p ∈ l.foldl (fun m p => put p.1 p.2 m) m) : p ∈ m ∨ p ∈ l := by
  induction l generalizing m with
  | nil => exact Or.inl h
  | cons q l ih =>
    rcases ih h with hput | hl
    · rcases mem_put hput with rfl | hm
      · exact Or.inr List.mem_cons_self
      · exact Or.inl hm
    · exact Or.inr (List.mem_cons_of_mem q hl)

theorem mem_keys_foldl_put {m l : List (κ × β)} {k : κ} :
    k ∈ (l.foldl (fun m p => put p.1 p.2 m) m).map (·.1) ↔
      k ∈ m.map (·.1) ∨ k ∈ l.map (·.1) := by
  induction l generalizing m with
  | nil => simp
  | cons q l ih =>
    rw [List.foldl_cons, ih, mem_keys_put, List.map_cons, List.mem_cons]
    tauto

end Keyed
