import LiteDbModel.Lib.Json

/-!
# JavaScript values

The values an application binds and the runtime passes on: `JsVal` keeps the
distinctions the source tests for (`null`, `typeof`, `Array.isArray`, class
instances), and an object is its own enumerable properties in enumeration order.
-/

namespace LiteDb
set_option autoImplicit false
open Decimal (Dec)

inductive Dialect
  | postgres
  | mysql
  | sqlite
deriving DecidableEq

/-- A number: finite ones are exact decimals, the text `Number::toString` prints. -/
inductive JsNum
  | fin (d : Dec)
  | nan
  | inf (neg : Bool)
deriving DecidableEq

inductive JsVal
  | undefined
  | null
  | bool (b : Bool)
  | num (n : JsNum)
  | bigint (i : Int)
  | str (s : String)
  /-- A `Date`, by its `toISOString` text. -/
  | date (iso : String)
  /-- A binary `Buffer`. -/
  | buffer (bytes : List UInt8)
  | arr (xs : List JsVal)
  | obj (ps : List (String × JsVal))

/-- `v === undefined || v === null`. -/
def JsVal.nullish : JsVal → Bool
  | .undefined | .null => true
  | _ => false

def JsNum.ofInt (i : Int) : JsNum := .fin (Dec.ofInt i)

/-- `Number.isInteger`. -/
def JsNum.isInteger : JsNum → Bool
  | .fin d => 0 ≤ d.exp
  | _ => false

/-! ## Properties of plain objects -/

namespace Props
variable {α β : Type}

def get (ps : List (String × α)) (k : String) : Option α := (ps.find? fun p => p.1 = k).map (·.2)

/-- `"0"`, `"1"`, …: the keys an object enumerates first, in ascending order. -/
def index (k : String) : Option Nat :=
  match k.toList with
  | [] => none
  | cs =>
    if cs.all Char.isDigit ∧ Decimal.goodInt cs ∧ Nat.ofDigitChars 10 cs 0 < 2 ^ 32 - 1 then
      some (Nat.ofDigitChars 10 cs 0)
    else none

/-- Enumeration order: index keys ascending, then the others as they were added. -/
def before (k : String) (k' : String) : Bool :=
  match index k, index k' with
  | some i, some j => i < j
  | some _, none => true
  | none, _ => false

def insert (k : String) (v : α) : List (String × α) → List (String × α)
  | [] => [(k, v)]
  | (k', v') :: ps => if before k k' then (k, v) :: (k', v') :: ps else (k', v') :: insert k v ps

def replace (k : String) (v : α) : List (String × α) → List (String × α)
  | [] => []
  | (k', v') :: ps => if k' = k then (k, v) :: ps else (k', v') :: replace k v ps

/-- `o[k] = v`; assigning `__proto__` adds no own property. -/
def set (ps : List (String × α)) (k : String) (v : α) : List (String × α) :=
  if k = "__proto__" then ps
  else if k ∈ ps.map (·.1) then replace k v ps
  else insert k v ps

def keys (ps : List (String × α)) : List String := ps.map (·.1)

/-- Assign the entries to a fresh object, one after the other. -/
def ofEntries (ps : List (String × α)) : List (String × α) :=
  ps.foldl (fun acc p => set acc p.1 p.2) []

/-- The key lists that objects enumerate: distinct, index keys first and ascending. -/
def Canonical (ks : List String) : Prop := ks.Pairwise fun k k' => k ≠ k' ∧ before k' k = false

instance (ks : List String) : Decidable (Canonical ks) :=
  inferInstanceAs (Decidable (ks.Pairwise _))

theorem insert_last {k : String} {acc : List (String × α)} (v : α)
    (h : ∀ k' ∈ keys acc, before k k' = false) : insert k v acc = acc ++ [(k, v)] := by
  induction acc with
  | nil => rfl
  | cons p acc ih =>
    obtain ⟨k', v'⟩ := p
    have hk := h k' List.mem_cons_self
    have hacc := ih fun k'' hk'' => h k'' (List.mem_cons_of_mem k' hk'')
    simp [insert, hk, hacc]

theorem foldl_set (ps acc : List (String × α)) (h : Canonical (keys acc ++ keys ps)) :
    ps.foldl (fun acc p => set acc p.1 p.2) acc =
      acc ++ ps.filter fun p => p.1 ≠ "__proto__" := by
  induction ps generalizing acc with
  | nil => simp
  | cons p ps ih =>
    obtain ⟨k, v⟩ := p
    have hmid : Canonical (keys acc ++ k :: keys ps) := h
    have hpart := List.pairwise_append.mp hmid
    by_cases hk : k = "__proto__"
    · have hset : set acc k v = acc := by simp [set, hk]
      have hrest : Canonical (keys acc ++ keys ps) :=
        List.pairwise_append.mpr ⟨hpart.1, (List.pairwise_cons.mp hpart.2.1).2,
          fun a ha b hb => hpart.2.2 a ha b (List.mem_cons_of_mem k hb)⟩
      simp only [List.foldl_cons, hset]
      rw [ih acc hrest, List.filter_cons_of_neg (by simp [hk])]
    · have hold : ∀ k' ∈ keys acc, k' ≠ k ∧ before k k' = false := fun k' hk' =>
        hpart.2.2 k' hk' k List.mem_cons_self
      have hmem : k ∉ acc.map (·.1) := fun hm => (hold k hm).1 rfl
      have hset : set acc k v = acc ++ [(k, v)] := by
        rw [set, if_neg hk, if_neg hmem, insert_last v fun k' hk' => (hold k' hk').2]
      simp only [List.foldl_cons, hset]
      rw [ih (acc ++ [(k, v)]) (by simpa [keys] using h), List.filter_cons_of_pos (by simp [hk])]
      simp

/-- Copying an object entry by entry loses the key `__proto__` and nothing else. -/
theorem ofEntries_canonical {ps : List (String × α)} (h : Canonical (keys ps)) :
    ofEntries ps = ps.filter fun p => p.1 ≠ "__proto__" := by
  rw [ofEntries, foldl_set ps [] h, List.nil_append]

/-- The entries that a later assignment to their key, or the key `__proto__`, does not undo. -/
def survivors : List (String × α) → List (String × α)
  | [] => []
  | (k, v) :: ps =>
    if k = "__proto__" ∨ k ∈ keys ps then survivors ps else (k, v) :: survivors ps

def lost : List (String × α) → List (String × α)
  | [] => []
  | (k, v) :: ps => if k = "__proto__" ∨ k ∈ keys ps then (k, v) :: lost ps else lost ps

theorem survivors_lost (ps : List (String × α)) : (survivors ps ++ lost ps).Perm ps := by
  induction ps with
  | nil => exact List.Perm.refl []
  | cons p ps ih =>
    obtain ⟨k, v⟩ := p
    simp only [survivors, lost]
    split
    · exact List.perm_middle.trans (ih.cons (k, v))
    · exact ih.cons (k, v)

theorem survivors_subset (ps : List (String × α)) : survivors ps ⊆ ps :=
  fun _ hp => (survivors_lost ps).subset (List.mem_append_left _ hp)

theorem survivors_keys_nodup (ps : List (String × α)) : (keys (survivors ps)).Nodup := by
  induction ps with
  | nil => exact List.nodup_nil
  | cons p ps ih =>
    obtain ⟨k, v⟩ := p
    rw [survivors]
    split
    · exact ih
    next h =>
      rw [not_or] at h
      apply List.nodup_cons.mpr
      refine ⟨?_, ih⟩
      intro hm
      apply h.2
      exact (List.map_subset Prod.fst (survivors_subset ps)) hm

theorem survivors_of_nodup {ps : List (String × α)} (hn : (keys ps).Nodup) :
    survivors ps = ps.filter fun p => p.1 ≠ "__proto__" := by
  induction ps with
  | nil => rfl
  | cons p ps ih =>
    obtain ⟨k, v⟩ := p
    obtain ⟨hk, hps⟩ : k ∉ keys ps ∧ (keys ps).Nodup := List.nodup_cons.mp hn
    rw [survivors, ih hps]
    by_cases hproto : k = "__proto__"
    · rw [if_pos (.inl hproto), List.filter_cons_of_neg (by simp [hproto])]
    · rw [if_neg (not_or.mpr ⟨hproto, hk⟩), List.filter_cons_of_pos (by simp [hproto])]

theorem insert_perm (k : String) (v : α) (ps : List (String × α)) :
    (insert k v ps).Perm ((k, v) :: ps) := by
  induction ps with
  | nil => exact List.Perm.refl _
  | cons p ps ih =>
    obtain ⟨k', v'⟩ := p
    simp only [insert]
    split
    · exact List.Perm.refl _
    · exact (ih.cons (k', v')).trans (List.Perm.swap (k, v) (k', v') ps)

theorem filter_ne_of_not_mem {k : String} {ps : List (String × α)} (h : k ∉ keys ps) :
    ps.filter (fun p => p.1 ≠ k) = ps := by
  apply List.filter_eq_self.mpr
  intro p hp
  have : p.1 ∈ keys ps := List.mem_map_of_mem hp
  simp only [ne_eq, decide_eq_true_eq]
  rintro rfl
  exact h this

theorem replace_perm {k : String} (v : α) {ps : List (String × α)} (hn : (keys ps).Nodup)
    (hk : k ∈ keys ps) : (replace k v ps).Perm ((k, v) :: ps.filter fun p => p.1 ≠ k) := by
  induction ps with
  | nil => cases hk
  | cons p ps ih =>
    obtain ⟨k', v'⟩ := p
    obtain ⟨hnot, hrest⟩ := List.nodup_cons.mp hn
    simp only [replace]
    split
    · rename_i heq
      subst heq
      rw [List.filter_cons_of_neg (by simp), filter_ne_of_not_mem hnot]
    · rename_i hne
      have hmem : k ∈ keys ps := (List.mem_cons.mp hk).resolve_left fun h => hne h.symm
      rw [List.filter_cons_of_pos (by simpa using hne)]
      exact ((ih hrest hmem).cons (k', v')).trans (List.Perm.swap _ _ _)

/-- Assigning moves the key's new value in and leaves the other entries. -/
theorem set_perm {k : String} (v : α) {ps : List (String × α)} (hn : (keys ps).Nodup)
    (hk : k ≠ "__proto__") : (set ps k v).Perm ((k, v) :: ps.filter fun p => p.1 ≠ k) := by
  unfold set
  rw [if_neg hk]
  split
  · rename_i hmem
    exact replace_perm v hn hmem
  · rename_i hmem
    rw [filter_ne_of_not_mem hmem]
    exact insert_perm k v ps

theorem set_keys_nodup {k : String} (v : α) {ps : List (String × α)} (hn : (keys ps).Nodup) :
    (keys (set ps k v)).Nodup := by
  by_cases hk : k = "__proto__"
  · simpa [set, hk] using hn
  · have hp := (set_perm v hn hk).map Prod.fst
    apply hp.nodup_iff.mpr
    simp only [List.map_cons, List.nodup_cons]
    refine ⟨?_, hn.sublist (List.filter_sublist.map Prod.fst)⟩
    simp

theorem set_proto_not_mem {k : String} (v : α) {ps : List (String × α)} (hn : (keys ps).Nodup)
    (h : "__proto__" ∉ keys ps) : "__proto__" ∉ keys (set ps k v) := by
  by_cases hk : k = "__proto__"
  · simpa [set, hk] using h
  · have hp := (set_perm v hn hk).map Prod.fst
    intro hm
    rcases List.mem_cons.mp (hp.mem_iff.mp hm) with heq | hm
    · exact hk heq.symm
    · exact h ((List.filter_sublist.map Prod.fst).subset hm)

theorem foldl_set_perm (ps acc : List (String × α)) (hn : (keys acc).Nodup)
    (hproto : "__proto__" ∉ keys acc) :
    (ps.foldl (fun acc p => set acc p.1 p.2) acc).Perm
      ((acc.filter fun p => p.1 ∉ keys ps) ++ survivors ps) := by
  induction ps generalizing acc with
  | nil => simp [keys, survivors]
  | cons p ps ih =>
    obtain ⟨k, v⟩ := p
    refine (ih (set acc k v) (set_keys_nodup v hn) (set_proto_not_mem v hn hproto)).trans ?_
    have hkeys : ∀ a : List (String × α), a.filter (fun p => p.1 ∉ keys ((k, v) :: ps)) =
        (a.filter fun p => p.1 ≠ k).filter fun p => p.1 ∉ keys ps := by
      intro a
      rw [List.filter_filter]
      apply List.filter_congr
      intro p _
      have hiff : p.1 ∉ keys ((k, v) :: ps) ↔ p.1 ∉ keys ps ∧ p.1 ≠ k := by
        simp only [keys, List.map_cons, List.mem_cons, not_or]
        exact and_comm
      simp only [hiff, Bool.decide_and]
    rw [hkeys acc]
    by_cases hk : k = "__proto__"
    · have hset : set acc k v = acc := by simp [set, hk]
      have hfil : acc.filter (fun p => p.1 ≠ k) = acc :=
        filter_ne_of_not_mem (by rw [hk]; exact hproto)
      rw [hset, hfil]
      simp [survivors, hk]
    · have hset := (set_perm v hn hk).filter fun p => p.1 ∉ keys ps
      refine (hset.append_right (survivors ps)).trans ?_
      by_cases hmem : k ∈ keys ps
      · rw [List.filter_cons_of_neg (by simpa using hmem)]
        simp [survivors, hmem]
      · rw [List.filter_cons_of_pos (by simpa using hmem)]
        simp only [survivors, hk, hmem, or_self, if_false, List.cons_append]
        exact List.perm_middle.symm

/-- An object built by assignments holds the surviving entries, in some order. -/
theorem ofEntries_perm (ps : List (String × α)) : (ofEntries ps).Perm (survivors ps) := by
  have := foldl_set_perm ps [] List.nodup_nil (List.not_mem_nil)
  simpa [ofEntries] using this

theorem ofEntries_keys_nodup (ps : List (String × α)) : (keys (ofEntries ps)).Nodup :=
  ((ofEntries_perm ps).map Prod.fst).nodup_iff.mpr (survivors_keys_nodup ps)

theorem mem_ofEntries {ps : List (String × α)} (hn : (keys ps).Nodup) {p : String × α} :
    p ∈ ofEntries ps ↔ p ∈ ps ∧ p.1 ≠ "__proto__" := by
  rw [(ofEntries_perm ps).mem_iff, survivors_of_nodup hn, List.mem_filter, decide_eq_true_eq]

theorem get_cons (k k' : String) (v : α) (ps : List (String × α)) :
    get ((k', v) :: ps) k = if k' = k then some v else get ps k := by
  by_cases h : k' = k <;> simp [get, h]

theorem get_replace {k : String} (v : α) {ps : List (String × α)}
    (hk : k ∈ keys ps) (k' : String) :
    get (replace k v ps) k' = if k' = k then some v else get ps k' := by
  induction ps with
  | nil => cases hk
  | cons p ps ih =>
    obtain ⟨k₀, v₀⟩ := p
    rw [replace]
    split
    · next heq =>
      subst heq
      rw [get_cons, get_cons]
      by_cases h : k₀ = k'
      · simp [h]
      · simp [h, Ne.symm h]
    · next hne =>
      have hrest : k ∈ keys ps := (List.mem_cons.mp hk).resolve_left fun h => hne h.symm
      rw [get_cons, get_cons, ih hrest]
      by_cases h : k₀ = k'
      · subst h
        simp [hne]
      · simp [h]

theorem get_insert {k : String} (v : α) {ps : List (String × α)}
    (hk : k ∉ keys ps) (k' : String) :
    get (insert k v ps) k' = if k' = k then some v else get ps k' := by
  induction ps with
  | nil =>
    rw [insert, get_cons]
    by_cases h : k = k'
    · simp [h]
    · simp [h, Ne.symm h]
  | cons p ps ih =>
    obtain ⟨k₀, v₀⟩ := p
    obtain ⟨hne, hrest⟩ := not_or.mp (fun h => hk (List.mem_cons.mpr h))
    rw [insert]
    split
    · rw [get_cons]
      by_cases h : k = k'
      · simp [h]
      · simp [h, Ne.symm h]
    · rw [get_cons, get_cons, ih hrest]
      by_cases h : k₀ = k'
      · subst h
        simp [Ne.symm hne]
      · simp [h]

theorem get_set {k : String} (hk : k ≠ "__proto__") (v : α) (ps : List (String × α))
    (k' : String) :
    get (set ps k v) k' = if k' = k then some v else get ps k' := by
  rw [set, if_neg hk]
  split
  · next hmem => exact get_replace v hmem k'
  · next hmem => exact get_insert v hmem k'

theorem get_none_of_not_mem {k : String} {ps : List (String × α)}
    (h : k ∉ keys ps) : get ps k = none := by
  rw [get, List.find?_eq_none.mpr, Option.map_none]
  intro p hp heq
  exact h (List.mem_map.mpr ⟨p, hp, by simpa using heq⟩)

theorem mem_of_get {ps : List (String × α)} {k : String} {v : α}
    (h : get ps k = some v) : (k, v) ∈ ps := by
  obtain ⟨p, hp, rfl⟩ := Option.map_eq_some_iff.mp h
  have hmem := List.mem_of_find?_eq_some hp
  have hkey := List.find?_some hp
  simp only [decide_eq_true_eq] at hkey
  rwa [← hkey]

theorem mem_keys_of_get {ps : List (String × α)} {k : String} {v : α}
    (h : get ps k = some v) : k ∈ keys ps := List.mem_map_of_mem (mem_of_get h)

theorem exists_get {ps : List (String × α)} {k : String} (h : k ∈ keys ps) :
    ∃ v, get ps k = some v := by
  cases hget : get ps k with
  | some v => exact ⟨v, rfl⟩
  | none =>
    obtain ⟨p, hp, hk⟩ := List.mem_map.mp h
    rw [get, Option.map_eq_none_iff, List.find?_eq_none] at hget
    exact absurd (by simpa using hk) (hget p hp)

end Props

end LiteDb
