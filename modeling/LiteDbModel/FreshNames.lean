import LiteDbModel.Lib.Keyed
import LiteDbModel.Lib.Decimal

/-!
# The binding names of an emitted method

`freshNames` numbers the requests of each base on its own. A name is a base and a number, and what
is handed out is distinct as long as no two such pairs are spelled alike.
-/

namespace LiteDb.FreshNames
set_option autoImplicit false
open Keyed

abbrev Name := String

/-! ## The allocator -/

/-- The `used` map: how often each base has been named. -/
abbrev Used := List (Name × Nat)

/-- The map of the reserved names. -/
def freshNames (reserved : List Name) : Used :=
  reserved.foldl (fun used r => put r 1 used) []

/-- What is handed out for the `n`th request of a base. -/
def spelled (base : Name) (n : Nat) : Name := if n = 1 then base else base ++ toString n

def fresh (used : Used) (base : Name) : Name × Used :=
  let n := (used.lookup base).getD 0 + 1
  (spelled base n, put base n used)

/-- The names handed out for a sequence of requests. -/
def handedOut (used : Used) : List Name → List Name
  | [] => []
  | base :: bases => (fresh used base).1 :: handedOut (fresh used base).2 bases

/-! ## The bindings of a read -/

/-- A relation selected with `with`, and what is selected below it. -/
inductive Selection
  | mk (name : Name) (below : List Selection)

mutual

/-- The requests of `relations`: the keys, the child rows, those of the level below, the graph. -/
def Selection.requests : Selection → List Name
  | .mk name below => (name ++ "Keys") :: name :: (requestsOf below ++ [name ++ "Graph"])

def requestsOf : List Selection → List Name
  | [] => []
  | s :: rest => s.requests ++ requestsOf rest

end

/-- The bindings of a read: its rows, then those of its relations. -/
def readBindings (params : List Name) (selections : List Selection) : List Name :=
  handedOut (freshNames params) ("rows" :: requestsOf selections)

/-- A method declares no binding twice and shadows no parameter. -/
def Distinct (reserved names : List Name) : Prop := names.Nodup ∧ ∀ name ∈ names, name ∉ reserved

/-! ## The numbers of the requests -/

/-- How often a base is named in all, its reservation included. -/
def timesNamed (reserved requests : List Name) (base : Name) : Nat :=
  (if base ∈ reserved then 1 else 0) + requests.count base

/-- The requests with their numbers. -/
def numbered (seen : Name → Nat) : List Name → List (Name × Nat)
  | [] => []
  | base :: bases =>
    (base, seen base + 1) :: numbered (Function.update seen base (seen base + 1)) bases

theorem mem_numbered {seen : Name → Nat} {bases : List Name} {base : Name} {n : Nat} :
    (base, n) ∈ numbered seen bases ↔ seen base < n ∧ n ≤ seen base + bases.count base := by
  induction bases generalizing seen with
  | nil =>
    simp only [numbered, List.not_mem_nil, List.count_nil, false_iff]
    omega
  | cons b bases ih =>
    rw [numbered, List.mem_cons, ih, Prod.mk.injEq, List.count_cons]
    by_cases hb : base = b
    · subst hb
      rw [Function.update_self]
      simp only [true_and, beq_self_eq_true, if_true]
      omega
    · have hne : (b == base) = false := beq_false_of_ne fun h => hb h.symm
      rw [Function.update_of_ne hb, hne]
      simp only [hb, false_and, false_or, Bool.false_eq_true, if_false, Nat.add_zero]

theorem numbered_nodup (seen : Name → Nat) (bases : List Name) : (numbered seen bases).Nodup := by
  induction bases generalizing seen with
  | nil => exact List.nodup_nil
  | cons b bases ih =>
    rw [numbered, List.nodup_cons]
    refine ⟨?_, ih _⟩
    intro h
    have hlt := (mem_numbered.mp h).1
    rw [Function.update_self] at hlt
    omega

/-- The map counts each base. -/
theorem handedOut_eq (used : Used) (bases : List Name) :
    handedOut used bases =
      (numbered (fun base => (used.lookup base).getD 0) bases).map fun p => spelled p.1 p.2 := by
  induction bases generalizing used with
  | nil => rfl
  | cons b bases ih =>
    rw [handedOut, numbered, List.map_cons, ih]
    refine congrArg₂ (· :: ·) rfl ?_
    refine congrArg (fun seen => (numbered seen bases).map fun p => spelled p.1 p.2) ?_
    funext base
    simp only [fresh, lookup_put]
    by_cases hb : base = b
    · subst hb
      rw [if_pos rfl, Function.update_self]
      rfl
    · rw [if_neg hb, Function.update_of_ne hb]

theorem lookup_freshNames (reserved : List Name) (base : Name) :
    ((freshNames reserved).lookup base).getD 0 = if base ∈ reserved then 1 else 0 := by
  unfold freshNames
  induction reserved using List.reverseRecOn with
  | nil => rfl
  | append_singleton reserved r ih =>
    rw [List.foldl_append, List.foldl_cons, List.foldl_nil, lookup_put]
    by_cases hb : base = r
    · rw [if_pos hb, if_pos (by simp [hb])]
      rfl
    · rw [if_neg hb, ih]
      simp [hb]

/-- Every name of a method as its base and number: the reserved ones first. -/
def pairs (reserved requests : List Name) : List (Name × Nat) :=
  reserved.dedup.map (·, 1) ++ numbered (fun base => if base ∈ reserved then 1 else 0) requests

theorem mem_pairs {reserved requests : List Name} {base : Name} {n : Nat} :
    (base, n) ∈ pairs reserved requests ↔ 1 ≤ n ∧ n ≤ timesNamed reserved requests base := by
  have hfirst : (base, n) ∈ reserved.dedup.map (fun r : Name => (r, 1)) ↔
      base ∈ reserved ∧ n = 1 := by
    simp [eq_comm]
  rw [pairs, List.mem_append, hfirst, mem_numbered, timesNamed]
  by_cases hb : base ∈ reserved
  · simp only [hb, if_true, true_and]
    omega
  · simp only [hb, if_false, false_and, false_or]
    omega

theorem pairs_nodup (reserved requests : List Name) : (pairs reserved requests).Nodup := by
  refine List.Nodup.append ?_ (numbered_nodup _ _) ?_
  · exact (List.nodup_dedup reserved).map fun a b h => congrArg Prod.fst h
  · rintro ⟨base, n⟩ hr hn
    obtain ⟨r, hmem, heq⟩ := List.mem_map.mp hr
    cases heq
    have hlt := (mem_numbered.mp hn).1
    rw [if_pos (List.mem_dedup.mp hmem)] at hlt
    omega

/-- The names are distinct exactly when no two pairs are spelled alike. -/
theorem distinct_iff_injOn (reserved requests : List Name) :
    Distinct reserved (handedOut (freshNames reserved) requests) ↔
      ∀ p ∈ pairs reserved requests, ∀ q ∈ pairs reserved requests,
        spelled p.1 p.2 = spelled q.1 q.2 → p = q := by
  have hhanded : handedOut (freshNames reserved) requests =
      (numbered (fun base => if base ∈ reserved then 1 else 0) requests).map
        fun p => spelled p.1 p.2 := by
    rw [handedOut_eq]
    simp only [lookup_freshNames]
  have hmap : (pairs reserved requests).map (fun p => spelled p.1 p.2) =
      reserved.dedup ++ handedOut (freshNames reserved) requests := by
    rw [hhanded, pairs, List.map_append, List.map_map]
    refine congrArg (· ++ _) ?_
    exact List.map_id _
  rw [← List.nodup_map_iff_inj_on (pairs_nodup reserved requests), hmap, List.nodup_append]
  constructor
  · rintro ⟨hnodup, hreserved⟩
    refine ⟨List.nodup_dedup _, hnodup, ?_⟩
    rintro a ha b hb rfl
    exact hreserved a hb (List.mem_dedup.mp ha)
  · rintro ⟨_, hnodup, hdisjoint⟩
    refine ⟨hnodup, fun name hname hmem => ?_⟩
    exact hdisjoint name (List.mem_dedup.mpr hmem) name hname rfl

/-! ## Two bases that are spelled alike -/

/-- The front of a number's digits is a number. -/
theorem digits_of_front {n : Nat} {a r : List Char} (hn : 0 < n) (ha : a ≠ [])
    (h : Nat.toDigits 10 n = a ++ r) : ∃ m, 0 < m ∧ a = Nat.toDigits 10 m := by
  induction n using Nat.strongRecOn generalizing r with
  | ind n ih =>
    rcases List.eq_nil_or_concat r with rfl | ⟨r', c, rfl⟩
    · exact ⟨n, hn, by rw [h, List.append_nil]⟩
    · by_cases hlt : n < 10
      · rw [Nat.toDigits_of_lt_base hlt] at h
        have hlen := congrArg List.length h
        have hpos := List.length_pos_of_ne_nil ha
        simp only [List.length_append, List.concat_eq_append, List.length_cons,
          List.length_nil] at hlen
        omega
      · rw [Nat.toDigits_of_base_le (by decide) (by omega), List.concat_eq_append,
          ← List.append_assoc] at h
        exact ih (n / 10) (by omega) (by omega) (List.append_inj_left' h rfl)

theorem number_of_digits {n m k : Nat}
    (h : Nat.toDigits 10 n = Nat.toDigits 10 m ++ Nat.toDigits 10 k) :
    n = 10 ^ (Nat.toDigits 10 k).length * m + k := by
  have hval := congrArg (fun l => Nat.ofDigitChars 10 l 0) h
  simp only [Nat.ofDigitChars_append, Nat.ofDigitChars_ten_toDigits] at hval
  rw [hval, Nat.ofDigitChars_eq_ofDigitChars_zero, Nat.ofDigitChars_ten_toDigits]

theorem digits_injective {n m : Nat} (h : Nat.toDigits 10 n = Nat.toDigits 10 m) : n = m := by
  have hval := congrArg (fun l => Nat.ofDigitChars 10 l 0) h
  simpa only [Nat.ofDigitChars_ten_toDigits] using hval

/-- No base is named so often that one of its numbers spells another base: a base and the same
with a number `m` behind it, or with a one, of which the twelfth and the second collide. -/
def Separate (reserved requests : List Name) : Prop :=
  ∀ base ∈ reserved ++ requests, ∀ m : Nat, base ++ toString m ∈ reserved ++ requests →
    (2 ≤ m → timesNamed reserved requests base < m) ∧
      (m = 1 → timesNamed reserved requests base < 12 ∨
        timesNamed reserved requests (base ++ toString m) < 2)

theorem timesNamed_pos {reserved requests : List Name} {base : Name} :
    0 < timesNamed reserved requests base ↔ base ∈ reserved ++ requests := by
  rw [timesNamed, List.mem_append, ← List.count_pos_iff (l := requests)]
  by_cases hb : base ∈ reserved
  · simp only [hb, if_true, true_or, iff_true]
    omega
  · simp only [hb, if_false, false_or]
    omega

theorem toList_spelled (base : Name) (n : Nat) : (spelled base n).toList =
    base.toList ++ if n = 1 then [] else Nat.toDigits 10 n := by
  unfold spelled
  split
  · rw [List.append_nil]
  · rw [String.toList_append, Nat.toString_eq_ofList_toDigits, String.toList_ofList]

theorem toList_number (base : Name) (m : Nat) :
    (base ++ toString m).toList = base.toList ++ Nat.toDigits 10 m := by
  rw [String.toList_append, Nat.toString_eq_ofList_toDigits, String.toList_ofList]

/-- With a longer base behind a shorter one, the two are named too often. -/
theorem separate_longer {reserved requests : List Name} (h : Separate reserved requests)
    {base long : Name} {a : List Char} {n k : Nat} (hlong : long.toList = base.toList ++ a)
    (ha : a ≠ []) (hn : 1 ≤ n) (hntimes : n ≤ timesNamed reserved requests base) (hk : 1 ≤ k)
    (hktimes : k ≤ timesNamed reserved requests long) : spelled base n ≠ spelled long k := by
  intro heq
  have hbase := timesNamed_pos.mp (by omega : 0 < timesNamed reserved requests base)
  have hmem := timesNamed_pos.mp (by omega : 0 < timesNamed reserved requests long)
  have hchars := congrArg String.toList heq
  rw [toList_spelled, toList_spelled, hlong, List.append_assoc] at hchars
  have hdigits := List.append_cancel_left hchars
  have hnumber : ∀ m, a = Nat.toDigits 10 m → long = base ++ toString m := by
    intro m hm
    apply String.toList_inj.mp
    rw [hlong, hm, toList_number]
  by_cases hn1 : n = 1
  · rw [if_pos hn1] at hdigits
    exact ha (List.append_eq_nil_iff.mp hdigits.symm).1
  rw [if_neg hn1] at hdigits
  by_cases hk1 : k = 1
  · rw [if_pos hk1, List.append_nil] at hdigits
    rw [hnumber n hdigits.symm] at hmem
    have hlt := (h base hbase n hmem).1 (by omega)
    omega
  · rw [if_neg hk1] at hdigits
    obtain ⟨m, hm, heqa⟩ := digits_of_front (by omega) ha hdigits
    have hm' := hnumber m heqa
    rw [heqa] at hdigits
    have hvalue := number_of_digits hdigits
    have hten : 10 ≤ 10 ^ (Nat.toDigits 10 k).length :=
      Nat.le_self_pow (List.length_pos_of_ne_nil Nat.toDigits_ne_nil).ne' 10
    have hle : 10 * m ≤ 10 ^ (Nat.toDigits 10 k).length * m := Nat.mul_le_mul_right m hten
    subst hm'
    by_cases hm1 : m = 1
    · rcases (h base hbase m hmem).2 hm1 with hfew | hone
      · omega
      · omega
    · have hlt := (h base hbase m hmem).1 (by omega)
      omega

/-- A base's pairs are spelled with different numbers. -/
theorem spelled_injective {base : Name} {n k : Nat} (h : spelled base n = spelled base k) :
    n = k := by
  have hchars := congrArg String.toList h
  rw [toList_spelled, toList_spelled] at hchars
  have hdigits := List.append_cancel_left hchars
  by_cases hn1 : n = 1
  · by_cases hk1 : k = 1
    · rw [hn1, hk1]
    · rw [if_pos hn1, if_neg hk1] at hdigits
      exact absurd hdigits.symm Nat.toDigits_ne_nil
  · by_cases hk1 : k = 1
    · rw [if_neg hn1, if_pos hk1] at hdigits
      exact absurd hdigits Nat.toDigits_ne_nil
    · rw [if_neg hn1, if_neg hk1] at hdigits
      exact digits_injective hdigits

theorem injOn_iff_separate (reserved requests : List Name) :
    (∀ p ∈ pairs reserved requests, ∀ q ∈ pairs reserved requests,
      spelled p.1 p.2 = spelled q.1 q.2 → p = q) ↔ Separate reserved requests := by
  constructor
  · intro hinj base hbase m hlong
    have hcollide : ∀ n k, 1 ≤ n → n ≤ timesNamed reserved requests base → 1 ≤ k →
        k ≤ timesNamed reserved requests (base ++ toString m) →
        spelled base n ≠ spelled (base ++ toString m) k := by
      intro n k hn hntimes hk hktimes heq
      have hpair := hinj (base, n) (mem_pairs.mpr ⟨hn, hntimes⟩) _
        (mem_pairs.mpr ⟨hk, hktimes⟩) heq
      have hchars := congrArg (fun p => p.1.toList) hpair
      dsimp only at hchars
      rw [toList_number] at hchars
      exact Nat.toDigits_ne_nil (List.self_eq_append_right.mp hchars)
    have hpos := timesNamed_pos.mpr hlong
    constructor
    · intro hm
      by_contra hle
      refine hcollide m 1 (by omega) (by omega) (le_refl 1) (by omega) ?_
      rw [spelled, spelled, if_neg (by omega), if_pos rfl]
    · rintro rfl
      by_contra hboth
      rw [not_or, not_lt, not_lt] at hboth
      refine hcollide 12 2 (by decide) hboth.1 (by decide) hboth.2 ?_
      rw [spelled, spelled, if_neg (by decide), if_neg (by decide), String.append_assoc]
      rfl
  · rintro hsep ⟨b, n⟩ hp ⟨b', k⟩ hq heq
    obtain ⟨hn, hntimes⟩ := mem_pairs.mp hp
    obtain ⟨hk, hktimes⟩ := mem_pairs.mp hq
    have hfront : ∀ base n, base.toList <+: (spelled base n).toList := by
      intro base n
      rw [toList_spelled]
      exact List.prefix_append _ _
    have hfronts := List.prefix_or_prefix_of_prefix (hfront b n) (heq ▸ hfront b' k)
    by_cases hb : b = b'
    · subst hb
      have hnk : n = k := spelled_injective heq
      rw [hnk]
    · exfalso
      rcases hfronts with ⟨a, ha⟩ | ⟨a, ha⟩
      · have hne : a ≠ [] := by
          rintro rfl
          exact hb (String.toList_inj.mp (by rw [← ha, List.append_nil]))
        exact separate_longer hsep ha.symm hne hn hntimes hk hktimes heq
      · have hne : a ≠ [] := by
          rintro rfl
          exact hb (String.toList_inj.mp (by rw [← ha, List.append_nil]))
        exact separate_longer hsep ha.symm hne hk hktimes hn hntimes heq.symm

/-- What is handed out is distinct exactly when no base is named so often that it spells another. -/
theorem freshNames_distinct_iff (reserved requests : List Name) :
    Distinct reserved (handedOut (freshNames reserved) requests) ↔ Separate reserved requests :=
  (distinct_iff_injOn reserved requests).trans (injOn_iff_separate reserved requests)

/-- A method with the parameters `rows` and `rows2` binds its rows as the second of them. -/
theorem rows_shadow_parameter :
    readBindings ["rows", "rows2"] [] = ["rows2"] ∧
      ¬ Distinct ["rows", "rows2"] (handedOut (freshNames ["rows", "rows2"]) ["rows"]) := by
  have hrows : handedOut (freshNames ["rows", "rows2"]) ["rows"] = ["rows2"] := by decide
  refine ⟨hrows, ?_⟩
  rw [hrows]
  intro h
  exact h.2 "rows2" (by decide) (by decide)

/-- The bindings of a read, by the names of its relations. -/
theorem read_distinct_iff (params : List Name) (selections : List Selection) :
    Distinct params (readBindings params selections) ↔
      Separate params ("rows" :: requestsOf selections) := by
  rw [readBindings, distinct_iff_injOn, injOn_iff_separate]

end LiteDb.FreshNames
