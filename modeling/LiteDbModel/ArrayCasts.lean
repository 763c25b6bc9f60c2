import LiteDbModel.RelationSurfaces

/-!
# Deferred array casts

A PostgreSQL statement that was compiled without the type of an array parameter
carries a token in the place of its cast. Before it is sent, each array parameter
in turn resolves the first token that is left.
-/

namespace LiteDb
set_option autoImplicit false

/-! ## The resolution -/

def JsVal.elements : JsVal → Option (List JsVal)
  | .arr xs => some xs
  | _ => none

/-- The arrays among the parameters, in order. -/
def arrayParams (params : List JsVal) : List (List JsVal) := params.filterMap JsVal.elements

/-- The loop of `prepareSql` over the parameters. -/
def resolveCasts (sql : List Char) (params : List JsVal) : List Char :=
  (arrayParams params).foldl resolvePgArrayCast sql

/-- For each token, the number of placeholders that `renderPlaceholders` writes before it. -/
def tokenPlaceholders (inString : Bool) (index skip : Nat) : List Char → List Nat
  | [] => []
  | c :: cs =>
    match skip with
    | skip + 1 => tokenPlaceholders inString index skip cs
    | 0 =>
      if PG_ARRAY_CAST_TOKEN.toList.isPrefixOf (c :: cs) then
        index :: tokenPlaceholders inString index (PG_ARRAY_CAST_TOKEN.toList.length - 1) cs
      else if inString then tokenPlaceholders (c ≠ '\'') index 0 cs
      else if c = '\'' then tokenPlaceholders true index 0 cs
      else if c = '?' then tokenPlaceholders false (index + 1) 0 cs
      else tokenPlaceholders false index 0 cs

/-- The array at the last of `count` placeholders. -/
def arrayAt (params : List JsVal) : Nat → Option (List JsVal)
  | 0 => none
  | i + 1 => params[i]?.bind JsVal.elements

/-- A statement each of whose tokens casts a placeholder that is bound to an array. -/
structure CastStatement where
  sql : List Char
  params : List JsVal
  bound : ∀ count ∈ tokenPlaceholders false 0 0 sql, (arrayAt params count).isSome = true

def castText (values : List JsVal) : List Char := (Relation.inferPgArrayType values).toList

/-- The types of the arrays at the tokens' own placeholders. -/
def CastStatement.ownTypes (s : CastStatement) : List (List Char) :=
  (tokenPlaceholders false 0 0 s.sql).map fun count => castText ((arrayAt s.params count).getD [])

/-- Replace the tokens of a text, from left to right. -/
def replaceTokens : List (List Char) → List Char → List Char
  | [], sql => sql
  | type :: types, sql =>
    match cutFirst PG_ARRAY_CAST_TOKEN.toList sql with
    | some (head, tail) => head ++ type ++ replaceTokens types tail
    | none => sql

/-- Each token is replaced by the type of the array at its own placeholder. -/
def CastStatement.ResolvesOwn (s : CastStatement) : Prop :=
  resolveCasts s.sql s.params = replaceTokens s.ownTypes s.sql

/-- The token of each number stands at an array of the same type as the array of that number. -/
def CastStatement.Aligned (s : CastStatement) : Prop :=
  s.ownTypes <+: (arrayParams s.params).map castText

/-! ## The token -/

theorem token_head : ∃ cs, PG_ARRAY_CAST_TOKEN.toList = '@' :: cs := by
  simp [PG_ARRAY_CAST_TOKEN]

theorem castText_mem (values : List JsVal) : castText values ∈
    ["int[]", "numeric[]", "bigint[]", "boolean[]", "timestamp[]", "text[]"].map String.toList := by
  have h := inferPgElementType_mem values
  rw [castText, Relation.inferPgArrayType]
  simp only [List.mem_cons, List.not_mem_nil, or_false] at h
  rcases h with h | h | h | h | h | h <;> rw [h] <;> simp

/-- The texts of types are a prefix code. -/
theorem castText_append {v w : List JsVal} {a b : List Char}
    (h : castText v ++ a = castText w ++ b) : castText v = castText w ∧ a = b := by
  have hv := castText_mem v
  have hw := castText_mem w
  simp at hv hw
  rcases hv with hv | hv | hv | hv | hv | hv <;> rcases hw with hw | hw | hw | hw | hw | hw <;>
    rw [hv, hw] at h ⊢ <;> simp_all

/-! ## Cutting at the first token -/

section Cutting
variable {token : List Char}

theorem cutFirst_cons_of_not_prefix {c : Char} {cs : List Char} (h : ¬token <+: c :: cs) :
    cutFirst token (c :: cs) = (cutFirst token cs).map fun q => (c :: q.1, q.2) := by
  rw [cutFirst, if_neg]
  rw [List.isPrefixOf_iff_prefix]
  exact h

/-- A text of other characters holds no part of a token. -/
theorem cutFirst_pass (hne : token ≠ []) {t : List Char} (ht : ∀ c ∈ t, c ∉ token) (s : List Char) :
    cutFirst token (t ++ s) = (cutFirst token s).map fun q => (t ++ q.1, q.2) := by
  induction t with
  | nil => simp
  | cons c t ih =>
    obtain ⟨hc, ht⟩ := List.forall_mem_cons.mp ht
    have hnot : ¬token <+: c :: (t ++ s) := by
      rintro ⟨rest, hrest⟩
      cases token with
      | nil => exact hne rfl
      | cons d token =>
        obtain ⟨rfl, _⟩ := List.cons.inj hrest
        exact hc List.mem_cons_self
    rw [List.cons_append, cutFirst_cons_of_not_prefix hnot, ih ht, Option.map_map]
    rfl

/-- The text before the first token stays without one when other characters follow it. -/
theorem not_prefix_of_first {a b t s : List Char} (hfirst : ¬token <+: a ++ (token ++ b))
    (ht : ∀ c ∈ t, c ∉ token) (hne : t ≠ []) : ¬token <+: a ++ (t ++ s) := by
  intro h
  rcases List.prefix_or_prefix_of_prefix h (List.prefix_append a (t ++ s)) with hshort | ⟨rest, hrest⟩
  · exact hfirst (hshort.trans (List.prefix_append a _))
  · obtain ⟨c, t, rfl⟩ := List.exists_cons_of_ne_nil hne
    rw [← hrest, List.prefix_append_right_inj] at h
    cases rest with
    | nil =>
      rw [List.append_nil] at hrest
      exact hfirst (hrest ▸ List.prefix_append a _)
    | cons d rest =>
      obtain ⟨rfl, _⟩ := List.cons_prefix_cons.mp h
      exact ht d List.mem_cons_self (hrest ▸ List.mem_append_right a List.mem_cons_self)

theorem cutFirst_append (htoken : token ≠ []) {a b t : List Char}
    (hfirst : cutFirst token (a ++ (token ++ b)) = some (a, b)) (ht : ∀ c ∈ t, c ∉ token)
    (hne : t ≠ []) (s : List Char) :
    cutFirst token (a ++ (t ++ s)) = (cutFirst token s).map fun q => (a ++ (t ++ q.1), q.2) := by
  induction a with
  | nil => exact cutFirst_pass htoken ht s
  | cons c a ih =>
    have hnot : ¬token <+: c :: (a ++ (token ++ b)) := by
      intro h
      rw [List.cons_append, cutFirst, if_pos (List.isPrefixOf_iff_prefix.mpr h)] at hfirst
      cases hfirst
    rw [List.cons_append, cutFirst_cons_of_not_prefix hnot, Option.map_eq_some_iff] at hfirst
    obtain ⟨⟨a', b'⟩, hcut, heq⟩ := hfirst
    cases heq
    have hnext : ¬token <+: c :: (a' ++ (t ++ s)) :=
      not_prefix_of_first (a := c :: a') hnot ht hne
    rw [List.cons_append, cutFirst_cons_of_not_prefix hnext, ih hcut, Option.map_map]
    rfl

end Cutting

/-! ## The loop -/

theorem castText_other (values : List JsVal) :
    castText values ≠ [] ∧ ∀ c ∈ castText values, c ∉ PG_ARRAY_CAST_TOKEN.toList := by
  have h := castText_mem values
  simp only [List.map_cons, List.map_nil, List.mem_cons, List.not_mem_nil, or_false] at h
  rcases h with h | h | h | h | h | h <;> rw [h] <;> simp [PG_ARRAY_CAST_TOKEN]

/-- Later arrays resolve only tokens after the one that was resolved. -/
theorem foldl_resolve_after {a b t : List Char}
    (hfirst : cutFirst PG_ARRAY_CAST_TOKEN.toList (a ++ (PG_ARRAY_CAST_TOKEN.toList ++ b)) =
      some (a, b))
    (ht : ∀ c ∈ t, c ∉ PG_ARRAY_CAST_TOKEN.toList) (hne : t ≠ []) (arrays : List (List JsVal))
    (s : List Char) : arrays.foldl resolvePgArrayCast (a ++ (t ++ s)) =
      a ++ (t ++ arrays.foldl resolvePgArrayCast s) := by
  induction arrays generalizing s with
  | nil => rfl
  | cons xs arrays ih =>
    have hstep : resolvePgArrayCast (a ++ (t ++ s)) xs = a ++ (t ++ resolvePgArrayCast s xs) := by
      have hcut := cutFirst_append (by simp [PG_ARRAY_CAST_TOKEN]) hfirst ht hne s
      cases hs : cutFirst PG_ARRAY_CAST_TOKEN.toList s with
      | none =>
        rw [hs] at hcut
        simp only [resolvePgArrayCast, hs, hcut, Option.map_none]
      | some q =>
        rw [hs] at hcut
        simp only [resolvePgArrayCast, hs, hcut, Option.map_some, List.append_assoc]
    rw [List.foldl_cons, List.foldl_cons, hstep, ih]

theorem foldl_resolve_none {s : List Char} (h : cutFirst PG_ARRAY_CAST_TOKEN.toList s = none)
    (arrays : List (List JsVal)) : arrays.foldl resolvePgArrayCast s = s := by
  induction arrays with
  | nil => rfl
  | cons xs arrays ih =>
    have hstep : resolvePgArrayCast s xs = s := by simp only [resolvePgArrayCast, h]
    rw [List.foldl_cons, hstep, ih]

/-- The loop replaces the tokens in order by the types of the arrays in order. -/
theorem foldl_resolve (arrays : List (List JsVal)) (s : List Char) :
    arrays.foldl resolvePgArrayCast s = replaceTokens (arrays.map castText) s := by
  induction arrays generalizing s with
  | nil => rfl
  | cons xs arrays ih =>
    cases hs : cutFirst PG_ARRAY_CAST_TOKEN.toList s with
    | none =>
      rw [foldl_resolve_none hs, List.map_cons, replaceTokens, hs]
    | some q =>
      obtain ⟨a, b⟩ := q
      have hsplit : s = a ++ (PG_ARRAY_CAST_TOKEN.toList ++ b) := by
        rw [cutFirst_some hs, List.append_assoc]
      have hstep : resolvePgArrayCast s xs = a ++ (castText xs ++ b) := by
        simp only [resolvePgArrayCast, hs, castText, List.append_assoc]
      obtain ⟨hne, hother⟩ := castText_other xs
      rw [List.foldl_cons, hstep, foldl_resolve_after (hsplit ▸ hs) hother hne, ih, List.map_cons,
        replaceTokens, hs]
      exact (List.append_assoc a (castText xs) _).symm

/-! ## The tokens of a text -/

theorem tokenPlaceholders_skip (inString : Bool) (index : Nat) (l rest : List Char) :
    tokenPlaceholders inString index l.length (l ++ rest) =
      tokenPlaceholders inString index 0 rest := by
  induction l with
  | nil => rfl
  | cons c l ih => rw [List.length_cons, List.cons_append, tokenPlaceholders, ih]

theorem tokenPlaceholders_none {s : List Char} (h : cutFirst PG_ARRAY_CAST_TOKEN.toList s = none)
    (inString : Bool) (index : Nat) : tokenPlaceholders inString index 0 s = [] := by
  induction s generalizing inString index with
  | nil => rfl
  | cons c cs ih =>
    rw [cutFirst] at h
    split at h
    · cases h
    · next hprefix =>
      have hcs := Option.map_eq_none_iff.mp h
      rw [tokenPlaceholders, if_neg hprefix]
      split
      · exact ih hcs _ _
      · split
        · exact ih hcs _ _
        · split
          · exact ih hcs _ _
          · exact ih hcs _ _

/-- After a token the scan goes on where it was. -/
theorem tokenPlaceholders_some {s a b : List Char}
    (h : cutFirst PG_ARRAY_CAST_TOKEN.toList s = some (a, b)) (inString : Bool) (index : Nat) :
    ∃ inString' count, tokenPlaceholders inString index 0 s =
      count :: tokenPlaceholders inString' count 0 b := by
  induction s generalizing a inString index with
  | nil => cases h
  | cons c cs ih =>
    rw [cutFirst] at h
    split at h
    · next hprefix =>
      obtain ⟨rest, hrest⟩ := List.isPrefixOf_iff_prefix.mp hprefix
      obtain ⟨token, htoken⟩ := token_head
      cases h
      refine ⟨inString, index, ?_⟩
      rw [tokenPlaceholders, if_pos hprefix, ← hrest, List.drop_left]
      rw [htoken, List.cons_append] at hrest
      obtain ⟨_, rfl⟩ := List.cons.inj hrest
      rw [htoken, List.length_cons, Nat.add_sub_cancel, tokenPlaceholders_skip]
    · next hprefix =>
      obtain ⟨⟨a', b'⟩, hcs, heq⟩ := Option.map_eq_some_iff.mp h
      cases heq
      rw [tokenPlaceholders, if_neg hprefix]
      split
      · exact ih hcs _ _
      · split
        · exact ih hcs _ _
        · split
          · exact ih hcs _ _
          · exact ih hcs _ _

/-- Two ways to replace the tokens agree where their types do. -/
theorem replaceTokens_eq_iff (arrays : List (List JsVal)) (own : Nat → List JsVal) (s : List Char)
    (inString : Bool) (index : Nat) :
    replaceTokens (arrays.map castText) s =
        replaceTokens ((tokenPlaceholders inString index 0 s).map fun n => castText (own n)) s ↔
      (tokenPlaceholders inString index 0 s).map (fun n => castText (own n)) <+:
        arrays.map castText := by
  induction arrays generalizing s inString index with
  | nil =>
    cases hs : cutFirst PG_ARRAY_CAST_TOKEN.toList s with
    | none => simp [tokenPlaceholders_none hs]
    | some q =>
      obtain ⟨a, b⟩ := q
      obtain ⟨inString', count, hcount⟩ := tokenPlaceholders_some hs inString index
      obtain ⟨hne, hother⟩ := castText_other (own count)
      simp only [hcount, List.map_nil, List.map_cons, replaceTokens, hs, List.prefix_nil,
        reduceCtorEq, iff_false]
      intro heq
      rw [cutFirst_some hs, List.append_assoc, List.append_assoc] at heq
      obtain ⟨c, t, ht⟩ := List.exists_cons_of_ne_nil hne
      obtain ⟨token, htoken⟩ := token_head
      have hhead := List.append_cancel_left heq
      rw [ht, htoken, List.cons_append, List.cons_append] at hhead
      obtain ⟨hc, _⟩ := List.cons.inj hhead
      apply hother c (ht ▸ List.mem_cons_self)
      rw [htoken, ← hc]
      exact List.mem_cons_self
  | cons xs arrays ih =>
    cases hs : cutFirst PG_ARRAY_CAST_TOKEN.toList s with
    | none =>
      rw [tokenPlaceholders_none hs]
      simp only [List.map_nil, List.map_cons, replaceTokens, hs, List.nil_prefix]
    | some q =>
      obtain ⟨a, b⟩ := q
      obtain ⟨inString', count, hcount⟩ := tokenPlaceholders_some hs inString index
      simp only [hcount, List.map_cons, replaceTokens, hs, List.append_assoc,
        List.append_cancel_left_eq, List.cons_prefix_cons, ← ih b inString' count]
      constructor
      · intro heq
        obtain ⟨htype, hrest⟩ := castText_append heq
        exact ⟨htype.symm, hrest⟩
      · intro heq
        rw [heq.1, heq.2]

/-- The casts resolve to their own arrays exactly where tokens and arrays are aligned. -/
theorem resolvesOwn_iff (s : CastStatement) : s.ResolvesOwn ↔ s.Aligned := by
  rw [CastStatement.ResolvesOwn, resolveCasts, foldl_resolve]
  exact replaceTokens_eq_iff _ (fun count => (arrayAt s.params count).getD []) _ _ _

/-! ## An array without a cast before the tokens -/

/-- `tag IN (…)` and `(tenant_id, id) IN (…)` on PostgreSQL, the second without declared types. -/
def taggedPosts : CastStatement where
  sql := (inListPredicate .postgres "tag" ++ " AND " ++
    tupleInPredicate .postgres "posts" ["tenant_id", "id"]).toList
  params := [.arr [.str "new"], .arr [.bigint 1], .arr [.bigint 2]]
  bound := by decide +kernel

/-- The first token takes the type of the tags. -/
theorem taggedPosts_misaligned :
    resolveCasts taggedPosts.sql taggedPosts.params = ("tag = ANY(?) AND " ++
        "(posts.tenant_id, posts.id) IN (SELECT * FROM UNNEST(?::text[], ?::bigint[]))").toList ∧
      ¬taggedPosts.ResolvesOwn := by
  constructor
  · decide +kernel
  · rw [CastStatement.ResolvesOwn]
    decide +kernel

end LiteDb
