import LiteDbModel.CastSyntax

/-!
# The WHERE of a relation's batch query

A batch query asks for the keys and for the relation's filters. The filters are made
into a condition object, and the builders put the key condition before or after the
properties of that object under a name of its own, or into a join.
-/

namespace LiteDb.RelationWhere
set_option autoImplicit false

/-! ## Object spread -/

section Spread
variable {α : Type}

/-- Define an own property; the value of an old one changes in place. -/
def define (ps : List (String × α)) (k : String) (v : α) : List (String × α) :=
  if k ∈ Props.keys ps then Props.replace k v ps else Props.insert k v ps

/-- `{ ...base, ...last }` -/
def spread (base last : List (String × α)) : List (String × α) :=
  last.foldl (fun acc p => define acc p.1 p.2) base

theorem define_perm {ps : List (String × α)} (k : String) (v : α) (hn : (Props.keys ps).Nodup) :
    (define ps k v).Perm ((k, v) :: ps.filter fun p => p.1 ≠ k) := by
  unfold define
  split
  next h => exact Props.replace_perm v hn h
  next h =>
    rw [Props.filter_ne_of_not_mem h]
    exact Props.insert_perm k v ps

theorem define_keys_nodup {ps : List (String × α)} (k : String) (v : α)
    (hn : (Props.keys ps).Nodup) : (Props.keys (define ps k v)).Nodup := by
  have hp := (define_perm k v hn).map Prod.fst
  apply hp.nodup_iff.mpr
  rw [List.map_cons, List.nodup_cons]
  exact ⟨by simp, hn.sublist (List.filter_sublist.map Prod.fst)⟩

/-- The properties of the last object stand, and those of the first whose names it has not. -/
theorem spread_perm {base last : List (String × α)} (hb : (Props.keys base).Nodup)
    (hl : (Props.keys last).Nodup) :
    (spread base last).Perm ((base.filter fun p => p.1 ∉ Props.keys last) ++ last) := by
  induction last generalizing base with
  | nil => simp [spread, Props.keys]
  | cons p last ih =>
    obtain ⟨k, v⟩ := p
    obtain ⟨hk, hl⟩ := List.nodup_cons.mp hl
    have hkeys : (base.filter fun p => p.1 ≠ k).filter (fun p => p.1 ∉ Props.keys last) =
        base.filter fun p => p.1 ∉ Props.keys ((k, v) :: last) := by
      rw [List.filter_filter]
      apply List.filter_congr
      intro p _
      have hiff : p.1 ∉ Props.keys ((k, v) :: last) ↔ p.1 ∉ Props.keys last ∧ p.1 ≠ k := by
        simp only [Props.keys, List.map_cons, List.mem_cons, not_or]
        exact and_comm
      simp only [hiff, Bool.decide_and]
    have hdef := (define_perm k v hb).filter fun p => p.1 ∉ Props.keys last
    have hhead : k ∉ Props.keys last := hk
    rw [List.filter_cons_of_pos (by simpa only [decide_eq_true_eq] using hhead), hkeys] at hdef
    have hrest := ih (define_keys_nodup k v hb) hl
    exact hrest.trans ((hdef.append_right last).trans List.perm_middle.symm)

end Spread

/-! ## Builders -/

/-- Where a builder puts the condition on the keys. -/
inductive KeyCondition
  /-- `{ [name]: value, ...conditions }` -/
  | first (name : String) (value : CondVal)
  /-- `{ ...conditions, [name]: value }` -/
  | last (name : String) (value : CondVal)
  /-- A join, beside the conditions. -/
  | join (clause : Piece)

def rawText (sql : String) : CondVal := .js (.str sql) (isAtom_str sql)

/-- `[sql, params]` -/
def rawWith (sql : String) (params : List CondVal) : CondVal := .arr [rawText sql, .arr params]

/-- `table.k0 = right0 AND …` -/
def keyEquations (table : String) (right : Nat → String → String) (keys : List String) : String :=
  LiteDb.join " AND " (keys.zipIdx.map fun k => table ++ "." ++ k.1 ++ " = " ++ right k.2 k.1)

/-- `(k1, k2) IN ((?, ?), …)` -/
def inTuples (keys : List String) (tuples : List (List CondVal)) : String :=
  let tuple := "(" ++ LiteDb.join ", " (keys.map fun _ => "?") ++ ")"
  "(" ++ LiteDb.join ", " keys ++ ") IN (" ++ LiteDb.join ", " (tuples.map fun _ => tuple) ++ ")"

section Builders
variable (dialect : Dialect) (table : String) (castOf : String → String)

/-- `JOIN unnest(?::t1[], …) AS _unnest_table(…) ON …`, a column's array for each parameter. -/
def unnestJoin (keys : List String) (columnArrays : List CondVal) : Piece :=
  let unnestAlias := "_unnest_" ++ table
  ⟨"JOIN unnest(" ++ LiteDb.join ", " (keys.map fun k => "?::" ++ castOf k) ++ ") AS " ++ unnestAlias ++
      "(" ++ LiteDb.join ", " (keys.map fun k => "_unnest_" ++ table ++ "_" ++ k) ++ ") ON " ++
      keyEquations table (fun _ k => unnestAlias ++ "._unnest_" ++ table ++ "_" ++ k) keys,
    columnArrays⟩

/-- `tuples.map(tuple => tuple[colIndex])` for each key. -/
def transpose (keys : List String) (tuples : List (List CondVal)) : List CondVal :=
  keys.zipIdx.map fun k => .arr (tuples.filterMap fun t => t[k.2]?)

/-! `LazyRelation` -/

def batchLoadWithAnyArray (targetKey : String) (values : List CondVal) : KeyCondition :=
  .first "__raw__" (rawWith (table ++ "." ++ targetKey ++ " = ANY(?::" ++ castOf targetKey ++ ")")
    [.arr values])

def batchLoadWithUnnestJoin (targetKeys : List String) (tuples : List (List CondVal)) :
    KeyCondition :=
  .join (unnestJoin table castOf targetKeys (transpose targetKeys tuples))

def batchLoadWithIn (targetKey : String) (values : List CondVal) : KeyCondition :=
  .last targetKey (.arr values)

/-- The tuple condition is the last element of a condition list. -/
def batchLoadWithCompositeIn (targetKeys : List String) (tuples : List (List CondVal)) :
    KeyCondition :=
  .last "__tuple__" (.token (.tupleIn targetKeys tuples))

def batchLoadWithLateral (targetKey : String) : KeyCondition :=
  .first "__raw__" (rawText (table ++ "." ++ targetKey ++ " = _keys.key"))

def batchLoadWithLateralComposite (targetKeys : List String) : KeyCondition :=
  .first "__raw__" (rawText (keyEquations table (fun i _ => "_keys.key" ++ countText i) targetKeys))

def batchLoadWithRowNumber (targetKey : String) (values : List CondVal) : KeyCondition :=
  .first targetKey (.arr values)

/-- The parameters of the tuples are pushed apart from the condition. -/
def batchLoadWithRowNumberComposite (targetKeys : List String) (tuples : List (List CondVal)) :
    KeyCondition :=
  .first "__raw__" (rawText (inTuples targetKeys tuples))

/-! `compile-relation.ts` -/

def compileSingleKeyUnlimited (targetKey : String) (values : List CondVal) : KeyCondition :=
  match dialect with
  | .postgres => batchLoadWithAnyArray table castOf targetKey values
  | _ => .last targetKey (.arr values)

def compileSingleKeyLimited (targetKey : String) (values : List CondVal) : KeyCondition :=
  match dialect with
  | .postgres => batchLoadWithLateral table targetKey
  | _ => .first targetKey (.arr values)

def compileCompositeKeyUnlimited (targetKeys : List String) (tuples : List (List CondVal)) :
    KeyCondition :=
  match dialect with
  | .postgres => batchLoadWithUnnestJoin table castOf targetKeys tuples
  | _ => .last "__raw__" (rawWith (inTuples targetKeys tuples) tuples.flatten)

def compileCompositeKeyLimited (targetKeys : List String) (tuples : List (List CondVal)) :
    KeyCondition :=
  match dialect with
  | .postgres => batchLoadWithLateralComposite table targetKeys
  | _ => .first "__raw__" (rawWith (inTuples targetKeys tuples) tuples.flatten)

/-- `[[null]]` -/
def PLACEHOLDER_TUPLES : List CondVal := [.arr [.js .null isAtom_null]]

/-- `castOf` gives the declared element types of the key columns. -/
def compileCompositeKeyStaticUnlimited (targetKeys : List String) : KeyCondition :=
  match dialect with
  | .postgres =>
    let rows := LiteDb.join ", " (targetKeys.zipIdx.map fun k =>
      "(_t->>" ++ countText k.2 ++ ")::" ++ castOf k.1 ++ " AS key" ++ countText k.2)
    .join ⟨"JOIN (SELECT " ++ rows ++ " FROM json_array_elements(?::json) AS _t) AS _keys ON " ++
      keyEquations table (fun i _ => "_keys.key" ++ countText i) targetKeys, PLACEHOLDER_TUPLES⟩
  | d => .last "__raw__" (rawWith (tupleInPredicate d table targetKeys) PLACEHOLDER_TUPLES)

def compileCompositeKeyStaticLimited (targetKeys : List String) : KeyCondition :=
  match dialect with
  | .postgres => batchLoadWithLateralComposite table targetKeys
  | d => .first "__raw__" (rawWith (tupleInPredicate d table targetKeys) PLACEHOLDER_TUPLES)

end Builders

/-! ## Relations -/

inductive RelationKey
  | single (targetKey : String) (values : List CondVal)
  | composite (targetKeys : List String) (tuples : List (List CondVal))

structure RelationSpec where
  dialect : Dialect
  table : String
  castOf : String → String
  key : RelationKey
  /-- A `hasMany` with a limit for each parent. -/
  limited : Bool
  filters : List CondElem

inductive Surface
  | lazyRelation
  /-- The builders that take the key values. -/
  | compileRelation
  /-- The static composite builders. -/
  | compileStatic

def RelationSpec.batchLoad (s : RelationSpec) : KeyCondition :=
  match s.key, s.limited, s.dialect with
  | .single k values, false, .postgres => batchLoadWithAnyArray s.table s.castOf k values
  | .single k values, false, _ => batchLoadWithIn k values
  | .single k _, true, .postgres => batchLoadWithLateral s.table k
  | .single k values, true, _ => batchLoadWithRowNumber k values
  | .composite ks tuples, false, .postgres => batchLoadWithUnnestJoin s.table s.castOf ks tuples
  | .composite ks tuples, false, _ => batchLoadWithCompositeIn ks tuples
  | .composite ks _, true, .postgres => batchLoadWithLateralComposite s.table ks
  | .composite ks tuples, true, _ => batchLoadWithRowNumberComposite ks tuples

def RelationSpec.compiled (s : RelationSpec) : KeyCondition :=
  match s.key, s.limited with
  | .single k values, false => compileSingleKeyUnlimited s.dialect s.table s.castOf k values
  | .single k values, true => compileSingleKeyLimited s.dialect s.table k values
  | .composite ks tuples, false => compileCompositeKeyUnlimited s.dialect s.table s.castOf ks tuples
  | .composite ks tuples, true => compileCompositeKeyLimited s.dialect s.table ks tuples

def RelationSpec.keyCondition (s : RelationSpec) : Surface → KeyCondition
  | .lazyRelation => s.batchLoad
  | .compileRelation => s.compiled
  | .compileStatic =>
    match s.key, s.limited with
    | .single _ _, _ => s.compiled
    | .composite ks _, false => compileCompositeKeyStaticUnlimited s.dialect s.table s.castOf ks
    | .composite ks _, true => compileCompositeKeyStaticLimited s.dialect s.table ks

def KeyCondition.conditions (k : KeyCondition) (conditions : List (String × CondVal)) :
    List (String × CondVal) :=
  match k with
  | .first name value => spread [(name, value)] conditions
  | .last name value => spread conditions [(name, value)]
  | .join _ => conditions

/-- How a surface compiles an entry; `encode` writes a list as one JSON parameter. -/
def Surface.render (encode : List CondVal → CondVal) (d : Dialect) (surface : Surface)
    (e : String × CondVal) : Piece :=
  let fmt := getSqlCastFormatter d
  match surface, d with
  | .lazyRelation, _ => compileCondition fmt e.1 e.2
  | _, .postgres => compileCondition fmt e.1 e.2
  | _, .mysql => compileJsonEntry encode .mysql fmt e.1 e.2
  | _, .sqlite => compileJsonEntry encode .sqlite fmt e.1 e.2

section Where
variable (encode : List CondVal → CondVal) (surface : Surface) (s : RelationSpec)

/-- The conditions of the batch query, of which the WHERE is the conjunction. -/
def whereParts : List Piece :=
  ((s.keyCondition surface).conditions (condsToRecord s.filters)).map
    (surface.render encode s.dialect)

/-- The texts of the WHERE, joined by `AND`. -/
def whereText : Piece := joinPieces " AND " (whereParts encode surface s)

/-- The key predicate, and where it stands beside the WHERE. -/
def keyPart : Piece :=
  match s.keyCondition surface with
  | .first name value | .last name value => surface.render encode s.dialect (name, value)
  | .join clause => clause

def joinParts : List Piece :=
  match s.keyCondition surface with
  | .join clause => [clause]
  | _ => []

/-- The query asks for the key predicate and for every filter, each by a text of its own. -/
structure Conjoined : Prop where
  parts : (joinParts surface s ++ whereParts encode surface s).Perm
    (keyPart encode surface s :: (entries s.filters).map (surface.render encode s.dialect))
  key : (keyPart encode surface s).sql ≠ ""
  filters : ∀ e ∈ s.filters, ∀ kv ∈ e.keyValue, (surface.render encode s.dialect kv).sql ≠ ""

/-- The name that the key condition takes in the object. -/
def keyName : Option String :=
  match s.keyCondition surface with
  | .first name _ | .last name _ => some name
  | .join _ => none

/-- Every name is set once. -/
structure SetOnce : Prop where
  distinct : (Props.keys (entries s.filters)).Nodup
  own : "__proto__" ∉ Props.keys (entries s.filters)
  apart : ∀ name ∈ keyName surface s, name ∉ Props.keys (entries s.filters)

end Where

/-! ## When nothing is overwritten -/

section Overwriting
variable {α : Type}

theorem lost_eq_nil_iff {ps : List (String × α)} :
    Props.lost ps = [] ↔ (Props.keys ps).Nodup ∧ "__proto__" ∉ Props.keys ps := by
  induction ps with
  | nil => simp [Props.lost, Props.keys]
  | cons p ps ih =>
    obtain ⟨k, v⟩ := p
    have hkeys : Props.keys ((k, v) :: ps) = k :: Props.keys ps := rfl
    rw [hkeys, List.nodup_cons, List.mem_cons, Props.lost]
    split
    next h =>
      constructor
      · intro hnil
        cases hnil
      · rintro ⟨⟨hk, -⟩, hp⟩
        rcases h with rfl | h
        · exact absurd (.inl rfl) hp
        · exact absurd h hk
    next h =>
      rw [not_or] at h
      rw [ih]
      constructor
      · rintro ⟨hn, hp⟩
        refine ⟨⟨h.2, hn⟩, ?_⟩
        rintro (heq | hm)
        · exact h.1 heq.symm
        · exact hp hm
      · rintro ⟨⟨-, hn⟩, hp⟩
        exact ⟨hn, fun hm => hp (.inr hm)⟩

theorem survivors_of_lost_nil {ps : List (String × α)} (h : Props.lost ps = []) :
    (Props.survivors ps).Perm ps := by
  have hp := Props.survivors_lost ps
  rwa [h, List.append_nil] at hp

theorem length_survivors (ps : List (String × α)) :
    (Props.survivors ps).length + (Props.lost ps).length = ps.length := by
  rw [← List.length_append, (Props.survivors_lost ps).length_eq]

theorem condsToRecord_keys_nodup (es : List CondElem) : (Props.keys (condsToRecord es)).Nodup :=
  Props.ofEntries_keys_nodup (entries es)

theorem condsToRecord_perm {es : List CondElem} (h : Props.lost (entries es) = []) :
    (condsToRecord es).Perm (entries es) :=
  (Props.ofEntries_perm _).trans (survivors_of_lost_nil h)

theorem length_condsToRecord (es : List CondElem) :
    (condsToRecord es).length + (Props.lost (entries es)).length = (entries es).length := by
  have hp : (condsToRecord es).Perm (Props.survivors (entries es)) := Props.ofEntries_perm _
  rw [hp.length_eq, length_survivors]

theorem spread_first_perm (name : String) (value : CondVal) (es : List CondElem) :
    (spread [(name, value)] (condsToRecord es)).Perm
      ([(name, value)].filter (fun p => p.1 ∉ Props.keys (condsToRecord es)) ++ condsToRecord es) :=
  spread_perm (List.nodup_singleton name) (condsToRecord_keys_nodup es)

theorem spread_last_perm (name : String) (value : CondVal) (es : List CondElem) :
    (spread (condsToRecord es) [(name, value)]).Perm
      ((name, value) :: (condsToRecord es).filter fun p => p.1 ≠ name) :=
  define_perm name value (condsToRecord_keys_nodup es)

/-- An object has an entry for each condition only where no name is set twice. -/
theorem first_length_iff {name : String} {value : CondVal} {es : List CondElem} :
    (spread [(name, value)] (condsToRecord es)).length = (entries es).length + 1 ↔
      Props.lost (entries es) = [] ∧ name ∉ Props.keys (entries es) := by
  have hl := (spread_first_perm name value es).length_eq
  have hc := length_condsToRecord es
  rw [List.length_append] at hl
  by_cases hk : name ∈ Props.keys (condsToRecord es)
  · rw [List.filter_cons_of_neg (by simpa using hk), List.filter_nil, List.length_nil] at hl
    constructor
    · intro h
      omega
    · rintro ⟨hlost, hname⟩
      exact absurd (((condsToRecord_perm hlost).map Prod.fst).subset hk) hname
  · rw [List.filter_cons_of_pos (by simpa using hk), List.filter_nil, List.length_singleton] at hl
    constructor
    · intro h
      have hlost : Props.lost (entries es) = [] := List.length_eq_zero_iff.mp (by omega)
      refine ⟨hlost, fun hm => hk ?_⟩
      exact ((condsToRecord_perm hlost).map Prod.fst).symm.subset hm
    · rintro ⟨hlost, -⟩
      have h0 : (Props.lost (entries es)).length = 0 := by rw [hlost, List.length_nil]
      omega

theorem last_length_iff {name : String} {value : CondVal} {es : List CondElem} :
    (spread (condsToRecord es) [(name, value)]).length = (entries es).length + 1 ↔
      Props.lost (entries es) = [] ∧ name ∉ Props.keys (entries es) := by
  have hl := (spread_last_perm name value es).length_eq
  have hc := length_condsToRecord es
  rw [List.length_cons] at hl
  have hf := List.length_filter_le (fun p => decide (p.1 ≠ name)) (condsToRecord es)
  constructor
  · intro h
    have hlost : Props.lost (entries es) = [] := List.length_eq_zero_iff.mp (by omega)
    refine ⟨hlost, fun hm => ?_⟩
    have hmem : name ∈ Props.keys (condsToRecord es) :=
      ((condsToRecord_perm hlost).map Prod.fst).symm.subset hm
    obtain ⟨p, hp, hpn⟩ := List.mem_map.mp hmem
    have hall := List.length_filter_eq_length_iff.mp (by omega :
      ((condsToRecord es).filter fun p => decide (p.1 ≠ name)).length = (condsToRecord es).length)
    have hne := hall p hp
    simp [hpn] at hne
  · rintro ⟨hlost, hname⟩
    have h0 : (Props.lost (entries es)).length = 0 := by rw [hlost, List.length_nil]
    have hkeep : name ∉ Props.keys (condsToRecord es) :=
      fun hm => hname (((condsToRecord_perm hlost).map Prod.fst).subset hm)
    rw [Props.filter_ne_of_not_mem hkeep] at hl
    omega

end Overwriting

section Conjunction
variable {encode : List CondVal → CondVal} {surface : Surface} {s : RelationSpec}

theorem setOnce_iff : SetOnce surface s ↔ Props.lost (entries s.filters) = [] ∧
    ∀ name ∈ keyName surface s, name ∉ Props.keys (entries s.filters) := by
  rw [lost_eq_nil_iff]
  constructor
  · rintro ⟨hd, ho, ha⟩
    exact ⟨⟨hd, ho⟩, ha⟩
  · rintro ⟨⟨hd, ho⟩, ha⟩
    exact ⟨hd, ho, ha⟩

theorem parts_perm_iff : (joinParts surface s ++ whereParts encode surface s).Perm
      (keyPart encode surface s :: (entries s.filters).map (surface.render encode s.dialect)) ↔
    SetOnce surface s := by
  rw [setOnce_iff]
  unfold joinParts whereParts keyPart keyName
  cases s.keyCondition surface with
  | first name value =>
    simp only [KeyCondition.conditions, List.nil_append, Option.mem_def, Option.some.injEq,
      forall_eq']
    have hlength := @first_length_iff name value s.filters
    rw [← hlength]
    constructor
    · intro h
      simpa using h.length_eq
    · intro h
      obtain ⟨hlost, hname⟩ := first_length_iff.mp h
      have hk : name ∉ Props.keys (condsToRecord s.filters) :=
        fun hm => hname (((condsToRecord_perm hlost).map Prod.fst).subset hm)
      have hp := spread_first_perm name value s.filters
      rw [List.filter_cons_of_pos (by simpa using hk), List.filter_nil] at hp
      exact (hp.trans ((condsToRecord_perm hlost).cons _)).map _
  | last name value =>
    simp only [KeyCondition.conditions, List.nil_append, Option.mem_def, Option.some.injEq,
      forall_eq']
    have hlength := @last_length_iff name value s.filters
    rw [← hlength]
    constructor
    · intro h
      simpa using h.length_eq
    · intro h
      obtain ⟨hlost, hname⟩ := last_length_iff.mp h
      have hk : name ∉ Props.keys (condsToRecord s.filters) :=
        fun hm => hname (((condsToRecord_perm hlost).map Prod.fst).subset hm)
      have hp := spread_last_perm name value s.filters
      rw [Props.filter_ne_of_not_mem hk] at hp
      exact (hp.trans ((condsToRecord_perm hlost).cons _)).map _
  | join clause =>
    have hc := length_condsToRecord s.filters
    simp only [KeyCondition.conditions]
    constructor
    · intro h
      have hl := h.length_eq
      simp only [List.length_append, List.length_map, List.length_cons, List.length_nil] at hl
      refine ⟨List.length_eq_zero_iff.mp (by omega), ?_⟩
      intro name hname
      cases hname
    · rintro ⟨hlost, -⟩
      exact ((condsToRecord_perm hlost).map _).cons clause

theorem conjoined_iff (encode : List CondVal → CondVal) (surface : Surface) (s : RelationSpec) :
    Conjoined encode surface s ↔ SetOnce surface s ∧ (keyPart encode surface s).sql ≠ "" ∧
      ∀ e ∈ s.filters, ∀ kv ∈ e.keyValue, (surface.render encode s.dialect kv).sql ≠ "" := by
  constructor
  · rintro ⟨hparts, hkey, hfilters⟩
    exact ⟨parts_perm_iff.mp hparts, hkey, hfilters⟩
  · rintro ⟨hset, hkey, hfilters⟩
    exact ⟨parts_perm_iff.mpr hset, hkey, hfilters⟩

/-- The posts of an author that are filtered by author: the key condition replaces the filter. -/
theorem filter_on_key_overwritten : ¬ Conjoined (fun _ => rawText "[]") .lazyRelation
    { dialect := .mysql
      table := "posts"
      castOf := fun _ => "int[]"
      key := .single "author_id" [.js (JsVal.str "7") rfl]
      limited := false
      filters := [.raw "author_id" (.js (.str "3") rfl)] } := by
  intro h
  have hapart := (parts_perm_iff.mp h.parts).apart "author_id" rfl
  exact hapart List.mem_cons_self

end Conjunction

end LiteDb.RelationWhere
