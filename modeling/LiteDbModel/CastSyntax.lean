import LiteDbModel.RelationOp
import LiteDbModel.Conds

/-!
# Cast syntax in the texts of MySQL and SQLite

The cast tokens of typed columns ask a formatter for their text. The formatters of
MySQL and SQLite leave the placeholder alone; where a `compile` is called without
one, the token writes PostgreSQL's `::type`.
-/

namespace LiteDb
set_option autoImplicit false

/-! ## Statements -/

inductive JsonArrayDialect
  | mysql
  | sqlite

def JsonArrayDialect.dialect : JsonArrayDialect → Dialect
  | .mysql => .mysql
  | .sqlite => .sqlite

/-- Where a condition object is compiled. -/
inductive Statement
  /-- `_buildSelectSQL`, `_update` and `_delete`. -/
  | model
  /-- The `SELECT` with which `update` and `delete` find the keys on MySQL. -/
  | preSelect
  /-- `compileSelect` and `compileWhere`. -/
  | compiledSelect
  /-- `compileUpdateSingle` and `compileDelete`. -/
  | compiledWrite
deriving DecidableEq

/-- What each hands to `compile`. -/
def Statement.formatter (d : JsonArrayDialect) : Statement → Formatter
  | .model | .compiledSelect => getSqlCastFormatter d.dialect
  | .preSelect | .compiledWrite => none

/-- An entry of `JsonArrayConditions`: a list of its own becomes one parameter. -/
def compileJsonEntry (encode : List CondVal → CondVal) (d : JsonArrayDialect) (fmt : Formatter)
    (key : String) : CondVal → Piece
  | .arr xs =>
    if xs ≠ [] ∧ hasHole key = false ∧ reserved key = false then
      ⟨inListPredicate d.dialect key, [encode xs]⟩
    else compileCondition fmt key (.arr xs)
  | v => compileCondition fmt key v

/-- `conditionsFor(...).compile` -/
def compileJsonArrays (encode : List CondVal → CondVal) (d : JsonArrayDialect) (fmt : Formatter) :
    DBConditions → Piece
  | .mk conditions operator nested =>
    joinPieces (" " ++ operator.text ++ " ")
      ((conditions.map fun e => compileJsonEntry encode d fmt e.1 e.2) ++ compileNested fmt nested)

def Statement.where (encode : List CondVal → CondVal) (d : JsonArrayDialect) (s : Statement)
    (c : DBConditions) : Piece :=
  match s with
  | .model | .preSelect => compile (s.formatter d) c
  | .compiledSelect | .compiledWrite => compileJsonArrays encode d (s.formatter d) c

/-! ## Trees of tokens -/

mutual
/-- The tokens of a tree that are compiled, in order. -/
def conditionTokens (key : String) : CondVal → List DBToken
  | .arr xs => if key = "__or__" then groupTokens xs else []
  | .token t => if key = "__raw__" then [] else [t]
  | .nested c => if key = "__raw__" then [] else treeTokens c
  | _ => []

def groupTokens : List CondVal → List DBToken
  | [] => []
  | .obj ps :: xs => entryTokens ps ++ groupTokens xs
  | _ :: xs => groupTokens xs

def entryTokens : List (String × CondVal) → List DBToken
  | [] => []
  | (k, v) :: ps => conditionTokens k v ++ entryTokens ps

def treeTokens : DBConditions → List DBToken
  | .mk conditions _ nested => entryTokens conditions ++ nestedTokens nested

def nestedTokens : List DBConditions → List DBToken
  | [] => []
  | c :: cs => treeTokens c ++ nestedTokens cs
end

mutual
/-- A tree with its tokens replaced. -/
def mapCondition (g : DBToken → DBToken) (key : String) : CondVal → CondVal
  | .arr xs => if key = "__or__" then .arr (mapGroups g xs) else .arr xs
  | .token t => .token (g t)
  | .nested c => .nested (mapTokens g c)
  | v => v

def mapGroups (g : DBToken → DBToken) : List CondVal → List CondVal
  | [] => []
  | .obj ps :: xs => .obj (mapEntries g ps) :: mapGroups g xs
  | x :: xs => x :: mapGroups g xs

def mapEntries (g : DBToken → DBToken) : List (String × CondVal) → List (String × CondVal)
  | [] => []
  | (k, v) :: ps => (k, mapCondition g k v) :: mapEntries g ps

def mapTokens (g : DBToken → DBToken) : DBConditions → DBConditions
  | .mk conditions operator nested => .mk (mapEntries g conditions) operator (mapNested g nested)

def mapNested (g : DBToken → DBToken) : List DBConditions → List DBConditions
  | [] => []
  | c :: cs => mapTokens g c :: mapNested g cs
end

/-! ## Casts -/

mutual
/-- The token of a column without a type. -/
def DBToken.untyped : DBToken → DBToken
  | .cast v _ operator => .value v operator
  | .castArray values _ => .array values
  | .subquery parentColumns tableName selectColumns conditions notIn =>
    .subquery parentColumns tableName selectColumns (untypedConditions conditions) notIn
  | .existsIn tableName conditions notExists =>
    .existsIn tableName (untypedConditions conditions) notExists
  | t => t

def untypedConditions : List (ColumnRef × CondVal) → List (ColumnRef × CondVal)
  | [] => []
  | (col, v) :: conds => (col, untypedCondition v) :: untypedConditions conds

def untypedCondition : CondVal → CondVal
  | .token t => .token t.untyped
  | v => v
end

/-- The token writes a cast when it has no formatter. -/
def DBToken.isCast : DBToken → Bool
  | .cast _ _ _ => true
  | .castArray values _ => !values.isEmpty
  | _ => false

mutual
/-- A subquery of the token has a cast among its conditions. -/
def DBToken.nestsCast : DBToken → Bool
  | .subquery _ _ _ conditions _ => conditionsCast conditions
  | .existsIn _ conditions _ => conditionsCast conditions
  | _ => false

def conditionsCast : List (ColumnRef × CondVal) → Bool
  | [] => false
  | (_, v) :: conds => conditionCast v || conditionsCast conds

def conditionCast : CondVal → Bool
  | .token t => t.isCast || t.nestsCast
  | _ => false
end

/-- The statement has the text of the tree without types, and the keys that MySQL reads beforehand
are those of the rows it writes. -/
def CastFree (encode : List CondVal → CondVal) (d : JsonArrayDialect) (s : Statement)
    (c : DBConditions) : Prop :=
  (s.where encode d c).sql = (s.where encode d (mapTokens DBToken.untyped c)).sql ∧
    (s = .preSelect → s.where encode d c = Statement.model.where encode d c)

/-- No subquery has a typed condition, and where the formatter is left out there is none at all. -/
def CastSafe (s : Statement) (c : DBConditions) : Prop :=
  (∀ t ∈ treeTokens c, t.nestsCast = false) ∧
    (s = .preSelect ∨ s = .compiledWrite → ∀ t ∈ treeTokens c, t.isCast = false)

/-! ## Longer texts -/

/-- A text is longer than another, or the same. -/
def LongerText (longer : Bool) (s t : String) : Prop :=
  if longer then t.length < s.length else s = t

/-- The same for pieces; both have a text or neither, and the same parameters. -/
structure Longer (longer : Bool) (p q : Piece) : Prop where
  text : LongerText longer p.sql q.sql
  empty : p.sql = "" ↔ q.sql = ""
  params : p.params = q.params

/-- Piece by piece, with some longer text among them or none. -/
inductive LongerAll : Bool → List Piece → List Piece → Prop
  | nil : LongerAll false [] []
  | cons {b b' : Bool} {p q : Piece} {ps qs : List Piece} :
    Longer b p q → LongerAll b' ps qs → LongerAll (b || b') (p :: ps) (q :: qs)

theorem LongerText.length_le {b : Bool} {s t : String} (h : LongerText b s t) :
    t.length ≤ s.length := by
  cases b with
  | false => exact Nat.le_of_eq (congrArg String.length (Eq.symm h))
  | true => exact Nat.le_of_lt h

theorem LongerText.append {b b' : Bool} {s t u v : String} (h : LongerText b s t)
    (h' : LongerText b' u v) : LongerText (b || b') (s ++ u) (t ++ v) := by
  have hle := h.length_le
  have hle' := h'.length_le
  cases b with
  | true =>
    change t.length < s.length at h
    change (t ++ v).length < (s ++ u).length
    rw [String.length_append, String.length_append]
    omega
  | false =>
    cases b' with
    | true =>
      change v.length < u.length at h'
      change (t ++ v).length < (s ++ u).length
      rw [String.length_append, String.length_append]
      omega
    | false =>
      change s = t at h
      change u = v at h'
      change s ++ u = t ++ v
      rw [h, h']

theorem LongerText.refl (s : String) : LongerText false s s := rfl

theorem LongerText.around {b : Bool} {s t : String} (h : LongerText b s t) (u v : String) :
    LongerText b (u ++ s ++ v) (u ++ t ++ v) := by
  have hboth := ((LongerText.refl u).append h).append (LongerText.refl v)
  rwa [Bool.false_or, Bool.or_false] at hboth

theorem LongerText.eq_iff {b : Bool} {s t : String} (h : LongerText b s t) :
    s = t ↔ b = false := by
  cases b with
  | false => exact ⟨fun _ => rfl, fun _ => h⟩
  | true =>
    change t.length < s.length at h
    constructor
    · rintro rfl
      exact absurd h (Nat.lt_irrefl _)
    · intro hb
      cases hb

theorem Longer.refl (p : Piece) : Longer false p p := ⟨rfl, Iff.rfl, rfl⟩

theorem Longer.not_empty {p q : Piece} (h : Longer true p q) : p.sql ≠ "" := by
  intro hp
  have htext : q.sql.length < p.sql.length := h.text
  rw [hp] at htext
  exact absurd htext (Nat.not_lt_zero _)

theorem Longer.around {b : Bool} {p q : Piece} (h : Longer b p q) {u v : String} (hne : u ≠ "") :
    Longer b ⟨u ++ p.sql ++ v, p.params⟩ ⟨u ++ q.sql ++ v, q.params⟩ := by
  refine ⟨h.text.around u v, ?_, h.params⟩
  constructor
  · intro he
    exact absurd he (append_ne_empty_left (append_ne_empty_left hne))
  · intro he
    exact absurd he (append_ne_empty_left (append_ne_empty_left hne))

theorem Longer.wrap {b : Bool} {p q : Piece} (h : Longer b p q) : Longer b p.wrap q.wrap :=
  h.around (by decide)

theorem Longer.group {b : Bool} {p q : Piece} (h : Longer b p q) : Longer b p.group q.group := by
  by_cases hp : p.sql = ""
  · rw [Piece.group, Piece.group, if_pos hp, if_pos (h.empty.mp hp)]
    exact h
  · rw [Piece.group, Piece.group, if_neg hp, if_neg (fun hq => hp (h.empty.mpr hq))]
    exact h.wrap

section Lists
variable {b b' : Bool} {ps qs ps' qs' : List Piece}

theorem LongerAll.refl (ps : List Piece) : LongerAll false ps ps := by
  induction ps with
  | nil => exact .nil
  | cons p ps ih => exact .cons (Longer.refl p) ih

theorem LongerAll.append (h : LongerAll b ps qs) (h' : LongerAll b' ps' qs') :
    LongerAll (b || b') (ps ++ ps') (qs ++ qs') := by
  induction h with
  | nil => exact h'
  | cons hp _ ih =>
    rw [Bool.or_assoc]
    exact .cons hp ih

theorem LongerAll.map_group (h : LongerAll b ps qs) :
    LongerAll b (ps.map Piece.group) (qs.map Piece.group) := by
  induction h with
  | nil => exact .nil
  | cons hp _ ih => exact .cons hp.group ih

theorem LongerAll.params (h : LongerAll b ps qs) :
    ps.flatMap Piece.params = qs.flatMap Piece.params := by
  induction h with
  | nil => rfl
  | cons hp _ ih => rw [List.flatMap_cons, List.flatMap_cons, hp.params, ih]

theorem LongerAll.empty_iff (h : LongerAll b ps qs) :
    (∀ p ∈ ps, p.sql = "") ↔ ∀ q ∈ qs, q.sql = "" := by
  induction h with
  | nil => simp
  | cons hp _ ih => rw [List.forall_mem_cons, List.forall_mem_cons, hp.empty, ih]

/-- The pieces without a text are left out on both sides. -/
theorem LongerAll.filter (h : LongerAll b ps qs) :
    LongerAll b (ps.filter fun p => p.sql ≠ "") (qs.filter fun q => q.sql ≠ "") := by
  induction h with
  | nil => exact .nil
  | @cons b b' p q ps qs hp _ ih =>
    by_cases he : p.sql = ""
    · have hb : b = false := by
        cases b with
        | false => rfl
        | true => exact absurd he hp.not_empty
      have hq := hp.empty.mp he
      simpa [he, hq, hb] using ih
    · have hq : q.sql ≠ "" := fun hq => he (hp.empty.mpr hq)
      simpa [he, hq] using LongerAll.cons hp ih

theorem LongerAll.join (h : LongerAll b ps qs) (sep : String) :
    LongerText b (join sep (ps.map Piece.sql)) (join sep (qs.map Piece.sql)) := by
  induction h with
  | nil => rfl
  | @cons b b' p q ps qs hp hrest ih =>
    cases hrest with
    | nil =>
      rw [Bool.or_false]
      exact hp.text
    | @cons c c' p' q' ps qs hp' hrest =>
      have hsep := hp.text.append (LongerText.refl sep)
      rw [Bool.or_false] at hsep
      exact hsep.append ih

theorem LongerAll.joinPieces (h : LongerAll b ps qs) (sep : String) :
    Longer b (joinPieces sep ps) (joinPieces sep qs) := by
  refine ⟨?_, ?_, h.params⟩
  · have htexts := h.filter.join sep
    have hmap : ∀ rs : List Piece, (rs.map Piece.sql).filter (· ≠ "") =
        (rs.filter fun r => r.sql ≠ "").map Piece.sql := fun rs => List.filter_map
    rw [LiteDb.joinPieces, LiteDb.joinPieces, hmap, hmap]
    exact htexts
  · rw [joinPieces_sql_eq_empty, joinPieces_sql_eq_empty]
    exact h.empty_iff

theorem LongerAll.compileOr (h : LongerAll b ps qs) : Longer b (compileOr ps) (compileOr qs) :=
  (h.map_group.joinPieces " OR ").group

end Lists

/-! ## Tokens -/

theorem LongerText.keyed {b : Bool} {s t : String} (h : LongerText b s t) (key u : String) :
    LongerText b (keyed key (u ++ s) s) (keyed key (u ++ t) t) := by
  rw [LiteDb.keyed, LiteDb.keyed]
  split
  · have hboth := (LongerText.refl key).append ((LongerText.refl u).append h)
    rwa [Bool.false_or, Bool.false_or] at hboth
  · exact h

theorem keyed_ne_empty {key rest keyless : String} (hrest : rest ≠ "") (hkeyless : keyless ≠ "") :
    keyed key rest keyless ≠ "" := by
  intro h
  exact hkeyless ((keyed_eq_empty hrest).mp h).2

theorem longer_cast (sqlType : String) :
    LongerText true (Formatter.format none "?" sqlType) "?" := by
  change "?".length < ("?" ++ "::" ++ sqlType).length
  rw [String.length_append, String.length_append]
  have hcolons : "::".length = 2 := by decide
  omega

theorem longer_placeholders {placeholder : String} (h : LongerText true placeholder "?")
    (values : List CondVal) :
    LongerText (!values.isEmpty) (placeholders placeholder values) (placeholders "?" values) := by
  have hne : placeholder ≠ "" := by
    rintro rfl
    exact absurd (show "?".length < 0 from h) (Nat.not_lt_zero _)
  have hone : Longer true ⟨placeholder, []⟩ ⟨"?", []⟩ := ⟨h, iff_of_false hne (by decide), rfl⟩
  have hall : ∀ values : List CondVal, LongerAll (!values.isEmpty)
      (values.map fun _ => ⟨placeholder, []⟩) (values.map fun _ => ⟨"?", []⟩) := by
    intro values
    induction values with
    | nil => exact .nil
    | cons v values ih => exact .cons hone ih
  have hjoin := (hall values).join ", "
  rw [List.map_map, List.map_map] at hjoin
  exact hjoin

theorem inList_ne_empty (key placeholder : String) (values : List CondVal) :
    (inList key placeholder values).sql ≠ "" := by
  rw [inList]
  split
  · simp
  · exact keyed_ne_empty (append_ne_empty_left (by simp))
      (append_ne_empty_left (append_ne_empty_left (by simp)))

theorem longer_inList {placeholder : String} (h : LongerText true placeholder "?") (key : String)
    (values : List CondVal) :
    Longer (!values.isEmpty) (inList key placeholder values) (inList key "?" values) := by
  refine ⟨?_, iff_of_false (inList_ne_empty _ _ _) (inList_ne_empty _ _ _), ?_⟩
  · by_cases hnil : values = []
    · subst hnil
      exact rfl
    · simp only [inList, if_neg hnil]
      exact ((longer_placeholders h values).around "(" ")").keyed key " IN "
  · by_cases hnil : values = []
    · simp only [inList, if_pos hnil]
    · simp only [inList, if_neg hnil]

theorem blank_hole (operator : String) : " " ++ operator ++ " ?" = " " ++ operator ++ " " ++ "?" := by
  apply String.toList_injective
  simp [String.toList_append]

/-- A typed value without a formatter is longer than an untyped one. -/
theorem longer_value (key : String) (v : CondVal) (sqlType operator : String) (fmt : Formatter) :
    Longer true ((DBToken.cast v sqlType operator).compile none key)
      ((DBToken.value v operator).compile fmt key) := by
  simp only [DBToken.compile, blank_hole]
  refine ⟨(longer_cast sqlType).keyed key _, ?_, rfl⟩
  refine iff_of_false ?_ ?_
  · exact keyed_ne_empty (append_ne_empty_left (append_ne_empty (by simp)))
      (append_ne_empty_left (append_ne_empty_left (by simp)))
  · exact keyed_ne_empty (append_ne_empty_left (append_ne_empty (by simp))) (by simp)

/-- The formatters of MySQL and SQLite write no cast. -/
theorem compile_cast (d : JsonArrayDialect) (key : String) (v : CondVal)
    (sqlType operator : String) (fmt : Formatter) :
    (DBToken.cast v sqlType operator).compile (getSqlCastFormatter d.dialect) key =
      (DBToken.value v operator).compile fmt key := by
  cases d <;> simp only [DBToken.compile, blank_hole] <;> rfl

theorem compile_castArray (d : JsonArrayDialect) (key : String) (values : List CondVal)
    (sqlType : String) (fmt : Formatter) :
    (DBToken.castArray values sqlType).compile (getSqlCastFormatter d.dialect) key =
      (DBToken.array values).compile fmt key := by
  cases d <;> rfl

theorem longer_castArray (key : String) (values : List CondVal) (sqlType : String)
    (fmt : Formatter) :
    Longer (!values.isEmpty) ((DBToken.castArray values sqlType).compile none key)
      ((DBToken.array values).compile fmt key) := by
  simp only [DBToken.compile]
  exact longer_inList (longer_cast sqlType) key values

/-- Without the formatter a token is longer by its own casts only. -/
theorem DBToken.longer_direct (d : JsonArrayDialect) (key : String) (t : DBToken) :
    Longer t.isCast (t.compile none key) (t.compile (getSqlCastFormatter d.dialect) key) := by
  cases t with
  | cast v sqlType operator =>
    rw [compile_cast d key v sqlType operator none]
    exact longer_value key v sqlType operator none
  | castArray values sqlType =>
    rw [compile_castArray d key values sqlType none]
    exact longer_castArray key values sqlType none
  | _ =>
    simp only [DBToken.compile]
    exact Longer.refl _

/-! ## Subqueries -/

theorem LongerAll.whereClause {b : Bool} {ps qs : List Piece} (h : LongerAll b ps qs) :
    LongerText b (whereClause ps).sql (whereClause qs).sql ∧
      (whereClause ps).params = (whereClause qs).params := by
  cases h with
  | nil => exact ⟨rfl, rfl⟩
  | cons hp hrest =>
    have hall := LongerAll.cons hp hrest
    have htext := (LongerText.refl " WHERE ").append (hall.join " AND ")
    rw [Bool.false_or] at htext
    exact ⟨htext, hall.params⟩

mutual
/-- A token is longer than its untyped form by the casts in it and in its subqueries. -/
theorem DBToken.longer_untyped (fmt : Formatter) (key : String) : (t : DBToken) →
    Longer (t.isCast || t.nestsCast) (t.compile none key) (t.untyped.compile fmt key)
  | .cast v sqlType operator => longer_value key v sqlType operator fmt
  | .castArray values sqlType => by
    have h := longer_castArray key values sqlType fmt
    rwa [← Bool.or_false (!values.isEmpty)] at h
  | .subquery parentColumns tableName selectColumns conditions notIn => by
    have h := LongerAll.whereClause (longer_subqueryConditions conditions)
    have hselect := (LongerText.refl ("SELECT " ++ columnList selectColumns ++ " FROM " ++ tableName)).append h.1
    rw [Bool.false_or] at hselect
    refine ⟨hselect.around (parentList parentColumns ++ if notIn then " NOT IN (" else " IN (") ")",
      ?_, h.2⟩
    refine iff_of_false ?_ ?_ <;> exact append_ne_empty (by simp)
  | .existsIn tableName conditions notExists => by
    have h := LongerAll.whereClause (longer_subqueryConditions conditions)
    refine ⟨h.1.around ((if notExists then "NOT EXISTS" else "EXISTS") ++ " (SELECT 1 FROM " ++ tableName)
      ")", ?_, h.2⟩
    refine iff_of_false ?_ ?_ <;> exact append_ne_empty (by simp)
  | .value _ _ => Longer.refl _
  | .immediate _ _ => Longer.refl _
  | .nullValue => Longer.refl _
  | .notNullValue => Longer.refl _
  | .array _ => Longer.refl _
  | .dynamic _ _ => Longer.refl _
  | .raw _ => Longer.refl _
  | .tupleIn _ _ => Longer.refl _
  | .parentRef _ => Longer.refl _

theorem longer_subqueryConditions : (conditions : List (ColumnRef × CondVal)) →
    LongerAll (conditionsCast conditions) (subqueryConditions conditions)
      (subqueryConditions (untypedConditions conditions))
  | [] => .nil
  | (_, v) :: conditions =>
    .cons (longer_subqueryCondition _ v) (longer_subqueryConditions conditions)

theorem longer_subqueryCondition (colRef : String) : (v : CondVal) →
    Longer (conditionCast v) (subqueryCondition colRef v) (subqueryCondition colRef (untypedCondition v))
  | .token t => by
    have h := t.longer_untyped none colRef
    cases t with
    | parentRef column => exact Longer.refl _
    | _ => exact h
  | .js _ _ => Longer.refl _
  | .skip => Longer.refl _
  | .arr _ => Longer.refl _
  | .obj _ => Longer.refl _
  | .nested _ => Longer.refl _
end

/-- With the formatter of MySQL or SQLite only the casts in subqueries are left. -/
theorem DBToken.longer_nested (d : JsonArrayDialect) (key : String) (t : DBToken) :
    Longer t.nestsCast (t.compile (getSqlCastFormatter d.dialect) key)
      (t.untyped.compile (getSqlCastFormatter d.dialect) key) := by
  have h := t.longer_untyped (getSqlCastFormatter d.dialect) key
  cases t with
  | cast v sqlType operator =>
    rw [compile_cast d key v sqlType operator (getSqlCastFormatter d.dialect)]
    exact Longer.refl _
  | castArray values sqlType =>
    rw [compile_castArray d key values sqlType (getSqlCastFormatter d.dialect)]
    exact Longer.refl _
  | subquery parentColumns tableName selectColumns conditions notIn =>
    simp only [DBToken.isCast, Bool.false_or, DBToken.compile, DBToken.untyped] at h ⊢
    exact h
  | existsIn tableName conditions notExists =>
    simp only [DBToken.isCast, Bool.false_or, DBToken.compile, DBToken.untyped] at h ⊢
    exact h
  | _ => exact Longer.refl _

/-! ## Trees -/

section Trees
variable {f f' : Formatter} {g : DBToken → DBToken} {longer : DBToken → Bool}
  (h : ∀ (t : DBToken) (key : String), Longer (longer t) (t.compile f key) ((g t).compile f' key))
include h

set_option linter.unusedSectionVars false

mutual
/-- What holds of the tokens holds of a tree: one case for each kind of value. -/
theorem longer_condition (key : String) : (v : CondVal) →
    Longer ((conditionTokens key v).any longer) (compileCondition f key v)
      (compileCondition f' key (mapCondition g key v))
  | .arr xs => by
    by_cases hor : key = "__or__"
    · simp only [conditionTokens, mapCondition, compileCondition, if_pos hor]
      exact LongerAll.compileOr (longer_groups xs)
    · simp only [conditionTokens, mapCondition, compileCondition, if_neg hor]
      exact Longer.refl _
  | .token t => by
    by_cases hraw : key = "__raw__"
    · simp only [conditionTokens, mapCondition, compileCondition, if_pos hraw]
      exact Longer.refl _
    · simp only [conditionTokens, mapCondition, compileCondition, if_neg hraw, List.any_cons,
        List.any_nil, Bool.or_false]
      exact h t key
  | .nested c => by
    by_cases hraw : key = "__raw__"
    · simp only [conditionTokens, mapCondition, compileCondition, if_pos hraw]
      exact Longer.refl _
    · simp only [conditionTokens, mapCondition, compileCondition, if_neg hraw]
      exact (longer_tree c).wrap
  | .js _ _ => Longer.refl _
  | .skip => Longer.refl _
  | .obj _ => Longer.refl _

theorem longer_groups : (xs : List CondVal) →
    LongerAll ((groupTokens xs).any longer) (compileGroups f xs) (compileGroups f' (mapGroups g xs))
  | [] => .nil
  | x :: xs => by
    have hrest := longer_groups xs
    cases x with
    | obj ps =>
      simp only [groupTokens, mapGroups, compileGroups, List.any_append]
      exact .cons ((longer_entries ps).joinPieces " AND ") hrest
    | _ =>
      simp only [groupTokens, mapGroups, compileGroups]
      rw [← Bool.false_or ((groupTokens xs).any longer)]
      exact .cons (Longer.refl _) hrest

theorem longer_entries : (ps : List (String × CondVal)) →
    LongerAll ((entryTokens ps).any longer) (compileEntries f ps)
      (compileEntries f' (mapEntries g ps))
  | [] => .nil
  | (k, v) :: ps => by
    simp only [entryTokens, mapEntries, compileEntries, List.any_append]
    exact .cons (longer_condition k v) (longer_entries ps)

theorem longer_tree : (c : DBConditions) →
    Longer ((treeTokens c).any longer) (compile f c) (compile f' (mapTokens g c))
  | .mk conditions operator nested => by
    simp only [treeTokens, mapTokens, compile, List.any_append]
    exact ((longer_entries conditions).append (longer_nestedTrees nested)).joinPieces _

theorem longer_nestedTrees : (cs : List DBConditions) →
    LongerAll ((nestedTokens cs).any longer) (compileNested f cs)
      (compileNested f' (mapNested g cs))
  | [] => .nil
  | c :: cs => by
    simp only [nestedTokens, mapNested, compileNested, List.any_append]
    exact .cons (longer_tree c).group (longer_nestedTrees cs)
end

/-- A list that becomes one parameter has the same text on both sides. -/
theorem longer_jsonEntry (encode : List CondVal → CondVal) (d : JsonArrayDialect) (key : String)
    (v : CondVal) : Longer ((conditionTokens key v).any longer) (compileJsonEntry encode d f key v)
      (compileJsonEntry encode d f' key (mapCondition g key v)) := by
  have hplain := longer_condition h key v
  cases v with
  | arr xs =>
    by_cases hor : key = "__or__"
    · have hres : reserved key = true := by
        rw [hor]
        decide
      simp only [mapCondition, if_pos hor, compileJsonEntry, hres, Bool.true_eq_false, and_false,
        if_false] at hplain ⊢
      exact hplain
    · simp only [mapCondition, if_neg hor, compileJsonEntry] at hplain ⊢
      split
      · simp only [conditionTokens, if_neg hor, List.any_nil]
        exact Longer.refl _
      · exact hplain
  | _ => exact hplain

theorem longer_jsonEntries (encode : List CondVal → CondVal) (d : JsonArrayDialect)
    (ps : List (String × CondVal)) :
    LongerAll ((entryTokens ps).any longer) (ps.map fun e => compileJsonEntry encode d f e.1 e.2)
      ((mapEntries g ps).map fun e => compileJsonEntry encode d f' e.1 e.2) := by
  induction ps with
  | nil => exact .nil
  | cons e ps ih =>
    obtain ⟨key, v⟩ := e
    simp only [entryTokens, mapEntries, List.any_append, List.map_cons]
    exact .cons (longer_jsonEntry h encode d key v) ih

theorem longer_jsonArrays (encode : List CondVal → CondVal) (d : JsonArrayDialect)
    (c : DBConditions) : Longer ((treeTokens c).any longer) (compileJsonArrays encode d f c)
      (compileJsonArrays encode d f' (mapTokens g c)) := by
  obtain ⟨conditions, operator, nested⟩ := c
  simp only [treeTokens, mapTokens, compileJsonArrays, List.any_append]
  exact ((longer_jsonEntries h encode d conditions).append (longer_nestedTrees h nested)).joinPieces _

end Trees

mutual
theorem mapCondition_id (key : String) : (v : CondVal) → mapCondition id key v = v
  | .arr xs => by
    rw [mapCondition, mapGroups_id xs]
    exact ite_self _
  | .token _ => rfl
  | .nested c => by rw [mapCondition, mapTokens_id c]
  | .js _ _ => rfl
  | .skip => rfl
  | .obj _ => rfl

theorem mapGroups_id : (xs : List CondVal) → mapGroups id xs = xs
  | [] => rfl
  | x :: xs => by
    have hrest := mapGroups_id xs
    cases x with
    | obj ps => rw [mapGroups, hrest, mapEntries_id ps]
    | _ => simp only [mapGroups, hrest]

theorem mapEntries_id : (ps : List (String × CondVal)) → mapEntries id ps = ps
  | [] => rfl
  | (k, v) :: ps => by rw [mapEntries, mapCondition_id k v, mapEntries_id ps]

theorem mapTokens_id : (c : DBConditions) → mapTokens id c = c
  | .mk conditions operator nested => by
    rw [mapTokens, mapEntries_id conditions, mapNested_id nested]

theorem mapNested_id : (cs : List DBConditions) → mapNested id cs = cs
  | [] => rfl
  | c :: cs => by rw [mapNested, mapTokens_id c, mapNested_id cs]
end

/-! ## The statements -/

section Statements
variable (encode : List CondVal → CondVal) (d : JsonArrayDialect) (c : DBConditions)

/-- The tokens whose casts a statement writes. -/
def Statement.writes (s : Statement) (t : DBToken) : Bool :=
  match s with
  | .model | .compiledSelect => t.nestsCast
  | .preSelect | .compiledWrite => t.isCast || t.nestsCast

theorem Statement.writes_eq_false {s : Statement} {t : DBToken} : s.writes t = false ↔
    t.nestsCast = false ∧ (s = .preSelect ∨ s = .compiledWrite → t.isCast = false) := by
  cases s <;> simp [Statement.writes, and_comm]

theorem longer_statement (s : Statement) :
    Longer ((treeTokens c).any s.writes) (s.where encode d c)
      (s.where encode d (mapTokens DBToken.untyped c)) := by
  cases s with
  | model => exact longer_tree (fun t key => t.longer_nested d key) c
  | preSelect => exact longer_tree (fun t key => t.longer_untyped none key) c
  | compiledSelect => exact longer_jsonArrays (fun t key => t.longer_nested d key) encode d c
  | compiledWrite => exact longer_jsonArrays (fun t key => t.longer_untyped none key) encode d c

theorem longer_preSelect : Longer ((treeTokens c).any DBToken.isCast)
    (Statement.preSelect.where encode d c) (Statement.model.where encode d c) := by
  have h := longer_tree (g := id) (fun t key => t.longer_direct d key) c
  rw [mapTokens_id] at h
  exact h

theorem Longer.eq_iff {b : Bool} {p q : Piece} (h : Longer b p q) : p = q ↔ b = false := by
  rw [← h.text.eq_iff]
  constructor
  · intro heq
    rw [heq]
  · intro heq
    obtain ⟨psql, pparams⟩ := p
    obtain ⟨qsql, qparams⟩ := q
    have hparams : pparams = qparams := h.params
    change psql = qsql at heq
    rw [heq, hparams]

/-- The library's casts stay out of a statement exactly where none is compiled without a
formatter. -/
theorem castFree_iff (s : Statement) : CastFree encode d s c ↔ CastSafe s c := by
  have hwrites : (s.where encode d c).sql =
      (s.where encode d (mapTokens DBToken.untyped c)).sql ↔ CastSafe s c := by
    rw [(longer_statement encode d c s).text.eq_iff, List.any_eq_false, CastSafe]
    simp only [Bool.not_eq_true, Statement.writes_eq_false]
    constructor
    · intro h
      exact ⟨fun t ht => (h t ht).1, fun hs t ht => (h t ht).2 hs⟩
    · intro h t ht
      exact ⟨h.1 t ht, fun hs => h.2 hs t ht⟩
  rw [CastFree, hwrites]
  constructor
  · intro h
    exact h.1
  · intro h
    refine ⟨h, ?_⟩
    intro hs
    subst hs
    apply (longer_preSelect encode d c).eq_iff.mpr
    rw [List.any_eq_false]
    intro t ht
    rw [h.2 (Or.inl rfl) t ht]
    exact Bool.false_ne_true

end Statements

/-! ## A typed key -/

/-- `User.update([[User.id, 'a']], …, { returning: true })` on MySQL, where the id is a `uuid`, and
`User.exists([[Order.user_id, dbCast('a', 'uuid')]])` on SQLite. -/
theorem uuid_casts :
    ((Statement.preSelect.where (fun xs => .arr xs) .mysql
        (.mk [("id", .token (.cast (.js (.str "a") rfl) "uuid" "="))] .and [])).sql = "id = ?::uuid" ∧
      (Statement.model.where (fun xs => .arr xs) .mysql
        (.mk [("id", .token (.cast (.js (.str "a") rfl) "uuid" "="))] .and [])).sql = "id = ?") ∧
      (Statement.model.where (fun xs => .arr xs) .sqlite
        (.mk [("__exists__", .token (.existsIn "orders"
          [(⟨"orders", "user_id"⟩, .token (.cast (.js (.str "a") rfl) "uuid" "="))] false))] .and
          [])).sql = "EXISTS (SELECT 1 FROM orders WHERE orders.user_id = ?::uuid)" ∧
      ¬CastFree (fun xs => .arr xs) .mysql .preSelect
        (.mk [("id", .token (.cast (.js (.str "a") rfl) "uuid" "="))] .and []) := by
  refine ⟨⟨?_, ?_⟩, ?_, ?_⟩
  · decide +kernel
  · decide +kernel
  · decide +kernel
  · intro h
    have hsame := congrArg Piece.sql (h.2 rfl)
    revert hsame
    decide +kernel

end LiteDb
