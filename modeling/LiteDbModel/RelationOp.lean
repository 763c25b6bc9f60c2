import LiteDbModel.LazyRelation
import LiteDbModel.MakeSql
import LiteDbModel.JsonParam

/-!
# Relation operations

A declared relation compiles to one batch statement with one parameter, the key
set. Two surfaces run it: the generated graph (`pluck`, `executeSQL`, `group`)
and the typed objects (`runRelationOp`, `distributeToParent`).
-/

namespace LiteDb
set_option autoImplicit false
open Keyed

/-! ## Column types -/

inductive ColumnType
  | int
  | bool
  | date
  | float
  | text

/-- The classes that are not `passthrough`. -/
inductive MaterializeClass
  | int
  | bool
  | date

def sqlTypeToMaterializeClass : ColumnType → Option MaterializeClass
  | .int => some .int
  | .bool => some .bool
  | .date => some .date
  | .float | .text => none

/-- A value whose inferred type is the column's. -/
def pgTypeSpecimen : ColumnType → JsVal
  | .int => .bigint 0
  | .bool => .bool false
  | .date => .date "1970-01-01T00:00:00.000Z"
  | .float => .num (.fin ⟨5, -1, by decide⟩)
  | .text => .str ""

def JsVal.isIntegerNumber : JsVal → Bool
  | .num n => n.isInteger
  | _ => false

def inferPgElementType (values : List JsVal) : String :=
  match values.head? with
  | some (.num _) => if values.all JsVal.isIntegerNumber then "int" else "numeric"
  | some (.bigint _) => "bigint"
  | some (.bool _) => "boolean"
  | some (.date _) => "timestamp"
  | _ => "text"

/-- `inferPgArrayType` without a declared cast. -/
def Relation.inferPgArrayType (values : List JsVal) : String := inferPgElementType values ++ "[]"

/-! ## The statement -/

/-- The key columns: one pair by itself, or a list of pairs that are joined by position. -/
inductive RelationKeys
  | single (parentKey targetKey : String)
  | composite (pairs : List (String × String)) (nonempty : pairs ≠ [])

def RelationKeys.pairs : RelationKeys → List (String × String)
  | .single parentKey targetKey => [(parentKey, targetKey)]
  | .composite pairs _ => pairs

def RelationKeys.isComposite : RelationKeys → Bool
  | .single _ _ => false
  | .composite _ _ => true

/-- A declared relation; only a `hasMany` is limited for each parent, and then it is ordered. -/
structure RelationDecl where
  name : String
  kind : RelationType
  targetTable : String
  select : List String
  keys : RelationKeys
  order : Option String
  limit : Option Nat
  hardLimit : Option Nat
  dialect : Dialect
  limited : limit.isSome → kind = .hasMany ∧ order.isSome

/-- The types of the target table's columns, where the schema is known. -/
abbrev ColumnTypeResolver := Option (String → ColumnType)

def PG_ARRAY_CAST_TOKEN : String := "@@PG_ARRAY_CAST@@"

/-- The parts of a `SELECT` that the relation builders fill in. -/
structure SelectDesc where
  cte : String
  select : String
  tableName : String
  join : String
  condition : String
  order : String
  limit : Option Nat

def clause (lead text : String) : String := if text = "" then "" else lead ++ text

def countText (n : Nat) : String := (JsNum.ofInt n).text

def compileSelect (d : SelectDesc) : String :=
  d.cte ++ "SELECT " ++ (if d.select = "" then "*" else d.select) ++ " FROM " ++ d.tableName ++
    clause " " d.join ++ clause " WHERE " d.condition ++ clause " ORDER BY " d.order ++
    (d.limit.map fun n => " LIMIT " ++ countText n).getD ""

def commas (parts : List String) : String := ", ".intercalate parts

/-- The membership of a MySQL or SQLite column in the key array. -/
def inListPredicate (dialect : Dialect) (col : String) : String :=
  match dialect with
  | .postgres => col ++ " = ANY(?)"
  | .mysql => col ++
      " IN (SELECT JSON_UNQUOTE(v) FROM JSON_TABLE(?, '$[*]' COLUMNS(v JSON PATH '$')) jt)"
  | .sqlite => col ++ " IN (SELECT value FROM json_each(?))"

def ordinals (columns : List String) : List String :=
  columns.zipIdx.map fun c => String.ofList (Nat.toDigits 10 c.2)

/-- The membership of several columns in the array of key tuples, read by position. -/
def tupleInPredicate (dialect : Dialect) (table : String) (columns : List String) : String :=
  let qualified := commas (columns.map fun k => table ++ "." ++ k)
  match dialect with
  | .postgres => "(" ++ qualified ++ ") IN (SELECT * FROM UNNEST(" ++
      commas (columns.map fun _ => "?::" ++ PG_ARRAY_CAST_TOKEN) ++ "))"
  | .mysql => "(" ++ qualified ++ ") IN (SELECT " ++
      commas ((ordinals columns).map fun i => "JSON_UNQUOTE(c" ++ i ++ ")") ++
      " FROM JSON_TABLE(?, '$[*]' COLUMNS(" ++
      commas ((ordinals columns).map fun i => "c" ++ i ++ " JSON PATH '$[" ++ i ++ "]'") ++ ")) jt)"
  | .sqlite => "(" ++ qualified ++ ") IN (SELECT " ++
      commas ((ordinals columns).map fun i => "json_extract(value, '$[" ++ i ++ "]')") ++
      " FROM json_each(?))"

/-- The typed key rows that PostgreSQL expands from the array of tuples. -/
def pgCompositeKeyRows (resolve : String → ColumnType) (targetKeys : List String) : String :=
  let cols := (targetKeys.zip (ordinals targetKeys)).map fun k =>
    "(_t->>" ++ k.2 ++ ")::" ++ inferPgElementType [pgTypeSpecimen (resolve k.1)] ++
      " AS key" ++ k.2
  "(SELECT " ++ commas cols ++ " FROM json_array_elements(?::json) AS _t) AS _keys"

/-- The key columns equal the key rows of PostgreSQL. -/
def pgKeyConditions (table : String) (targetKeys : List String) : String :=
  " AND ".intercalate ((targetKeys.zip (ordinals targetKeys)).map fun k =>
    table ++ "." ++ k.1 ++ " = _keys.key" ++ k.2)

/-- PostgreSQL's window: the first rows of each key row, by a lateral join. -/
def lateralText (decl : RelationDecl) (source condition : String) : String :=
  "SELECT " ++ decl.targetTable ++ ".* FROM " ++ source ++ " CROSS JOIN LATERAL (" ++
    compileSelect ⟨"", "", decl.targetTable, "", condition, decl.order.getD "", decl.limit⟩ ++ ") " ++
    decl.targetTable

/-- The window of MySQL and SQLite: the rows numbered within each key. -/
def rankedText (decl : RelationDecl) (n : Nat) (membership : String) : String :=
  let keys := commas (decl.keys.pairs.map (·.2))
  let order := decl.order.getD ""
  let ranked := compileSelect ⟨"", "*, ROW_NUMBER() OVER (PARTITION BY " ++ keys ++ " ORDER BY " ++
    (if order = "" then keys else order) ++ ") AS _rn", decl.targetTable, "", membership, "", none⟩
  compileSelect ⟨"WITH ranked AS (" ++ ranked ++ ") ", "", "ranked", "", "_rn <= " ++ countText n,
    "", none⟩

/-- The cast of a single key array: declared, or left to the values. -/
def singleCast (resolve : ColumnTypeResolver) (targetKey : String) : String :=
  match resolve with
  | some types => inferPgElementType [pgTypeSpecimen (types targetKey)] ++ "[]"
  | none => PG_ARRAY_CAST_TOKEN

def compileSingleKey (decl : RelationDecl) (resolve : ColumnTypeResolver) (targetKey : String) :
    String :=
  let column := decl.targetTable ++ "." ++ targetKey
  let flat (condition : String) : String := compileSelect ⟨"", commas decl.select, decl.targetTable,
    "", condition, decl.order.getD "", none⟩
  match decl.dialect, decl.limit with
  | .postgres, none => flat (column ++ " = ANY(?::" ++ singleCast resolve targetKey ++ ")")
  | .postgres, some _ =>
    lateralText decl ("unnest(?::" ++ singleCast resolve targetKey ++ ") AS _keys(key)")
      (column ++ " = _keys.key")
  | _, none => flat (inListPredicate decl.dialect targetKey)
  | _, some n => rankedText decl n (inListPredicate decl.dialect targetKey)

def compileCompositeKeyStatic (decl : RelationDecl) (resolve : ColumnTypeResolver)
    (targetKeys : List String) : Except String String :=
  let flat (join condition : String) : String := compileSelect ⟨"", commas decl.select,
    decl.targetTable, join, condition, decl.order.getD "", none⟩
  match decl.dialect, resolve with
  | .postgres, none => .error ("relation '" ++ decl.name ++
      "': a COMPOSITE-key relation on postgres needs the target model's column types (keys " ++
      commas targetKeys ++ " on '" ++ decl.targetTable ++
      "') — pass a ColumnTypeResolver to compileRelationOp")
  | .postgres, some types =>
    let rows := pgCompositeKeyRows types targetKeys
    let condition := pgKeyConditions decl.targetTable targetKeys
    match decl.limit with
    | none => .ok (flat ("JOIN " ++ rows ++ " ON " ++ condition) "")
    | some _ => .ok (lateralText decl rows condition)
  | dialect, _ =>
    let membership := tupleInPredicate dialect decl.targetTable targetKeys
    match decl.limit with
    | none => .ok (flat "" membership)
    | some n => .ok (rankedText decl n membership)

/-- The assembled text of a component whose one parameter is the key set of the compiler. -/
def assembledText (sql : String) : Except String String :=
  (assembleMakeSQL (.mk sql.toList [.bound .null] false)).map fun r => String.ofList r.sql

def compiledBatchSql (decl : RelationDecl) (resolve : ColumnTypeResolver) :
    Except String String :=
  match decl.keys with
  | .single _ targetKey => assembledText (compileSingleKey decl resolve targetKey)
  | .composite pairs _ =>
    (compileCompositeKeyStatic decl resolve (pairs.map (·.2))).bind assembledText

structure RelationOp where
  name : String
  kind : RelationType
  keys : RelationKeys
  dialect : Dialect
  sql : String
  targetTable : String
  materializers : String → Option MaterializeClass
  hardLimit : Option Nat

/-- Only a `hasMany` without a limit of its own is capped. -/
def compileRelationOp (decl : RelationDecl) (resolve : ColumnTypeResolver) :
    Except String RelationOp := do
  let sql ← compiledBatchSql decl resolve
  return {
    name := decl.name
    kind := decl.kind
    keys := decl.keys
    dialect := decl.dialect
    sql := sql
    targetTable := decl.targetTable
    materializers := fun c => resolve.bind fun types =>
      if c ∈ decl.select then sqlTypeToMaterializeClass (types c) else none
    hardLimit := if decl.kind = .hasMany ∧ decl.limit = none then decl.hardLimit else none }

def parentKeyCols (op : RelationOp) : List String := op.keys.pairs.map (·.1)

def targetKeyCols (op : RelationOp) : List String := op.keys.pairs.map (·.2)

/-- A component is assembled to its own text, which holds one question mark. -/
theorem assembledText_ok {sql text : String} :
    assembledText sql = .ok text ↔ text = sql ∧ sql.toList.count '?' = 1 := by
  have hplain := assemble_eq_bindPlain_iff sql.toList [.null]
  rw [assembledText]
  change assembleMakeSQL (.mk sql.toList [.bound .null] false) = _ ↔ _ at hplain
  rw [hplain.mpr (.inr (by simp [isMakeSQL])), bindPlain]
  split
  · next hcount =>
    refine iff_of_false ?_ fun h => hcount h.2
    intro h
    cases h
  · next hcount =>
    simp only [Except.map, String.ofList_toList, Except.ok.injEq]
    constructor
    · rintro rfl
      exact ⟨rfl, not_not.mp hcount⟩
    · rintro ⟨rfl, _⟩
      rfl

theorem compiledBatchSql_composite {decl : RelationDecl} {resolve : ColumnTypeResolver}
    {sql : String} (h : compiledBatchSql decl resolve = .ok sql)
    (hc : decl.keys.isComposite = true) :
    compileCompositeKeyStatic decl resolve (decl.keys.pairs.map (·.2)) = .ok sql := by
  rw [compiledBatchSql] at h
  cases hk : decl.keys with
  | single parentKey targetKey =>
    rw [hk] at hc
    cases hc
  | composite pairs hne =>
    rw [hk] at h
    change (compileCompositeKeyStatic decl resolve (pairs.map (·.2))).bind assembledText = .ok sql
      at h
    rw [show (RelationKeys.composite pairs hne).pairs = pairs from rfl]
    rcases hstatic : compileCompositeKeyStatic decl resolve (pairs.map (·.2)) with e | text
    · rw [hstatic] at h
      cases h
    · rw [hstatic] at h
      rw [(assembledText_ok.mp h).1, hstatic]

/-! ## Texts without a cast token -/

/-- The text cannot hold the cast token. -/
def AtFree (s : String) : Prop := '@' ∉ s.toList

@[simp] theorem atFree_append {s t : String} : AtFree (s ++ t) ↔ AtFree s ∧ AtFree t := by
  simp [AtFree, String.toList_append, not_or]

theorem atFree_intercalate {sep : String} (hsep : AtFree sep) {parts : List String}
    (h : ∀ p ∈ parts, AtFree p) : AtFree (sep.intercalate parts) := by
  rw [AtFree, String.toList_intercalate]
  induction parts with
  | nil => exact List.not_mem_nil
  | cons p parts ih =>
    obtain ⟨hp, hparts⟩ := List.forall_mem_cons.mp h
    cases parts with
    | nil => simpa [AtFree] using hp
    | cons q parts =>
      rw [List.map_cons, List.map_cons, List.intercalate_cons_cons, ← List.map_cons]
      simp only [List.mem_append, not_or]
      exact ⟨⟨hp, hsep⟩, ih hparts⟩

theorem atFree_commas {parts : List String} (h : ∀ p ∈ parts, AtFree p) : AtFree (commas parts) :=
  atFree_intercalate (by simp [AtFree]) h

theorem atFree_clause {lead text : String} (hlead : AtFree lead) (htext : AtFree text) :
    AtFree (clause lead text) := by
  rw [clause]
  split
  · simp [AtFree]
  · exact atFree_append.mpr ⟨hlead, htext⟩

theorem atFree_countText (n : Nat) : AtFree (countText n) := by
  change '@' ∉ (String.ofList (Decimal.Dec.ofInt n).print).toList
  rw [String.toList_ofList]
  intro h
  rcases Decimal.print_chars _ _ h with h | h | h | h | h
  · exact absurd h (by decide)
  · exact absurd h (by decide)
  · exact absurd h (by decide)
  · exact absurd h (by decide)
  · exact absurd h (by decide)

theorem atFree_compileSelect {d : SelectDesc} (hcte : AtFree d.cte) (hselect : AtFree d.select)
    (htable : AtFree d.tableName) (hjoin : AtFree d.join) (hcondition : AtFree d.condition)
    (horder : AtFree d.order) : AtFree (compileSelect d) := by
  have hcols : AtFree (if d.select = "" then "*" else d.select) := by
    split
    · simp [AtFree]
    · exact hselect
  have hlimit : AtFree ((d.limit.map fun n => " LIMIT " ++ countText n).getD "") := by
    cases d.limit with
    | none => simp [AtFree]
    | some n => exact atFree_append.mpr ⟨by simp [AtFree], atFree_countText n⟩
  have hlead : ∀ t ∈ [" ", " WHERE ", " ORDER BY ", "SELECT ", " FROM "], AtFree t := by
    simp [AtFree]
  rw [compileSelect]
  simp only [atFree_append]
  refine ⟨⟨⟨⟨⟨⟨⟨⟨hcte, ?_⟩, hcols⟩, ?_⟩, htable⟩, ?_⟩, ?_⟩, ?_⟩, hlimit⟩
  · exact hlead _ (by simp)
  · exact hlead _ (by simp)
  · exact atFree_clause (hlead _ (by simp)) hjoin
  · exact atFree_clause (hlead _ (by simp)) hcondition
  · exact atFree_clause (hlead _ (by simp)) horder

theorem atFree_ordinals {columns : List String} {i : String} (h : i ∈ ordinals columns) :
    AtFree i := by
  obtain ⟨c, _, rfl⟩ := List.mem_map.mp h
  rw [AtFree, String.toList_ofList]
  intro hat
  exact absurd (Decimal.isDigit_of_mem hat) (by decide)

theorem atFree_elementType (values : List JsVal) : AtFree (inferPgElementType values) := by
  rw [inferPgElementType]
  split
  · split <;> simp [AtFree]
  all_goals simp [AtFree]

/-- The names and the order of a relation do not hold the character of the cast token. -/
structure RelationDecl.Plain (decl : RelationDecl) : Prop where
  table : AtFree decl.targetTable
  select : ∀ c ∈ decl.select, AtFree c
  keys : ∀ k ∈ decl.keys.pairs, AtFree k.2
  order : AtFree (decl.order.getD "")

theorem atFree_compileCompositeKeyStatic {decl : RelationDecl} (h : decl.Plain)
    {types : String → ColumnType} {sql : String} (hd : decl.dialect = .postgres)
    (hsql : compileCompositeKeyStatic decl (some types) (decl.keys.pairs.map (·.2)) = .ok sql) :
    AtFree sql := by
  have hkeys : ∀ k ∈ (decl.keys.pairs.map (·.2)).zip (ordinals (decl.keys.pairs.map (·.2))),
      AtFree k.1 ∧ AtFree k.2 := by
    intro k hk
    obtain ⟨hcol, hord⟩ := List.of_mem_zip hk
    obtain ⟨p, hp, hpk⟩ := List.mem_map.mp hcol
    exact ⟨hpk ▸ h.keys p hp, atFree_ordinals hord⟩
  have hrows : AtFree (pgCompositeKeyRows types (decl.keys.pairs.map (·.2))) := by
    rw [pgCompositeKeyRows]
    simp only [atFree_append]
    refine ⟨⟨by simp [AtFree], atFree_commas ?_⟩, by simp [AtFree]⟩
    intro p hp
    obtain ⟨k, hk, rfl⟩ := List.mem_map.mp hp
    simp only [atFree_append]
    refine ⟨⟨⟨⟨⟨by simp [AtFree], (hkeys k hk).2⟩, by simp [AtFree]⟩, atFree_elementType _⟩,
      by simp [AtFree]⟩, (hkeys k hk).2⟩
  have hcondition : AtFree (pgKeyConditions decl.targetTable (decl.keys.pairs.map (·.2))) := by
    apply atFree_intercalate (by simp [AtFree])
    intro p hp
    obtain ⟨k, hk, rfl⟩ := List.mem_map.mp hp
    simp only [atFree_append]
    exact ⟨⟨⟨⟨h.table, by simp [AtFree]⟩, (hkeys k hk).1⟩, by simp [AtFree]⟩, (hkeys k hk).2⟩
  have hempty : AtFree "" := by simp [AtFree]
  simp only [compileCompositeKeyStatic, hd] at hsql
  split at hsql
  · cases hsql
    apply atFree_compileSelect hempty (atFree_commas h.select) h.table _ hempty h.order
    simp only [atFree_append]
    exact ⟨⟨⟨by simp [AtFree], hrows⟩, by simp [AtFree]⟩, hcondition⟩
  · cases hsql
    rw [lateralText]
    simp only [atFree_append]
    refine ⟨⟨⟨⟨⟨⟨⟨by simp [AtFree], h.table⟩, by simp [AtFree]⟩, hrows⟩, by simp [AtFree]⟩, ?_⟩,
      by simp [AtFree]⟩, h.table⟩
    exact atFree_compileSelect hempty hempty h.table hempty hcondition h.order

end LiteDb
