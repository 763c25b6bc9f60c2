import LiteDbModel.RelationOp

/-!
# The two surfaces of a relation

The generated graph binds the plucked keys by what they look like and groups the
raw rows; the typed objects bind them by the kind of the operation, send nothing
for no keys, and group the rows after they are materialized.
-/

namespace LiteDb
set_option autoImplicit false
open Keyed

/-! ## Preparing the statement -/

/-- The text before and after the first occurrence of a token. -/
def cutFirst (token : List Char) : List Char → Option (List Char × List Char)
  | [] => none
  | c :: cs =>
    if token.isPrefixOf (c :: cs) then some ([], (c :: cs).drop token.length)
    else (cutFirst token cs).map fun p => (c :: p.1, p.2)

def resolvePgArrayCast (sql : List Char) (values : List JsVal) : List Char :=
  match cutFirst PG_ARRAY_CAST_TOKEN.toList sql with
  | some (head, tail) => head ++ (Relation.inferPgArrayType values).toList ++ tail
  | none => sql

/-- What the key parameter is bound to: a native array, or its JSON text. -/
inductive BoundKeys
  | array (xs : List JsVal)
  | json (text : Option (List Char))

def encodeJsonArrayParam (dialect : Dialect) (values : List JsVal) : BoundKeys :=
  .json (encodeJsonParam dialect (.arr values))

/-- A key set whose first element is a tuple. -/
def isTupleSet : List JsVal → Bool
  | .arr _ :: _ => true
  | _ => false

def encodeParam (dialect : Dialect) (p : List JsVal) : BoundKeys :=
  if dialect = .postgres ∧ isTupleSet p = false then .array p else encodeJsonArrayParam dialect p

structure Prepared where
  sql : List Char
  bound : BoundKeys

def prepareSql (dialect : Dialect) (sql : String) (param : List JsVal) : Prepared where
  sql := renderPlaceholders
    (if dialect = .postgres then resolvePgArrayCast sql.toList param else sql.toList) dialect
  bound := encodeParam dialect param

/-! ## Materializing cells -/

def I64_MIN : Int := -(2 ^ 63)

def I64_MAX : Int := 2 ^ 63 - 1

def checkI64 (v : Int) : Except String JsVal :=
  if v < I64_MIN ∨ I64_MAX < v then
    .error ("materialize int: " ++ String.ofList (Decimal.intText v) ++
      " is outside the i64 range behavior-contracts' `int` admits")
  else .ok (.bigint v)

/-- `typeof`. -/
def JsVal.typeof : JsVal → String
  | .undefined => "undefined"
  | .bool _ => "boolean"
  | .num _ => "number"
  | .bigint _ => "bigint"
  | .str _ => "string"
  | _ => "object"

/-- `BigInt(s)` of a text `-?\d+`. -/
def parseIntText (s : String) : Option Int :=
  match intToken s.toList with
  | some ('-' :: ds, []) => some (-(Nat.ofDigitChars 10 ds 0 : Int))
  | some (ds, []) => some (Nat.ofDigitChars 10 ds 0 : Int)
  | _ => none

def materializeInt : JsVal → Except String JsVal
  | .bigint i => checkI64 i
  | .str s =>
    match parseIntText s with
    | some i => checkI64 i
    | none => .error ("materialize int: driver returned a non-integer string '" ++ s ++ "'")
  | .num (.fin d) =>
    if d.exp < 0 then
      .error ("materialize int: driver returned a non-integer number " ++ (JsNum.fin d).text ++
        " for an integer column")
    else if (d.mant * 10 ^ d.exp.toNat).natAbs ≤ 2 ^ 53 - 1 then
      .ok (.bigint (d.mant * 10 ^ d.exp.toNat))
    else .error ("materialize int: driver returned an UNSAFE JS number " ++ (JsNum.fin d).text ++
      " for an integer column — precision was already lost before materialization (the driver must " ++
      "return integers as bigint/string, not a rounded double). Configure the driver " ++
      "(better-sqlite3 safeIntegers / mysql2 supportBigNumbers+bigNumberStrings / pg int-as-bigint).")
  | .num n => .error ("materialize int: driver returned a non-integer number " ++ n.text ++
      " for an integer column")
  | v => .error ("materialize int: unexpected driver JS type " ++ v.typeof)

def materializeDate : JsVal → Except String JsVal
  | .str s => .ok (.str s)
  | .date iso => .ok (.str iso)
  | v => .error ("materialize date: unexpected driver JS type " ++ v.typeof)

/-- The white space that `trim` drops. -/
def isJsSpace (c : Char) : Bool :=
  (9 ≤ c.toNat && c.toNat ≤ 13) || (0x2000 ≤ c.toNat && c.toNat ≤ 0x200A) ||
    c.toNat ∈ [0x20, 0xA0, 0x1680, 0x2028, 0x2029, 0x202F, 0x205F, 0x3000, 0xFEFF]

def trimLower (s : String) : String :=
  String.ofList ((((s.toList.dropWhile isJsSpace).reverse.dropWhile isJsSpace).reverse).map
    Char.toLower)

def materializeBool (H : Host) : JsVal → Except String JsVal
  | .bool b => .ok (.bool b)
  | .num n => .ok (.bool (n ≠ JsNum.ofInt 0))
  | .bigint i => .ok (.bool (i ≠ 0))
  | .str s =>
    if trimLower s ∈ ["t", "true", "1"] then .ok (.bool true)
    else if trimLower s ∈ ["f", "false", "0"] then .ok (.bool false)
    else .error ("materialize bool: unexpected driver JS type string (" ++ s ++ ")")
  | v => .error ("materialize bool: unexpected driver JS type " ++ v.typeof ++ " (" ++ v.text H ++ ")")

def materializeCell (H : Host) (value : JsVal) (klass : MaterializeClass) : Except String JsVal :=
  if value.nullish then .ok value
  else
    match klass with
    | .int => materializeInt value
    | .date => materializeDate value
    | .bool => materializeBool H value

def materializeColumn (H : Host) (op : RelationOp) (c : String × JsVal) :
    Except String (String × JsVal) :=
  match op.materializers c.1 with
  | some klass => (materializeCell H c.2 klass).map fun v => (c.1, v)
  | none => .ok c

def materializeRow (H : Host) (op : RelationOp) (row : Obj) : Except String Obj :=
  (row.cols.mapM (materializeColumn H op)).map fun cols => ⟨row.id, cols⟩

def materializeChildRows (H : Host) (op : RelationOp) (rows : List Obj) : Except String (List Obj) :=
  rows.mapM (materializeRow H op)

/-! ## The surfaces -/

/-- The seam to the database: in a state, what a statement with bound keys answers. -/
abbrev ReadSeam (σ : Type) :=
  σ → List Char → BoundKeys → Except String (List (List (String × JsVal)))

def limitExceeded (op : RelationOp) (limit count : Nat) : String :=
  "Query limit exceeded: relation '" ++ op.name ++ "' on " ++ op.targetTable ++ " returned " ++
    countText count ++ " records, but limit is " ++ countText limit ++
    ". This usually indicates a missing WHERE clause or an N+1 query pattern. " ++
    "Set a higher limit or use pagination."

def assertRelationHardLimit (op : RelationOp) (count : Nat) : Except String Unit :=
  match op.hardLimit with
  | some limit => if limit < count then .error (limitExceeded op limit count) else .ok ()
  | none => .ok ()

def isSingle (op : RelationOp) : Bool := op.kind ≠ .hasMany

section Surfaces
variable {σ : Type} (H : Host) (run : ReadSeam σ) (st : σ) (op : RelationOp) (parents : List Obj)

def executeSQL (keys : List JsVal) : Except String (List Obj) := do
  let p := prepareSql op.dialect op.sql keys
  let rows ← run st p.sql p.bound
  assertRelationHardLimit op rows.length
  return fetched rows

/-- The generated graph of one relation. -/
def eagerRelation : Except String (List Nested) := do
  let children ← executeSQL run st op (pluck H parents (parentKeyCols op))
  return group H parents children (parentKeyCols op) (targetKeyCols op) op.name (isSingle op)

def firstComponents (tuples : List (List JsVal)) : List JsVal :=
  tuples.map fun t => t.headD .undefined

def bindKeys (tuples : List (List JsVal)) : BoundKeys :=
  if op.keys.isComposite then encodeJsonArrayParam op.dialect (tuples.map .arr)
  else if op.dialect = .postgres then .array (firstComponents tuples)
  else encodeJsonArrayParam op.dialect (firstComponents tuples)

/-- The text that `runRelationOp` sends. -/
def lazyStatement (tuples : List (List JsVal)) : List Char :=
  renderPlaceholders
    (if op.dialect = .postgres ∧ op.keys.isComposite = false then
      resolvePgArrayCast op.sql.toList (firstComponents tuples)
    else op.sql.toList) op.dialect

def runRelationOp : Except String ByKey :=
  let keys := dedupeKeyTuples H parents (parentKeyCols op)
  if keys.isEmpty then .ok []
  else do
    let rows ← run st (lazyStatement op keys) (bindKeys op keys)
    assertRelationHardLimit op rows.length
    let children ← materializeChildRows H op (fetched rows)
    return groupByKey H children (targetKeyCols op)

def distributeToParent (parent : Obj) (batch : ByKey) : Attached :=
  attachToParent H parent (parentKeyCols op) batch (isSingle op)

/-- The typed objects of a page, with the relation resolved. -/
def lazyRelation : Except String (List Attached) := do
  let batch ← runRelationOp H run st op parents
  return parents.map fun parent => distributeToParent H op parent batch

end Surfaces

/-! ## What the surfaces promise -/

/-- Which of the fetched rows a parent gets, in order. -/
def Attached.ids (a : Attached) : List Nat := a.rows.map Obj.id

section Promise
variable {σ : Type} (H : Host) (run : ReadSeam σ) (op : RelationOp) (parents : List Obj)

/-- The key tuples of the parents, and the parameter that `pluck` makes of them. -/
def relationKeys : List (List JsVal) := dedupeKeyTuples H parents (parentKeyCols op)

def eagerPrepared : Prepared := prepareSql op.dialect op.sql (pluck H parents (parentKeyCols op))

def eagerIds (st : σ) : Except String (List (List Nat)) :=
  (eagerRelation H run st op parents).map fun ns => ns.map fun n => n.value.ids

def lazyIds (st : σ) : Except String (List (List Nat)) :=
  (lazyRelation H run st op parents).map fun as => as.map Attached.ids

/-- The surfaces send one statement with keys that no state of the database tells apart, and attach
the same rows to each parent; without keys both attach nothing. -/
structure SurfacesAgree : Prop where
  statement : relationKeys H op parents ≠ [] →
    (eagerPrepared H op parents).sql = lazyStatement op (relationKeys H op parents)
  keySet : relationKeys H op parents ≠ [] → ∀ st : σ,
    run st (lazyStatement op (relationKeys H op parents)) (eagerPrepared H op parents).bound =
      run st (lazyStatement op (relationKeys H op parents)) (bindKeys op (relationKeys H op parents))
  attached : ∀ st : σ, eagerIds H run op parents st = lazyIds H run op parents st
  keyless : relationKeys H op parents = [] → ∀ st : σ,
    eagerIds H run op parents st = .ok (parents.map fun _ => []) ∧
      lazyIds H run op parents st = .ok (parents.map fun _ => [])

/-- Parent and child have complete keys with one identity. -/
def filesUnder (keys : List (String × String)) (parent child : Obj) : Bool :=
  !partialKey (parent.tuple (keys.map (·.1))) && !partialKey (child.tuple (keys.map (·.2))) &&
    keyIdentity H (child.tuple (keys.map (·.2))) = keyIdentity H (parent.tuple (keys.map (·.1)))

/-- The row that materializing leaves. -/
def materialized (row : Obj) : Obj :=
  match materializeRow H op row with
  | .ok row' => row'
  | .error _ => row

/-- Two ways of filing pick the same rows: every one of them, or the first that either picks. -/
def FilesAlike (single : Bool) (p q : Obj → Bool) (rows : List Obj) : Prop :=
  if single then ∀ r, rows.find? (fun r => p r || q r) = some r → p r = q r
  else ∀ r ∈ rows, p r = q r

/-- One pair in a list of pairs is plucked flat; a PostgreSQL array of arrays looks like tuples. -/
def misread : Bool :=
  match op.keys with
  | .composite pairs _ => pairs.length = 1
  | .single _ _ => op.dialect = .postgres && isTupleSet (firstComponents (relationKeys H op parents))

def withinLimit (count : Nat) : Prop := assertRelationHardLimit op count = .ok ()

/-- With keys: the text has no cast left to resolve on one surface only, a key set that is bound in
another form reads the same, and the rows materialize and are filed alike before and after it.
Without keys: the database answers the graph's statement. -/
structure SurfacesSafe : Prop where
  castFree : relationKeys H op parents ≠ [] → op.dialect = .postgres → op.keys.isComposite = true →
    cutFirst PG_ARRAY_CAST_TOKEN.toList op.sql.toList = none
  readAlike : relationKeys H op parents ≠ [] → misread H op parents = true → ∀ st : σ,
    run st (lazyStatement op (relationKeys H op parents)) (eagerPrepared H op parents).bound =
      run st (lazyStatement op (relationKeys H op parents)) (bindKeys op (relationKeys H op parents))
  filedAlike : relationKeys H op parents ≠ [] → ∀ (st : σ) (rows : List (List (String × JsVal))),
    run st (lazyStatement op (relationKeys H op parents)) (bindKeys op (relationKeys H op parents)) =
      .ok rows → withinLimit op rows.length →
    (∀ r ∈ fetched rows, (materializeRow H op r).isOk) ∧
    ∀ parent ∈ parents, FilesAlike (isSingle op) (filesUnder H op.keys.pairs parent)
      (fun r => filesUnder H op.keys.pairs parent (materialized H op r)) (fetched rows)
  answered : relationKeys H op parents = [] → ∀ st : σ, ∃ rows,
    run st (eagerPrepared H op parents).sql (eagerPrepared H op parents).bound = .ok rows ∧
      withinLimit op rows.length

end Promise

/-! ## The statement -/

theorem cutFirst_some {token s a b : List Char} (h : cutFirst token s = some (a, b)) :
    s = a ++ token ++ b := by
  induction s generalizing a with
  | nil => cases h
  | cons c cs ih =>
    rw [cutFirst] at h
    split at h
    · next hprefix =>
      obtain ⟨rest, hrest⟩ := List.isPrefixOf_iff_prefix.mp hprefix
      cases h
      rw [← hrest, List.drop_left, List.nil_append]
    · obtain ⟨p, hp, heq⟩ := Option.map_eq_some_iff.mp h
      cases heq
      rw [ih hp, List.cons_append, List.cons_append]

/-- Text without a placeholder or a quote is written as it is. -/
theorem length_renderFrom_insert (a b : List Char) {x : List Char}
    (hx : ∀ c ∈ x, c ≠ '?' ∧ c ≠ '\'') (inString : Bool) (index : Nat) :
    (renderFrom inString index (a ++ x ++ b)).length =
      (renderFrom inString index (a ++ b)).length + x.length := by
  induction a generalizing inString index with
  | nil =>
    rw [List.nil_append, List.nil_append]
    induction x generalizing inString with
    | nil => rfl
    | cons c x ih =>
      obtain ⟨⟨hq, hs⟩, hx⟩ := List.forall_mem_cons.mp hx
      cases inString with
      | false =>
        rw [List.cons_append, renderFrom, if_neg (by simp), if_neg hs, if_neg hq, List.length_cons,
          ih hx, List.length_cons]
        omega
      | true =>
        rw [List.cons_append, renderFrom, if_pos rfl, List.length_cons, decide_eq_true hs, ih hx,
          List.length_cons]
        omega
  | cons c a ih =>
    simp only [List.cons_append, renderFrom]
    split
    · simp only [List.length_cons, ih]
      omega
    · split
      · simp only [List.length_cons, ih]
        omega
      · split
        · simp only [List.length_cons, List.length_append, ih]
          omega
        · simp only [List.length_cons, ih]
          omega

/-- The types that are inferred for a key array. -/
theorem inferPgElementType_mem (values : List JsVal) :
    inferPgElementType values ∈ ["int", "numeric", "bigint", "boolean", "timestamp", "text"] := by
  rw [inferPgElementType]
  split
  · split <;> simp
  · simp
  · simp
  · simp
  · simp

theorem resolved_ne {sql : List Char} {values : List JsVal}
    (h : cutFirst PG_ARRAY_CAST_TOKEN.toList sql ≠ none) :
    renderPlaceholders (resolvePgArrayCast sql values) .postgres ≠ renderPlaceholders sql .postgres := by
  obtain ⟨⟨a, b⟩, hcut⟩ := Option.ne_none_iff_exists'.mp h
  have hsql := cutFirst_some hcut
  have htoken : ∀ c ∈ PG_ARRAY_CAST_TOKEN.toList, c ≠ '?' ∧ c ≠ '\'' := by simp [PG_ARRAY_CAST_TOKEN]
  have htypes : ∀ t ∈ ["int", "numeric", "bigint", "boolean", "timestamp", "text"],
      (∀ c ∈ (t ++ "[]").toList, c ≠ '?' ∧ c ≠ '\'') ∧
        (t ++ "[]").toList.length ≠ PG_ARRAY_CAST_TOKEN.toList.length := by
    simp [PG_ARRAY_CAST_TOKEN, or_imp, forall_and]
  obtain ⟨hplain, hlen⟩ := htypes _ (inferPgElementType_mem values)
  intro heq
  have hcount := congrArg List.length heq
  rw [resolvePgArrayCast, hcut, hsql] at hcount
  change (renderFrom false 0 (a ++ (inferPgElementType values ++ "[]").toList ++ b)).length =
    (renderFrom false 0 (a ++ PG_ARRAY_CAST_TOKEN.toList ++ b)).length at hcount
  rw [length_renderFrom_insert a b hplain, length_renderFrom_insert a b htoken] at hcount
  omega

/-- A compiled composite operation leaves no cast to its values. -/
theorem compiled_castFree {decl : RelationDecl} {resolve : ColumnTypeResolver} {op : RelationOp}
    (h : decl.Plain) (hop : compileRelationOp decl resolve = .ok op)
    (hd : op.dialect = .postgres) (hc : op.keys.isComposite = true) :
    cutFirst PG_ARRAY_CAST_TOKEN.toList op.sql.toList = none := by
  rw [compileRelationOp] at hop
  rcases hsql : compiledBatchSql decl resolve with e | sql
  · rw [hsql] at hop
    cases hop
  · rw [hsql] at hop
    cases hop
    have hpairs := compiledBatchSql_composite hsql hc
    cases resolve with
    | none =>
      simp only [compileCompositeKeyStatic, show decl.dialect = .postgres from hd] at hpairs
      cases hpairs
    | some types =>
      have hfree := atFree_compileCompositeKeyStatic h hd hpairs
      by_contra hcut
      obtain ⟨⟨a, b⟩, heq⟩ := Option.ne_none_iff_exists'.mp hcut
      have htext : sql.toList = a ++ PG_ARRAY_CAST_TOKEN.toList ++ b := cutFirst_some heq
      rw [AtFree, htext] at hfree
      simp [PG_ARRAY_CAST_TOKEN] at hfree

section Keys
variable {H : Host} {op : RelationOp} {parents : List Obj}

theorem pluck_eq : pluck H parents (parentKeyCols op) =
    if op.keys.pairs.length = 1 then firstComponents (relationKeys H op parents)
    else (relationKeys H op parents).map .arr := by
  rw [pluck, parentKeyCols, List.length_map]
  rfl

theorem length_of_single (h : op.keys.isComposite = false) : op.keys.pairs.length = 1 := by
  cases hk : op.keys with
  | single parentKey targetKey => rfl
  | composite pairs hne =>
    rw [hk] at h
    cases h

theorem statement_eq_iff : (eagerPrepared H op parents).sql =
    lazyStatement op (relationKeys H op parents) ↔
      (op.dialect = .postgres → op.keys.isComposite = true →
        cutFirst PG_ARRAY_CAST_TOKEN.toList op.sql.toList = none) := by
  rw [eagerPrepared, prepareSql, lazyStatement]
  by_cases hd : op.dialect = .postgres
  · cases hc : op.keys.isComposite with
    | false =>
      have hpluck : pluck H parents (parentKeyCols op) =
          firstComponents (relationKeys H op parents) := by
        rw [pluck_eq, if_pos (length_of_single hc)]
      simp [hd, hpluck]
    | true =>
      simp only [hd, if_true, true_implies, Bool.true_eq_false, and_false, if_false]
      constructor
      · intro heq
        by_contra hcut
        exact resolved_ne hcut heq
      · intro hcut
        rw [resolvePgArrayCast, hcut]
  · simp [hd]

theorem isTupleSet_map_arr {tuples : List (List JsVal)} (h : tuples ≠ []) :
    isTupleSet (tuples.map .arr) = true := by
  cases tuples with
  | nil => exact absurd rfl h
  | cons t tuples => rfl

/-- Both surfaces bind the keys in one form, unless they are misread. -/
theorem bound_eq (hne : relationKeys H op parents ≠ []) (h : misread H op parents = false) :
    (eagerPrepared H op parents).bound = bindKeys op (relationKeys H op parents) := by
  have hbound : (eagerPrepared H op parents).bound =
      encodeParam op.dialect (pluck H parents (parentKeyCols op)) := rfl
  rw [hbound, pluck_eq, bindKeys]
  cases hk : op.keys with
  | single parentKey targetKey =>
    have hlen : (RelationKeys.single parentKey targetKey).pairs.length = 1 := rfl
    have hsingle : (RelationKeys.single parentKey targetKey).isComposite = false := rfl
    simp only [hlen, hsingle, if_true, Bool.false_eq_true, if_false]
    rw [misread, hk] at h
    by_cases hd : op.dialect = .postgres
    · have htuple : isTupleSet (firstComponents (relationKeys H op parents)) = false := by
        simpa [hd] using h
      rw [encodeParam, if_pos ⟨hd, htuple⟩, if_pos hd]
    · rw [encodeParam, if_neg (fun hand => hd hand.1), if_neg hd]
  | composite pairs hpairs =>
    rw [misread, hk] at h
    have hlen : ¬ (RelationKeys.composite pairs hpairs).pairs.length = 1 := by
      simpa [RelationKeys.pairs] using h
    have hcomposite : (RelationKeys.composite pairs hpairs).isComposite = true := rfl
    rw [if_neg hlen, if_pos hcomposite, encodeParam, isTupleSet_map_arr hne,
      if_neg (fun hand => Bool.noConfusion hand.2)]

end Keys

/-! ## The attached rows -/

section Rows
variable {H : Host} {op : RelationOp}

theorem ids_of_filter_iff {rows : List Obj} (hn : (rows.map Obj.id).Nodup) (p q : Obj → Bool)
    (single : Bool) :
    (Attached.of single (rows.filter p)).ids = (Attached.of single (rows.filter q)).ids ↔
      FilesAlike single p q rows := by
  have hnone : ∀ (rows : List Obj) (r : Obj) (f : Obj → Bool), r.id ∉ rows.map Obj.id →
      r.id ∉ (rows.filter f).map Obj.id := by
    intro rows r f hr hmem
    obtain ⟨s, hs, heq⟩ := List.mem_map.mp hmem
    exact hr (List.mem_map.mpr ⟨s, (List.mem_filter.mp hs).1, heq⟩)
  cases single with
  | false =>
    change (rows.filter p).map Obj.id = (rows.filter q).map Obj.id ↔ ∀ r ∈ rows, p r = q r
    induction rows with
    | nil => simp
    | cons r rows ih =>
      obtain ⟨hr, hn⟩ := List.nodup_cons.mp hn
      rw [List.forall_mem_cons, ← ih hn]
      rcases hp : p r with _ | _
      · rcases hq : q r with _ | _
        · simp [hp, hq]
        · refine iff_of_false ?_ fun h => Bool.noConfusion h.1
          rw [List.filter_cons_of_neg (by simp [hp]), List.filter_cons_of_pos hq, List.map_cons]
          intro heq
          exact hnone rows r p hr (heq ▸ List.mem_cons_self)
      · rcases hq : q r with _ | _
        · refine iff_of_false ?_ fun h => Bool.noConfusion h.1
          rw [List.filter_cons_of_pos hp, List.filter_cons_of_neg (by simp [hq]), List.map_cons]
          intro heq
          exact hnone rows r q hr (heq ▸ List.mem_cons_self)
        · simp [hp, hq]
  | true =>
    have hfirst : ∀ f : Obj → Bool, (Attached.of true (rows.filter f)).ids =
        (rows.find? f).toList.map Obj.id := by
      intro f
      rw [← List.head?_filter]
      rfl
    rw [hfirst, hfirst]
    change _ ↔ ∀ r, rows.find? (fun r => p r || q r) = some r → p r = q r
    clear hfirst
    induction rows with
    | nil => simp
    | cons r rows ih =>
      obtain ⟨hr, hn⟩ := List.nodup_cons.mp hn
      have hother : ∀ f : Obj → Bool, [r.id] ≠ (rows.find? f).toList.map Obj.id := by
        intro f heq
        obtain ⟨s, hs, hid⟩ := List.mem_map.mp (heq ▸ List.mem_cons_self : r.id ∈ _)
        exact hr (List.mem_map.mpr ⟨s, List.mem_of_find?_eq_some (Option.mem_toList.mp hs), hid⟩)
      rcases hp : p r with _ | _
      · rcases hq : q r with _ | _
        · simpa [List.find?_cons, hp, hq] using ih hn
        · refine iff_of_false ?_ ?_
          · simpa [List.find?_cons, hp, hq] using (hother p).symm
          · intro h
            have heq := h r (by simp [hp, hq])
            rw [hp, hq] at heq
            cases heq
      · rcases hq : q r with _ | _
        · refine iff_of_false ?_ ?_
          · simpa [List.find?_cons, hp, hq] using hother q
          · intro h
            have heq := h r (by simp [hp])
            rw [hp, hq] at heq
            cases heq
        · simp [hp, hq]

theorem materializeRow_id {row row' : Obj} (h : materializeRow H op row = .ok row') :
    row'.id = row.id := by
  rw [materializeRow] at h
  rcases hcols : row.cols.mapM (materializeColumn H op) with e | cols
  · rw [hcols] at h
    cases h
  · rw [hcols] at h
    cases h
    rfl

theorem materialized_id (row : Obj) : (materialized H op row).id = row.id := by
  rw [materialized]
  split
  · next h => exact materializeRow_id h
  · rfl

theorem materializeChildRows_ok {rows rows' : List Obj} :
    materializeChildRows H op rows = .ok rows' ↔
      (∀ r ∈ rows, (materializeRow H op r).isOk) ∧ rows' = rows.map (materialized H op) := by
  induction rows generalizing rows' with
  | nil =>
    rw [materializeChildRows, List.mapM_nil]
    constructor
    · intro h
      cases h
      exact ⟨fun _ hr => absurd hr List.not_mem_nil, rfl⟩
    · rintro ⟨_, rfl⟩
      rfl
  | cons r rows ih =>
    rw [materializeChildRows, List.mapM_cons, List.forall_mem_cons, List.map_cons, materialized]
    rcases hr : materializeRow H op r with e | r'
    · refine iff_of_false ?_ fun h => Bool.noConfusion h.1.1
      intro h
      cases h
    · have hmap := fun rows' => @ih rows'
      simp only [materializeChildRows] at hmap
      rcases hrows : List.mapM (materializeRow H op) rows with e | rows''
      · simp only [hrows, reduceCtorEq, false_iff, not_and] at hmap
        refine iff_of_false ?_ ?_
        · intro h
          cases h
        · rintro ⟨⟨_, hall⟩, _⟩
          exact hmap _ hall rfl
      · obtain ⟨hall, hmapped⟩ := (hmap rows'').mp hrows
        constructor
        · intro h
          cases h
          exact ⟨⟨rfl, hall⟩, by rw [hmapped]⟩
        · rintro ⟨_, rfl⟩
          rw [hmapped]
          rfl

theorem filedUnder_eq_filter (keys : List (String × String)) (parent : Obj) (rows : List Obj) :
    filedUnder H keys parent rows = rows.filter (filesUnder H keys parent) := rfl

theorem ids_of_map (single : Bool) (f : Obj → Obj) (hf : ∀ r, (f r).id = r.id) (rows : List Obj) :
    (Attached.of single (rows.map f)).ids = (Attached.of single rows).ids := by
  cases single with
  | false =>
    change (rows.map f).map Obj.id = rows.map Obj.id
    rw [List.map_map]
    exact List.map_congr_left fun r _ => hf r
  | true =>
    cases rows with
    | nil => rfl
    | cons r rows => exact congrArg (fun n => [n]) (hf r)

/-- What a parent gets of rows that are materialized first. -/
theorem ids_filedUnder_materialized (parent : Obj) (rows : List Obj) (single : Bool) :
    (Attached.of single (filedUnder H op.keys.pairs parent (rows.map (materialized H op)))).ids =
      (Attached.of single (rows.filter fun r =>
        filesUnder H op.keys.pairs parent (materialized H op r))).ids := by
  rw [filedUnder_eq_filter, List.filter_map]
  exact ids_of_map single _ materialized_id _

/-- Materializing that keeps the texts of the keys files every row as before. -/
theorem filesAlike_of_kept {rows : List Obj}
    (h : ∀ r ∈ rows, ∀ c ∈ targetKeyCols op, ((materialized H op r).get c).nullish =
      (r.get c).nullish ∧ ((materialized H op r).get c).text H = (r.get c).text H)
    (parent : Obj) (single : Bool) :
    FilesAlike single (filesUnder H op.keys.pairs parent)
      (fun r => filesUnder H op.keys.pairs parent (materialized H op r)) rows := by
  have hrow : ∀ r ∈ rows, filesUnder H op.keys.pairs parent r =
      filesUnder H op.keys.pairs parent (materialized H op r) := by
    intro r hr
    have hpartial : partialKey ((materialized H op r).tuple (targetKeyCols op)) =
        partialKey (r.tuple (targetKeyCols op)) := by
      rw [partialKey, partialKey, Obj.tuple, Obj.tuple, List.any_map, List.any_map, Bool.eq_iff_iff,
        List.any_eq_true, List.any_eq_true]
      refine exists_congr fun c => and_congr_right fun hc => ?_
      rw [Function.comp_apply, Function.comp_apply, (h r hr c hc).1]
    have htexts : keyIdentity H ((materialized H op r).tuple (targetKeyCols op)) =
        keyIdentity H (r.tuple (targetKeyCols op)) := by
      rw [keyIdentity_eq, keyIdentity_eq, Obj.tuple, Obj.tuple, List.map_map, List.map_map]
      congr 1
      exact List.map_congr_left fun c hc => (h r hr c hc).2
    simp only [targetKeyCols] at hpartial htexts
    rw [filesUnder, filesUnder, hpartial, htexts]
  rw [FilesAlike]
  split
  · intro r hr
    exact hrow r (List.mem_of_find?_eq_some hr)
  · exact hrow

theorem fetched_ids_nodup (rows : List (List (String × JsVal))) :
    ((fetched rows).map Obj.id).Nodup := by
  have hids : (fetched rows).map Obj.id = List.range' 0 rows.length := by
    rw [fetched, List.map_map]
    exact List.zipIdx_map_snd 0 rows
  rw [hids]
  exact List.nodup_range'

end Rows

/-! ## When the surfaces agree -/

section Agreement
variable {σ : Type} {H : Host} {run : ReadSeam σ} {op : RelationOp} {parents : List Obj}

theorem partialKey_of_keyless (h : relationKeys H op parents = []) {parent : Obj}
    (hp : parent ∈ parents) : partialKey (parent.tuple (parentKeyCols op)) = true := by
  by_contra hfull
  have hmem : parent.tuple (parentKeyCols op) ∈ fullTuples parents (parentKeyCols op) :=
    mem_fullTuples.mpr ⟨parent, hp, rfl, by simpa using hfull⟩
  obtain ⟨t, ht, _⟩ : ∃ t ∈ firsts (keyIdentity H) (fullTuples parents (parentKeyCols op)),
      keyIdentity H t = keyIdentity H (parent.tuple (parentKeyCols op)) := firsts_covers hmem
  rw [← dedupeKeyTuples_eq] at ht
  change t ∈ relationKeys H op parents at ht
  rw [h] at ht
  exact List.not_mem_nil ht

/-- What the rows of a batch give to each parent. -/
def attachedIds (H : Host) (op : RelationOp) (parents rows : List Obj) : List (List Nat) :=
  parents.map fun parent =>
    (Attached.of (isSingle op) (filedUnder H op.keys.pairs parent rows)).ids

theorem attachToParent_ids (parent : Obj) (rows : List Obj) :
    (attachToParent H parent (parentKeyCols op) (groupByKey H rows (targetKeyCols op))
      (isSingle op)).ids =
      (Attached.of (isSingle op) (filedUnder H op.keys.pairs parent rows)).ids :=
  congrArg Attached.ids (attachToParent_eq op.keys.pairs parent rows (isSingle op))

theorem eagerIds_eq (st : σ) : eagerIds H run op parents st =
    (run st (eagerPrepared H op parents).sql (eagerPrepared H op parents).bound).bind fun rows =>
      (assertRelationHardLimit op rows.length).map fun _ =>
        attachedIds H op parents (fetched rows) := by
  rw [eagerIds, eagerRelation, executeSQL]
  change Except.map _ (Except.bind (Except.bind (run st (eagerPrepared H op parents).sql
    (eagerPrepared H op parents).bound) _) _) = _
  rcases run st (eagerPrepared H op parents).sql (eagerPrepared H op parents).bound with e | rows
  · rfl
  · simp only [Except.bind, bind, pure, Except.pure]
    rcases assertRelationHardLimit op rows.length with e | _
    · rfl
    · simp only [Except.map, Except.ok.injEq, group, List.map_map, attachedIds]
      exact List.map_congr_left fun parent _ => attachToParent_ids parent _

theorem lazyIds_keyless (h : relationKeys H op parents = []) (st : σ) :
    lazyIds H run op parents st = .ok (parents.map fun _ => []) := by
  rw [relationKeys] at h
  rw [lazyIds, lazyRelation, runRelationOp, h]
  change Except.ok ((parents.map _).map _) = _
  rw [List.map_map]
  congr 1
  apply List.map_congr_left
  intro parent _
  refine (attachToParent_ids parent []).trans ?_
  cases isSingle op <;> rfl

theorem lazyIds_eq (h : relationKeys H op parents ≠ []) (st : σ) :
    lazyIds H run op parents st =
      (run st (lazyStatement op (relationKeys H op parents))
        (bindKeys op (relationKeys H op parents))).bind fun rows =>
        (assertRelationHardLimit op rows.length).bind fun _ =>
          (materializeChildRows H op (fetched rows)).map fun children =>
            attachedIds H op parents children := by
  have hempty : (dedupeKeyTuples H parents (parentKeyCols op)).isEmpty = false := by
    rw [List.isEmpty_eq_false_iff]
    exact h
  rw [lazyIds, lazyRelation, runRelationOp]
  simp only [hempty, Bool.false_eq_true, if_false]
  change Except.map _ (Except.bind (Except.bind (run st (lazyStatement op (relationKeys H op parents))
    (bindKeys op (relationKeys H op parents))) _) _) = _
  rcases run st (lazyStatement op (relationKeys H op parents))
    (bindKeys op (relationKeys H op parents)) with e | rows
  · rfl
  · simp only [Except.bind, bind, pure, Except.pure]
    rcases assertRelationHardLimit op rows.length with e | _
    · rfl
    · rcases materializeChildRows H op (fetched rows) with e | children
      · rfl
      · simp only [Except.map, List.map_map, attachedIds]
        congr 1
        exact List.map_congr_left fun parent _ => attachToParent_ids parent _

theorem attachedIds_keyless (h : relationKeys H op parents = []) (rows : List Obj) :
    attachedIds H op parents rows = parents.map fun _ => [] := by
  apply List.map_congr_left
  intro parent hp
  rw [filedUnder_of_partialKey _ (partialKey_of_keyless h hp)]
  cases isSingle op <;> rfl

theorem attachedIds_eq_iff (rows : List (List (String × JsVal))) :
    attachedIds H op parents (fetched rows) =
      attachedIds H op parents ((fetched rows).map (materialized H op)) ↔
      ∀ parent ∈ parents, FilesAlike (isSingle op) (filesUnder H op.keys.pairs parent)
        (fun r => filesUnder H op.keys.pairs parent (materialized H op r)) (fetched rows) := by
  rw [attachedIds, attachedIds, List.map_inj_left]
  apply forall₂_congr
  intro parent _
  rw [ids_filedUnder_materialized, filedUnder_eq_filter]
  exact ids_of_filter_iff (fetched_ids_nodup rows) _ _ _

/-- The rows of a batch go to the same parents on both surfaces. -/
theorem answers_agree_iff (rows : List (List (String × JsVal))) :
    ((assertRelationHardLimit op rows.length).map fun _ =>
        attachedIds H op parents (fetched rows)) =
      ((assertRelationHardLimit op rows.length).bind fun _ =>
        (materializeChildRows H op (fetched rows)).map fun children =>
          attachedIds H op parents children) ↔
      (withinLimit op rows.length →
        (∀ r ∈ fetched rows, (materializeRow H op r).isOk) ∧
        ∀ parent ∈ parents, FilesAlike (isSingle op) (filesUnder H op.keys.pairs parent)
          (fun r => filesUnder H op.keys.pairs parent (materialized H op r)) (fetched rows)) := by
  rw [withinLimit]
  rcases assertRelationHardLimit op rows.length with e | _
  · refine iff_of_true rfl fun h => ?_
    cases h
  · simp only [Except.bind, Except.map, true_implies]
    rcases hm : materializeChildRows H op (fetched rows) with e | children
    · refine iff_of_false ?_ ?_
      · intro h
        cases h
      · rintro ⟨hok, _⟩
        rw [materializeChildRows_ok.mpr ⟨hok, rfl⟩] at hm
        cases hm
    · obtain ⟨hok, rfl⟩ := materializeChildRows_ok.mp hm
      simp only [Except.ok.injEq, attachedIds_eq_iff]
      constructor
      · intro h
        exact ⟨hok, h⟩
      · rintro ⟨_, h⟩
        exact h

/-- The two surfaces of a relation agree exactly when its keys are bound in one form or read alike,
its rows are filed alike before and after they are materialized, and the database answers the
generated graph where there are no keys. -/
theorem surfacesAgree_iff (run : ReadSeam σ) (op : RelationOp) (parents : List Obj) :
    SurfacesAgree H run op parents ↔ SurfacesSafe H run op parents := by
  by_cases hkeys : relationKeys H op parents = []
  · constructor
    · intro h
      refine ⟨fun hne => absurd hkeys hne, fun hne => absurd hkeys hne,
        fun hne => absurd hkeys hne, fun _ st => ?_⟩
      have hok := (h.keyless hkeys st).1
      rw [eagerIds_eq] at hok
      rcases hrun : run st (eagerPrepared H op parents).sql (eagerPrepared H op parents).bound with
        e | rows
      · rw [hrun] at hok
        cases hok
      · refine ⟨rows, rfl, ?_⟩
        rw [withinLimit]
        rw [hrun] at hok
        simp only [Except.bind] at hok
        rcases hlimit : assertRelationHardLimit op rows.length with e | u
        · rw [hlimit] at hok
          cases hok
        · rfl
    · intro h
      have heager : ∀ st, eagerIds H run op parents st = .ok (parents.map fun _ => []) := by
        intro st
        obtain ⟨rows, hrun, hlimit⟩ := h.answered hkeys st
        rw [withinLimit] at hlimit
        rw [eagerIds_eq, hrun]
        simp only [Except.bind, hlimit, Except.map, attachedIds_keyless hkeys]
      refine ⟨fun hne => absurd hkeys hne, fun hne => absurd hkeys hne, fun st => ?_,
        fun _ st => ⟨heager st, lazyIds_keyless hkeys st⟩⟩
      rw [heager st, lazyIds_keyless hkeys st]
  · have hattached : (eagerPrepared H op parents).sql =
        lazyStatement op (relationKeys H op parents) → (∀ st,
        run st (lazyStatement op (relationKeys H op parents)) (eagerPrepared H op parents).bound =
          run st (lazyStatement op (relationKeys H op parents))
            (bindKeys op (relationKeys H op parents))) → ∀ st,
        (eagerIds H run op parents st = lazyIds H run op parents st ↔
          ∀ rows, run st (lazyStatement op (relationKeys H op parents))
            (bindKeys op (relationKeys H op parents)) = .ok rows → withinLimit op rows.length →
            (∀ r ∈ fetched rows, (materializeRow H op r).isOk) ∧
            ∀ parent ∈ parents, FilesAlike (isSingle op) (filesUnder H op.keys.pairs parent)
              (fun r => filesUnder H op.keys.pairs parent (materialized H op r)) (fetched rows)) := by
      intro hsql hbound st
      rw [eagerIds_eq, lazyIds_eq hkeys, hsql, hbound st]
      rcases run st (lazyStatement op (relationKeys H op parents))
        (bindKeys op (relationKeys H op parents)) with e | rows
      · refine iff_of_true rfl fun rows h => ?_
        cases h
      · simp only [Except.ok.injEq, forall_eq']
        exact answers_agree_iff rows
    constructor
    · intro h
      refine ⟨fun _ => statement_eq_iff.mp (h.statement hkeys), fun hne _ => h.keySet hne,
        fun _ st => ?_, fun hnil => absurd hnil hkeys⟩
      exact (hattached (h.statement hkeys) (h.keySet hkeys) st).mp (h.attached st)
    · intro h
      have hsql : (eagerPrepared H op parents).sql = lazyStatement op (relationKeys H op parents) :=
        statement_eq_iff.mpr (h.castFree hkeys)
      have hbound : ∀ st, run st (lazyStatement op (relationKeys H op parents))
          (eagerPrepared H op parents).bound = run st (lazyStatement op (relationKeys H op parents))
            (bindKeys op (relationKeys H op parents)) := by
        intro st
        rcases hmis : misread H op parents with _ | _
        · rw [bound_eq hkeys hmis]
        · exact h.readAlike hkeys hmis st
      refine ⟨fun _ => hsql, fun _ => hbound, fun st => ?_, fun hnil => absurd hnil hkeys⟩
      exact (hattached hsql hbound st).mpr (h.filedAlike hkeys st)

end Agreement

/-! ## No parents on PostgreSQL -/

/-- `@hasMany(() => [[User.tenantId, Post.tenantId], [User.id, Post.userId]])`. -/
def tenantPosts : RelationDecl where
  name := "posts"
  kind := .hasMany
  targetTable := "posts"
  select := ["tenant_id", "user_id", "title"]
  keys := .composite [("tenant_id", "tenant_id"), ("id", "user_id")] (by simp)
  order := none
  limit := none
  hardLimit := none
  dialect := .postgres
  limited := fun h => absurd h (by simp)

/-- PostgreSQL on `json_array_elements(?::json)`: an empty array parameter arrives as `{}`. -/
def jsonKeysSeam : ReadSeam Unit := fun _ _ bound =>
  match bound with
  | .json _ => .ok []
  | .array _ => .error "cannot call json_array_elements on an object"

/-- The graph sends the empty key set of a composite relation as a native array. -/
theorem no_parents_postgres_fails :
    ∃ op, compileRelationOp tenantPosts (some fun _ => .int) = .ok op ∧
      ¬ SurfacesAgree ⟨fun date => date, fun _ => ""⟩ jsonKeysSeam op [] := by
  obtain ⟨sql, hstatic, hcount⟩ : ∃ sql, compileCompositeKeyStatic tenantPosts (some fun _ => .int)
      ["tenant_id", "user_id"] = .ok sql ∧ sql.toList.count '?' = 1 := ⟨_, rfl, by decide +kernel⟩
  have hsql : compiledBatchSql tenantPosts (some fun _ => .int) = .ok sql := by
    change (compileCompositeKeyStatic tenantPosts (some fun _ => .int)
      ["tenant_id", "user_id"]).bind assembledText = .ok sql
    rw [hstatic]
    exact assembledText_ok.mpr ⟨rfl, hcount⟩
  refine ⟨_, by rw [compileRelationOp, hsql]; rfl, ?_⟩
  intro h
  have hok := (h.keyless rfl ()).1
  cases hok

end LiteDb
