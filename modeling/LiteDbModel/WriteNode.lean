import LiteDbModel.Carriers
import LiteDbModel.CellTypes
import LiteDbModel.Conditions
import LiteDbModel.MysqlReturning
import LiteDbModel.RelationOp

/-!
# Compiling a write node

A write node carries its table, its values and its WHERE members as ports. The compiler writes
the statement's text with a question mark for every value; the parameters and the columns they
belong to are collected beside it.
-/

namespace LiteDb.WriteNode
set_option autoImplicit false
open Json (quote)
open MysqlReturning (nameList mysqlPkHint)

/-! ## Ports -/

abbrev Ports := List (String × JsVal)

inductive Component
  | insert
  | update
  | delete
  | select
deriving DecidableEq

def Component.name : Component → String
  | insert => "Insert"
  | update => "Update"
  | delete => "Delete"
  | select => "Select"

structure WriteNodeLike where
  component : Component
  ports : Ports

/-- `JSON.stringify` in the texts of errors. -/
def stringify (v : JsVal) : String :=
  match jsonTree v with
  | none => "undefined"
  | some t => String.ofList ((t.map (documentedLeaf .postgres)).text scalarText quote)

def stringPort (ports : Ports) (name : String) : Except String (Option String) :=
  match ports.lookup name with
  | none | some .undefined => .ok none
  | some (.str s) => .ok (some s)
  | some v => .error ("compileWriteNode: port '" ++ name ++
      "' must be a literal string in the IR (got " ++ stringify v ++ ")")

/-- The field of a port of the family. -/
def fieldOf (family port : String) : Option String :=
  if (family ++ ".").toList <+: port.toList then
    some (String.ofList (port.toList.drop (family ++ ".").toList.length))
  else none

/-- `<family>.<field>` ports, in their order. -/
def collectFamily (ports : Ports) (family : String) : Ports :=
  ports.filterMap fun p => (fieldOf family p.1).map fun field => (field, p.2)

def collectSqlCast (ports : Ports) : Except String (List (String × String)) :=
  (collectFamily ports "sqlCast").mapM fun p =>
    match p.2 with
    | .str sqlCast => .ok (p.1, sqlCast)
    | v => .error ("compileWriteNode: port 'sqlCast." ++ p.1 ++
        "' (a sqlCast type) must be a literal string in the IR (got " ++ stringify v ++ ")")

/-- What follows the question mark of a column's value. -/
def castSuffix (dialect : Dialect) (sqlCastMap : List (String × String)) (column : String) : String :=
  match sqlCastMap.lookup column with
  | none => ""
  | some sqlCast =>
    if dialect ≠ .postgres ∨ sqlCast = "timestamp" ∨ sqlCast = "date" then "" else "::" ++ sqlCast

def castPlaceholder (dialect : Dialect) (sqlCastMap : List (String × String)) (column : String) :
    String := "?" ++ castSuffix dialect sqlCastMap column

/-- `s.split(',').map(trim).filter(nonempty)` -/
def names (s : String) : List String := (nameList s.toList).map String.ofList

/-! ## The WHERE members -/

/-- The only key of an object, and what is under it. -/
def opKey : JsVal → Option (String × JsVal)
  | .obj [(op, args)] => some (op, args)
  | _ => none

def columnOf (node : JsVal) (ctx : String) : Except String String :=
  match opKey node with
  | some (op, path) =>
    if op = "ref" ∨ op = "refOpt" then
      match path with
      | .arr xs =>
        match xs.getLast? with
        | some (.str column) => .ok column
        | _ => .error ("compileWriteNode: " ++ ctx ++
            ": column ref path must be a non-empty string path")
      | _ => .error ("compileWriteNode: " ++ ctx ++
          ": column ref path must be a non-empty string path")
    else .error ("compileWriteNode: " ++ ctx ++ ": the column operand must be a {ref:[…]} path")
  | none => .error ("compileWriteNode: " ++ ctx ++ ": the column operand must be a {ref:[…]} path")

def binOperands (args : JsVal) (op ctx : String) : Except String (JsVal × JsVal) :=
  match args with
  | .arr [col, val] => .ok (col, val)
  | _ => .error ("compileWriteNode: " ++ ctx ++ ": '" ++ op ++ "' expects exactly 2 operands")

/-- `CMP_OPS` -/
def cmpOp : String → Option String
  | "lt" => some "<"
  | "le" => some "<="
  | "gt" => some ">"
  | "ge" => some ">="
  | "ne" => some "<>"
  | _ => none

def probe : CondVal := .js (.str "__probe__") rfl

def v1ConditionText (key : String) (v : CondVal) : String :=
  (compile none (.mk [(key, v)] .and [])).sql

/-- A piece of WHERE text with its deferred parameters and their columns. -/
structure WhereFragment where
  sql : String
  params : List JsVal
  columns : List String

/-- The column and the value of a member's operands. -/
def operands (args : JsVal) (op ctx : String) : Except String (String × JsVal) := do
  let (col, val) ← binOperands args op ctx
  let column ← columnOf col ctx
  return (column, val)

def eqMember (column : String) (val : JsVal) : WhereFragment :=
  match val with
  | .null => ⟨v1ConditionText column (.js .null isAtom_null), [], []⟩
  | val => ⟨v1ConditionText column probe, [val], [column]⟩

def cmpMember (op symbol column : String) (val : JsVal) : WhereFragment :=
  match op, val with
  | "ne", .null => ⟨v1ConditionText (column ++ " IS NOT NULL") (.js (.bool true) isAtom_true), [], []⟩
  | _, val => ⟨v1ConditionText (column ++ " " ++ symbol ++ " ?") probe, [val], [column]⟩

def lowerWhereMember (node : JsVal) (ctx : String) (dialect : Dialect) :
    Except String WhereFragment :=
  match opKey node with
  | none => .error ("compileWriteNode: " ++ ctx ++
      ": a where member must be a single-operator Expression node")
  | some (op, args) =>
    if op = "in" then
      (operands args op ctx).map fun (column, val) =>
        ⟨v1ConditionText (inListPredicate dialect column) probe, [val], [column]⟩
    else if op = "eq" then
      (operands args op ctx).map fun (column, val) => eqMember column val
    else
      match cmpOp op with
      | some symbol => (operands args op ctx).map fun (column, val) => cmpMember op symbol column val
      | none => .error ("compileWriteNode: " ++ ctx ++ ": unsupported where operator '" ++ op ++
          "' (write path supports eq/ne/lt/le/gt/ge)")

def whereMembers (ports : Ports) (ctx : String) : Except String (List JsVal) :=
  match ports.lookup "where" with
  | none | some .undefined => .ok []
  | some (.obj ps) =>
    match ps.lookup "arr" with
    | some (.arr members) => .ok members
    | _ => .error ("compileWriteNode: " ++ ctx ++ ": 'where' must be an {arr:[…]} literal")
  | some _ => .error ("compileWriteNode: " ++ ctx ++ ": 'where' must be an {arr:[…]} literal")

def lowerWherePort (ports : Ports) (ctx : String) (dialect : Dialect) :
    Except String WhereFragment := do
  let members ← whereMembers ports ctx
  let fs ← members.zipIdx.mapM fun m =>
    lowerWhereMember m.1 (ctx ++ ".where[" ++ countText m.2 ++ "]") dialect
  return ⟨" AND ".intercalate (fs.map WhereFragment.sql), fs.flatMap WhereFragment.params,
    fs.flatMap WhereFragment.columns⟩

/-! ## Tails -/

def returningColumns (ports : Ports) : Except String (List String) :=
  (stringPort ports "returning").map fun r => (r.map names).getD []

def returningTail (ports : Ports) : Except String String :=
  (stringPort ports "returning").map fun r => (r.map fun r => " RETURNING " ++ r).getD ""

/-- What becomes of a row that is there already. -/
inductive OnConflict
  | none
  | ignore (columns : List String)
  | update (columns : List String)

/-- `onConflictJsonOpts` -/
def onConflictOpts (ports : Ports) : Except String OnConflict := do
  match ← stringPort ports "onConflict" with
  | none => return .none
  | some conflict =>
    let action ← stringPort ports "onConflictAction"
    return if action.getD "update" = "ignore" then .ignore (names conflict) else .update (names conflict)

def assignments (cols : List String) (value : String → String) : String :=
  commas (cols.map fun c => c ++ " = " ++ value c)

def onConflictTail (dialect : Dialect) (cols : List String) : OnConflict → String
  | .none => ""
  | .ignore conflictCols =>
    let first := conflictCols.head?.getD "undefined"
    if dialect = .mysql then " ON DUPLICATE KEY UPDATE " ++ first ++ " = " ++ first
    else " ON CONFLICT (" ++ commas conflictCols ++ ") DO NOTHING"
  | .update conflictCols =>
    if dialect = .mysql then
      " ON DUPLICATE KEY UPDATE " ++ assignments cols fun c => "VALUES(" ++ c ++ ")"
    else
      " ON CONFLICT (" ++ commas conflictCols ++ ") DO UPDATE SET " ++
        assignments cols fun c => "excluded." ++ c

def pkPort (ports : Ports) : Except String (Option PrimaryKey) := do
  match ← stringPort ports "pk" with
  | none => return none
  | some pk =>
    if names pk = [] then return none
    else
      let autoInc ← stringPort ports "autoInc"
      return some ⟨names pk, autoInc⟩

/-! ## The batch builders -/

/-- The `if (returning)` of the builders. -/
def returningClause (returning : Option String) : String :=
  match returning with
  | none => ""
  | some r => if r = "" then "" else " RETURNING " ++ r

/-- `mysqlInsertJson` without rows to look at: every column is JSON and unquoted. -/
def mysqlInsertJson (table : String) (cols : List String) (conflict : OnConflict)
    (returning : Option String) : String :=
  let source := "SELECT " ++ commas (cols.map fun c => "JSON_UNQUOTE(jt." ++ c ++ ")") ++
    " FROM JSON_TABLE(?, '$[*]' COLUMNS(" ++
      commas (cols.map fun c => c ++ " JSON PATH '$." ++ c ++ "'") ++ ")) jt"
  let into := " INTO " ++ table ++ " (" ++ commas cols ++ ") " ++ source
  (match conflict with
    | .none => "INSERT" ++ into
    | .ignore _ => "INSERT IGNORE" ++ into
    | .update _ => "INSERT" ++ into ++ " ON DUPLICATE KEY UPDATE " ++
        assignments cols fun c => "VALUES(" ++ c ++ ")") ++ returningClause returning

def sqliteInsertJson (table : String) (cols : List String) (conflict : OnConflict)
    (returning : Option String) : String :=
  let source := "SELECT " ++ commas (cols.map fun c => "json_extract(value, '$." ++ c ++ "')") ++
    " FROM json_each(?)"
  let into := " INTO " ++ table ++ " (" ++ commas cols ++ ") " ++ source
  (match conflict with
    | .none => "INSERT" ++ into
    | .ignore _ => "INSERT OR IGNORE" ++ into
    | .update conflictCols => "INSERT" ++ into ++ " WHERE true ON CONFLICT (" ++
        commas conflictCols ++ ") DO UPDATE SET " ++ assignments cols fun c => "excluded." ++ c) ++
    returningClause returning

def mysqlUpdateManyJson (table : String) (keyCols updateCols : List String)
    (returning : Option String) : String :=
  let value := fun c => "JSON_UNQUOTE(v." ++ c ++ ")"
  "UPDATE " ++ table ++ " AS u JOIN JSON_TABLE(?, '$[*]' COLUMNS(" ++
    commas ((keyCols ++ updateCols).map fun c => c ++ " JSON PATH '$." ++ c ++ "'") ++ ")) AS v ON " ++
    " AND ".intercalate (keyCols.map fun k => "u." ++ k ++ " = " ++ value k) ++ " SET " ++
    commas (updateCols.map fun c => "u." ++ c ++ " = " ++ value c) ++ returningClause returning

def sqliteUpdateManyJson (table : String) (keyCols updateCols : List String)
    (returning : Option String) : String :=
  let keyMatch := " AND ".intercalate (keyCols.map fun k =>
    "json_extract(je.value, '$." ++ k ++ "') = " ++ table ++ "." ++ k)
  let target := match keyCols with
    | [k] => k
    | _ => "(" ++ commas (keyCols.map fun k => table ++ "." ++ k) ++ ")"
  "UPDATE " ++ table ++ " SET " ++
    commas (updateCols.map fun c => c ++ " = (SELECT json_extract(je.value, '$." ++ c ++
      "') FROM json_each(?) je WHERE " ++ keyMatch ++ " LIMIT 1)") ++
    " WHERE " ++ target ++ " IN (SELECT " ++
    commas (keyCols.map fun k => "json_extract(value, '$." ++ k ++ "')") ++ " FROM json_each(?))" ++
    returningClause returning

/-- A value whose type stands for the column's. -/
def pgTypeSpecimen (sqlType : String) : Except String JsVal := do
  match ← CellTypes.sqlTypeToMaterializeClass sqlType.toList with
  | some .int => return .bigint 0
  | some .bool => return .bool false
  | some .date => return .date "1970-01-01T00:00:00.000Z"
  | none =>
    let scalar ← CellTypes.sqlTypeToBcScalar sqlType.toList
    return if scalar = .float then .num (.fin (Decimal.Dec.ofParts 5 (-1))) else .str ""

/-- A column with the type that the `UNNEST` list casts its array to. -/
abbrev TypedColumn := String × String

/-- `buildInsert` on two records of the specimens. -/
def pgInsertSql (table : String) (cols : List TypedColumn) (conflict : OnConflict)
    (returning : Option String) : String :=
  let list := commas (cols.map Prod.fst)
  "INSERT INTO " ++ table ++ " (" ++ list ++ ") SELECT " ++
    commas (cols.map fun c => "v." ++ c.1) ++ " FROM UNNEST(" ++
    commas (cols.map fun c => "?::" ++ c.2 ++ "[]") ++ ") AS v(" ++ list ++ ")" ++
    (match conflict with
      | .none => ""
      | .ignore conflictCols => " ON CONFLICT (" ++ commas conflictCols ++ ") DO NOTHING"
      | .update conflictCols => " ON CONFLICT (" ++ commas conflictCols ++ ") DO UPDATE SET " ++
          assignments (cols.map Prod.fst) fun c => "EXCLUDED." ++ c) ++ returningClause returning

/-- `buildUpdateMany` on two records of the specimens. -/
def pgUpdateSql (table : String) (keyCols updateCols : List TypedColumn)
    (returning : Option String) : String :=
  let elem := fun t : String => if t = "timestamp" then "timestamptz" else t
  "UPDATE " ++ table ++ " AS t SET " ++
    assignments (updateCols.map Prod.fst) (fun c => "v." ++ c) ++ " FROM UNNEST(" ++
    commas ((keyCols ++ updateCols).map fun c => "?::" ++ elem c.2 ++ "[]") ++ ") AS v(" ++
    commas ((keyCols ++ updateCols).map Prod.fst) ++ ") WHERE " ++
    " AND ".intercalate (keyCols.map fun k => "t." ++ k.1 ++ " = v." ++ k.1) ++
    returningClause returning

/-! ## The compiler -/

/-- A deferred parameter. -/
inductive TxParam
  | expr (e : JsVal)
  /-- The rows of a batch as one JSON document, by the arrays of its columns. -/
  | batchRows (columns : List String) (refs : List JsVal) (dialect : Dialect)
  /-- The array of one column. -/
  | batchArray (column : String) (ref : JsVal) (dialect : Dialect)

structure WriteMeta where
  table : String
  bindColumns : List String
  returning : List String
  onConflict : Option String
  batch : Bool

structure TxOp where
  sql : String
  params : List TxParam
  pk : Option PrimaryKey
  writeMeta : Option WriteMeta

/-- The declared type of a table's column; an undeclared one is an error. -/
abbrev ColumnTypeResolver := String → String → Except String String

def valueOf (family : Ports) (c : String) : JsVal := (family.lookup c).getD .undefined

/-- The columns of a family in the canonical order. -/
def sorted (family : Ports) : List String := (family.map Prod.fst).mergeSort sortsBefore

def typedColumns (resolve : ColumnTypeResolver) (table : String) (cols : List String) :
    Except String (List TypedColumn) :=
  cols.mapM fun c => do
    let specimen ← pgTypeSpecimen (← resolve table c)
    return (c, inferPgType specimen)

def pgBatchArrayParams (cols : List String) (refFor : String → JsVal) (dialect : Dialect) :
    List TxParam := cols.map fun c => .batchArray c (refFor c) dialect

def needsResolver (write : String) : String :=
  "compileWriteNode: batch " ++ write ++ " on postgres needs the column-type resolver (schema SoT) " ++
    "to derive the UNNEST element casts — pass it through compileCreateManyBundle (the " ++
    "decorator-adapter batch write path)."

def compileInsertBatch (ports : Ports) (table : String) (values : Ports) (dialect : Dialect)
    (resolve : Option ColumnTypeResolver) : Except String TxOp := do
  let cols := sorted values
  match dialect, resolve with
  | .postgres, none => .error (needsResolver "insert")
  | .postgres, some resolve =>
    let typed ← typedColumns resolve table cols
    let conflict ← onConflictOpts ports
    let returning ← stringPort ports "returning"
    return ⟨pgInsertSql table typed conflict returning,
      pgBatchArrayParams cols (valueOf values) dialect, none, none⟩
  | dialect, _ =>
    let conflict ← onConflictOpts ports
    let returning ← stringPort ports "returning"
    let sql := if dialect = .mysql then mysqlInsertJson table cols conflict returning
      else sqliteInsertJson table cols conflict returning
    let pk ← pkPort ports
    let onConflict ← stringPort ports "onConflict"
    let returned ← returningColumns ports
    return ⟨sql, [.batchRows cols (cols.map (valueOf values)) dialect], pk,
      some ⟨table, cols, returned, onConflict, true⟩⟩

def compileInsert (ports : Ports) (table : String) (sqlCastMap : List (String × String))
    (values : Ports) (dialect : Dialect) : Except String TxOp := do
  let cols := sorted values
  let conflict ← onConflictOpts ports
  let tail ← returningTail ports
  let pk ← pkPort ports
  let onConflict ← stringPort ports "onConflict"
  let returned ← returningColumns ports
  return ⟨"INSERT INTO " ++ table ++ " (" ++ commas cols ++ ") VALUES (" ++
      commas (cols.map (castPlaceholder dialect sqlCastMap)) ++ ")" ++
      onConflictTail dialect cols conflict ++ tail,
    cols.map fun c => .expr (valueOf values c), pk, some ⟨table, cols, returned, onConflict, false⟩⟩

def compileUpdateBatch (ports : Ports) (table : String) (set : Ports) (dialect : Dialect)
    (resolve : Option ColumnTypeResolver) : Except String TxOp := do
  let key := collectFamily ports "key"
  let keyCols := sorted key
  if keyCols = [] then
    .error "compileWriteNode: batch Update requires at least one 'key.<field>' port"
  else
    let updateCols := sorted set
    let refFor := fun c => if c ∈ keyCols then valueOf key c else valueOf set c
    match dialect, resolve with
    | .postgres, none => .error (needsResolver "update")
    | .postgres, some resolve =>
      let typedKeys ← typedColumns resolve table keyCols
      let typedUpdates ← typedColumns resolve table updateCols
      let returning ← stringPort ports "returning"
      let qualified := returning.map fun r => commas ((names r).map fun c => "t." ++ c)
      return ⟨pgUpdateSql table typedKeys typedUpdates qualified,
        pgBatchArrayParams (keyCols ++ updateCols) refFor dialect, none, none⟩
    | dialect, _ =>
      let returning ← stringPort ports "returning"
      let sql := if dialect = .mysql then mysqlUpdateManyJson table keyCols updateCols returning
        else sqliteUpdateManyJson table keyCols updateCols returning
      let marker := TxParam.batchRows (keyCols ++ updateCols)
        (keyCols.map (valueOf key) ++ updateCols.map (valueOf set)) dialect
      let pk ← pkPort ports
      let returned ← returningColumns ports
      return ⟨sql, List.replicate (sql.toList.count '?') marker, pk,
        some ⟨table, keyCols ++ updateCols, returned, none, true⟩⟩

def whereTail (sql : String) : String := if sql = "" then "" else " WHERE " ++ sql

def compileUpdate (ports : Ports) (table : String) (sqlCastMap : List (String × String))
    (set : Ports) (dialect : Dialect) : Except String TxOp := do
  let cond ← lowerWherePort ports "Update" dialect
  let setCols := set.map Prod.fst
  let tail ← returningTail ports
  let returned ← returningColumns ports
  let pk ← pkPort ports
  return ⟨"UPDATE " ++ table ++ " SET " ++
      commas (setCols.map fun c => c ++ " = " ++ castPlaceholder dialect sqlCastMap c) ++
      whereTail cond.sql ++ tail,
    (setCols.map (valueOf set) ++ cond.params).map .expr, pk,
    some ⟨table, setCols ++ cond.columns, returned, none, false⟩⟩

def compileDelete (ports : Ports) (table : String) (dialect : Dialect) : Except String TxOp := do
  let cond ← lowerWherePort ports "Delete" dialect
  let tail ← returningTail ports
  let returned ← returningColumns ports
  let pk ← pkPort ports
  return ⟨"DELETE FROM " ++ table ++ whereTail cond.sql ++ tail, cond.params.map .expr, pk,
    some ⟨table, cond.columns, returned, none, false⟩⟩

def compileWriteNodeSql (node : WriteNodeLike) (dialect : Dialect)
    (resolve : Option ColumnTypeResolver) : Except String TxOp := do
  let ports := node.ports
  match ← stringPort ports "table" with
  | none => .error ("compileWriteNode: " ++ node.component.name ++
      " node requires a literal 'table' port")
  | some table =>
    let sqlCastMap ← collectSqlCast ports
    match node.component with
    | .insert =>
      let values := collectFamily ports "values"
      if values = [] then
        .error "compileWriteNode: Insert requires at least one 'values.<field>' port"
      else
        let batch ← stringPort ports "batch"
        if batch = some "true" then compileInsertBatch ports table values dialect resolve
        else compileInsert ports table sqlCastMap values dialect
    | .update =>
      let set := collectFamily ports "set"
      if set = [] then
        .error "compileWriteNode: Update requires at least one 'set.<field>' port"
      else
        let batch ← stringPort ports "batch"
        if batch = some "true" then compileUpdateBatch ports table set dialect resolve
        else compileUpdate ports table sqlCastMap set dialect
    | .delete => compileDelete ports table dialect
    | .select => .error ("compileWriteNode: catalog component '" ++ node.component.name ++
        "' has no write compile (SQL writes: Insert/Update/Delete)")

/-- `mysqlPkHint` on an operation. -/
def withPkHint (op : TxOp) : TxOp :=
  { op with sql := String.ofList (mysqlPkHint op.sql.toList op.pk (op.writeMeta.bind (·.onConflict))) }

def compileWriteNode (node : WriteNodeLike) (dialect : Dialect)
    (resolve : Option ColumnTypeResolver) : Except String TxOp :=
  (compileWriteNodeSql node dialect resolve).map fun op =>
    if dialect = .mysql then withPkHint op else op

end LiteDb.WriteNode
