import LiteDbModel.InsertGroups
import LiteDbModel.Carriers

/-!
# `createMany` with returning

`_insert` sends one column pattern as a compiled batch write that names the
model's primary key, and several patterns as one plain statement each. MySQL has
no `RETURNING`: the rows are recovered by a second query that needs that key.
-/

namespace LiteDb
set_option autoImplicit false
open Keyed

/-! ## The statements -/

/-- One `INSERT … RETURNING`; on MySQL a compiled one carries the primary key as a hint. -/
structure InsertStatement where
  columns : List String
  rows : List (List SentCell)
  /-- The rows come out of a `JSON_TABLE`. -/
  isBatch : Bool
  returning : List String
  hint : Option PrimaryKey

/-- `rowsHaveDbToken`. -/
def InsertGroup.hasDbToken (g : InsertGroup) : Bool :=
  g.records.any fun r => g.columns.any fun c => (r.cell c).isToken

/-- `buildInsert`: several records without a token are unnested on PostgreSQL, others bound. -/
def buildInsertCell (dialect : Dialect) (cls : ModelClass) (g : InsertGroup)
    (it : Record × Record) (c : String) : Carrier × Cell :=
  if dialect = .postgres ∧ 1 < g.records.length ∧ g.hasDbToken = false then
    let pgType := pgTypeOf cls.sqlCast c g.rawRecords
    if isArrayType pgType then (.unnestArray pgType, it.2.cell c)
    else if isJsonType pgType then (.unnestText pgType, it.1.cell c)
    else (.unnest pgType, it.1.cell c)
  else if dialect = .postgres then (.bound (boundCast cls.sqlCast c), it.1.cell c)
  else (.bound none, it.1.cell c)

/-- `compileInsertMany`: MySQL and SQLite send the records in one JSON payload. -/
def compileInsertCell (dialect : Dialect) (cls : ModelClass) (g : InsertGroup)
    (it : Record × Record) (c : String) : Carrier × Cell :=
  if g.hasDbToken then buildInsertCell dialect cls g it c
  else
    match dialect with
    | .postgres => buildInsertCell dialect cls g it c
    | .mysql => (.jsonTable (mysqlJsonTableColumn c g.records), it.1.cell c)
    | .sqlite => (.jsonExtract, it.1.cell c)

/-- The cell a statement sends for a column of one of its records. -/
def sentCell (dialect : Dialect) (compiled : Bool) (cls : ModelClass) (g : InsertGroup)
    (it : Record × Record) (c : String) : SentCell :=
  let sent := if compiled then compileInsertCell dialect cls g it c
    else buildInsertCell dialect cls g it c
  ⟨sent.1, compiled, sent.2⟩

def insertStatement (dialect : Dialect) (compiled : Bool) (cls : ModelClass) (g : InsertGroup) :
    InsertStatement where
  columns := g.columns
  rows := g.items.map fun it => g.columns.map fun c => sentCell dialect compiled cls g it c
  isBatch := compiled && decide (dialect = .mysql) && !g.hasDbToken
  returning := cls.pk.columns
  hint := if compiled ∧ dialect = .mysql then some cls.pk else none

/-- The text of a date in a MySQL payload: its local wall clock. -/
abbrev DateStrings := String → String

def mysqlDateCell (dates : DateStrings) : Cell → Cell
  | .val (.date iso) => .val (.str (dates iso))
  | cell => cell

def mysqlDateStrings (dates : DateStrings) (record : Record) : Record where
  cells := record.cells.map fun c => (c.1, mysqlDateCell dates c.2)
  nodup := by
    rw [List.map_map]
    exact record.nodup

/-- The records of one pattern, as the compiled batch write is given them. -/
def scpOptions (dialect : Dialect) (dates : DateStrings) (g : InsertGroup) :
    InsertManyBuildOptions where
  records := if dialect = .mysql then g.records.map (mysqlDateStrings dates) else g.records
  rawRecords := some g.rawRecords
  paired := by
    intro raws heq
    cases heq
    split
    · rw [List.length_map, g.paired]
    · exact g.paired.symm

/-- The groups that are sent: the one pattern of a compiled write is grouped once more. -/
def sentGroups (dialect : Dialect) (compiled : Bool) (dates : DateStrings)
    (groups : List InsertGroup) : List InsertGroup :=
  if compiled then groups.flatMap fun g => compileInsertManyGroups (scpOptions dialect dates g)
  else groups

/-! ## The database -/

/-- The database and its driver, behind the statements. -/
structure Server (S : Type) where
  /-- What a column stores for a value so carried; nothing when the database refuses it. -/
  stores : String → SentCell → Option S
  /-- What a column left out of the statement gets in the next row of a table. -/
  fresh : List (StoredRow S) → String → S
  /-- The constraints of the table. -/
  accepts : List (StoredRow S) → StoredRow S → Bool
  /-- MySQL: the insert id reported for the rows added to a table. -/
  insertId : List (StoredRow S) → List (StoredRow S) → Int
  number : S → Option Int
  /-- MySQL: the column equals the value that a query binds or reads out of its payload. -/
  equals : SentCell → S → Bool
  hasColumn : String → Bool

section Running
variable {S : Type} (srv : Server S)

/-- The row that a list of cells stores, and nothing when a cell or the row is refused. -/
def insertRow (table : List (StoredRow S)) (cells : List (String × SentCell)) :
    Option (StoredRow S) := do
  let values ← cells.mapM fun c => (srv.stores c.1 c.2).map fun s => (c.1, s)
  let row : StoredRow S := fun c => (values.lookup c).getD (srv.fresh table c)
  if srv.accepts table row then some row else none

/-- The rows of one statement, each checked against those before it. -/
def insertRows : List (StoredRow S) → List (List (String × SentCell)) → Option (List (StoredRow S))
  | _, [] => some []
  | table, cells :: rest => do
    let row ← insertRow srv table cells
    let rows ← insertRows (table ++ [row]) rest
    return row :: rows

def InsertStatement.cells (stmt : InsertStatement) : List (List (String × SentCell)) :=
  stmt.rows.map fun row => stmt.columns.zip row

/-- An empty column list is written in `VALUES` form by MySQL alone. -/
def InsertStatement.parses (dialect : Dialect) (stmt : InsertStatement) : Bool :=
  stmt.columns ≠ [] || (decide (dialect = .mysql) && !stmt.isBatch)

/-- What the statement binds, one value for each placeholder. -/
def InsertStatement.params (stmt : InsertStatement) : List SentCell :=
  stmt.rows.flatten.flatMap fun sent =>
    match sent.cell with
    | .val _ => [sent]
    | .immediate _ => []
    | .token _ params => params.map fun v => { sent with cell := .val v }

/-- How the written rows are found again. -/
inductive Reselect
  | range (column : String)
  | payload (key : String)
  | params (keys : List (String × Nat))

/-- The part of `buildMysqlReselect` for an `INSERT … RETURNING` without a conflict clause. -/
def buildMysqlReselect (stmt : InsertStatement) : Except String Reselect :=
  let pk := (stmt.hint.map PrimaryKey.columns).getD []
  let autoInc := stmt.hint.bind PrimaryKey.autoInc
  match autoInc, pk with
  | some a, [c] => if c = a then .ok (.range a) else byKey pk
  | _, [] => .error "scp write(mysql): an INSERT…RETURNING carries no pk hint"
  | _, pk => byKey pk
where
  byKey (pk : List String) : Except String Reselect :=
    if stmt.isBatch then
      match pk with
      | [key] => .ok (.payload key)
      | _ => .error "scp write(mysql): a batch INSERT…RETURNING on the COMPOSITE key"
    else do
      let keys ← pk.mapM fun c =>
        if c ∈ stmt.columns then .ok (c, stmt.columns.idxOf c)
        else .error "scp write(mysql): PK column is not among the INSERT columns"
      return .params keys

/-- The recovering query's predicate, bound as `bindReselect` does. -/
def Reselect.selects (stmt : InsertStatement) (lastId affected : Int) :
    Reselect → StoredRow S → Bool
  | .range column, row =>
    match srv.number (row column) with
    | some n => decide (lastId ≤ n ∧ n < lastId + max 1 affected)
    | none => false
  | .payload key, row => stmt.cells.any fun cells =>
    match cells.lookup key with
    | some sent => srv.equals sent (row key)
    | none => false
  | .params keys, row => keys.all fun k =>
    match stmt.params[k.2]? with
    | some sent => srv.equals sent (row k.1)
    | none => false

/-- What the MySQL driver of the handler returns: the rows in the range of ids it was told. -/
def handlerRows (before news : List (StoredRow S)) : Except String (List (StoredRow S)) :=
  let id := srv.insertId before news
  if news = [] ∨ id ≤ 0 then .ok []
  else if srv.hasColumn "id" then
    .ok ((before ++ news).filter (Reselect.selects srv ⟨[], [], false, [], none⟩ id news.length
      (.range "id")))
  else .error "Unknown column 'id'"

/-- The recovery that the MySQL connection derives before it runs a statement. -/
def recovery (dialect : Dialect) (scp : Bool) (stmt : InsertStatement) :
    Except String (Option Reselect) :=
  if dialect = .mysql ∧ scp = true then (buildMysqlReselect stmt).map some else .ok none

/-- The rows a statement returns. -/
def returnedRows (dialect : Dialect) (r : Option Reselect) (stmt : InsertStatement)
    (before news : List (StoredRow S)) : Except String (List (StoredRow S)) :=
  match dialect, r with
  | .mysql, some r =>
    .ok ((before ++ news).filter (r.selects srv stmt (srv.insertId before news) news.length))
  | .mysql, none => handlerRows srv before news
  | _, _ => .ok news

/-- Run one statement: the table it leaves and the rows it returns. -/
def execInsert (dialect : Dialect) (scp : Bool) (table : List (StoredRow S))
    (stmt : InsertStatement) : Except String (List (StoredRow S) × List (StoredRow S)) := do
  let r ← recovery dialect scp stmt
  if stmt.parses dialect = false then throw "syntax error"
  match insertRows srv table stmt.cells with
  | none => throw "refused"
  | some news =>
    let rows ← returnedRows srv dialect r stmt table news
    return (table ++ news, rows)

def execAll (dialect : Dialect) (scp : Bool) : List (StoredRow S) → List InsertStatement →
    Except String (List (StoredRow S) × List (StoredRow S))
  | table, [] => .ok (table, [])
  | table, stmt :: stmts => do
    let (table, rows) ← execInsert srv dialect scp table stmt
    let (table, rest) ← execAll dialect scp table stmts
    return (table, rows ++ rest)

end Running

/-- The compiled runtime is there, and the database is one it serves. -/
def usesScp (dialect : Dialect) (rt : Bool) : Bool := rt && decide (dialect ≠ .sqlite)

/-- `_insert`: one pattern is sent as a compiled write, several as plain statements. -/
def insertStatements (dialect : Dialect) (rt : Bool) (dates : DateStrings) (cls : ModelClass)
    (groups : List InsertGroup) : List InsertStatement :=
  let compiled := usesScp dialect rt && decide (groups.length = 1)
  (sentGroups dialect compiled dates groups).map (insertStatement dialect compiled cls)

/-- The groups that `createMany` inserts, after it has dropped the skipped pairs. -/
def createGroups (cls : ModelClass) (pairsArray : List (List Pair)) : List InsertGroup :=
  groupedByPattern cls.serializers (pairsArray.map pairsToRecord)

def ModelClass.key {S : Type} (cls : ModelClass) (row : StoredRow S) : List S :=
  cls.pk.columns.map row

/-- `createMany` with returning: the table it leaves and the key of each row. -/
def createMany {S : Type} (srv : Server S) (dialect : Dialect) (rt : Bool) (dates : DateStrings)
    (cls : ModelClass) (table : List (StoredRow S)) (pairsArray : List (List Pair)) :
    Except String (List (StoredRow S) × List (List S)) := do
  let stmts := insertStatements dialect rt dates cls (createGroups cls pairsArray)
  let (table, rows) ← execAll srv dialect (usesScp dialect rt) table stmts
  return (table, rows.map cls.key)

/-! ## What a caller is promised -/

/-- A value of a record, serialized and bound by itself. -/
def describedCell (dialect : Dialect) (cls : ModelClass) (raw : Record) (c : String) : SentCell :=
  ⟨.bound (if dialect = .postgres then boundCast cls.sqlCast c else none), false,
    (serializeRecord cls.serializers raw).cell c⟩

/-- What a record says of its row: the columns it sets, and no others. -/
def describedCells (dialect : Dialect) (cls : ModelClass) (raw : Record) : List (String × SentCell) :=
  (recordColumns raw).map fun c => (c, describedCell dialect cls raw c)

section Promise
variable {S : Type} (srv : Server S) (dialect : Dialect) (rt : Bool) (dates : DateStrings)
  (cls : ModelClass) (table : List (StoredRow S)) (pairsArray : List (List Pair))

/-- The records in the order their groups are sent. -/
def sentRecords : List Record := (createGroups cls pairsArray).flatMap InsertGroup.rawRecords

/-- The call succeeds, adds the row each record describes, and returns one key for each. -/
def CreatesEach : Prop :=
  ∃ news keys, (sentRecords cls pairsArray).Perm (pairsArray.map pairsToRecord) ∧
    insertRows srv table ((sentRecords cls pairsArray).map (describedCells dialect cls)) =
      some news ∧
    createMany srv dialect rt dates cls table pairsArray = .ok (table ++ news, keys) ∧
    keys.Perm (news.map cls.key) ∧ keys.length = pairsArray.length

/-- The statements in order: each one's rows, and what the handler's driver finds of them. -/
def handlerFinds : List (StoredRow S) → List InsertStatement → Except String (List (StoredRow S))
  | _, [] => .ok []
  | table, stmt :: stmts =>
    match insertRows srv table stmt.cells with
    | none => .error "refused"
    | some news => do
      let rows ← handlerRows srv table news
      let rest ← handlerFinds (table ++ news) stmts
      return rows ++ rest

/-- The keys of the new rows can be read back. PostgreSQL and SQLite return them; the compiled
MySQL runtime needs a single statement, a usable key hint and a query that finds the new rows
and no others; its handler needs the ids it was told to span them. -/
def Recovers (news : List (StoredRow S)) : Prop :=
  match dialect, rt with
  | .mysql, true =>
    createGroups cls pairsArray = [] ∨
    ∃ stmt r, insertStatements .mysql true dates cls (createGroups cls pairsArray) = [stmt] ∧
      (createGroups cls pairsArray).length = 1 ∧
      buildMysqlReselect stmt = .ok r ∧
      (((table ++ news).filter (r.selects srv stmt (srv.insertId table news) news.length)).map
        cls.key).Perm (news.map cls.key)
  | .mysql, false =>
    ∃ rows, handlerFinds srv table
        (insertStatements .mysql false dates cls (createGroups cls pairsArray)) = .ok rows ∧
      (rows.map cls.key).Perm (news.map cls.key)
  | _, _ => True

/-- Every statement names a column where it must, its cells store what the records describe,
and the new keys can be read back. -/
def CreatesSafely : Prop :=
  let stmts := insertStatements dialect rt dates cls (createGroups cls pairsArray)
  ∃ news, insertRows srv table ((sentRecords cls pairsArray).map (describedCells dialect cls)) =
      some news ∧
    insertRows srv table (stmts.flatMap InsertStatement.cells) = some news ∧
    (∀ stmt ∈ stmts, stmt.parses dialect = true) ∧
    Recovers srv dialect rt dates cls table pairsArray news

end Promise

end LiteDb
