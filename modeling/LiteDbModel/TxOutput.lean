import LiteDbModel.CellTypes
import LiteDbModel.MysqlReturning
import LiteDbModel.Tx

/-!
# The output type of a transaction

The type of a transaction's result is read off the texts of its plan; the result is gathered while
the statements run.
-/

namespace LiteDb.TxOutput
set_option autoImplicit false
open CellTypes (BcScalar sqlTypeToBcScalar isLineEnd)
open MysqlReturning (hasReturning firstMatch nameList)
open Scan (isWordChar dropWord dropSpaces trim)

/-! ## Plans -/

inductive StatementRole
  | body
  | derive
  | edge
  | emit
deriving DecidableEq

structure TxStatement where
  id : String
  role : StatementRole
  op : TxOp
  binds : Option String

structure TransactionPlan where
  entityFrom : Option String
  statements : List TxStatement

def isBatchPlan (plan : TransactionPlan) : Bool :=
  plan.entityFrom.isNone && plan.statements.all fun s => s.binds.isNone && s.role = .body

/-! ## The target of a write -/

def isNameStart (c : Char) : Bool := isWordChar c && !c.isDigit

/-- `[A-Za-z_][A-Za-z0-9_]*` at the head. -/
def nameAt (cs : List Char) : Option (List Char) :=
  match cs with
  | [] => none
  | c :: _ => if isNameStart c then some (cs.takeWhile isWordChar) else none

/-- What follows `INSERT\s+(?:IGNORE\s+|OR\s+IGNORE\s+)?INTO\s+`. -/
def insertTarget (cs : List Char) : Option (List Char) := do
  let rest ← (dropWord "insert".toList cs).bind dropSpaces
  let ignored := (dropWord "ignore".toList rest).bind dropSpaces
  let orIgnored := (((dropWord "or".toList rest).bind dropSpaces).bind
    (dropWord "ignore".toList)).bind dropSpaces
  let into := fun r => (dropWord "into".toList r).bind dropSpaces
  ((ignored.bind into).or (orIgnored.bind into)).or (into rest)

/-- The table of an `INSERT`, `UPDATE` or `DELETE`. -/
def targetTable (cs : List Char) : Option (List Char) :=
  (((insertTarget cs).bind nameAt).or
    (((dropWord "update".toList cs).bind dropSpaces).bind nameAt)).or
      (((((dropWord "delete".toList cs).bind dropSpaces).bind
        (dropWord "from".toList)).bind dropSpaces).bind nameAt)

/-- A match of `\s*/\*scp:pk=[^*]*\*/` at the head, taken off. -/
def hintAt (cs : List Char) : Option (List Char) :=
  (dropWord "/*scp:pk=".toList (cs.dropWhile Text.isSpace)).bind fun rest =>
    dropWord "*/".toList (rest.dropWhile fun c => c ≠ '*')

def dropHint : List Char → List Char
  | [] => []
  | c :: cs => (hintAt (c :: cs)).getD (c :: dropHint cs)

/-- The group of `RETURNING\s+(.+?)\s*$` at the head: on one line, without the blanks at its end. -/
def returningAt (cs : List Char) : Option (List Char) :=
  (dropWord "returning".toList cs).bind fun rest =>
    let columns := (rest.dropWhile Text.isSpace).reverse.dropWhile Text.isSpace
    if rest.takeWhile Text.isSpace = [] then none
    else if columns = [] then ((rest.drop 1).filter fun c => !isLineEnd c).getLast?.map ([·])
    else if columns.any isLineEnd then none
    else some columns.reverse

def jsonString (cs : List Char) : String := String.ofList (Json.quote (String.ofList cs))

def notRecognized (sql : List Char) : String :=
  "writeouttype: a write body statement's SQL is not a recognized INSERT/UPDATE/DELETE (" ++
    jsonString sql ++ "). The typed de-box must read the target table from the base write. " ++
    "No-assume, no-fallback."

def targetAndReturning (sql : List Char) :
    Except String (List Char × Option (List (List Char))) :=
  match targetTable (trim sql) with
  | none => .error (notRecognized sql)
  | some table =>
    .ok (table, (firstMatch returningAt false (dropHint (trim sql))).map nameList)

/-! ## The derived type -/

/-- The types of the portable notation that a write's result has. -/
inductive PortableType
  | null
  | scalar (s : BcScalar)
  | arr (t : PortableType)
  | opt (t : PortableType)
  | obj (fields : List (String × PortableType))

/-- The declared type of a table's column; an unknown one throws. -/
abbrev ColumnTypeResolver := List Char → List Char → Except String (List Char)

/-- `Object.prototype`'s own names, which `in` finds on every object. -/
def prototypeNames : List String :=
  ["__proto__", "__defineGetter__", "__defineSetter__", "__lookupGetter__", "__lookupSetter__",
    "constructor", "hasOwnProperty", "isPrototypeOf", "propertyIsEnumerable", "toLocaleString",
    "toString", "valueOf"]

def notBare (col table : List Char) : String :=
  "writeouttype: RETURNING column '" ++ String.ofList col ++ "' on '" ++ String.ofList table ++
    "' is not a bare column name (alias / qualified / computed). The typed de-box needs bare " ++
    "schema columns so each maps to a SQL type. No-assume, no-fallback."

def duplicateColumn (col table : List Char) : String :=
  "writeouttype: duplicate RETURNING column '" ++ String.ofList col ++ "' on '" ++
    String.ofList table ++ "'"

/-- The columns' scalars, behind those that are typed already. -/
def columnTypes (table : List Char) (resolve : ColumnTypeResolver)
    (typed : List (String × BcScalar)) : List (List Char) → Except String (List (String × BcScalar))
  | [] => .ok typed
  | col :: cols =>
    if nameAt col ≠ some col then .error (notBare col table)
    else if String.ofList col ∈ prototypeNames ∨ String.ofList col ∈ Props.keys typed then
      .error (duplicateColumn col table)
    else
      match (resolve table col).bind sqlTypeToBcScalar with
      | .error e => .error e
      | .ok scalar => columnTypes table resolve (typed ++ [(String.ofList col, scalar)]) cols

def rowObjType (fields : List (String × BcScalar)) : PortableType :=
  .obj (fields.map fun f => (f.1, .scalar f.2))

def bodyStatements (plan : TransactionPlan) : List TxStatement :=
  plan.statements.filter fun s => s.role = .body

def noBody : String :=
  "writeouttype: the transaction plan has no 'body' write statement — a write bundle must carry " ++
    "at least one base write. Cannot derive its output row type. No-assume, no-fallback."

def differentTables (table t : List Char) : String :=
  "writeouttype: batch write body statements target DIFFERENT tables ('" ++ String.ofList table ++
    "' vs '" ++ String.ofList t ++ "'); the typed de-box requires a homogeneous RETURNING row " ++
    "shape across a batch. No-assume, no-fallback."

/-- `JSON.stringify` of a RETURNING list. -/
def returningText : Option (List (List Char)) → String
  | none => "null"
  | some cols => "[" ++ ",".intercalate (cols.map jsonString) ++ "]"

def differentReturning (table : List Char) (r r' : Option (List (List Char))) : String :=
  "writeouttype: batch write body statements on '" ++ String.ofList table ++
    "' have DIFFERENT RETURNING projections (" ++ returningText r ++ " vs " ++ returningText r' ++
    "); the de-boxed row struct must be identical across a batch. No-assume, no-fallback."

/-- The statements behind the first agree with it. -/
def agreeing (table : List Char) (returning : Option (List (List Char))) :
    List TxStatement → Except String Unit
  | [] => .ok ()
  | s :: rest =>
    match targetAndReturning s.op.sql with
    | .error e => .error e
    | .ok (t, r) =>
      if t ≠ table then .error (differentTables table t)
      else if r ≠ returning then .error (differentReturning table returning r)
      else agreeing table returning rest

def writeTargetReturning (plan : TransactionPlan) :
    Except String (List Char × Option (List (List Char))) :=
  match bodyStatements plan with
  | [] => .error noBody
  | s :: rest =>
    match targetAndReturning s.op.sql with
    | .error e => .error e
    | .ok (table, returning) => (agreeing table returning rest).map fun _ => (table, returning)

/-- The row's columns with their scalars; none without `RETURNING`. -/
def rowFields (plan : TransactionPlan) (resolve : ColumnTypeResolver) :
    Except String (Option (List (String × BcScalar))) :=
  match writeTargetReturning plan with
  | .error e => .error e
  | .ok (_, none) => .ok none
  | .ok (table, some returning) => (columnTypes table resolve [] returning).map some

/-- The fields of the result's type for rows of a type. -/
def outputFields (batch : Bool) (fields : Option (List (String × BcScalar))) :
    List (String × PortableType) :=
  let row := match fields with
    | none => .null
    | some fs => rowObjType fs
  [("committed", .scalar .bool), ("executed", .arr (.scalar .string)), ("entity", .opt row)] ++
    if batch && fields.isSome then [("returnedRows", .opt (.arr (.arr row)))] else []

def deriveWriteOutputType (plan : TransactionPlan) (resolve : ColumnTypeResolver) :
    Except String PortableType :=
  (rowFields plan resolve).map fun fields => .obj (outputFields (isBatchPlan plan) fields)

mutual
/-- A value of the type: an `opt` may be null or absent, an object has its fields and no others. -/
def HasType : PortableType → JsVal → Prop
  | .null, v => v = .null
  | .scalar s, v => s.Holds v
  | .arr t, v => ∃ xs, v = .arr xs ∧ ∀ x ∈ xs, HasType t x
  | .opt t, v => v.nullish = true ∨ HasType t v
  | .obj fields, v => ∃ ps, v = .obj ps ∧ HasFields fields ps ∧
      ∀ k ∈ Props.keys ps, k ∈ Props.keys fields

def HasFields : List (String × PortableType) → List (String × JsVal) → Prop
  | [], _ => True
  | (name, t) :: fields, ps =>
    HasType t ((Props.get ps name).getD .undefined) ∧ HasFields fields ps
end

/-! ## Running a plan -/

abbrev Row := List (String × JsVal)

/-- The reserved root under which the entity is read. -/
def ENTITY_ROOT : String := "__entity"

structure TransactionResult where
  committed : Bool
  entity : Option Row
  executed : List String
  returnedRows : Option (List (List Row))

def entityValue : Option Row → JsVal
  | none => .null
  | some row => .obj row

def TransactionResult.value (r : TransactionResult) : JsVal :=
  .obj ([("committed", .bool r.committed),
    ("entity", entityValue r.entity),
    ("executed", .arr (r.executed.map .str))] ++
    match r.returnedRows with
    | none => []
    | some lists => [("returnedRows", .arr (lists.map fun rows => .arr (rows.map .obj)))])

/-- What the executor has gathered. -/
structure Progress where
  executed : List String := []
  scope : Env
  entity : Option Row := none
  returnedRows : List (List Row) := []

/-- `/\bselect\b/i` on the first eight characters. -/
def startsWithSelect : Bool → List Char → Bool
  | _, [] => false
  | inWord, c :: cs =>
    (!inWord && ((c :: cs).takeWhile isWordChar).map Char.toLower = "select".toList) ||
      startsWithSelect (isWordChar c) cs

def hasReturn (sql : List Char) : Bool :=
  startsWithSelect false (sql.take 8) || hasReturning false sql

section Run
variable (evaluateExpression : JsVal → Env → Except String JsVal) (dialect : Dialect)
  (plan : TransactionPlan)

/-- The rows of a statement that the connection answers with `rows`; a bare write has a summary. -/
def execStatement (op : TxOp) (scope : Env) (rows : List Row) : Except String (List Row) :=
  (evalAssemble evaluateExpression op scope dialect).map fun stmt =>
    if hasReturn stmt.sql then rows else []

/-- The loop's body behind a statement's execution. -/
def Progress.after (p : Progress) (stmt : TxStatement) (rows : List Row) : Progress where
  executed := p.executed ++ [stmt.id]
  entity := if some stmt.id = plan.entityFrom then rows.head? else p.entity
  scope :=
    let scope := if some stmt.id = plan.entityFrom then
      match rows.head? with
      | some row => Props.set p.scope ENTITY_ROOT (.obj row)
      | none => p.scope
      else p.scope
    match stmt.binds, rows.head? with
    | some name, some row => Props.set scope name (.obj row)
    | _, _ => scope
  returnedRows := if isBatchPlan plan && stmt.role = .body && !rows.isEmpty then
    p.returnedRows ++ [rows] else p.returnedRows

def Progress.result (p : Progress) : TransactionResult where
  committed := true
  entity := p.entity
  executed := p.executed
  returnedRows := if p.returnedRows.isEmpty then none else some p.returnedRows

/-- The statements are executed in order, each with the rows it returned. -/
inductive Runs : Progress → List (TxStatement × List Row) → Progress → Prop
  | done (p : Progress) : Runs p [] p
  | step {p p' : Progress} {stmt : TxStatement} {answer rows : List Row}
      {rest : List (TxStatement × List Row)}
      (exec : execStatement evaluateExpression dialect stmt.op p.scope answer = .ok rows)
      (next : Runs (p.after plan stmt rows) rest p') : Runs p ((stmt, rows) :: rest) p'

/-- A run of the plan that commits, with the rows that each statement returned. -/
structure PlanRun (input : Env) (returned : List (TxStatement × List Row))
    (result : TransactionResult) : Prop where
  statements : returned.map Prod.fst = plan.statements
  runs : ∃ p,
    Runs evaluateExpression dialect plan ⟨[], Props.ofEntries input, none, []⟩ returned p ∧
      result = p.result

end Run

/-! ## What the result promises -/

/-- In statement order, the rows of every body statement of a batch. -/
def Listed (plan : TransactionPlan) (returned : List (TxStatement × List Row))
    (result : TransactionResult) : Prop :=
  (result.returnedRows.getD []).flatten =
    if isBatchPlan plan then
      (returned.filter fun s => s.1.role = .body).flatMap Prod.snd
    else []

/-- The row has the columns of the list and no others, none is null, and each is in the form of its
scalar; without a list there is no row. -/
def RowFits (fields : Option (List (String × BcScalar))) (row : Row) : Prop :=
  ∃ fs, fields = some fs ∧ (∀ f ∈ fs, ∃ v, Props.get row f.1 = some v ∧ f.2.Holds v) ∧
    ∀ k ∈ Props.keys row, k ∈ Props.keys fs

/-- The row that the last statement of the entity's id returned first. -/
def entityRow (plan : TransactionPlan) (returned : List (TxStatement × List Row)) : Option Row :=
  ((returned.filter fun s => some s.1.id = plan.entityFrom).getLast?).bind fun s => s.2.head?

/-- The entity fits the row type, and in a batch every returned row. -/
def RowsFit (plan : TransactionPlan) (fields : Option (List (String × BcScalar)))
    (returned : List (TxStatement × List Row)) : Prop :=
  (∀ row ∈ entityRow plan returned, RowFits fields row) ∧
    (isBatchPlan plan = true → ∀ s ∈ returned, ∀ row ∈ s.2, RowFits fields row)

/-! ## Gathering -/

section Gather
variable {evaluateExpression : JsVal → Env → Except String JsVal} {dialect : Dialect}
  {plan : TransactionPlan} {returned : List (TxStatement × List Row)}

/-- The rows that go to `returnedRows`. -/
def kept (plan : TransactionPlan) (returned : List (TxStatement × List Row)) : List (List Row) :=
  (returned.filter fun s => isBatchPlan plan && s.1.role = .body && !s.2.isEmpty).map Prod.snd

variable (plan) in
/-- What one statement adds. -/
theorem after_eq (p : Progress) (stmt : TxStatement) (rows : List Row) :
    (p.after plan stmt rows).entity =
        (if some stmt.id = plan.entityFrom then rows.head? else p.entity) ∧
      (p.after plan stmt rows).executed = p.executed ++ [stmt.id] ∧
      (p.after plan stmt rows).returnedRows = p.returnedRows ++ kept plan [(stmt, rows)] := by
  refine ⟨rfl, rfl, ?_⟩
  rw [Progress.after, kept, List.filter_cons, List.filter_nil]
  dsimp only
  split <;> simp

/-- What a run has gathered: the entity of the last statement of its id, and the kept rows. -/
theorem runs_gather {p p' : Progress} (h : Runs evaluateExpression dialect plan p returned p') :
    p'.entity = ((returned.filter fun s => some s.1.id = plan.entityFrom).getLast?.elim p.entity
        fun s => s.2.head?) ∧
      p'.returnedRows = p.returnedRows ++ kept plan returned := by
  induction h with
  | done p => exact ⟨rfl, (List.append_nil _).symm⟩
  | @step p p' stmt answer rows rest exec next ih =>
    obtain ⟨hentity, hrows⟩ := ih
    obtain ⟨hone, -, hkept⟩ := after_eq plan p stmt rows
    constructor
    · rw [hentity, hone, List.filter_cons]
      by_cases hid : some stmt.id = plan.entityFrom
      · rw [if_pos hid, if_pos (by simpa using hid)]
        cases hrest : rest.filter fun s => some s.1.id = plan.entityFrom with
        | nil => rfl
        | cons s ss =>
          rw [List.getLast?_cons_cons, List.getLast?_cons]
          rfl
      · rw [if_neg hid, if_neg (by simpa using hid)]
    · rw [hrows, hkept, List.append_assoc]
      congr 1
      rw [kept, kept, kept, ← List.map_append, ← List.filter_append, List.singleton_append]

end Gather

/-! ## Rows of the type -/

theorem holds_undefined (s : BcScalar) : ¬ s.Holds .undefined := by
  cases s <;> exact id

theorem hasFields_scalars (fs : List (String × BcScalar)) (ps : Row) :
    HasFields (fs.map fun f => (f.1, .scalar f.2)) ps ↔
      ∀ f ∈ fs, ∃ v, Props.get ps f.1 = some v ∧ f.2.Holds v := by
  induction fs with
  | nil => simp [HasFields]
  | cons f fs ih =>
    rw [List.map_cons, HasFields, ih, List.forall_mem_cons, HasType]
    refine and_congr_left fun _ => ?_
    cases Props.get ps f.1 with
    | none => simpa using holds_undefined f.2
    | some v => simp

/-- The type of a row, `null` without `RETURNING`. -/
def rowType : Option (List (String × BcScalar)) → PortableType
  | none => .null
  | some fs => rowObjType fs

theorem hasType_row (fields : Option (List (String × BcScalar))) (row : Row) :
    HasType (rowType fields) (.obj row) ↔ RowFits fields row := by
  cases fields with
  | none => simp [rowType, HasType, RowFits]
  | some fs =>
    have hkeys : Props.keys (fs.map fun f => (f.1, PortableType.scalar f.2)) = Props.keys fs := by
      rw [Props.keys, Props.keys, List.map_map]
      rfl
    rw [rowType, rowObjType, HasType, RowFits]
    constructor
    · rintro ⟨ps, hps, hfields, hsub⟩
      obtain rfl := JsVal.obj.inj hps
      exact ⟨fs, rfl, (hasFields_scalars fs _).mp hfields, hkeys ▸ hsub⟩
    · rintro ⟨fs', hfs, hfields, hsub⟩
      obtain rfl := Option.some.inj hfs
      exact ⟨row, rfl, (hasFields_scalars fs row).mpr hfields, hkeys.symm ▸ hsub⟩

theorem hasType_entity (fields : Option (List (String × BcScalar))) (entity : Option Row) :
    HasType (.opt (rowType fields)) (entityValue entity) ↔
      ∀ row ∈ entity, RowFits fields row := by
  cases entity with
  | none => simp [entityValue, HasType, JsVal.nullish]
  | some row =>
    rw [entityValue, HasType, hasType_row]
    simp [JsVal.nullish]

theorem hasType_lists (fields : Option (List (String × BcScalar))) (lists : List (List Row)) :
    HasType (.opt (.arr (.arr (rowType fields))))
      (.arr (lists.map fun rows => .arr (rows.map .obj))) ↔
      ∀ rows ∈ lists, ∀ row ∈ rows, RowFits fields row := by
  have hrows : ∀ rows : List Row, HasType (.arr (rowType fields)) (.arr (rows.map .obj)) ↔
      ∀ row ∈ rows, RowFits fields row := by
    intro rows
    rw [HasType]
    simp [hasType_row]
  rw [HasType, HasType]
  simp [JsVal.nullish, hrows]

theorem outputFields_eq (batch : Bool) (fields : Option (List (String × BcScalar))) :
    outputFields batch fields =
      [("committed", .scalar .bool), ("executed", .arr (.scalar .string)),
        ("entity", .opt (rowType fields))] ++
        if batch && fields.isSome then [("returnedRows", .opt (.arr (.arr (rowType fields))))]
        else [] := by
  cases fields <;> rfl

/-- A result has the type exactly when the entity fits, and the lists are typed and fit. -/
theorem hasType_result (batch : Bool) (fields : Option (List (String × BcScalar)))
    (r : TransactionResult) :
    HasType (.obj (outputFields batch fields)) r.value ↔
      (∀ row ∈ r.entity, RowFits fields row) ∧
        ∀ lists ∈ r.returnedRows, (batch && fields.isSome) = true ∧
          ∀ rows ∈ lists, ∀ row ∈ rows, RowFits fields row := by
  have hexecuted : HasType (.arr (.scalar .string)) (.arr (r.executed.map .str)) := by
    rw [HasType]
    refine ⟨_, rfl, ?_⟩
    intro x hx
    obtain ⟨s, -, rfl⟩ := List.mem_map.mp hx
    rw [HasType]
    trivial
  have hcommitted : HasType (.scalar .bool) (.bool r.committed) := by
    rw [HasType]
    trivial
  have hentity := hasType_entity fields r.entity
  have habsent : ∀ t, HasType (.opt t) .undefined := by
    intro t
    rw [HasType]
    exact Or.inl rfl
  have hobj : ∀ (fs : List (String × PortableType)) (ps : Row), HasType (.obj fs) (.obj ps) ↔
      HasFields fs ps ∧ ∀ k ∈ Props.keys ps, k ∈ Props.keys fs := by
    intro fs ps
    rw [HasType]
    exact ⟨fun ⟨ps', hps, h⟩ => JsVal.obj.inj hps ▸ h, fun h => ⟨ps, rfl, h⟩⟩
  rw [outputFields_eq, TransactionResult.value, hobj]
  cases hlists : r.returnedRows with
  | none =>
    cases batch && fields.isSome with
    | true => simp [HasFields, Props.get, Props.keys, hcommitted, hexecuted, hentity, habsent]
    | false => simp [HasFields, Props.get, Props.keys, hcommitted, hexecuted, hentity]
  | some lists =>
    have hrows := hasType_lists fields lists
    cases batch && fields.isSome with
    | true => simp [HasFields, Props.get, Props.keys, hcommitted, hexecuted, hentity, hrows]
    | false => simp [HasFields, Props.get, Props.keys]

/-! ## When the result has its type -/

section Typed
variable {evaluateExpression : JsVal → Env → Except String JsVal} {dialect : Dialect}
  {plan : TransactionPlan} {input : Env} {returned : List (TxStatement × List Row)}
  {result : TransactionResult}

/-- What a run's result is gathered from. -/
theorem PlanRun.gathered (h : PlanRun evaluateExpression dialect plan input returned result) :
    result.entity = entityRow plan returned ∧
      result.returnedRows =
        if (kept plan returned).isEmpty then none else some (kept plan returned) := by
  obtain ⟨p, hruns, rfl⟩ := h.runs
  obtain ⟨hentity, hrows⟩ := runs_gather hruns
  rw [List.nil_append] at hrows
  constructor
  · rw [Progress.result, entityRow]
    dsimp only
    rw [hentity]
    cases (returned.filter fun s => some s.1.id = plan.entityFrom).getLast? <;> rfl
  · rw [Progress.result]
    dsimp only
    rw [hrows]

/-- Every statement of a batch is a body. -/
theorem role_of_batch (hbatch : isBatchPlan plan = true)
    (hstatements : returned.map Prod.fst = plan.statements) {s : TxStatement × List Row}
    (hs : s ∈ returned) : s.1.role = .body := by
  have hall := (Bool.and_eq_true_iff.mp hbatch).2
  have hmem : s.1 ∈ plan.statements := hstatements ▸ List.mem_map_of_mem hs
  have hrole := List.all_eq_true.mp hall _ hmem
  simp only [Bool.and_eq_true, decide_eq_true_eq] at hrole
  exact hrole.2

/-- Empty lists add nothing. -/
theorem flatten_nonempty {α β : Type} (p : α × List β → Bool) (l : List (α × List β)) :
    ((l.filter fun s => p s && !s.2.isEmpty).map Prod.snd).flatten =
      (l.filter p).flatMap Prod.snd := by
  induction l with
  | nil => rfl
  | cons s l ih =>
    rw [List.filter_cons, List.filter_cons]
    cases p s with
    | false => simpa using ih
    | true =>
      cases hs : s.2 with
      | nil => simpa [hs] using ih
      | cons x xs => simpa [hs] using ih

/-- The lists of the result are the rows of all body statements of a batch. -/
theorem listed (h : PlanRun evaluateExpression dialect plan input returned result) :
    Listed plan returned result := by
  have hflat : (result.returnedRows.getD []).flatten = (kept plan returned).flatten := by
    rw [h.gathered.2]
    cases kept plan returned <;> rfl
  rw [Listed, hflat, kept]
  cases hbatch : isBatchPlan plan with
  | false => simp
  | true =>
    rw [if_pos rfl]
    exact flatten_nonempty (fun s => s.1.role = .body) returned

/-- The result of a run has the type that is derived for its plan exactly when the entity, and in a
batch every returned row, has the row's columns, none null and each in its scalar's form. -/
theorem typed_iff {resolve : ColumnTypeResolver} {t : PortableType}
    (ht : deriveWriteOutputType plan resolve = .ok t)
    (h : PlanRun evaluateExpression dialect plan input returned result) :
    (HasType t result.value ∧ Listed plan returned result) ↔
      ∃ fields, rowFields plan resolve = .ok fields ∧ RowsFit plan fields returned := by
  obtain ⟨hentity, hrows⟩ := h.gathered
  cases hfields : rowFields plan resolve with
  | error e =>
    rw [deriveWriteOutputType, hfields] at ht
    cases ht
  | ok fields =>
    rw [deriveWriteOutputType, hfields] at ht
    obtain rfl := Except.ok.inj ht
    rw [and_iff_left (listed h), hasType_result, hentity, hrows]
    simp only [Except.ok.injEq, exists_eq_left']
    refine and_congr_right fun _ => ?_
    cases hbatch : isBatchPlan plan with
    | false =>
      have hnone : kept plan returned = [] := by simp [kept, hbatch]
      simp [hnone]
    | true =>
      have hmem : ∀ s ∈ returned, s.2 ≠ [] → s.2 ∈ kept plan returned := by
        intro s hs hne
        refine List.mem_map.mpr ⟨s, List.mem_filter.mpr ⟨hs, ?_⟩, rfl⟩
        simp [hbatch, role_of_batch hbatch h.statements hs, hne]
      have hback : ∀ rows ∈ kept plan returned, ∃ s ∈ returned, s.2 = rows ∧ rows ≠ [] := by
        intro rows hrows
        obtain ⟨s, hs, rfl⟩ := List.mem_map.mp hrows
        obtain ⟨hs, hkept⟩ := List.mem_filter.mp hs
        exact ⟨s, hs, rfl, by simpa using (Bool.and_eq_true_iff.mp hkept).2⟩
      constructor
      · intro hlists _ s hs row hrow
        have hin := hmem s hs (List.ne_nil_of_mem hrow)
        have hne : (kept plan returned).isEmpty = false := by
          simpa using List.ne_nil_of_mem hin
        exact (hlists _ (by rw [hne]; rfl)).2 _ hin row hrow
      · intro hfit lists hlists
        split at hlists
        · cases hlists
        · next hne =>
          obtain rfl := Option.some.inj hlists
          have hall : ∀ rows ∈ kept plan returned, ∀ row ∈ rows, RowFits fields row := by
            intro rows hrows row hrow
            obtain ⟨s, hs, rfl, -⟩ := hback rows hrows
            exact hfit rfl s hs row hrow
          refine ⟨?_, hall⟩
          -- a kept list has a row, and a row that fits has columns
          obtain ⟨rows, hrows⟩ := List.exists_mem_of_ne_nil _ (by simpa using hne)
          obtain ⟨-, -, -, hnonempty⟩ := hback rows hrows
          obtain ⟨row, hrow⟩ := List.exists_mem_of_ne_nil _ hnonempty
          obtain ⟨fs, rfl, -⟩ := hall rows hrows row hrow
          rfl

end Typed

/-! ## Created users -/

def insertUsers : TxStatement where
  id := "tx_body_0"
  role := .body
  op := ⟨"INSERT INTO users (name) VALUES (?) RETURNING id, name".toList, [.str "ada"]⟩
  binds := none

def createUsers : TransactionPlan := ⟨none, [insertUsers]⟩

/-- `id INTEGER NOT NULL, name TEXT`. -/
def userTypes : ColumnTypeResolver := fun _ col =>
  .ok (if col = "id".toList then "INTEGER NOT NULL".toList else "TEXT".toList)

def userFields : List (String × BcScalar) := [("id", .int), ("name", .string)]

theorem rowFields_users : rowFields createUsers userTypes = .ok (some userFields) := by
  have htarget : targetAndReturning insertUsers.op.sql =
      .ok ("users".toList, some ["id".toList, "name".toList]) := by decide +kernel
  have htypes : columnTypes "users".toList userTypes [] ["id".toList, "name".toList] =
      .ok userFields := by decide +kernel
  have hbodies : bodyStatements createUsers = [insertUsers] := rfl
  rw [rowFields, writeTargetReturning, hbodies]
  simp only [htarget, agreeing, Except.map, htypes]

/-- The run in which the database returns a row. -/
theorem run_users (row : Row) : PlanRun (fun v _ => .ok v) .sqlite createUsers []
    [(insertUsers, [row])] ⟨true, none, ["tx_body_0"], some [[row]]⟩ := by
  have hreturn : hasReturn insertUsers.op.sql = true := by decide +kernel
  have hassemble : evalAssemble (fun v (_ : Env) => .ok v) insertUsers.op [] .sqlite =
      .ok ⟨insertUsers.op.sql, [.str "ada"]⟩ := rfl
  have hexec : execStatement (fun v _ => .ok v) .sqlite insertUsers.op [] [row] = .ok [row] := by
    rw [execStatement, hassemble, Except.map, hreturn]
    rfl
  exact ⟨rfl, _, .step hexec (.done _), rfl⟩

/-- A user with both columns. -/
theorem typed_users : ∃ t, deriveWriteOutputType createUsers userTypes = .ok t ∧
    HasType t (TransactionResult.value ⟨true, none, ["tx_body_0"],
      some [[[("id", .bigint 1), ("name", .str "ada")]]]⟩) ∧
    Listed createUsers [(insertUsers, [[("id", .bigint 1), ("name", .str "ada")]])]
      ⟨true, none, ["tx_body_0"], some [[[("id", .bigint 1), ("name", .str "ada")]]]⟩ := by
  have ht : deriveWriteOutputType createUsers userTypes =
      .ok (.obj (outputFields true (some userFields))) := by
    rw [deriveWriteOutputType, rowFields_users]
    rfl
  refine ⟨_, ht, (typed_iff ht (run_users _)).mpr ⟨_, rowFields_users, ?_, ?_⟩⟩
  · intro row hrow
    cases hrow
  · intro _ s hs row hrow
    obtain rfl := List.mem_singleton.mp hs
    obtain rfl := List.mem_singleton.mp hrow
    refine ⟨userFields, rfl, ?_, ?_⟩
    · intro f hf
      rcases List.mem_cons.mp hf with rfl | hf
      · exact ⟨.bigint 1, rfl, by decide, by decide⟩
      · obtain rfl := List.mem_singleton.mp hf
        exact ⟨.str "ada", rfl, trivial⟩
    · simp [userFields, Props.keys]

/-- The type of a nullable column has no null. -/
theorem null_name_untyped :
    ¬ ∀ evaluateExpression dialect plan input returned result resolve t,
      deriveWriteOutputType plan resolve = .ok t →
      PlanRun evaluateExpression dialect plan input returned result →
      HasType t result.value ∧ Listed plan returned result := by
  intro h
  have ht : deriveWriteOutputType createUsers userTypes =
      .ok (.obj (outputFields true (some userFields))) := by
    rw [deriveWriteOutputType, rowFields_users]
    rfl
  obtain ⟨htype, -⟩ := h _ _ _ _ _ _ _ _ ht (run_users [("id", .bigint 1), ("name", .null)])
  obtain ⟨-, hlists⟩ := (hasType_result true (some userFields) _).mp htype
  obtain ⟨fs, hfs, hfit, -⟩ := (hlists _ rfl).2 _ List.mem_cons_self _ List.mem_cons_self
  obtain rfl := Option.some.inj hfs
  obtain ⟨v, hv, hholds⟩ := hfit ("name", .string) (by simp [userFields])
  obtain rfl := Option.some.inj (hv.symm.trans rfl : some v = some .null)
  exact hholds

end LiteDb.TxOutput
