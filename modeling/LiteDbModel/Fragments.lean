import LiteDbModel.RelationOp
import LiteDbModel.Conds
import LiteDbModel.WriteNode

/-!
# Fragments

A statement is compiled to fragments, each a text with its parameters and the input path that it
is skipped without; the runtime joins the texts of those that are present. The decorator models
build the statement of the present conditions at once.
-/

namespace LiteDb.Fragments
set_option autoImplicit false

/-! ## Fragments -/

inductive ValueSpec
  | input (path : List String)
  | wire (path : List String)
  | literal (v : CondVal)
  | coalesce (args : List ValueSpec)
  | add (args : List ValueSpec)

mutual
inductive Param
  | spec (s : ValueSpec)
  | nested (f : Fragment)

/-- A text, its parameters, and the input path whose absence skips it. -/
inductive Fragment
  | mk (sql : String) (params : List Param) (skip : Option (List String))
end

def Fragment.skip : Fragment → Option (List String)
  | .mk _ _ skip => skip

/-- A member of a statement: a fragment or a WHERE group. -/
inductive Node
  | fragment (f : Fragment)
  | where (members : List Fragment)

/-! ## The runtime -/

structure Scope where
  input : List (String × CondVal)
  wire : Option (List (String × List (String × CondVal)))

def absent : CondVal := .js .undefined rfl

/-- `v == null` -/
def nullish : CondVal → Bool
  | .js v _ => v.nullish
  | _ => false

/-- `cur[seg]` of an object or an array. -/
def member (cur : CondVal) (seg : String) : CondVal :=
  match cur with
  | .obj ps => (Props.get ps seg).getD absent
  | .arr xs =>
    if seg = "length" then .js (.num (JsNum.ofInt xs.length)) rfl
    else ((Props.index seg).bind fun i => xs[i]?).getD absent
  | _ => absent

def readPath (cur : CondVal) : List String → CondVal
  | [] => cur
  | seg :: path => if nullish cur then absent else readPath (member cur seg) path

def Scope.read (scope : Scope) (path : List String) : CondVal := readPath (.obj scope.input) path

def isSkipped (cond : Option (List String)) (scope : Scope) : Bool :=
  match cond with
  | none => false
  | some path => nullish (scope.read path)

def noResult (node : String) (scope : Scope) : String :=
  "scp assemble: wire-ref to node '" ++ node ++ "' has no produced result in scope (wire keys: " ++
    (match scope.wire with
    | none => "<no wire scope>"
    | some results => join ", " (Props.keys results)) ++
    "). A wire-ref must reference an upstream node that produced — this is a wiring/ordering " ++
    "bug, not a silent null."

section Runtime
variable (plus : CondVal → CondVal → CondVal) (scope : Scope)

mutual
/-- The sum of an `add` is JavaScript's. -/
def evalValueSpec : ValueSpec → Except String CondVal
  | .input path => .ok (scope.read path)
  | .wire path =>
    match scope.wire.bind fun results => Props.get results (path.headD "undefined") with
    | none => .error (noResult (path.headD "undefined") scope)
    | some result => .ok (readPath (.obj result) path.tail)
  | .literal v => .ok v
  | .coalesce args => evalCoalesce args
  | .add args => evalSum (.js (.num (JsNum.ofInt 0)) rfl) args

def evalCoalesce : List ValueSpec → Except String CondVal
  | [] => .ok (.js .null rfl)
  | a :: args =>
    match evalValueSpec a with
    | .error e => .error e
    | .ok v => if nullish v then evalCoalesce args else .ok v

def evalSum (acc : CondVal) : List ValueSpec → Except String CondVal
  | [] => .ok acc
  | a :: args =>
    match evalValueSpec a with
    | .error e => .error e
    | .ok v => evalSum (plus acc v) args
end

/-- `sql.split('?')`: the first chunk, and one for each question mark. -/
def chunks : List Char → List Char × List (List Char)
  | [] => ([], [])
  | c :: cs =>
    if c = '?' then ([], (chunks cs).1 :: (chunks cs).2) else (c :: (chunks cs).1, (chunks cs).2)

def placeholderMismatch (sql : String) (holes params : Nat) : String :=
  "fragment placeholder/param mismatch: " ++ String.ofList (Decimal.intText holes) ++ " '?' vs " ++
    String.ofList (Decimal.intText params) ++ " params in " ++ String.ofList (Json.quote sql)

mutual
def assembleParam : Param → Except String Piece
  | .spec s => (evalValueSpec plus scope s).map fun v => ⟨"?", [v]⟩
  | .nested f => assembleFragment f

def assembleFragment : Fragment → Except String Piece
  | .mk sql params _ =>
    if (chunks sql.toList).2.length ≠ params.length then
      .error (placeholderMismatch sql (chunks sql.toList).2.length params.length)
    else (assembleParams params (chunks sql.toList).2).map fun rest =>
      ⟨String.ofList (chunks sql.toList).1 ++ rest.sql, rest.params⟩

/-- Each parameter and the chunk behind it. -/
def assembleParams : List Param → List (List Char) → Except String Piece
  | p :: ps, chunk :: rest =>
    match assembleParam p with
    | .error e => .error e
    | .ok rendered => (assembleParams ps rest).map fun tail =>
      ⟨rendered.sql ++ String.ofList chunk ++ tail.sql, rendered.params ++ tail.params⟩
  | _, _ => .ok ⟨"", []⟩
end

def assembleWhereGroup (members : List Fragment) : Except String Piece :=
  ((members.filter fun f => !isSkipped f.skip scope).mapM (assembleFragment plus scope)).map
    whereClause

def assembleNode : Node → Except String Piece
  | .where members => assembleWhereGroup plus scope members
  | .fragment f => if isSkipped f.skip scope then .ok ⟨"", []⟩ else assembleFragment plus scope f

def assemble : List Node → Except String Piece
  | [] => .ok ⟨"", []⟩
  | node :: nodes => do
    let p ← assembleNode plus scope node
    let rest ← assemble nodes
    return ⟨p.sql ++ rest.sql, p.params ++ rest.params⟩

end Runtime

/-! ## The compiler -/

structure OptionalEq where
  column : String
  inputPath : List String

/-- The text that `DBConditions` makes of the column and a string. -/
def core (column : String) : String :=
  WriteNode.v1ConditionText column WriteNode.probe

def compileOptionalEq (cond : OptionalEq) : Fragment :=
  .mk (" AND " ++ core cond.column) [.spec (.input cond.inputPath)] (some cond.inputPath)

/-- `selectColumn || '*'` -/
def selectOf : Option String → String
  | none | some "" => "*"
  | some select => select

def cell : CondVal → JsVal
  | .js v _ => v
  | _ => .obj []

/-- `inferPgArrayTypeForCompile`, and the decorator models' `inferPgArrayType`. -/
def inferPgArrayType (values : List CondVal) : Option String → String
  | none | some "" => Relation.inferPgArrayType (values.map cell)
  | some sqlCast => sqlCast ++ "[]"

/-- What the batch loads of a relation are compiled from. -/
structure RelationOptions where
  tableName : String
  selectColumn : Option String
  targetKey : String
  sampleKeys : List CondVal
  keys : ValueSpec
  sqlCast : Option String
  filters : List OptionalEq

def anyArrayText (o : RelationOptions) (pgType : String) : String :=
  o.tableName ++ "." ++ o.targetKey ++ " = ANY(?::" ++ pgType ++ ")"

section Compile
variable (o : RelationOptions)

def filterNodes : List Node := o.filters.map fun c => .fragment (compileOptionalEq c)

/-- The base of `compileBelongsTo` and `compileHasManyAny`. -/
def anyArrayBase : Node :=
  .fragment (.mk ("SELECT " ++ selectOf o.selectColumn ++ " FROM " ++ o.tableName ++ " WHERE " ++
    anyArrayText o (inferPgArrayType o.sampleKeys o.sqlCast)) [.spec o.keys] none)

def compileBelongsTo : List Node := anyArrayBase o :: filterNodes o

def compileHasManyAny (order : Option String) : List Node :=
  anyArrayBase o :: (filterNodes o ++
    match order with
    | none | some "" => []
    | some order => [.fragment (.mk (" ORDER BY " ++ order) [] none)])

def compileHasManyLimited (order : String) (limit : JsNum) : List Node :=
  .fragment (.mk ("SELECT " ++ o.tableName ++ ".* FROM unnest(?::" ++
    inferPgArrayType o.sampleKeys o.sqlCast ++ ") AS _keys(key) CROSS JOIN LATERAL (" ++
    "SELECT " ++ selectOf o.selectColumn ++ " FROM " ++ o.tableName ++ " WHERE " ++
    o.tableName ++ "." ++ o.targetKey ++ " = _keys.key") [.spec o.keys] none) ::
  (filterNodes o ++
    [.fragment (.mk (" ORDER BY " ++ order ++ " LIMIT " ++ limit.text ++ ") " ++ o.tableName) []
      none)])

end Compile

def compileBaseSelect (tableName : String) (selectColumn : Option String)
    (conditions : List OptionalEq) : List Node :=
  [.fragment (.mk ("SELECT " ++ selectOf selectColumn ++ " FROM " ++ tableName) [] none),
    .where (conditions.map fun c => .mk (core c.column) [.spec (.input c.inputPath)]
      (some c.inputPath))]

/-! ## The statement of the present conditions -/

/-- The conditions whose input is there, with their values. -/
def present (scope : Scope) (conditions : List OptionalEq) : List (String × CondVal) :=
  (conditions.map fun c => (c.column, scope.read c.inputPath)).filter fun p => !nullish p.2

def orderClause : Option String → String
  | none | some "" => ""
  | some order => " ORDER BY " ++ order

def limitClause : Option JsNum → String
  | none => ""
  | some limit => " LIMIT " ++ limit.text

/-- `buildSelectSQL` of a class without defaults; the conditions stay as they are listed. -/
def buildSelectSQL (select tableName : String) (conditions : List (String × CondVal))
    (order : Option String) (limit : Option JsNum) : Piece :=
  let w := compile (getSqlCastFormatter .postgres) (.mk conditions .and [])
  ⟨"SELECT " ++ select ++ " FROM " ++ tableName ++
    (if w.sql ≠ "" then " WHERE " ++ w.sql else "") ++ orderClause order ++ limitClause limit,
    w.params⟩

section Direct
variable (o : RelationOptions) (values : List CondVal) (conditions : List (String × CondVal))

def batchLoadWithAnyArray (order : Option String) : Piece :=
  buildSelectSQL (selectOf o.selectColumn) o.tableName
    (("__raw__", .arr [.js (.str (anyArrayText o (inferPgArrayType values o.sqlCast))) rfl,
      .arr [.arr values]]) :: conditions) order none

def batchLoadWithLateral (order : String) (limit : JsNum) : Piece :=
  let lateral := buildSelectSQL (selectOf o.selectColumn) o.tableName
    (("__raw__", .js (.str (o.tableName ++ "." ++ o.targetKey ++ " = _keys.key")) rfl) ::
      conditions) (some order) (some limit)
  ⟨"SELECT " ++ o.tableName ++ ".* FROM unnest(?::" ++ inferPgArrayType values o.sqlCast ++
    ") AS _keys(key) CROSS JOIN LATERAL (" ++ lateral.sql ++ ") " ++ o.tableName,
    .arr values :: lateral.params⟩

end Direct

/-! ## Declarations -/

inductive Declaration
  | baseSelect (tableName : String) (selectColumn : Option String) (conditions : List OptionalEq)
  | belongsTo (o : RelationOptions)
  | hasManyAny (o : RelationOptions) (order : Option String)
  | hasManyLimited (o : RelationOptions) (order : String) (limit : JsNum)

def Declaration.compiled : Declaration → List Node
  | .baseSelect tableName selectColumn conditions =>
    compileBaseSelect tableName selectColumn conditions
  | .belongsTo o => compileBelongsTo o
  | .hasManyAny o order => compileHasManyAny o order
  | .hasManyLimited o order limit => compileHasManyLimited o order limit

/-- The statement that is built directly, of the keys and the conditions that are present. -/
def Declaration.direct (scope : Scope) (values : List CondVal) : Declaration → Piece
  | .baseSelect tableName selectColumn conditions =>
    buildSelectSQL (selectOf selectColumn) tableName (present scope conditions) none none
  | .belongsTo o => batchLoadWithAnyArray o values (present scope o.filters) none
  | .hasManyAny o order => batchLoadWithAnyArray o values (present scope o.filters) order
  | .hasManyLimited o order limit =>
    batchLoadWithLateral o values (present scope o.filters) order limit

/-- A relation's key parameter is an array; a base select has none. -/
def Declaration.KeysAre (plus : CondVal → CondVal → CondVal) (scope : Scope)
    (values : List CondVal) : Declaration → Prop
  | .baseSelect _ _ _ => values = []
  | .belongsTo o | .hasManyAny o _ | .hasManyLimited o _ _ =>
    evalValueSpec plus scope o.keys = .ok (.arr values)

/-! ## Where they differ -/

/-- No boolean, array, token or nested conditions. -/
def plain : CondVal → Bool
  | .js (.bool _) _ | .arr _ | .token _ | .nested _ => false
  | _ => true

/-- The column is not reserved and has a question mark at most, and the value is plain. -/
def Equality (p : String × CondVal) : Prop :=
  reserved p.1 = false ∧ p.1.toList.count '?' ≤ 1 ∧ plain p.2 = true

def holeFree (texts : List String) : Prop := ∀ t ∈ texts, hasHole t = false

/-- The samples have the keys' type, and only the key's placeholder is in the text. -/
def RelationFits (scope : Scope) (values : List CondVal) (o : RelationOptions) : Prop :=
  holeFree [selectOf o.selectColumn, o.tableName, o.targetKey,
    inferPgArrayType values o.sqlCast] ∧
  inferPgArrayType o.sampleKeys o.sqlCast = inferPgArrayType values o.sqlCast ∧
  ∀ p ∈ present scope o.filters, Equality p

def Declaration.Fits (scope : Scope) (values : List CondVal) : Declaration → Prop
  | .baseSelect tableName selectColumn conditions =>
    holeFree [selectOf selectColumn, tableName] ∧ ∀ p ∈ present scope conditions, Equality p
  | .belongsTo o => RelationFits scope values o
  | .hasManyAny o order => RelationFits scope values o ∧ holeFree order.toList
  | .hasManyLimited o order _ => RelationFits scope values o ∧ hasHole order = false ∧ order ≠ ""

end LiteDb.Fragments
