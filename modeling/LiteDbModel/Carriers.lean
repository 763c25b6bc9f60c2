import LiteDbModel.Records

/-!
# How batch statements carry values

A batch write sends a column's values together: as one `UNNEST` array on
PostgreSQL, inside one `JSON_TABLE` payload on MySQL, or each bound to its own
placeholder. The type of the column is read off a sample of the values.
-/

namespace LiteDb
set_option autoImplicit false

/-- The first value of the column that is neither null nor a token. -/
def sample (col : String) (records : List Record) : Option JsVal :=
  records.findSome? fun r =>
    match r.cell col with
    | .val v => if v.nullish then none else some v
    | _ => none

def inferPgArrayType : JsVal → String
  | .num n => if n.isInteger then "int[]" else "numeric[]"
  | .bool _ => "boolean[]"
  | .str _ => "text[]"
  | .date _ => "timestamp[]"
  | _ => "jsonb"

def inferPgType : JsVal → String
  | .undefined | .null => "text"
  | .num n => if n.isInteger then "int" else "numeric"
  | .bigint _ => "bigint"
  | .bool _ => "boolean"
  | .str _ => "text"
  | .date _ => "timestamp"
  | .arr xs =>
    match xs.find? fun x => !x.nullish with
    | none => "text[]"
    | some x => inferPgArrayType x
  | .buffer _ | .obj _ => "jsonb"

/-- The column type of a `JSON_TABLE`; a `text` column is JSON that is unquoted. -/
inductive JsonColumn
  | bigint
  | decimal
  | json
  | text
deriving DecidableEq

def mysqlJsonTableColumn (col : String) (rows : List Record) : JsonColumn :=
  match sample col rows with
  | some (.bool _) | some (.bigint _) => .bigint
  | some (.num n) => if n.isInteger then .bigint else .decimal
  | some (.arr _) | some (.obj _) | some (.date _) | some (.buffer _) => .json
  | _ => .text

/-- How the statement carries one cell of a column. -/
inductive Carrier
  /-- `?` or `?::cast`, or the text a token compiles to. -/
  | bound (cast : Option String)
  /-- The condition `k = ?` of a single write, or `k IS NULL`. -/
  | condition
  /-- A parameter compared with the column, a token included as it is. -/
  | keyParam
  /-- A parameter of the list of an `IN`. -/
  | inList
  /-- An element of `?::type[]`, a token included as it is. -/
  | unnest (type : String)
  /-- An element of `?::text[]`, cast to the JSON type. -/
  | unnestText (type : String)
  /-- An element of `?::text[]`, its JSON text unless it is a string, cast to the JSON type. -/
  | unnestJson (type : String)
  /-- An element of `?::text[]` with the raw array's JSON text, read back as the array type. -/
  | unnestArray (type : String)
  /-- A component of a `VALUES ROW`, beside the others of its column. -/
  | valuesRow (column : List Cell)
  | jsonTable (type : JsonColumn)
  /-- A member of the payload, read by `json_extract`. -/
  | jsonExtract
  /-- A member of the payload, read by `json_extract` into the list of an `IN`. -/
  | jsonIn

/-- A cell on its way to the database: its carrier, and whether it passes through a plan. -/
structure SentCell where
  carrier : Carrier
  planned : Bool
  cell : Cell

/-- A stored row: the value of each column. -/
abbrev StoredRow (S : Type) := String → S

/-- The column's declared cast, or the type of a sample of its raw values. -/
def pgTypeOf (sqlCast : String → Option String) (col : String) (rawRecords : List Record) : String :=
  match sqlCast col with
  | some type => type
  | none => ((sample col rawRecords).map inferPgType).getD "text"

def isArrayType (pgType : String) : Bool := pgType.toList.reverse.take 2 = [']', '[']

def isJsonType (pgType : String) : Bool := pgType = "jsonb" || pgType = "json"

/-- Only the casts the driver does not make itself are written. -/
def boundCast (sqlCast : String → Option String) (col : String) : Option String :=
  (sqlCast col).filter fun type => type ≠ "timestamp" && type ≠ "date"

end LiteDb
