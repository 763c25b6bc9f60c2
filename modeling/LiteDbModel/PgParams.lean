import LiteDbModel.ArrayParamJson
import LiteDbModel.Lib.BigEndian
import LiteDbModel.Lib.Binary32

/-!
# Parameters of Rust's PostgreSQL driver

`PgParam` is written in the binary format of the type that the server infers for its slot. What
the client library writes for Rust's own types is a parameter with its documented behaviour.
-/

namespace LiteDb.PgParams
set_option autoImplicit false
open Binary64 (Word)

/-! ## Types and values -/

inductive ScalarType
  | BOOL | INT2 | INT4 | INT8 | FLOAT4 | FLOAT8 | NUMERIC
  | TEXT | VARCHAR | BPCHAR | UNKNOWN
  | UUID | TIMESTAMP | TIMESTAMPTZ | DATE
deriving DecidableEq

/-- A parameter type: a scalar, or an array of a member type. -/
inductive PgType
  | scalar (t : ScalarType)
  | array (member : ScalarType)
deriving DecidableEq

inductive PgParam
  | Null
  | Bool (b : Bool)
  | Int (n : Int) (fits : IsI64 n)
  | Float (w : Word)
  | Str (s : String)
  | Array (elems : List PgParam)

mutual
/-- `to_pg_param`; an object is a driver failure. -/
def toPgParam : BcValue → Option PgParam
  | .Null => some .Null
  | .Bool b => some (.Bool b)
  | .Int n fits => some (.Int n fits)
  | .Float w => some (.Float w)
  | .Str s => some (.Str s)
  | .Arr elems => (toPgParams elems).map .Array
  | .Obj _ => none

def toPgParams : List BcValue → Option (List PgParam)
  | [] => some []
  | e :: elems => (toPgParam e).bind fun p => (toPgParams elems).map (p :: ·)
end

/-! ## The client library -/

/-- A decimal, `mant / 10 ^ scale`. -/
structure Decimal where
  mant : Int
  scale : Nat

def Decimal.value (d : Decimal) : ℚ := d.mant / 10 ^ d.scale

/-- A value of one of Rust's own types. -/
inductive Native
  | bool (b : Bool)
  | i16 (x : BitVec 16)
  | i32 (x : BitVec 32)
  | i64 (x : BitVec 64)
  | f32 (x : Binary32.Word)
  | f64 (w : Word)
  | string (s : String)
  | decimal (d : Decimal)
  /-- A date and time, in microseconds from the year 2000. -/
  | dateTime (micros : Int)
  /-- A date, in days from the year 2000. -/
  | date (days : Int)

/-- What became of one value. -/
inductive Outcome
  | null
  | bytes (b : List UInt8)
  | error
  | panic
deriving DecidableEq

/-- The client library, the decimal crate and the calendar crate. -/
structure Client where
  toSql : Native → PgType → Outcome
  /-- `<[T]>::to_sql`, given how each element is written. -/
  slice : List (PgType → Outcome) → PgType → Outcome
  tryFrom : Word → Option Decimal
  /-- Microseconds of a text of the form `%Y-%m-%d %H:%M:%S`. -/
  parseDateTime : String → Option Int
  /-- Days of a text of the form `%Y-%m-%d`. -/
  parseDate : String → Option Int

def microsPerDay : Int := 86400000000

/-! ## UUID texts -/

def utf8 (cs : List Char) : List UInt8 := cs.flatMap String.utf8EncodeChar

/-- A byte that does not start a character. -/
def isContinuation (x : UInt8) : Bool := 0x80 ≤ x.toNat && x.toNat < 0xC0

def isCharBoundary (b : List UInt8) (i : Nat) : Bool := !(b[i]?.any isContinuation)

/-- The bytes of `&hex[i * 2..i * 2 + 2]`, which panics inside a character. -/
def pairAt (hex : List UInt8) (i : Nat) : Option (List UInt8) :=
  if isCharBoundary hex (i * 2) && isCharBoundary hex (i * 2 + 2) then
    some ((hex.drop (i * 2)).take 2)
  else none

def hexDigit (x : UInt8) : Option Nat :=
  let n := x.toNat
  if 48 ≤ n ∧ n ≤ 57 then some (n - 48)
  else if 97 ≤ n ∧ n ≤ 102 then some (n - 87)
  else if 65 ≤ n ∧ n ≤ 70 then some (n - 55)
  else none

/-- Digits added to a value of 8 bits, none where one is no digit or the value overflows. -/
def addDigits (acc : Nat) : List UInt8 → Option Nat
  | [] => some acc
  | x :: xs => (hexDigit x).bind fun d =>
      if acc * 16 + d < 256 then addDigits (acc * 16 + d) xs else none

/-- `u8::from_str_radix(_, 16)`: a leading plus sign is allowed. -/
def fromStrRadix16 (b : List UInt8) : Option UInt8 :=
  match b with
  | [] => none
  | [43] => none
  | 43 :: xs => (addDigits 0 xs).map UInt8.ofNat
  | xs => (addDigits 0 xs).map UInt8.ofNat

/-- The bytes of the pairs, one after the other; the first pair that is no number ends it. -/
def pairsToBytes (hex : List UInt8) : List Nat → Outcome
  | [] => .bytes []
  | i :: is =>
    match pairAt hex i with
    | none => .panic
    | some pair =>
      match fromStrRadix16 pair with
      | none => .error
      | some x =>
        match pairsToBytes hex is with
        | .bytes b => .bytes (x :: b)
        | other => other

/-- The text without hyphens. -/
def hexOf (s : String) : List UInt8 := utf8 (s.toList.filter (· ≠ '-'))

/-- `uuid_text_to_bytes`; a malformed text is the error of its caller. -/
def uuidTextToBytes (s : String) : Outcome :=
  if (hexOf s).length ≠ 32 then .error else pairsToBytes (hexOf s) (List.range 16)

/-! ## Writing -/

section ToSql
variable (client : Client)

def boolToSql (b : Bool) (ty : PgType) : Outcome := client.toSql (.bool b) ty

def intToSql (n : Int) (ty : PgType) : Outcome :=
  match ty with
  | .scalar .INT2 => client.toSql (.i16 (BitVec.ofInt 16 n)) ty
  | .scalar .INT4 => client.toSql (.i32 (BitVec.ofInt 32 n)) ty
  | .scalar .INT8 => client.toSql (.i64 (BitVec.ofInt 64 n)) ty
  | .scalar .TEXT | .scalar .VARCHAR | .scalar .BPCHAR | .scalar .UNKNOWN =>
    client.toSql (.string (formatInt n)) ty
  | _ => client.toSql (.i64 (BitVec.ofInt 64 n)) ty

def floatToSql (w : Word) (ty : PgType) : Outcome :=
  match ty with
  | .scalar .FLOAT4 => client.toSql (.f32 (Binary32.ofBinary64 w)) ty
  | .scalar .NUMERIC =>
    match client.tryFrom w with
    | some d => client.toSql (.decimal d) ty
    | none => .error
  | _ => client.toSql (.f64 w) ty

/-- The moment of a text with or without a time. -/
def Client.moment (s : String) : Option Int :=
  (client.parseDateTime s).or ((client.parseDate s).map (· * microsPerDay))

def strToSql (s : String) (ty : PgType) : Outcome :=
  match ty with
  | .scalar .UUID => uuidTextToBytes s
  | .scalar .TIMESTAMP | .scalar .TIMESTAMPTZ =>
    match client.moment s with
    | some micros => client.toSql (.dateTime micros) ty
    | none => .error
  | .scalar .DATE =>
    match client.parseDate s with
    | some days => client.toSql (.date days) ty
    | none => .error
  | _ => client.toSql (.string s) ty

mutual
def toSql : PgParam → PgType → Outcome
  | .Null, _ => .null
  | .Bool b, ty => boolToSql client b ty
  | .Int n _, ty => intToSql client n ty
  | .Float w, ty => floatToSql client w ty
  | .Str s, ty => strToSql client s ty
  | .Array elems, ty => client.slice (toSqls elems) ty

def toSqls : List PgParam → List (PgType → Outcome)
  | [] => []
  | e :: elems => (fun ty => toSql e ty) :: toSqls elems
end

end ToSql

/-! ## The server's binary format -/

/-- The identifier of a type. -/
def oid : ScalarType → Nat
  | .BOOL => 16
  | .INT8 => 20
  | .INT2 => 21
  | .INT4 => 23
  | .TEXT => 25
  | .FLOAT4 => 700
  | .FLOAT8 => 701
  | .UNKNOWN => 705
  | .BPCHAR => 1042
  | .VARCHAR => 1043
  | .DATE => 1082
  | .TIMESTAMP => 1114
  | .TIMESTAMPTZ => 1184
  | .NUMERIC => 1700
  | .UUID => 2950

/-- Two bytes as a number. -/
def halfWord (x y : UInt8) : Nat := x.toNat * 256 + y.toNat

/-- The base 10000 digits, the first one worth `10000 ^ weight`. -/
def numericDigits (weight : Int) : List UInt8 → Option ℚ
  | [] => some 0
  | x :: y :: rest =>
    if halfWord x y < 10000 then
      (numericDigits (weight - 1) rest).map fun q => halfWord x y * (10000 : ℚ) ^ weight + q
    else none
  | _ => none

/-- A `numeric`: how many digits, the weight of the first, the sign, the scale, the digits. -/
def readNumeric : List UInt8 → Option FloatNumber
  | n₁ :: n₂ :: w₁ :: w₂ :: s₁ :: s₂ :: _ :: _ :: digits =>
    if digits.length = 2 * halfWord n₁ n₂ then
      let sign := halfWord s₁ s₂
      if sign = 0xC000 then some .nan
      else if sign = 0xD000 then some (.inf false)
      else if sign = 0xF000 then some (.inf true)
      else (numericDigits (BitVec.ofNat 16 (halfWord w₁ w₂)).toInt digits).bind fun q =>
        if sign = 0 then some (.fin q) else if sign = 0x4000 then some (.fin (-q)) else none
    else none
  | _ => none

def readInt (w : Nat) (b : List UInt8) : Option FloatNumber :=
  (BigEndian.read w b).map fun x => .fin x.toInt

/-- The number that the bytes stand for in a type of numbers. -/
def readNumber : ScalarType → List UInt8 → Option FloatNumber
  | .INT2, b => readInt 16 b
  | .INT4, b => readInt 32 b
  | .INT8, b => readInt 64 b
  | .FLOAT4, b => (BigEndian.read 32 b).map Binary32.number
  | .FLOAT8, b => (BigEndian.read 64 b).map Binary64.number
  | .NUMERIC, b => readNumeric b
  | _, _ => none

/-- The number of a value. -/
def numberOf : PgParam → Option FloatNumber
  | .Int n _ => some (.fin n)
  | .Float w => some (Binary64.number w)
  | _ => none

def isText : ScalarType → Bool
  | .TEXT | .VARCHAR | .BPCHAR | .UNKNOWN => true
  | _ => false

/-- The text of a value: a string's own, an integer's digits. -/
def textOf : PgParam → Option String
  | .Str s => some s
  | .Int n _ => some (formatInt n)
  | _ => none

/-- The bytes of a uuid's text: sixteen pairs of hex digits and hyphens. -/
def hexValues : List UInt8 → Option (List UInt8)
  | [] => some []
  | x :: y :: rest => do
    let a ← hexDigit x
    let b ← hexDigit y
    (hexValues rest).map (UInt8.ofNat (a * 16 + b) :: ·)
  | _ => none

def uuidOf (s : String) : Option (List UInt8) :=
  if (hexOf s).length = 32 then hexValues (hexOf s) else none

/-- The moment or day that a text names for a type, in microseconds or days. -/
abbrev Calendar := ScalarType → String → Option Int

/-- The bytes are a value's own in a scalar type. -/
def Encodes (named : Calendar) (t : ScalarType) (v : PgParam) (b : List UInt8) : Prop :=
  match t with
  | .BOOL => ∃ x, v = .Bool x ∧ b = [if x then 1 else 0]
  | .UUID => ∃ s, v = .Str s ∧ uuidOf s = some b
  | .TIMESTAMP | .TIMESTAMPTZ => ∃ s micros, v = .Str s ∧ named t s = some micros ∧
      IsI64 micros ∧ b = BigEndian.word (BitVec.ofInt 64 micros)
  | .DATE => ∃ s days, v = .Str s ∧ named t s = some days ∧
      (-2 ^ 31 ≤ days ∧ days < 2 ^ 31) ∧ b = BigEndian.word (BitVec.ofInt 32 days)
  | .TEXT | .VARCHAR | .BPCHAR | .UNKNOWN => ∃ s, textOf v = some s ∧ b = utf8 s.toList
  | _ => ∃ x, numberOf v = some x ∧ readNumber t b = some x

/-- One element of an array: its length and its bytes, or the length -1. -/
def cell : Option (List UInt8) → List UInt8
  | none => BigEndian.word (BitVec.ofInt 32 (-1))
  | some b => BigEndian.word (BitVec.ofNat 32 b.length) ++ b

/-- An array of one dimension, the first element of which has the index 1. -/
def arrayBytes (member : ScalarType) (cells : List (Option (List UInt8))) : List UInt8 :=
  BigEndian.bytes 4 1 ++ BigEndian.bytes 4 (if none ∈ cells then 1 else 0) ++
    BigEndian.bytes 4 (oid member) ++ BigEndian.bytes 4 cells.length ++ BigEndian.bytes 4 1 ++
    cells.flatMap cell

/-- An element is the value's: null for null, else the bytes of the value. -/
def EncodesCell (named : Calendar) (member : ScalarType) (v : PgParam) :
    Option (List UInt8) → Prop
  | none => v = .Null
  | some b => b.length < 2 ^ 31 ∧ Encodes named member v b

/-- The bytes are a value's own in the type of its slot. -/
def EncodesIn (named : Calendar) : PgType → PgParam → List UInt8 → Prop
  | .scalar t, v, b => Encodes named t v b
  | .array member, v, b => ∃ elems cells, v = .Array elems ∧ elems.length < 2 ^ 31 ∧
      List.Forall₂ (EncodesCell named member) elems cells ∧ b = arrayBytes member cells

end LiteDb.PgParams
