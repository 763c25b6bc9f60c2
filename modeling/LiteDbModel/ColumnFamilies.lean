import LiteDbModel.JsonParam
import LiteDbModel.NumberTexts

/-!
# Column families

A family's serializer writes a value for the driver, and its cast reads the cell
back. The database returns what was bound; a json cell is decoded by `pg` and
`mysql2` before the cast sees it.
-/

namespace LiteDb.Families
set_option autoImplicit false
open Json Decimal

/-! ## What the host gives -/

/-- The characters of a `toISOString` text. -/
def isIsoChar (c : Char) : Bool := c.isDigit || c ∈ ['+', '-', ':', '.', 'T', 'Z']

/-- `new Date(v)`, by the `toISOString` text of a valid date. -/
structure Dates where
  parse : String → Option String
  ofNumber : JsNum → Option String
  iso : ∀ {s t : String}, parse s = some t → t ≠ "" ∧ ∀ c ∈ t.toList, isIsoChar c = true
  null : parse "NULL" = none

structure Runtime where
  host : Host
  dates : Dates

variable (R : Runtime)

def jsText (v : JsVal) : String := v.text R.host

/-- `Boolean(v)`. -/
def truthy : JsVal → Bool
  | .undefined => false
  | .null => false
  | .bool b => b
  | .num .nan => false
  | .num (.fin d) => d.mant ≠ 0
  | .bigint i => i ≠ 0
  | .str s => s ≠ ""
  | _ => true

/-! ## JSON -/

/-- `JSON.stringify` throws on a bigint. -/
def Prim.scalar : Prim → Option Scalar
  | .null => some .null
  | .bool b => some (.bool b)
  | .num d => some (.num d)
  | .bigint _ => none
  | .str s => some (.str s)

/-- `JSON.stringify(v)`; `none` where it throws or gives `undefined`. -/
def jsonStringify (v : JsVal) : Option String :=
  ((jsonTree v).bind fun t => t.read Prim.scalar some).map fun t =>
    String.ofList (t.text scalarText quote)

def scalarValue : Scalar → JsVal
  | .null => .null
  | .bool b => .bool b
  | .num d => .num (.fin d)
  | .str s => .str s

mutual

/-- The value of a JSON document whose objects have no key twice. -/
def docValue : Doc Scalar → JsVal
  | .leaf s => scalarValue s
  | .arr xs => .arr (docValues xs)
  | .obj ps => .obj (docMembers ps)

def docValues : List (Doc Scalar) → List JsVal
  | [] => []
  | x :: xs => docValue x :: docValues xs

def docMembers : List (String × Doc Scalar) → List (String × JsVal)
  | [] => []
  | (k, x) :: ps => (k, docValue x) :: docMembers ps

end

/-- `JSON.parse(text)`; `none` where it throws. -/
def jsonParse (text : String) : Option JsVal := (Json.parse text.toList).map docValue

/-! ## Serializers -/

def pgEscape (s : List Char) : List Char :=
  s.flatMap fun c => if c = '\\' then ['\\', '\\'] else if c = '"' then ['\\', '"'] else [c]

def pgQuoted (s : List Char) : Bool := s.any fun c => c ∈ [',', '{', '}', '"', ' ']

def pgElement : JsVal → List Char
  | .null => "NULL".toList
  | .str s => if pgQuoted s.toList then '"' :: (pgEscape s.toList ++ ['"']) else pgEscape s.toList
  | v => (jsText R v).toList

/-- `{${elements.join(',')}}` -/
def braces (elements : List (List Char)) : String :=
  String.ofList ('{' :: ([','].intercalate elements ++ ['}']))

/-- `typeCast.serializeArray`. -/
def driverArray (driver : Dialect) (xs : List JsVal) : Option JsVal :=
  match driver with
  | .postgres => some (.str (braces (xs.map (pgElement R))))
  | _ => (jsonStringify (.arr xs)).map .str

def serializeArray (driver : Dialect) : JsVal → Option JsVal
  | .undefined => some .null
  | .null => some .null
  | .arr xs => driverArray R driver xs
  | v => some v

def pgBoolean : JsVal → List Char
  | .null => "NULL".toList
  | v => if truthy v then ['t'] else ['f']

/-- `typeCast.serializeBooleanArray`. -/
def driverBooleanArray (driver : Dialect) (xs : List JsVal) : Option JsVal :=
  match driver with
  | .postgres => some (.str (braces (xs.map pgBoolean)))
  | _ => (jsonStringify (.arr xs)).map .str

def serializeBooleanArray (driver : Dialect) : JsVal → Option JsVal
  | .undefined => some .null
  | .null => some .null
  | .arr xs => driverBooleanArray driver xs
  | v => some v

def serializeJson (v : JsVal) : Option JsVal :=
  if v.nullish then some .null else (jsonStringify v).map .str

def serializeDatetime (driver : Dialect) : JsVal → Option JsVal
  | .undefined => some .null
  | .null => some .null
  | .date iso => some (if driver = .postgres then .str iso else .date iso)
  | v => some v

def datetimeElement : JsVal → List Char
  | .null => "NULL".toList
  | .date iso => iso.toList
  | v => (jsText R v).toList

/-- The serializer of a date-time array, which is one for every driver. -/
def serializeDatetimeArray : JsVal → Option JsVal
  | .undefined => some .null
  | .null => some .null
  | .arr xs => some (.str (braces (xs.map (datetimeElement R))))
  | v => some v

inductive Family
  | stringArray
  | intArray
  | numericArray
  | booleanArray
  | datetimeArray
  | json
  | boolean
  | datetime

/-- A boolean column has no serializer. -/
def Family.serialize (driver : Dialect) : Family → JsVal → Option JsVal
  | .stringArray => serializeArray R driver
  | .intArray => serializeArray R driver
  | .numericArray => serializeArray R driver
  | .booleanArray => serializeBooleanArray driver
  | .datetimeArray => serializeDatetimeArray R
  | .json => serializeJson
  | .boolean => some
  | .datetime => serializeDatetime driver

def serializeRecord (driver : Dialect) (families : String → Option Family)
    (record : List (String × JsVal)) : Option (List (String × JsVal)) :=
  record.mapM fun p =>
    match families p.1 with
    | some f => (f.serialize R driver p.2).map fun v => (p.1, v)
    | none => some p

/-! ## The cell -/

/-- `convertParams` of the SQLite driver; the other drivers take the value as it is. -/
def bindParam (driver : Dialect) (v : JsVal) : Option JsVal :=
  match driver, v with
  | .sqlite, .undefined => some .null
  | .sqlite, .bool b => some (.num (JsNum.ofInt (if b then 1 else 0)))
  | .sqlite, .date iso => some (.str iso)
  | .sqlite, .arr xs => (jsonStringify (.arr xs)).map .str
  | .sqlite, .obj ps => (jsonStringify (.obj ps)).map .str
  | .sqlite, .buffer bytes => (jsonStringify (.buffer bytes)).map .str
  | _, v => some v

/-- The stored value as the driver hands it over. -/
def fetched (driver : Dialect) (f : Family) (v : JsVal) : Option JsVal :=
  match driver, f, v with
  | .postgres, .json, .str s => jsonParse s
  | .mysql, .json, .str s => jsonParse s
  | _, _, v => some v

/-! ## Casts -/

def trim (cs : List Char) : List Char :=
  ((cs.dropWhile Text.isSpace).reverse.dropWhile Text.isSpace).reverse

/-- The loop of `pgArrayParse`; `pushed` says that an element was pushed before. -/
def pgScan (inQuotes escaped pushed : Bool) (current : List Char) : List Char → List (List Char)
  | [] => if current ≠ [] ∨ pushed then [current] else []
  | c :: cs =>
    if escaped then pgScan inQuotes false pushed (current ++ [c]) cs
    else if c = '\\' then pgScan inQuotes true pushed current cs
    else if c = '"' then pgScan (!inQuotes) escaped pushed current cs
    else if c = ',' ∧ inQuotes = false then current :: pgScan inQuotes escaped true [] cs
    else pgScan inQuotes escaped pushed (current ++ [c]) cs

/-- The text between the outer braces. -/
def pgContent (literal : List Char) : List Char :=
  let content := trim literal
  if content.head? = some '{' ∧ content.getLast? = some '}' then content.tail.dropLast else content

def pgArrayParse (literal : String) : List String :=
  if literal = "" ∨ literal = "{}" then []
  else (pgScan false false false [] (pgContent literal.toList)).map String.ofList

/-- The elements of a JSON array, also one that is still a text. -/
def jsonArrayOf : JsVal → List JsVal
  | .arr xs => xs
  | .str s =>
    match jsonParse s with
    | some (.arr xs) => xs
    | _ => []
  | _ => []

/-- The elements of a PostgreSQL array; those of a literal are texts. -/
def pgArrayOf : JsVal → List JsVal
  | .arr xs => xs
  | .str s => (pgArrayParse s).map .str
  | _ => []

def arrayOf (driver : Dialect) (v : JsVal) : List JsVal :=
  if driver = .postgres then pgArrayOf v else jsonArrayOf v

def castToStringArray (driver : Dialect) (v : JsVal) : List String := (arrayOf driver v).map (jsText R)

/-- `parseInt(String(v), 10)`, or zero. -/
def intElement (v : JsVal) : JsNum := ((jsParseInt (jsText R v)).map JsNum.ofInt).getD (JsNum.ofInt 0)

def castToIntegerArray (driver : Dialect) (v : JsVal) : List JsNum :=
  (arrayOf driver v).map fun x =>
    match driver, x with
    | .postgres, .num n => n
    | _, x => intElement R x

/-- An element of PostgreSQL's numeric array: the text of a literal is a null when it is `NULL` or empty. -/
def numericElement : JsVal → Option JsNum
  | .undefined => none
  | .null => none
  | .num n => some n
  | .str s => if s = "NULL" ∨ s = "" then none else jsParseFloat s
  | v => jsParseFloat (jsText R v)

/-- MySQL and SQLite read a numeric array as an integer array. -/
def castToNumericArray (driver : Dialect) (v : JsVal) : List (Option JsNum) :=
  match driver with
  | .postgres => (pgArrayOf v).map (numericElement R)
  | d => (castToIntegerArray R d v).map some

def lower (s : String) : List Char := s.toList.map Char.toLower

def castToBoolean (driver : Dialect) : JsVal → Option Bool
  | .bool b => some b
  | .num n => some (truthy (.num n) || n = .nan)
  | .str s =>
    let l := lower s
    if l = "true".toList ∨ l = "1".toList ∨ (driver = .postgres ∧ l = "t".toList) then some true
    else if l = "false".toList ∨ l = "0".toList ∨ (driver = .postgres ∧ l = "f".toList) then some false
    else none
  | .buffer bytes => if driver = .mysql then some (bytes.head? ≠ some 0) else none
  | _ => none

def castToBooleanArray (driver : Dialect) (v : JsVal) : List (Option Bool) :=
  match driver with
  | .postgres => (pgArrayOf v).map (castToBoolean driver)
  | d => (castToStringArray R d v).map fun s => castToBoolean d (.str s)

def castToDatetime : JsVal → Option String
  | .date iso => some iso
  | .str s => R.dates.parse s
  | .num n => R.dates.ofNumber n
  | _ => none

def castToDatetimeArray (driver : Dialect) (v : JsVal) : List (Option String) :=
  match driver with
  | .postgres => (pgArrayOf v).map (castToDatetime R)
  | d => (castToStringArray R d v).map fun s => castToDatetime R (.str s)

/-- Only SQLite hands a json cell over as a text. -/
def castToJson (driver : Dialect) : JsVal → JsVal
  | .undefined => .null
  | .null => .null
  | .str s => if driver = .sqlite then (jsonParse s).getD .null else .str s
  | .bool b => if driver = .sqlite then .null else .bool b
  | .bigint i => if driver = .sqlite then .null else .bigint i
  | v => v

/-- `materializeCell(v, 'bool')`. -/
def materializeBool : JsVal → Except String JsVal
  | .undefined => .ok .undefined
  | .null => .ok .null
  | .bool b => .ok (.bool b)
  | .num n => .ok (.bool (truthy (.num n) || n = .nan))
  | .bigint i => .ok (.bool (i ≠ 0))
  | .str s =>
    let l := (trim s.toList).map Char.toLower
    if l = "t".toList ∨ l = "true".toList ∨ l = "1".toList then .ok (.bool true)
    else if l = "f".toList ∨ l = "false".toList ∨ l = "0".toList then .ok (.bool false)
    else .error ("materialize bool: unexpected driver JS type string (" ++ s ++ ")")
  | v => .error ("materialize bool: unexpected driver JS type object (" ++ jsText R v ++ ")")

/-- `materializeCell(v, 'date')`. -/
def materializeDate : JsVal → Except String JsVal
  | .undefined => .ok .undefined
  | .null => .ok .null
  | .str s => .ok (.str s)
  | .date iso => .ok (.str iso)
  | .bool _ => .error "materialize date: unexpected driver JS type boolean"
  | .num _ => .error "materialize date: unexpected driver JS type number"
  | .bigint _ => .error "materialize date: unexpected driver JS type bigint"
  | _ => .error "materialize date: unexpected driver JS type object"

def jsCell {α : Type} (f : α → JsVal) : Option α → JsVal
  | none => .null
  | some a => f a

/-- `undefined` and null stay, anything else is cast. -/
def castPresent (cast : JsVal → JsVal) : JsVal → Except String JsVal
  | .undefined => .ok .undefined
  | .null => .ok .null
  | v => .ok (cast v)

def Family.cast (driver : Dialect) : Family → JsVal → Except String JsVal
  | .stringArray => castPresent fun v => .arr ((castToStringArray R driver v).map .str)
  | .intArray => castPresent fun v => .arr ((castToIntegerArray R driver v).map .num)
  | .numericArray => castPresent fun v => .arr ((castToNumericArray R driver v).map (jsCell .num))
  | .booleanArray => castPresent fun v => .arr ((castToBooleanArray R driver v).map (jsCell .bool))
  | .datetimeArray => castPresent fun v => .arr ((castToDatetimeArray R driver v).map (jsCell .str))
  | .json => castPresent (castToJson driver)
  | .boolean => materializeBool R
  | .datetime => materializeDate

/-! ## Values -/

/-- The values of a family; a list may have nulls in it. -/
abbrev Family.Value : Family → Type
  | .stringArray => Option (List (Option String))
  | .intArray => Option (List (Option JsNum))
  | .numericArray => Option (List (Option JsNum))
  | .booleanArray => Option (List (Option Bool))
  | .datetimeArray => Option (List (Option String))
  | .json => Doc Scalar
  | .boolean => Option Bool
  | .datetime => Option String

def jsList {α : Type} (f : α → JsVal) : Option (List (Option α)) → JsVal :=
  jsCell fun l => .arr (l.map (jsCell f))

def Family.js : (f : Family) → f.Value → JsVal
  | .stringArray => jsList .str
  | .intArray => jsList .num
  | .numericArray => jsList .num
  | .booleanArray => jsList .bool
  | .datetimeArray => jsList .str
  | .json => docValue
  | .boolean => jsCell .bool
  | .datetime => jsCell .str

/-- A cell that is written, stored and cast back; `none` where writing it fails. -/
def Family.readBack (driver : Dialect) (f : Family) (cell : JsVal) : Option (Except String JsVal) := do
  let param ← bindParam driver cell
  let got ← fetched driver f param
  some (f.cast R driver got)

/-- The value comes back from its column, whatever the class and the name of the column. -/
def RoundTrips (driver : Dialect) (f : Family) (v : f.Value) : Prop :=
  ∀ (families : String → Option Family) (name : String), families name = some f →
    ∃ cell, serializeRecord R driver families [(name, f.js v)] = some [(name, cell)] ∧
      f.readBack R driver cell = some (.ok (f.js v))

/-! ## A JSON text read back -/

theorem scalarText_starts (s : Scalar) : Starts (scalarText s) := by
  cases s with
  | null => exact ⟨'n', _, rfl, by decide, by decide, by decide⟩
  | bool b => cases b <;> exact ⟨_, _, rfl, by decide, by decide, by decide⟩
  | num d =>
    obtain ⟨c, cs, hc, h⟩ := print_head d
    simp only [scalarText, hc]
    exact starts_intChar cs h
  | str s => exact ⟨'"', _, rfl, by decide, by decide, by decide⟩

theorem plainTokens : Doc.Tokens scalarText quote some some where
  leafStarts := scalarText_starts
  keyStarts := fun _ => ⟨'"', _, rfl, by decide, by decide, by decide⟩
  key := by
    intro k rest
    have hread := parseChars_quoted k.toList (':' :: rest)
    simp [quote, parseKey, skipWs, isWs, hread]
  leaf := by
    intro s n rest hr
    cases s with
    | null => rfl
    | bool b => cases b <;> rfl
    | num d => exact parseValue_number n (print_head d) (parseNumber_print d hr.numEnd)
    | str s => exact parseValue_quote n s rest

mutual

theorem read_self : (t : Doc Scalar) → t.read some some = some t
  | .leaf _ => rfl
  | .arr xs => by simp only [Doc.read, readElems_self xs, Option.map_some]
  | .obj ps => by simp only [Doc.read, readMembers_self ps, Option.map_some]

theorem readElems_self : (xs : List (Doc Scalar)) → Doc.readElems some some xs = some xs
  | [] => rfl
  | x :: xs => by
    simp only [Doc.readElems, read_self x, readElems_self xs, Option.bind_some, Option.map_some]

theorem readMembers_self : (ps : List (String × Doc Scalar)) → Doc.readMembers some some ps = some ps
  | [] => rfl
  | (k, x) :: ps => by
    simp only [Doc.readMembers, read_self x, readMembers_self ps, Option.bind_some, Option.map_some]

end

theorem jsonParse_text (t : Doc Scalar) :
    jsonParse (String.ofList (t.text scalarText quote)) = some (docValue t) := by
  rw [jsonParse, String.toList_ofList, Doc.parse_text plainTokens, read_self, Option.map_some]

mutual

theorem jsonTree_docValue : (t : Doc Scalar) →
    ∃ u, jsonTree (docValue t) = some u ∧ u.read Prim.scalar some = some t
  | .leaf s => by cases s <;> exact ⟨_, rfl, rfl⟩
  | .arr xs => ⟨_, rfl, by simp only [Doc.read, jsonElems_docValues xs, Option.map_some]⟩
  | .obj ps => ⟨_, rfl, by simp only [Doc.read, jsonMembers_docMembers ps, Option.map_some]⟩

theorem jsonElems_docValues : (xs : List (Doc Scalar)) →
    Doc.readElems Prim.scalar some (jsonElems (docValues xs)) = some xs
  | [] => rfl
  | x :: xs => by
    obtain ⟨u, hu, hread⟩ := jsonTree_docValue x
    simp only [docValues, jsonElems, hu, Option.getD_some, Doc.readElems, hread,
      jsonElems_docValues xs, Option.bind_some, Option.map_some]

theorem jsonMembers_docMembers : (ps : List (String × Doc Scalar)) →
    Doc.readMembers Prim.scalar some (jsonMembers (docMembers ps)) = some ps
  | [] => rfl
  | (k, x) :: ps => by
    obtain ⟨u, hu, hread⟩ := jsonTree_docValue x
    simp only [docMembers, jsonMembers, hu, Doc.readMembers, hread, jsonMembers_docMembers ps,
      Option.bind_some, Option.map_some]

end

theorem jsonStringify_docValue (t : Doc Scalar) :
    jsonStringify (docValue t) = some (String.ofList (t.text scalarText quote)) := by
  obtain ⟨u, hu, hread⟩ := jsonTree_docValue t
  rw [jsonStringify, hu, Option.bind_some, hread, Option.map_some]

/-- A null, a boolean, a number or a text, as JSON keeps it: a number that is not finite becomes null. -/
def jsonScalar : JsVal → Scalar
  | .bool b => .bool b
  | .num (.fin d) => .num d
  | .str s => .str s
  | _ => .null

def IsScalar (v : JsVal) : Prop :=
  v = .null ∨ (∃ b, v = .bool b) ∨ (∃ n, v = .num n) ∨ ∃ s, v = .str s

theorem jsonTree_scalar {v : JsVal} (h : IsScalar v) :
    ∃ p, jsonTree v = some (.leaf p) ∧ Prim.scalar p = some (jsonScalar v) := by
  rcases h with rfl | ⟨b, rfl⟩ | ⟨n, rfl⟩ | ⟨s, rfl⟩
  · exact ⟨.null, rfl, rfl⟩
  · exact ⟨.bool b, rfl, rfl⟩
  · cases n with
    | nan => exact ⟨.null, rfl, rfl⟩
    | inf neg => exact ⟨.null, rfl, rfl⟩
    | fin d => exact ⟨.num d, rfl, rfl⟩
  · exact ⟨.str s, rfl, rfl⟩

theorem jsonElems_scalars {xs : List JsVal} (h : ∀ x ∈ xs, IsScalar x) :
    Doc.readElems Prim.scalar some (jsonElems xs) = some (xs.map fun x => .leaf (jsonScalar x)) := by
  induction xs with
  | nil => rfl
  | cons x xs ih =>
    obtain ⟨p, hp, hs⟩ := jsonTree_scalar (h x List.mem_cons_self)
    simp only [jsonElems, hp, Option.getD_some, Doc.readElems, Doc.read, hs, Option.map_some,
      Option.bind_some, List.map_cons, ih fun y hy => h y (List.mem_cons_of_mem x hy)]

theorem docValues_leaves {α : Type} (f : α → Scalar) (xs : List α) :
    docValues (xs.map fun x => .leaf (f x)) = xs.map fun x => scalarValue (f x) := by
  induction xs with
  | nil => rfl
  | cons x xs ih => simp only [List.map_cons, docValues, docValue, ih]

/-- A list of scalars that went through JSON. -/
theorem jsonArray_roundTrip {l : List JsVal} (h : ∀ x ∈ l, IsScalar x) :
    ∃ text, jsonStringify (.arr l) = some text ∧
      jsonArrayOf (.str text) = l.map fun x => scalarValue (jsonScalar x) := by
  let t : Doc Scalar := .arr (l.map fun x => .leaf (jsonScalar x))
  refine ⟨String.ofList (t.text scalarText quote), ?_, ?_⟩
  · have hread : (Doc.arr (jsonElems l)).read Prim.scalar some = some t := by
      rw [Doc.read, jsonElems_scalars h, Option.map_some]
    rw [jsonStringify, jsonTree, Option.bind_some, hread, Option.map_some]
  · rw [jsonArrayOf, jsonParse_text]
    exact docValues_leaves jsonScalar l

/-! ## A PostgreSQL array literal read back -/

/-- The scanner reads the text of an element as this value. -/
def ScansTo (text value : List Char) : Prop :=
  ∀ pushed current rest, pgScan false false pushed current (text ++ rest) =
    pgScan false false pushed (current ++ value) rest

theorem pgScan_char {inQuotes pushed : Bool} {current rest : List Char} {c : Char} (hb : c ≠ '\\')
    (hq : c ≠ '"') (hc : inQuotes = true ∨ c ≠ ',') :
    pgScan inQuotes false pushed current (c :: rest) =
      pgScan inQuotes false pushed (current ++ [c]) rest := by
  rw [pgScan, if_neg Bool.false_ne_true, if_neg hb, if_neg hq, if_neg]
  rintro ⟨hcomma, hout⟩
  rcases hc with hin | hne
  · rw [hin] at hout
    cases hout
  · exact hne hcomma

theorem pgScan_escaped {inQuotes pushed : Bool} {current rest : List Char} (c : Char) :
    pgScan inQuotes false pushed current ('\\' :: c :: rest) =
      pgScan inQuotes false pushed (current ++ [c]) rest := rfl

theorem pgScan_pgEscape {inQuotes : Bool} {s : List Char} (h : inQuotes = true ∨ ',' ∉ s)
    (pushed : Bool) (current rest : List Char) :
    pgScan inQuotes false pushed current (pgEscape s ++ rest) =
      pgScan inQuotes false pushed (current ++ s) rest := by
  induction s generalizing current with
  | nil => rw [List.append_nil]; rfl
  | cons c s ih =>
    have hs : inQuotes = true ∨ ',' ∉ s := h.imp_right fun hn hm => hn (List.mem_cons_of_mem c hm)
    have hstep : pgScan inQuotes false pushed current (pgEscape (c :: s) ++ rest) =
        pgScan inQuotes false pushed (current ++ [c]) (pgEscape s ++ rest) := by
      rw [pgEscape, List.flatMap_cons, List.append_assoc]
      by_cases hb : c = '\\'
      · rw [if_pos hb, hb]
        exact pgScan_escaped '\\'
      · by_cases hq : c = '"'
        · rw [if_neg hb, if_pos hq, hq]
          exact pgScan_escaped '"'
        · rw [if_neg hb, if_neg hq, List.singleton_append]
          exact pgScan_char hb hq (h.imp_right fun hn hc => hn (hc ▸ List.mem_cons_self))
    rw [hstep, ih hs, List.append_assoc, List.singleton_append]

theorem ScansTo.escaped {s : List Char} (h : ',' ∉ s) : ScansTo (pgEscape s) s :=
  pgScan_pgEscape (.inr h)

theorem ScansTo.quoted (s : List Char) : ScansTo ('"' :: (pgEscape s ++ ['"'])) s := by
  intro pushed current rest
  have hbody := @pgScan_pgEscape true s (.inl rfl) pushed current ('"' :: rest)
  rw [List.cons_append, List.append_assoc, List.singleton_append]
  exact hbody

theorem ScansTo.plain {s : List Char} (h : ∀ c ∈ s, c ≠ ',' ∧ c ≠ '\\' ∧ c ≠ '"') : ScansTo s s := by
  have hself : pgEscape s = s := by
    rw [pgEscape, List.flatMap_congr (g := fun c => [c])]
    · exact List.flatMap_singleton' s
    · intro c hc
      rw [if_neg (h c hc).2.1, if_neg (h c hc).2.2]
  have hs := ScansTo.escaped fun hm => (h ',' hm).1 rfl
  rwa [hself] at hs

/-- Only the empty value has an empty text. -/
theorem ScansTo.eq_nil {value : List Char} (h : ScansTo [] value) : value = [] := by
  have := h true [] []
  simpa [pgScan] using this.symm

section
variable {α : Type} {text value : α → List Char}

theorem pgScan_elements (x : α) (xs : List α) (h : ∀ y ∈ x :: xs, ScansTo (text y) (value y))
    (pushed : Bool) :
    pgScan false false pushed [] ([','].intercalate ((x :: xs).map text)) =
      if pushed = false ∧ (x :: xs).map value = [[]] then [] else (x :: xs).map value := by
  induction xs generalizing x pushed with
  | nil =>
    have hx := h x List.mem_cons_self pushed [] []
    rw [List.append_nil] at hx
    rw [List.map_singleton, List.intercalate_singleton, hx, List.nil_append, pgScan]
    by_cases hv : value x = []
    · cases pushed <;> simp [hv]
    · simp [hv]
  | cons y ys ih =>
    have hx := h x List.mem_cons_self pushed [] (',' :: [','].intercalate ((y :: ys).map text))
    have hys := ih y (fun z hz => h z (List.mem_cons_of_mem x hz)) true
    rw [if_neg (by simp)] at hys
    rw [if_neg (by simp), List.map_cons, List.map_cons, List.intercalate_cons_cons, List.map_cons,
      ← hys, List.append_assoc, List.singleton_append]
    rw [List.nil_append] at hx
    exact hx

theorem pgContent_braces (body : List Char) : pgContent ('{' :: (body ++ ['}'])) = body := by
  have htrim : trim ('{' :: (body ++ ['}'])) = '{' :: (body ++ ['}']) := by
    rw [trim, List.dropWhile_cons_of_neg (by decide), List.reverse_cons, List.reverse_append,
      List.reverse_singleton, List.singleton_append, List.cons_append,
      List.dropWhile_cons_of_neg (by decide)]
    simp
  have hlast : ('{' :: (body ++ ['}'])).getLast? = some '}' := by
    rw [← List.cons_append, List.getLast?_concat]
  simp [pgContent, htrim, hlast]

theorem braces_empty (body : List Char) :
    (String.ofList ('{' :: (body ++ ['}'])) = "" ∨ String.ofList ('{' :: (body ++ ['}'])) = "{}") ↔
      body = [] := by
  have hempty : ("{}" : String) = String.ofList ('{' :: ([] ++ ['}'])) := by decide +kernel
  have hne : String.ofList ('{' :: (body ++ ['}'])) ≠ "" := by
    intro h
    have := congrArg String.toList h
    simp at this
  rw [or_iff_right hne, hempty, String.ofList_inj, List.cons_inj_right, List.append_cancel_right_eq]

theorem intercalate_eq_nil {ts : List (List Char)} (h : [','].intercalate ts = []) :
    ts = [] ∨ ts = [[]] := by
  match ts with
  | [] => exact .inl rfl
  | [t] => exact .inr (by rw [List.intercalate_singleton] at h; rw [h])
  | t :: u :: ts =>
    rw [List.intercalate_cons_cons] at h
    simp at h

/-- The elements of a literal, where a single empty one is none. -/
theorem pgArrayOf_braces (xs : List α) (h : ∀ x ∈ xs, ScansTo (text x) (value x)) :
    pgArrayOf (.str (braces (xs.map text))) =
      if xs.map value = [[]] then [] else xs.map fun x => .str (String.ofList (value x)) := by
  simp only [pgArrayOf, pgArrayParse, braces, braces_empty, String.toList_ofList, pgContent_braces]
  by_cases hbody : [','].intercalate (xs.map text) = []
  · rw [if_pos hbody]
    rcases intercalate_eq_nil hbody with hnil | hone
    · rw [List.map_eq_nil_iff.mp hnil]
      rfl
    · obtain ⟨x, rfl, hx⟩ := List.map_eq_singleton_iff.mp hone
      have hv : value x = [] := (hx ▸ h x List.mem_cons_self : ScansTo [] (value x)).eq_nil
      rw [if_pos (by rw [List.map_singleton, hv])]
      rfl
  · rw [if_neg hbody]
    cases xs with
    | nil => exact absurd rfl hbody
    | cons x xs =>
      rw [pgScan_elements x xs h false]
      by_cases hone : (x :: xs).map value = [[]]
      · rw [if_pos ⟨rfl, hone⟩, if_pos hone]
        rfl
      · rw [if_neg fun hc => hone hc.2, if_neg hone, List.map_map, List.map_map]
        rfl

end

/-! ## Elements -/

/-- The text of an element in a literal, where `NULL` stands for a null. -/
def elementText {α : Type} (f : α → String) (x : Option α) : String := (x.map f).getD "NULL"

theorem scansTo_null : ScansTo "NULL".toList "NULL".toList := by
  apply ScansTo.plain
  simp

theorem pgElement_string (x : Option String) :
    ScansTo (pgElement R (jsCell .str x)) (elementText id x).toList := by
  cases x with
  | none => exact scansTo_null
  | some s =>
    change ScansTo (if pgQuoted s.toList then _ else _) s.toList
    by_cases hq : pgQuoted s.toList = true
    · rw [if_pos hq]
      exact ScansTo.quoted s.toList
    · rw [if_neg hq]
      apply ScansTo.escaped
      intro hm
      exact hq (List.any_eq_true.mpr ⟨',', hm, by decide⟩)

theorem numChar_plain {c : Char} (h : NumChar c) : c ≠ ',' ∧ c ≠ '\\' ∧ c ≠ '"' := by
  have hne : ∀ d : Char, ¬ NumChar d → c ≠ d := by
    rintro d hd rfl
    exact hd h
  exact ⟨hne ',' (by decide), hne '\\' (by decide), hne '"' (by decide)⟩

theorem scansTo_number (n : JsNum) : ScansTo n.text.toList n.text.toList := by
  apply ScansTo.plain
  cases n with
  | nan => simp [JsNum.text]
  | inf neg => cases neg <;> simp [JsNum.text]
  | fin d =>
    intro c hc
    rw [JsNum.text, String.toList_ofList] at hc
    exact numChar_plain (print_chars d c hc)

theorem pgElement_number (x : Option JsNum) :
    ScansTo (pgElement R (jsCell .num x)) (elementText JsNum.text x).toList := by
  cases x with
  | none => exact scansTo_null
  | some n => exact scansTo_number n

def boolText (b : Bool) : String := if b then "t" else "f"

theorem pgBoolean_element (x : Option Bool) :
    ScansTo (pgBoolean (jsCell .bool x)) (elementText boolText x).toList := by
  cases x with
  | none => exact scansTo_null
  | some b =>
    cases b
    · exact ScansTo.plain (s := ['f']) (by simp)
    · exact ScansTo.plain (s := ['t']) (by simp)

theorem isoChar_plain {c : Char} (h : isIsoChar c = true) : c ≠ ',' ∧ c ≠ '\\' ∧ c ≠ '"' := by
  have hne : ∀ d : Char, isIsoChar d = false → c ≠ d := by
    rintro d hd rfl
    rw [h] at hd
    cases hd
  exact ⟨hne ',' (by decide), hne '\\' (by decide), hne '"' (by decide)⟩

theorem datetimeElement_iso {x : Option String} (h : ∀ s, x = some s → ∃ t, R.dates.parse t = some s) :
    ScansTo (datetimeElement R (jsCell .str x)) (elementText id x).toList := by
  cases x with
  | none => exact scansTo_null
  | some s =>
    obtain ⟨t, ht⟩ := h s rfl
    apply ScansTo.plain
    intro c hc
    exact isoChar_plain ((R.dates.iso ht).2 c hc)

/-- The elements of a literal of texts, read by an element cast. -/
theorem pgArrayOf_elements {α : Type} {element : α → List Char} {text : α → String} {l : List α}
    (h : ∀ x ∈ l, ScansTo (element x) (text x).toList) :
    pgArrayOf (.str (braces (l.map element))) =
      if l.map text = [""] then [] else l.map fun x => .str (text x) := by
  have hone : l.map (fun x => (text x).toList) = [[]] ↔ l.map text = [""] := by
    constructor
    · intro he
      obtain ⟨x, rfl, hx⟩ := List.map_eq_singleton_iff.mp he
      rw [List.map_singleton, String.toList_eq_nil_iff.mp hx]
    · intro he
      obtain ⟨x, rfl, hx⟩ := List.map_eq_singleton_iff.mp he
      rw [List.map_singleton, hx, String.toList_empty]
  simp only [pgArrayOf_braces l h, hone, String.ofList_toList]

theorem pgArrayOf_nonempty {α : Type} {element : α → List Char} {text : α → String} {l : List α}
    (h : ∀ x ∈ l, ScansTo (element x) (text x).toList) (hne : ∀ x ∈ l, text x ≠ "") :
    pgArrayOf (.str (braces (l.map element))) = l.map fun x => .str (text x) := by
  rw [pgArrayOf_elements h, if_neg]
  intro he
  obtain ⟨x, rfl, hx⟩ := List.map_eq_singleton_iff.mp he
  exact hne x List.mem_cons_self hx

theorem number_text_ne (n : JsNum) : n.text ≠ "" := by
  cases n with
  | nan => decide
  | inf neg => cases neg <;> decide
  | fin d =>
    obtain ⟨c, cs, hc, _⟩ := print_head d
    intro h
    have := congrArg String.toList h
    rw [JsNum.text, String.toList_ofList, hc] at this
    cases this

theorem elementText_ne {α : Type} {f : α → String} (x : Option α) (h : ∀ a, x = some a → f a ≠ "") :
    elementText f x ≠ "" := by
  cases x with
  | none => exact (by decide : ("NULL" : String) ≠ "")
  | some a => exact h a rfl

/-! ## Families -/

variable {driver : Dialect}

theorem roundTrips_iff {f : Family} {v : f.Value} : RoundTrips R driver f v ↔
    (f.serialize R driver (f.js v)).bind (f.readBack R driver) = some (.ok (f.js v)) := by
  have hrecord : ∀ (families : String → Option Family) (name : String), families name = some f →
      serializeRecord R driver families [(name, f.js v)] =
        (f.serialize R driver (f.js v)).map fun c => [(name, c)] := by
    intro families name hname
    simp only [serializeRecord, List.mapM_cons, List.mapM_nil, hname]
    cases f.serialize R driver (f.js v) <;> rfl
  constructor
  · intro h
    obtain ⟨cell, hcell, hback⟩ := h (fun _ => some f) "" rfl
    rw [hrecord _ _ rfl, Option.map_eq_some_iff] at hcell
    obtain ⟨c, hc, heq⟩ := hcell
    cases heq
    rw [hc, Option.bind_some, hback]
  · intro h families name hname
    obtain ⟨cell, hcell, hback⟩ := Option.bind_eq_some_iff.mp h
    exact ⟨cell, by rw [hrecord families name hname, hcell, Option.map_some], hback⟩

theorem readBack_text (f : Family) (hf : f ≠ .json) (s : String) :
    f.readBack R driver (.str s) = some (f.cast R driver (.str s)) := by
  cases driver <;> cases f <;> first | rfl | exact absurd rfl hf

theorem readBack_null (f : Family) : f.readBack R driver .null = some (f.cast R driver .null) := by
  cases driver <;> cases f <;> rfl

/-- A list that is written as a text comes back when every element does. -/
theorem list_iff (driver : Dialect) {f : Family} {v : f.Value} {α : Type} {l : List α} {g h : α → JsVal} {text : String}
    (hf : f ≠ .json) (hwrite : f.serialize R driver (f.js v) = some (.str text))
    (hjs : f.js v = .arr (l.map h)) (hread : f.cast R driver (.str text) = .ok (.arr (l.map g))) :
    RoundTrips R driver f v ↔ ∀ x ∈ l, g x = h x := by
  rw [roundTrips_iff, hwrite, Option.bind_some, readBack_text R f hf, hread, hjs, Option.some.injEq,
    Except.ok.injEq, JsVal.arr.injEq, List.map_inj_left]

/-- On MySQL and SQLite an array is written as a JSON text. -/
theorem jsonArray_cell (hd : driver ≠ .postgres) {α : Type} (f : α → JsVal) {l : List α}
    (h : ∀ x ∈ l, IsScalar (f x)) : ∃ text, driverArray R driver (l.map f) = some (.str text) ∧
      driverBooleanArray driver (l.map f) = some (.str text) ∧
      arrayOf driver (.str text) = l.map fun x => scalarValue (jsonScalar (f x)) := by
  obtain ⟨text, htext, hback⟩ := jsonArray_roundTrip (l := l.map f) (by
    intro v hv
    obtain ⟨x, hx, rfl⟩ := List.mem_map.mp hv
    exact h x hx)
  refine ⟨text, ?_, ?_, ?_⟩
  · cases driver with
    | postgres => exact absurd rfl hd
    | mysql => rw [driverArray, htext, Option.map_some]; nofun
    | sqlite => rw [driverArray, htext, Option.map_some]; nofun
  · cases driver with
    | postgres => exact absurd rfl hd
    | mysql => rw [driverBooleanArray, htext, Option.map_some]; nofun
    | sqlite => rw [driverBooleanArray, htext, Option.map_some]; nofun
  · rw [arrayOf, if_neg hd, hback, List.map_map]
    rfl

theorem isScalar_cell {α : Type} {f : α → JsVal} (h : ∀ a, IsScalar (f a)) (x : Option α) :
    IsScalar (jsCell f x) := by
  cases x with
  | none => exact .inl rfl
  | some a => exact h a

theorem string_element (x : Option String) :
    JsVal.str (jsText R (scalarValue (jsonScalar (jsCell .str x)))) = jsCell .str x ↔ x ≠ none := by
  cases x with
  | none => exact iff_of_false nofun (fun h => h rfl)
  | some s => exact iff_of_true rfl nofun

theorem stringArray_json (hd : driver ≠ .postgres) (l : List (Option String)) :
    RoundTrips R driver .stringArray (some l) ↔ none ∉ l := by
  obtain ⟨text, hwrite, _, hback⟩ := jsonArray_cell R hd (jsCell .str) (l := l)
    fun x _ => isScalar_cell (fun s => .inr (.inr (.inr ⟨s, rfl⟩))) x
  have hread : Family.stringArray.cast R driver (.str text) =
      .ok (.arr (l.map fun x => .str (jsText R (scalarValue (jsonScalar (jsCell .str x)))))) := by
    change Except.ok (JsVal.arr ((castToStringArray R driver (.str text)).map .str)) = _
    rw [castToStringArray, hback, List.map_map, List.map_map]
    rfl
  rw [list_iff R driver (f := .stringArray) (v := some l) nofun hwrite rfl hread]
  simp only [string_element]
  exact ⟨fun h hm => h none hm rfl, fun h x hx hn => h (hn ▸ hx)⟩

theorem pg_written {α : Type} (f : Option α → JsVal) (l : List (Option α)) :
    driverArray R .postgres (l.map f) = some (.str (braces (l.map fun x => pgElement R (f x)))) := by
  rw [driverArray, List.map_map]
  rfl

theorem stringArray_pg (l : List (Option String)) :
    RoundTrips R .postgres .stringArray (some l) ↔ none ∉ l ∧ l ≠ [some ""] := by
  have hwrite := pg_written R (jsCell .str) l
  have hback := pgArrayOf_elements (l := l) fun x _ => pgElement_string R x
  by_cases hone : l.map (elementText id) = [""]
  · rw [if_pos hone] at hback
    obtain ⟨x, rfl, hx⟩ := List.map_eq_singleton_iff.mp hone
    have hx' : x = some "" := by
      cases x with
      | none => exact absurd hx (by decide)
      | some s => exact congrArg some hx
    apply iff_of_false
    · rw [roundTrips_iff]
      change (driverArray R .postgres ([x].map (jsCell .str))).bind _ ≠ _
      rw [hwrite, Option.bind_some, readBack_text R .stringArray nofun]
      change some (Except.ok (JsVal.arr (((pgArrayOf (.str _)).map (jsText R)).map .str))) ≠ _
      rw [hback]
      nofun
    · rintro ⟨_, hempty⟩
      exact hempty (congrArg (fun t => [t]) hx')
  · rw [if_neg hone] at hback
    have hread : Family.stringArray.cast R .postgres
        (.str (braces (l.map fun x => pgElement R (jsCell .str x)))) =
        .ok (.arr (l.map fun x => .str (elementText id x))) := by
      change Except.ok (JsVal.arr (((pgArrayOf (.str _)).map (jsText R)).map .str)) = _
      rw [hback, List.map_map, List.map_map]
      rfl
    rw [list_iff R .postgres (f := .stringArray) (v := some l) nofun hwrite rfl hread]
    constructor
    · intro h
      refine ⟨fun hm => ?_, ?_⟩
      · cases h none hm
      · rintro rfl
        exact hone rfl
    · rintro ⟨hnone, _⟩ x hx
      cases x with
      | none => exact absurd hx hnone
      | some s => rfl

theorem intElement_number (n : JsNum) : JsVal.num (intElement R (.str n.text)) = .num n ↔ n.short = true := by
  rw [JsVal.num.injEq, ← jsParseInt_text, intElement]
  change ((jsParseInt n.text).map JsNum.ofInt).getD (JsNum.ofInt 0) = n ↔ _
  cases hp : (jsParseInt n.text).map JsNum.ofInt with
  | some m => rw [Option.getD_some, Option.some.injEq]
  | none =>
    -- a text without a number is read as zero, and zero's own text is not one
    rw [Option.getD_none]
    refine iff_of_false ?_ nofun
    rintro rfl
    exact absurd hp (by decide +kernel)

/-- A whole number of at most 21 digits, not a null. -/
def wholeCell (x : Option JsNum) : Bool := x.elim false JsNum.short

theorem int_element_text (x : Option JsNum) :
    JsVal.num (intElement R (.str (elementText JsNum.text x))) = jsCell .num x ↔ wholeCell x = true := by
  cases x with
  | none => exact iff_of_false nofun nofun
  | some n => exact intElement_number R n

/-- A number that is not finite is a null in JSON, and then a zero. -/
theorem int_element_json (x : Option JsNum) :
    JsVal.num (intElement R (scalarValue (jsonScalar (jsCell .num x)))) = jsCell .num x ↔
      wholeCell x = true := by
  have hnull : intElement R .null = JsNum.ofInt 0 := by
    rw [intElement, show jsParseInt (jsText R .null) = none by
      change jsParseInt "null" = none
      decide +kernel]
    rfl
  cases x with
  | none => exact iff_of_false nofun nofun
  | some n =>
    cases n with
    | fin d => exact intElement_number R (.fin d)
    | nan =>
      change JsVal.num (intElement R .null) = .num .nan ↔ _
      rw [hnull]
      exact iff_of_false nofun nofun
    | inf neg =>
      change JsVal.num (intElement R .null) = .num (.inf neg) ↔ _
      rw [hnull]
      exact iff_of_false nofun nofun

theorem intArray_cast_json (hd : driver ≠ .postgres) {text : String} {α : Type} {g : α → JsVal} {l : List α}
    (h : arrayOf driver (.str text) = l.map g) :
    castToIntegerArray R driver (.str text) = l.map fun x => intElement R (g x) := by
  rw [castToIntegerArray, h, List.map_map]
  apply List.map_congr_left
  intro x _
  cases driver with
  | postgres => exact absurd rfl hd
  | mysql => rfl
  | sqlite => rfl

theorem intArray_json (hd : driver ≠ .postgres) (l : List (Option JsNum)) :
    RoundTrips R driver .intArray (some l) ↔ ∀ x ∈ l, wholeCell x = true := by
  obtain ⟨text, hwrite, _, hback⟩ := jsonArray_cell R hd (jsCell .num) (l := l)
    fun x _ => isScalar_cell (fun n => .inr (.inr (.inl ⟨n, rfl⟩))) x
  have hread : Family.intArray.cast R driver (.str text) =
      .ok (.arr (l.map fun x => .num (intElement R (scalarValue (jsonScalar (jsCell .num x)))))) := by
    change Except.ok (JsVal.arr ((castToIntegerArray R driver (.str text)).map .num)) = _
    rw [intArray_cast_json R hd hback, List.map_map]
    rfl
  rw [list_iff R driver (f := .intArray) (v := some l) nofun hwrite rfl hread]
  simp only [int_element_json]

theorem numericArray_json (hd : driver ≠ .postgres) (l : List (Option JsNum)) :
    RoundTrips R driver .numericArray (some l) ↔ ∀ x ∈ l, wholeCell x = true := by
  obtain ⟨text, hwrite, _, hback⟩ := jsonArray_cell R hd (jsCell .num) (l := l)
    fun x _ => isScalar_cell (fun n => .inr (.inr (.inl ⟨n, rfl⟩))) x
  have hread : Family.numericArray.cast R driver (.str text) =
      .ok (.arr (l.map fun x => .num (intElement R (scalarValue (jsonScalar (jsCell .num x)))))) := by
    change Except.ok (JsVal.arr ((castToNumericArray R driver (.str text)).map (jsCell .num))) = _
    have hint : castToNumericArray R driver (.str text) =
        (castToIntegerArray R driver (.str text)).map some := by
      cases driver with
      | postgres => exact absurd rfl hd
      | mysql => rfl
      | sqlite => rfl
    rw [hint, intArray_cast_json R hd hback, List.map_map, List.map_map]
    rfl
  rw [list_iff R driver (f := .numericArray) (v := some l) nofun hwrite rfl hread]
  simp only [int_element_json]

theorem numbers_written (l : List (Option JsNum)) :
    pgArrayOf (.str (braces (l.map fun x => pgElement R (jsCell .num x)))) =
      l.map fun x => .str (elementText JsNum.text x) :=
  pgArrayOf_nonempty (fun x _ => pgElement_number R x)
    fun x _ => elementText_ne x fun n _ => number_text_ne n

theorem intArray_pg (l : List (Option JsNum)) :
    RoundTrips R .postgres .intArray (some l) ↔ ∀ x ∈ l, wholeCell x = true := by
  have hread : Family.intArray.cast R .postgres
      (.str (braces (l.map fun x => pgElement R (jsCell .num x)))) =
      .ok (.arr (l.map fun x => .num (intElement R (.str (elementText JsNum.text x))))) := by
    change Except.ok (JsVal.arr (((pgArrayOf (.str _)).map _).map .num)) = _
    rw [numbers_written, List.map_map, List.map_map]
    rfl
  rw [list_iff R .postgres (f := .intArray) (v := some l) nofun (pg_written R (jsCell .num) l) rfl hread]
  simp only [int_element_text]

theorem number_text_not_null (n : JsNum) : n.text ≠ "NULL" := by
  cases n with
  | nan => decide
  | inf neg => cases neg <;> decide
  | fin d =>
    obtain ⟨c, cs, hc, hhead⟩ := print_head d
    intro h
    have htext := congrArg String.toList h
    rw [JsNum.text, String.toList_ofList, hc] at htext
    have hN : c = 'N' := (List.cons.inj htext).1
    rw [hN] at hhead
    exact absurd hhead (by decide)

theorem numeric_element (x : Option JsNum) :
    jsCell .num (numericElement R (.str (elementText JsNum.text x))) = jsCell .num x ↔ x ≠ some .nan := by
  cases x with
  | none => exact iff_of_true rfl nofun
  | some n =>
    have hread : numericElement R (.str n.text) = jsParseFloat n.text :=
      if_neg fun h => h.elim (number_text_not_null n) (number_text_ne n)
    change jsCell .num (numericElement R (.str n.text)) = _ ↔ _
    rw [hread]
    by_cases hn : n = .nan
    · rw [hn, jsParseFloat_nan]
      exact iff_of_false nofun fun h => h rfl
    · rw [jsParseFloat_text hn]
      exact iff_of_true rfl fun h => hn (Option.some.inj h)

theorem numericArray_pg (l : List (Option JsNum)) :
    RoundTrips R .postgres .numericArray (some l) ↔ some .nan ∉ l := by
  have hread : Family.numericArray.cast R .postgres
      (.str (braces (l.map fun x => pgElement R (jsCell .num x)))) =
      .ok (.arr (l.map fun x => jsCell .num (numericElement R (.str (elementText JsNum.text x))))) := by
    change Except.ok (JsVal.arr (((pgArrayOf (.str _)).map (numericElement R)).map (jsCell .num))) = _
    rw [numbers_written, List.map_map, List.map_map]
    rfl
  rw [list_iff R .postgres (f := .numericArray) (v := some l) nofun (pg_written R (jsCell .num) l) rfl hread]
  simp only [numeric_element]
  exact ⟨fun h hm => h _ hm rfl, fun h x hx hn => h (hn ▸ hx)⟩

theorem bool_element_text (x : Option Bool) :
    castToBoolean .postgres (.str (elementText boolText x)) = x := by
  cases x with
  | none => decide +kernel
  | some b => cases b <;> decide +kernel

theorem bool_element_json (x : Option Bool) (driver : Dialect) :
    castToBoolean driver (.str (jsText R (scalarValue (jsonScalar (jsCell .bool x))))) = x := by
  cases x with
  | none =>
    change castToBoolean driver (.str "null") = none
    cases driver <;> decide +kernel
  | some b =>
    change castToBoolean driver (.str (if b then "true" else "false")) = some b
    cases driver <;> cases b <;> decide +kernel

theorem booleanArray_pg (l : List (Option Bool)) : RoundTrips R .postgres .booleanArray (some l) := by
  have hwrite : driverBooleanArray .postgres (l.map (jsCell .bool)) =
      some (.str (braces (l.map fun x => pgBoolean (jsCell .bool x)))) := by
    rw [driverBooleanArray, List.map_map]
    rfl
  have hback : pgArrayOf (.str (braces (l.map fun x => pgBoolean (jsCell .bool x)))) =
      l.map fun x => .str (elementText boolText x) :=
    pgArrayOf_nonempty (fun x _ => pgBoolean_element x)
      fun x _ => elementText_ne x fun b _ => by cases b <;> decide
  have hread : Family.booleanArray.cast R .postgres
      (.str (braces (l.map fun x => pgBoolean (jsCell .bool x)))) =
      .ok (.arr (l.map fun x => jsCell .bool (castToBoolean .postgres (.str (elementText boolText x))))) := by
    change Except.ok (JsVal.arr (((pgArrayOf (.str _)).map (castToBoolean .postgres)).map (jsCell .bool))) = _
    rw [hback, List.map_map, List.map_map]
    rfl
  rw [list_iff R .postgres (f := .booleanArray) (v := some l) nofun hwrite rfl hread]
  intro x _
  rw [bool_element_text]

theorem booleanArray_json (hd : driver ≠ .postgres) (l : List (Option Bool)) :
    RoundTrips R driver .booleanArray (some l) := by
  obtain ⟨text, _, hwrite, hback⟩ := jsonArray_cell R hd (jsCell .bool) (l := l)
    fun x _ => isScalar_cell (fun b => .inr (.inl ⟨b, rfl⟩)) x
  have hread : Family.booleanArray.cast R driver (.str text) = .ok (.arr (l.map fun x =>
      jsCell .bool (castToBoolean driver (.str (jsText R (scalarValue (jsonScalar (jsCell .bool x)))))))) := by
    change Except.ok (JsVal.arr ((castToBooleanArray R driver (.str text)).map (jsCell .bool))) = _
    have hcast : castToBooleanArray R driver (.str text) =
        (castToStringArray R driver (.str text)).map fun s => castToBoolean driver (.str s) := by
      cases driver with
      | postgres => exact absurd rfl hd
      | mysql => rfl
      | sqlite => rfl
    rw [hcast, castToStringArray, hback, List.map_map, List.map_map, List.map_map]
    rfl
  rw [list_iff R driver (f := .booleanArray) (v := some l) nofun hwrite rfl hread]
  intro x _
  rw [bool_element_json]

/-- A text that starts with a brace is no JSON array. -/
theorem jsonArrayOf_braces (es : List (List Char)) : jsonArrayOf (.str (braces es)) = [] := by
  have hobj : ∀ (n : Nat) (cs : List Char) (d : Doc Scalar) (rest : List Char),
      parseValue n ('{' :: cs) = some (d, rest) → ∃ ps, d = .obj ps := by
    intro n cs d rest h
    cases n with
    | zero => cases h
    | succ n =>
      have hskip : skipWs ('{' :: cs) = '{' :: cs := List.dropWhile_cons_of_neg (by decide)
      simp only [parseValue, hskip] at h
      split at h
      · cases h
        exact ⟨[], rfl⟩
      · obtain ⟨p, _, hp⟩ := Option.map_eq_some_iff.mp h
        cases hp
        exact ⟨p.1, rfl⟩
  rw [jsonArrayOf, jsonParse, braces, String.toList_ofList, Json.parse]
  cases hp : parseValue _ ('{' :: ([','].intercalate es ++ ['}'])) with
  | none => rfl
  | some p =>
    obtain ⟨d, rest⟩ := p
    obtain ⟨ps, rfl⟩ := hobj _ _ _ _ hp
    change (match (if skipWs rest = [] then some (Doc.obj ps) else none).map docValue with
      | some (.arr xs) => xs
      | _ => []) = []
    by_cases hr : skipWs rest = []
    · rw [if_pos hr]
      rfl
    · rw [if_neg hr]
      rfl

theorem datetimes_written (l : List (Option String)) :
    serializeDatetimeArray R (.arr (l.map (jsCell .str))) =
      some (.str (braces (l.map fun x => datetimeElement R (jsCell .str x)))) := by
  rw [serializeDatetimeArray, List.map_map]
  rfl

theorem datetimeArray_json (hd : driver ≠ .postgres) (l : List (Option String)) :
    RoundTrips R driver .datetimeArray (some l) ↔ l = [] := by
  rw [roundTrips_iff]
  change (serializeDatetimeArray R (.arr (l.map (jsCell .str)))).bind _ = _ ↔ _
  have hcast : castToDatetimeArray R driver
      (.str (braces (l.map fun x => datetimeElement R (jsCell .str x)))) = [] := by
    have hnil : castToStringArray R driver
        (.str (braces (l.map fun x => datetimeElement R (jsCell .str x)))) = [] := by
      rw [castToStringArray, arrayOf, if_neg hd, jsonArrayOf_braces, List.map_nil]
    cases driver with
    | postgres => exact absurd rfl hd
    | mysql => rw [castToDatetimeArray, hnil, List.map_nil]; nofun
    | sqlite => rw [castToDatetimeArray, hnil, List.map_nil]; nofun
  rw [datetimes_written, Option.bind_some, readBack_text R .datetimeArray nofun]
  change some (Except.ok (JsVal.arr ((castToDatetimeArray R driver (.str _)).map (jsCell .str)))) =
    some (Except.ok (JsVal.arr (l.map (jsCell .str)))) ↔ _
  rw [hcast, List.map_nil, Option.some.injEq, Except.ok.injEq, JsVal.arr.injEq, eq_comm, List.map_eq_nil_iff]

theorem datetimeArray_pg (l : List (Option String)) : RoundTrips R .postgres .datetimeArray (some l) ↔
    ∀ s, some s ∈ l → R.dates.parse s = some s := by
  let cell := braces (l.map fun x => datetimeElement R (jsCell .str x))
  have hcast : Family.datetimeArray.cast R .postgres (.str cell) =
      .ok (.arr ((pgArrayOf (.str cell)).map fun v => jsCell .str (castToDatetime R v))) := by
    change Except.ok (JsVal.arr (((pgArrayOf (.str cell)).map _).map _)) = _
    rw [List.map_map]
    rfl
  -- where every text of the list is an ISO text, the literal has one element for each
  have hread : (∀ s, some s ∈ l → ∃ t, R.dates.parse t = some s) →
      Family.datetimeArray.cast R .postgres (.str cell) =
        .ok (.arr (l.map fun x => jsCell .str (castToDatetime R (.str (elementText id x))))) := by
    intro hiso
    have hback : pgArrayOf (.str cell) = l.map fun x => .str (elementText id x) := by
      apply pgArrayOf_nonempty
      · intro x hx
        exact datetimeElement_iso R fun s hs => hiso s (hs ▸ hx)
      · intro x hx
        apply elementText_ne x
        intro s hs
        obtain ⟨t, ht⟩ := hiso s (hs ▸ hx)
        exact (R.dates.iso ht).1
    rw [hcast, hback, List.map_map]
    rfl
  have helement : (∀ s, some s ∈ l → ∃ t, R.dates.parse t = some s) →
      (RoundTrips R .postgres .datetimeArray (some l) ↔ ∀ s, some s ∈ l → R.dates.parse s = some s) := by
    intro hiso
    rw [list_iff R .postgres (f := .datetimeArray) (v := some l) nofun (datetimes_written R l) rfl
      (hread hiso)]
    constructor
    · intro h s hs
      have hx := h (some s) hs
      change jsCell .str (R.dates.parse s) = .str s at hx
      cases hp : R.dates.parse s with
      | none => rw [hp] at hx; cases hx
      | some t => rw [hp] at hx; cases hx; rfl
    · intro h x hx
      cases x with
      | none =>
        change jsCell .str (R.dates.parse "NULL") = .null
        rw [R.dates.null]
        rfl
      | some s =>
        change jsCell .str (R.dates.parse s) = .str s
        rw [h s hx]
        rfl
  constructor
  · intro h
    have hiso : ∀ s, some s ∈ l → ∃ t, R.dates.parse t = some s := by
      rw [roundTrips_iff] at h
      change (serializeDatetimeArray R (.arr (l.map (jsCell .str)))).bind _ = _ at h
      rw [datetimes_written, Option.bind_some, readBack_text R .datetimeArray nofun, hcast] at h
      have hlist : (pgArrayOf (.str cell)).map (fun v => jsCell .str (castToDatetime R v)) =
          l.map (jsCell .str) := JsVal.arr.inj (Except.ok.inj (Option.some.inj h))
      intro s hs
      have hmem : JsVal.str s ∈ l.map (jsCell .str) := List.mem_map.mpr ⟨some s, hs, rfl⟩
      rw [← hlist, pgArrayOf, List.map_map] at hmem
      obtain ⟨t, _, ht⟩ := List.mem_map.mp hmem
      change jsCell .str (R.dates.parse t) = .str s at ht
      refine ⟨t, ?_⟩
      cases hp : R.dates.parse t with
      | none => rw [hp] at ht; cases ht
      | some u => rw [hp] at ht; cases ht; rfl
    exact (helement hiso).mp h
  · intro h
    exact (helement fun s hs => ⟨s, h s hs⟩).mpr h

/-! ## The cells that are no arrays -/

/-- `pg` and `mysql2` hand the decoded value over, which the cast leaves alone. -/
theorem cast_decoded (hd : driver ≠ .sqlite) (v : Doc Scalar) :
    Family.json.cast R driver (docValue v) = .ok (docValue v) := by
  cases driver with
  | sqlite => exact absurd rfl hd
  | postgres =>
    cases v with
    | leaf s => cases s <;> rfl
    | arr xs => rfl
    | obj ps => rfl
  | mysql =>
    cases v with
    | leaf s => cases s <;> rfl
    | arr xs => rfl
    | obj ps => rfl

theorem json_kept (v : Doc Scalar) : RoundTrips R driver .json v := by
  rw [roundTrips_iff]
  change (serializeJson (docValue v)).bind _ = some (Except.ok (docValue v))
  by_cases hnull : (docValue v).nullish = true
  · have hv : docValue v = .null := by
      cases v with
      | leaf s => cases s <;> first | rfl | cases hnull
      | arr xs => cases hnull
      | obj ps => cases hnull
    have hwrite : serializeJson .null = some .null := rfl
    rw [hv, hwrite, Option.bind_some, readBack_null]
    rfl
  · have hparse := jsonParse_text v
    rw [serializeJson, if_neg hnull, jsonStringify_docValue, Option.map_some, Option.bind_some]
    cases driver with
    | sqlite =>
      change some (Except.ok ((jsonParse _).getD .null)) = _
      rw [hparse, Option.getD_some]
    | postgres =>
      change (jsonParse _).bind (fun got => some (Family.json.cast R .postgres got)) = _
      have hd : Dialect.postgres ≠ .sqlite := nofun
      rw [hparse, Option.bind_some, cast_decoded R hd]
    | mysql =>
      change (jsonParse _).bind (fun got => some (Family.json.cast R .mysql got)) = _
      have hd : Dialect.mysql ≠ .sqlite := nofun
      rw [hparse, Option.bind_some, cast_decoded R hd]

theorem boolean_kept (v : Option Bool) : RoundTrips R driver .boolean v := by
  rw [roundTrips_iff]
  cases v with
  | none => cases driver <;> rfl
  | some b => cases driver <;> cases b <;> rfl

theorem datetime_kept (v : Option String) : RoundTrips R driver .datetime v := by
  rw [roundTrips_iff]
  cases v with
  | none => cases driver <;> rfl
  | some s => cases driver <;> rfl

theorem null_kept {f : Family} {v : f.Value} (h : f.js v = .null) :
    RoundTrips R driver f v := by
  rw [roundTrips_iff, h]
  have hs : f.serialize R driver .null = some .null := by cases f <;> rfl
  rw [hs, Option.bind_some, readBack_null]
  cases f <;> rfl

/-! ## Which values come back -/

/-- Which values of a family come back from its column. -/
def Kept (driver : Dialect) : (f : Family) → f.Value → Prop
  | .stringArray, v => ∀ l ∈ v, none ∉ l ∧ (driver = .postgres → l ≠ [some ""])
  | .intArray, v => ∀ l ∈ v, ∀ x ∈ l, wholeCell x = true
  | .numericArray, v => ∀ l ∈ v, if driver = .postgres then some .nan ∉ l else ∀ x ∈ l, wholeCell x = true
  | .booleanArray, _ => True
  | .datetimeArray, v => ∀ l ∈ v, if driver = .postgres then ∀ s, some s ∈ l → R.dates.parse s = some s else l = []
  | .json, _ => True
  | .boolean, _ => True
  | .datetime, _ => True

/-- A null list comes back, and any other as its own condition says. -/
theorem list_kept {α : Type} {v : Option (List (Option α))} {P : List (Option α) → Prop}
    {Q : Prop} (hnull : v = none → Q) (hsome : ∀ l, v = some l → (Q ↔ P l)) : Q ↔ ∀ l ∈ v, P l := by
  cases v with
  | none => exact iff_of_true (hnull rfl) nofun
  | some l => simpa using hsome l rfl

theorem roundTrips_iff_kept (driver : Dialect) (f : Family) (v : f.Value) :
    RoundTrips R driver f v ↔ Kept R driver f v := by
  cases f with
  | stringArray =>
    refine list_kept ?_ ?_
    · rintro rfl
      exact null_kept R rfl
    · rintro l rfl
      by_cases hd : driver = .postgres
      · subst hd
        simpa using stringArray_pg R l
      · simpa [hd] using stringArray_json R hd l
  | intArray =>
    refine list_kept ?_ ?_
    · rintro rfl
      exact null_kept R rfl
    · rintro l rfl
      by_cases hd : driver = .postgres
      · subst hd
        exact intArray_pg R l
      · exact intArray_json R hd l
  | numericArray =>
    refine list_kept ?_ ?_
    · rintro rfl
      exact null_kept R rfl
    · rintro l rfl
      by_cases hd : driver = .postgres
      · subst hd
        exact numericArray_pg R l
      · rw [if_neg hd]
        exact numericArray_json R hd l
  | booleanArray =>
    refine iff_of_true ?_ trivial
    cases v with
    | none => exact null_kept R rfl
    | some l =>
      by_cases hd : driver = .postgres
      · subst hd
        exact booleanArray_pg R l
      · exact booleanArray_json R hd l
  | datetimeArray =>
    refine list_kept ?_ ?_
    · rintro rfl
      exact null_kept R rfl
    · rintro l rfl
      by_cases hd : driver = .postgres
      · subst hd
        exact datetimeArray_pg R l
      · rw [if_neg hd]
        exact datetimeArray_json R hd l
  | json => exact iff_of_true (json_kept R v) trivial
  | boolean => exact iff_of_true (boolean_kept R v) trivial
  | datetime => exact iff_of_true (datetime_kept R v) trivial

/-- A host whose only dates are full ISO texts. -/
def isoRuntime : Runtime where
  host := { dateText := id, bufferText := fun bytes => String.ofList (bytes.map fun b => Char.ofNat b.toNat) }
  dates :=
    { parse := fun s => if s.length = 24 ∧ s.toList.all isIsoChar then some s else none
      ofNumber := fun _ => none
      iso := by
        intro s t h
        obtain ⟨⟨hlen, hall⟩, heq⟩ := Option.ite_none_right_eq_some.mp h
        cases heq
        refine ⟨?_, List.all_eq_true.mp hall⟩
        rintro rfl
        cases hlen
      null := by decide +kernel }

/-- SQLite reads a numeric array as an integer array: `[1.5]` comes back as `[1]`. -/
theorem fraction_cut : castToNumericArray isoRuntime .sqlite (.str "[1.5]") = [some (JsNum.ofInt 1)] ∧
    ¬ RoundTrips isoRuntime .sqlite .numericArray (some [some (.fin (Dec.ofParts 15 (-1)))]) := by
  constructor
  · decide +kernel
  · intro h
    have hd : Dialect.sqlite ≠ .postgres := nofun
    have hwhole := (numericArray_json isoRuntime hd _).mp h _ List.mem_cons_self
    revert hwhole
    decide +kernel

/-! ## The array parser on its own -/

/-- What the parser gives for a list of texts and nulls. -/
theorem pgArrayParse_written (xs : List (Option String)) :
    pgArrayParse (braces (xs.map fun x => pgElement R (jsCell .str x))) =
      if xs.map (elementText id) = [""] then [] else xs.map (elementText id) := by
  have hback := pgArrayOf_elements (l := xs) fun x _ => pgElement_string R x
  have hinj : Function.Injective (List.map JsVal.str) :=
    List.map_injective_iff.mpr fun a b h => JsVal.str.inj h
  apply hinj
  rw [pgArrayOf] at hback
  rw [hback]
  by_cases hone : xs.map (elementText id) = [""]
  · rw [if_pos hone, if_pos hone, List.map_nil]
  · rw [if_neg hone, if_neg hone, List.map_map]
    rfl

theorem elementText_eq_iff (xs : List (Option String)) :
    (xs.map (elementText id)).map some = xs ↔ none ∉ xs := by
  rw [List.map_map]
  constructor
  · intro h hm
    rw [← h] at hm
    obtain ⟨x, _, hx⟩ := List.mem_map.mp hm
    cases hx
  · intro h
    conv_rhs => rw [← List.map_id xs]
    apply List.map_congr_left
    intro x hx
    cases x with
    | none => exact absurd hx h
    | some s => rfl

/-- A written array of texts and nulls is parsed back when it has no null and is not one empty text. -/
theorem pgArrayParse_serializeArray_iff (xs : List (Option String)) :
    ∃ literal, driverArray R .postgres (xs.map (jsCell .str)) = some (.str literal) ∧
      ((pgArrayParse literal).map some = xs ↔ none ∉ xs ∧ xs ≠ [some ""]) := by
  refine ⟨_, pg_written R (jsCell .str) xs, ?_⟩
  rw [pgArrayParse_written]
  by_cases hone : xs.map (elementText id) = [""]
  · rw [if_pos hone]
    obtain ⟨x, rfl, hx⟩ := List.map_eq_singleton_iff.mp hone
    apply iff_of_false nofun
    rintro ⟨hnone, hempty⟩
    cases x with
    | none => exact hnone List.mem_cons_self
    | some s => exact hempty (congrArg (fun t => [some t]) hx)
  · rw [if_neg hone, elementText_eq_iff]
    constructor
    · intro h
      refine ⟨h, ?_⟩
      rintro rfl
      exact hone rfl
    · exact fun h => h.1

/-- A null comes back as the text `NULL`. -/
theorem null_parsed : ∃ literal, driverArray isoRuntime .postgres [.null] = some (.str literal) ∧
    pgArrayParse literal = ["NULL"] ∧ (pgArrayParse literal).map some ≠ [none] := by
  refine ⟨"{NULL}", ?_, ?_, ?_⟩
  · rw [driverArray]
    exact congrArg (fun s => some (JsVal.str s)) (by decide +kernel)
  · decide +kernel
  · decide +kernel

end LiteDb.Families
