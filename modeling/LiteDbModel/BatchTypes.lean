import LiteDbModel.CreateMany
import LiteDbModel.UpdateMany
import LiteDbModel.ColumnFamilies

/-!
# The types of PostgreSQL's batch statements

A batch write binds a column as one array, whose element type is the declared
cast or the type of the first value in the list. A single write binds a value
with its cast, and without one at the type of the column.
-/

namespace LiteDb.BatchTypes
set_option autoImplicit false

/-! ## PostgreSQL and its driver -/

structure Postgres where
  Sql : Type
  /-- The type that a text names. -/
  named : String → Sql
  /-- The type of a column of the table. -/
  column : String → Sql
  /-- The input function of a type takes a text, and nothing of it is lost. -/
  parses : String → String → Prop
  /-- How `pg` writes a date, given by its ISO text. -/
  dateText : String → String
  bufferText : List UInt8 → String

def bigintText (i : Int) : String := String.ofList (Decimal.intText i)

def Within (bits : Nat) (i : Int) : Prop := -2 ^ bits ≤ i ∧ i < 2 ^ bits

def WholeWithin (bits : Nat) (n : JsNum) : Prop := ∃ i, n = JsNum.ofInt i ∧ Within bits i

/-- What the documentation says of the number types: the integer types take the whole numbers of
their range and `numeric` every number. -/
structure Postgres.Documented (pg : Postgres) : Prop where
  int_number : ∀ n : JsNum, pg.parses "int" n.text ↔ WholeWithin 31 n
  int_bigint : ∀ i, pg.parses "int" (bigintText i) ↔ Within 31 i
  bigint_number : ∀ n : JsNum, pg.parses "bigint" n.text ↔ WholeWithin 63 n
  bigint_bigint : ∀ i, pg.parses "bigint" (bigintText i) ↔ Within 63 i
  numeric_number : ∀ n : JsNum, pg.parses "numeric" n.text

section Carrying
variable (pg : Postgres)

/-- `prepareValue` of an element; a list in a list is no element of its own. -/
def driverText : JsVal → Option String
  | .undefined | .null | .arr _ => none
  | .bool b => some (if b then "true" else "false")
  | .num n => some n.text
  | .bigint i => some (bigintText i)
  | .str s => some s
  | .date iso => some (pg.dateText iso)
  | .buffer bytes => some (pg.bufferText bytes)
  | .obj ps => Families.jsonStringify (.obj ps)

/-- `jsonb_array_elements_text` of a list that went through `JSON.stringify`, which makes a null of
a number that is not finite and throws on a bigint. -/
def elementText : JsVal → Option String
  | .undefined | .null | .bigint _ | .num .nan | .num (.inf _) => none
  | .bool b => some (if b then "true" else "false")
  | .num (.fin d) => some (JsNum.fin d).text
  | .str s => some s
  | .date iso => some iso
  | .buffer bytes => Families.jsonStringify (.buffer bytes)
  | .arr xs => Families.jsonStringify (.arr xs)
  | .obj ps => Families.jsonStringify (.obj ps)

/-- How `buildUpdateMany` writes an element of a JSON column. -/
def jsonText : JsVal → Option String
  | .str s => some s
  | v => Families.jsonStringify v

def Reads (text : Option String) (type : String) : Prop := ∃ t, text = some t ∧ pg.parses type t

/-- `getArrayElementType` of an array type. -/
def getArrayElementType (arrayType : String) : String :=
  String.ofList (arrayType.toList.take (arrayType.toList.length - 2))

/-- A column is written, or compared as a key: the texts of a JSON or array column are only cast
where they are written. -/
inductive Use
  | value
  | key

/-- The statement takes a value, and nothing of it is lost. -/
def Takes : Use → Carrier → JsVal → Prop
  | .key, .unnestArray _, v => Reads pg (Families.jsonStringify v) "text"
  | .key, .unnestJson _, v => Reads pg (jsonText v) "text"
  | _, .unnest type, v => Reads pg (driverText pg v) type
  | _, .unnestText type, v => Reads pg (driverText pg v) type
  | .value, .unnestJson type, v => Reads pg (jsonText v) type
  | .value, .unnestArray type, v => ∃ xs, v = .arr xs ∧
      ∀ x ∈ xs, x.nullish = false → Reads pg (elementText x) (getArrayElementType type)
  | _, _, _ => True

/-- The SQL type of a column in a statement: a bare placeholder has the type of the column. -/
def boundType (c : String) : Use → Carrier → pg.Sql
  | .key, .unnestArray _ | .key, .unnestJson _ => pg.named "text"
  | _, .bound (some cast) => pg.named cast
  | _, .unnest type | _, .unnestText type | .value, .unnestJson type | .value, .unnestArray type =>
    pg.named type
  | _, _ => pg.column c

/-- The batch takes a value that is sent, and binds the column with the type of a single write. -/
structure BoundAlike (use : Use) (c : String) (batch : Carrier × Cell) (single : Carrier) : Prop where
  admitted : ∀ v, batch.2 = .val v → v.nullish = false → Takes pg use batch.1 v
  sameType : boundType pg c use batch.1 = boundType pg c use single

end Carrying

/-! ## Batch and single writes -/

/-- A record of the group, inserted by itself. -/
def alone (g : InsertGroup) (it : Record × Record) : InsertGroup where
  columns := g.columns
  records := [it.1]
  rawRecords := [it.2]
  paired := rfl

/-- Each record of a batch insert binds its columns as it would by itself. -/
def InsertsAlike (pg : Postgres) (cls : ModelClass) (g : InsertGroup) : Prop :=
  ∀ it ∈ g.items, ∀ c ∈ g.columns, BoundAlike pg .value c (buildInsertCell .postgres cls g it c)
    (buildInsertCell .postgres cls (alone g it) it c).1

def SentCell.sent (s : SentCell) : Carrier × Cell := (s.carrier, s.cell)

/-- Each record of a batch update binds its keys and the columns it sets as its own update would. -/
def UpdatesAlike (pg : Postgres) (cls : ModelClass) (opts : UpdateManyOptions) : Prop :=
  ∀ r ∈ opts.records,
    (∀ k ∈ opts.keyColumns, BoundAlike pg .key k
      (SentCell.sent (keyCell .postgres cls opts r k)) (conditionCell r k).carrier) ∧
    ∀ c ∈ opts.updateColumns, c ∈ r.names → BoundAlike pg .value c
      (SentCell.sent (valueCell .postgres cls opts r c)) (setCell cls .postgres r c).carrier

/-! ## Kinds of columns -/

/-- What the first value of a column without a cast makes of it. -/
inductive Kind
  | whole
  | number
  | bigint
  | boolean
  | text
  | instant
  | list (e : Kind)
  | json

namespace Kind

def name : Kind → String
  | whole => "int"
  | number => "numeric"
  | bigint => "bigint"
  | boolean => "boolean"
  | text => "text"
  | instant => "timestamp"
  | list e => e.name ++ "[]"
  | json => "jsonb"

def ofNumber (n : JsNum) : Kind := if n.isInteger then whole else number

/-- The kind of a list, by its first element that is not null. -/
def ofElement : Option JsVal → Kind
  | none | some (.str _) => list text
  | some (.num n) => list (ofNumber n)
  | some (.bool _) => list boolean
  | some (.date _) => list instant
  | some _ => json

/-- The kind of a column, by its first value that is not null. -/
def ofSample : Option JsVal → Kind
  | some (.num n) => ofNumber n
  | some (.bigint _) => bigint
  | some (.bool _) => boolean
  | some (.date _) => instant
  | some (.arr xs) => ofElement (xs.find? fun x => !x.nullish)
  | some (.buffer _) | some (.obj _) => json
  | _ => text

section Fits
variable (pg : Postgres)

/-- A value that fits among the values of a kind. -/
def Fits (textOf : JsVal → Option String) : Kind → JsVal → Prop
  | whole, .num n => WholeWithin 31 n
  | whole, .bigint i => Within 31 i
  | bigint, .num n => WholeWithin 63 n
  | bigint, .bigint i => Within 63 i
  | number, .num _ => True
  | k, v => Reads pg (textOf v) k.name

/-- An element of a list, which JSON carries: finite numbers, and no bigint. -/
def FitsElement : Kind → JsVal → Prop
  | whole, .num (.fin d) => WholeWithin 31 (.fin d)
  | number, .num (.fin _) => True
  | k, v => Reads pg (elementText v) k.name

end Fits

theorem name_list_isArray (e : Kind) : isArrayType (list e).name = true := by
  rw [name, isArrayType, String.toList_append, List.reverse_append]
  rfl

theorem getArrayElementType_list (e : Kind) : getArrayElementType (list e).name = e.name := by
  have hlen : (e.name.toList ++ "[]".toList).length - 2 = e.name.toList.length := by
    rw [List.length_append]
    change e.name.toList.length + 2 - 2 = _
    omega
  rw [name, getArrayElementType, String.toList_append, hlen, List.take_left, String.ofList_toList]

theorem inferPgType_eq (v : JsVal) (h : v.nullish = false) :
    inferPgType v = (ofSample (some v)).name := by
  have hnumber : ∀ n : JsNum, (if n.isInteger then "int" else "numeric") = (ofNumber n).name := by
    intro n
    rw [ofNumber]
    split
    · rfl
    · rfl
  cases v with
  | undefined | null => cases h
  | num n => exact hnumber n
  | arr xs =>
    rw [inferPgType, ofSample]
    cases xs.find? fun x => !x.nullish with
    | none => rfl
    | some x =>
      cases x with
      | num n =>
        change (if n.isInteger then "int[]" else "numeric[]") = (ofNumber n).name ++ "[]"
        rw [ofNumber]
        split
        · rfl
        · rfl
      | _ => rfl
  | _ => rfl

end Kind

theorem sample_nullish {col : String} {records : List Record} {v : JsVal}
    (h : sample col records = some v) : v.nullish = false := by
  obtain ⟨r, _, hr⟩ := List.exists_of_findSome?_eq_some h
  split at hr
  · split at hr
    · cases hr
    · next hn =>
      cases hr
      simpa using hn
  · cases hr

/-- A column without a cast gets the type of its kind. -/
theorem pgTypeOf_inferred {sqlCast : String → Option String} {col : String} (records : List Record)
    (h : sqlCast col = none) :
    pgTypeOf sqlCast col records = (Kind.ofSample (sample col records)).name := by
  rw [pgTypeOf, h]
  cases hs : sample col records with
  | none => rfl
  | some v => exact Kind.inferPgType_eq v (sample_nullish hs)

/-! ## When the batch binds alike -/

/-- How `buildInsert` carries a column of a type, and which form of a record it takes the cell of. -/
def insertCarrier (type : String) : Carrier :=
  if isArrayType type then .unnestArray type
  else if isJsonType type then .unnestText type
  else .unnest type

def insertCell (type : String) (it : Record × Record) (c : String) : Cell :=
  if isArrayType type then it.2.cell c else it.1.cell c

def updateCarrier (type : String) : Carrier :=
  if isArrayType type then .unnestArray type
  else if isJsonType type then .unnestJson type
  else .unnest (if type = "timestamp" then "timestamptz" else type)

section Safety
variable (pg : Postgres)

/-- A value fits the column that a batch insert makes of a kind. -/
def InsertFits : Kind → JsVal → Prop
  | .list e, v => ∃ xs, v = .arr xs ∧ ∀ x ∈ xs, x.nullish = false → e.FitsElement pg x
  | k, v => k.Fits pg (driverText pg) v

/-- A value fits the column that a batch update makes of a kind. -/
def UpdateFits : Use → Kind → JsVal → Prop
  | .value, .list e, v => ∃ xs, v = .arr xs ∧ ∀ x ∈ xs, x.nullish = false → e.FitsElement pg x
  | .key, .list _, v => Reads pg (Families.jsonStringify v) "text"
  | .value, .json, v => Reads pg (jsonText v) "jsonb"
  | .key, .json, v => Reads pg (jsonText v) "text"
  | _, .instant, v => Reads pg (driverText pg v) "timestamptz"
  | _, k, v => k.Fits pg (driverText pg) v

/-- The type that a batch update binds a kind with. -/
def updateName : Use → Kind → String
  | .key, .list _ | .key, .json => "text"
  | _, .instant => "timestamptz"
  | _, k => k.name

/-- A declared column: PostgreSQL takes its values as the declared type, and the column itself has
that type where the single write leaves the cast to the driver. Any other column: it has the type of
the kind of its first value, and every value fits that kind. -/
def InsertSafe (cls : ModelClass) (g : InsertGroup) (it : Record × Record) (c : String) : Prop :=
  match cls.sqlCast c with
  | some type =>
    (type = "timestamp" ∨ type = "date" → pg.named type = pg.column c) ∧
    ∀ v, insertCell type it c = .val v → v.nullish = false → Takes pg .value (insertCarrier type) v
  | none =>
    let kind := Kind.ofSample (sample c g.rawRecords)
    pg.named kind.name = pg.column c ∧
    ∀ v, insertCell kind.name it c = .val v → v.nullish = false → InsertFits pg kind v

/-- The same for a batch update; a key has no cast in a single update. -/
def UpdateSafe (use : Use) (cls : ModelClass) (opts : UpdateManyOptions) (r : Record) (c : String) :
    Prop :=
  match cls.sqlCast c with
  | some type =>
    (match use with
      | .key => boundType pg c .key (updateCarrier type) = pg.column c
      | .value => (type = "timestamp" → pg.named "timestamptz" = pg.column c) ∧
          (type = "date" → pg.named "date" = pg.column c)) ∧
    ∀ v, r.cell c = .val v → v.nullish = false → Takes pg use (updateCarrier type) v
  | none =>
    let kind := Kind.ofSample (sample c opts.records)
    pg.named (updateName use kind) = pg.column c ∧
    ∀ v, r.cell c = .val v → v.nullish = false → UpdateFits pg use kind v

/-- Every column of every record of a batch insert is safe. -/
def InsertsSafe (cls : ModelClass) (g : InsertGroup) : Prop :=
  ∀ it ∈ g.items, ∀ c ∈ g.columns, InsertSafe pg cls g it c

def UpdatesSafe (cls : ModelClass) (opts : UpdateManyOptions) : Prop :=
  ∀ r ∈ opts.records, (∀ k ∈ opts.keyColumns, UpdateSafe pg .key cls opts r k) ∧
    ∀ c ∈ opts.updateColumns, c ∈ r.names → UpdateSafe pg .value cls opts r c

end Safety

section Equivalence
variable {pg : Postgres}

theorem fits_iff (h : pg.Documented) (k : Kind) (v : JsVal) :
    k.Fits pg (driverText pg) v ↔ Reads pg (driverText pg v) k.name := by
  have hsome : ∀ (t type : String), Reads pg (some t) type ↔ pg.parses type t := by
    intro t type
    constructor
    · rintro ⟨t', heq, hparses⟩
      cases heq
      exact hparses
    · intro hparses
      exact ⟨t, rfl, hparses⟩
  cases k with
  | whole =>
    cases v with
    | num n => exact ((hsome n.text "int").trans (h.int_number n)).symm
    | bigint i => exact ((hsome (bigintText i) "int").trans (h.int_bigint i)).symm
    | _ => rfl
  | bigint =>
    cases v with
    | num n => exact ((hsome n.text "bigint").trans (h.bigint_number n)).symm
    | bigint i => exact ((hsome (bigintText i) "bigint").trans (h.bigint_bigint i)).symm
    | _ => rfl
  | number =>
    cases v with
    | num n => exact iff_of_true trivial ((hsome n.text "numeric").mpr (h.numeric_number n))
    | _ => rfl
  | _ => rfl

theorem fitsElement_iff (h : pg.Documented) (k : Kind) (v : JsVal) :
    k.FitsElement pg v ↔ Reads pg (elementText v) k.name := by
  cases k with
  | whole =>
    cases v with
    | num n =>
      cases n with
      | fin d =>
        have hint := h.int_number (.fin d)
        constructor
        · intro hw
          exact ⟨_, rfl, hint.mpr hw⟩
        · rintro ⟨t, heq, hparses⟩
          cases heq
          exact hint.mp hparses
      | _ => rfl
    | _ => rfl
  | number =>
    cases v with
    | num n =>
      cases n with
      | fin d => exact iff_of_true trivial ⟨_, rfl, h.numeric_number (.fin d)⟩
      | _ => rfl
    | _ => rfl
  | _ => rfl

theorem list_iff (h : pg.Documented) (e : Kind) (v : JsVal) :
    (∃ xs, v = .arr xs ∧ ∀ x ∈ xs, x.nullish = false →
      Reads pg (elementText x) (getArrayElementType (Kind.list e).name)) ↔
    ∃ xs, v = .arr xs ∧ ∀ x ∈ xs, x.nullish = false → e.FitsElement pg x := by
  simp only [Kind.getArrayElementType_list, fitsElement_iff h]

theorem insertFits_iff (h : pg.Documented) (k : Kind) (v : JsVal) :
    Takes pg .value (insertCarrier k.name) v ↔ InsertFits pg k v := by
  cases k with
  | list e =>
    rw [insertCarrier, if_pos (Kind.name_list_isArray e)]
    exact list_iff h e v
  | json =>
    exact Iff.rfl
  | whole | number | bigint | boolean | text | instant => exact (fits_iff h _ v).symm

theorem updateFits_iff (h : pg.Documented) (use : Use) (k : Kind) (v : JsVal) :
    Takes pg use (updateCarrier k.name) v ↔ UpdateFits pg use k v := by
  cases k with
  | list e =>
    rw [updateCarrier, if_pos (Kind.name_list_isArray e)]
    cases use with
    | value => exact list_iff h e v
    | key => exact Iff.rfl
  | json | instant => cases use <;> exact Iff.rfl
  | whole | number | bigint | boolean | text => cases use <;> exact (fits_iff h _ v).symm

end Equivalence

section Main
variable {pg : Postgres} {cls : ModelClass}

theorem buildInsertCell_batch {g : InsertGroup} (hmany : 1 < g.records.length)
    (htokens : g.hasDbToken = false) (it : Record × Record) (c : String) :
    buildInsertCell .postgres cls g it c =
      (insertCarrier (pgTypeOf cls.sqlCast c g.rawRecords),
        insertCell (pgTypeOf cls.sqlCast c g.rawRecords) it c) := by
  simp only [buildInsertCell, hmany, htokens, and_self, if_true, insertCarrier, insertCell]
  split
  · rfl
  · split
    · rfl
    · rfl

theorem buildInsertCell_alone (g : InsertGroup) (it : Record × Record) (c : String) :
    (buildInsertCell .postgres cls (alone g it) it c).1 = .bound (boundCast cls.sqlCast c) := by
  simp [buildInsertCell, alone]

theorem unnestCell_sent {opts : UpdateManyOptions} {r : Record} {c : String} (hc : c ∈ r.names) :
    SentCell.sent (unnestCell cls opts r c) =
      (updateCarrier (pgTypeOf cls.sqlCast c opts.records), r.cell c) := by
  simp only [unnestCell, hc, if_true, updateCarrier]
  split
  · rfl
  · split
    · rfl
    · rfl

theorem boundType_insert (c type : String) :
    boundType pg c .value (insertCarrier type) = pg.named type := by
  rw [insertCarrier]
  split
  · rfl
  · split
    · rfl
    · rfl

/-- The type of a single write: the declared cast, unless the driver makes it. -/
theorem boundType_bound (c : String) : boundType pg c .value (.bound (boundCast cls.sqlCast c)) =
    match cls.sqlCast c with
    | some type => if type = "timestamp" ∨ type = "date" then pg.column c else pg.named type
    | none => pg.column c := by
  rw [boundCast]
  cases cls.sqlCast c with
  | none => rfl
  | some type =>
    by_cases ht : type = "timestamp" ∨ type = "date"
    · have hdrop : Option.filter (fun type => type ≠ "timestamp" && type ≠ "date") (some type) = none := by
        rcases ht with rfl | rfl
        · rfl
        · rfl
      simp only [hdrop, if_pos ht]
      rfl
    · have hkeep : Option.filter (fun type => type ≠ "timestamp" && type ≠ "date") (some type) =
          some type := by
        simpa [Option.filter, not_or] using ht
      simp only [hkeep, if_neg ht]
      rfl

theorem insertAlike_iff (h : pg.Documented) {g : InsertGroup} (hmany : 1 < g.records.length)
    (htokens : g.hasDbToken = false) (it : Record × Record) (c : String) :
    BoundAlike pg .value c (buildInsertCell .postgres cls g it c)
      (buildInsertCell .postgres cls (alone g it) it c).1 ↔ InsertSafe pg cls g it c := by
  rw [buildInsertCell_batch hmany htokens, buildInsertCell_alone, InsertSafe]
  have hbound : boundType pg c .value (.bound (boundCast cls.sqlCast c)) = _ := boundType_bound c
  cases hcast : cls.sqlCast c with
  | some type =>
    have htype : pgTypeOf cls.sqlCast c g.rawRecords = type := by rw [pgTypeOf, hcast]
    simp only [hcast] at hbound
    rw [htype]
    constructor
    · rintro ⟨hadmitted, hsame⟩
      rw [boundType_insert, hbound] at hsame
      refine ⟨fun ht => ?_, hadmitted⟩
      rwa [if_pos ht] at hsame
    · rintro ⟨hnamed, hadmitted⟩
      refine ⟨hadmitted, ?_⟩
      rw [boundType_insert, hbound]
      split
      · next ht => exact hnamed ht
      · rfl
  | none =>
    simp only [hcast] at hbound
    rw [pgTypeOf_inferred g.rawRecords hcast]
    constructor
    · rintro ⟨hadmitted, hsame⟩
      rw [boundType_insert, hbound] at hsame
      exact ⟨hsame, fun v hv hn => (insertFits_iff h _ v).mp (hadmitted v hv hn)⟩
    · rintro ⟨hnamed, hfits⟩
      refine ⟨fun v hv hn => (insertFits_iff h _ v).mpr (hfits v hv hn), ?_⟩
      rw [boundType_insert, hbound]
      exact hnamed

theorem boundType_update (c : String) (use : Use) (k : Kind) :
    boundType pg c use (updateCarrier k.name) = pg.named (updateName use k) := by
  cases k with
  | list e =>
    rw [updateCarrier, if_pos (Kind.name_list_isArray e)]
    cases use with
    | value => rfl
    | key => rfl
  | _ => cases use <;> rfl

theorem boundType_update_value (c type : String) :
    boundType pg c .value (updateCarrier type) =
      pg.named (if type = "timestamp" then "timestamptz" else type) := by
  have hplain : isArrayType type = true ∨ isJsonType type = true → type ≠ "timestamp" := by
    rintro h rfl
    revert h
    decide
  rw [updateCarrier]
  split
  · next ha =>
    rw [if_neg (hplain (.inl ha))]
    rfl
  · split
    · next hj =>
      rw [if_neg (hplain (.inr hj))]
      rfl
    · rfl

theorem keyAlike_iff (h : pg.Documented) {opts : UpdateManyOptions} {r : Record} {k : String}
    (hk : k ∈ r.names) : BoundAlike pg .key k (SentCell.sent (keyCell .postgres cls opts r k))
      (conditionCell r k).carrier ↔ UpdateSafe pg .key cls opts r k := by
  change BoundAlike pg .key k (SentCell.sent (unnestCell cls opts r k)) .condition ↔ _
  rw [unnestCell_sent hk, UpdateSafe]
  cases hcast : cls.sqlCast k with
  | some type =>
    have htype : pgTypeOf cls.sqlCast k opts.records = type := by rw [pgTypeOf, hcast]
    rw [htype]
    constructor
    · rintro ⟨hadmitted, hsame⟩
      exact ⟨hsame, hadmitted⟩
    · rintro ⟨hnamed, hadmitted⟩
      exact ⟨hadmitted, hnamed⟩
  | none =>
    rw [pgTypeOf_inferred opts.records hcast]
    constructor
    · rintro ⟨hadmitted, hsame⟩
      rw [boundType_update] at hsame
      exact ⟨hsame, fun v hv hn => (updateFits_iff h _ _ v).mp (hadmitted v hv hn)⟩
    · rintro ⟨hnamed, hfits⟩
      refine ⟨fun v hv hn => (updateFits_iff h _ _ v).mpr (hfits v hv hn), ?_⟩
      rw [boundType_update]
      exact hnamed

theorem valueAlike_iff (h : pg.Documented) {opts : UpdateManyOptions} {r : Record} {c : String}
    (hc : c ∈ r.names) : BoundAlike pg .value c (SentCell.sent (valueCell .postgres cls opts r c))
      (setCell cls .postgres r c).carrier ↔ UpdateSafe pg .value cls opts r c := by
  change BoundAlike pg .value c (SentCell.sent (unnestCell cls opts r c))
    (.bound (boundCast cls.sqlCast c)) ↔ _
  rw [unnestCell_sent hc, UpdateSafe]
  have hbound : boundType pg c .value (.bound (boundCast cls.sqlCast c)) = _ := boundType_bound c
  cases hcast : cls.sqlCast c with
  | some type =>
    have htype : pgTypeOf cls.sqlCast c opts.records = type := by rw [pgTypeOf, hcast]
    simp only [hcast] at hbound
    rw [htype]
    constructor
    · rintro ⟨hadmitted, hsame⟩
      rw [boundType_update_value, hbound] at hsame
      refine ⟨⟨?_, ?_⟩, hadmitted⟩
      · rintro rfl
        simpa using hsame
      · rintro rfl
        simpa using hsame
    · rintro ⟨⟨htimestamp, hdate⟩, hadmitted⟩
      refine ⟨hadmitted, ?_⟩
      rw [boundType_update_value, hbound]
      by_cases ht : type = "timestamp"
      · rw [if_pos ht, if_pos (.inl ht), htimestamp ht]
      · rw [if_neg ht]
        by_cases hd : type = "date"
        · rw [if_pos (.inr hd), hd, hdate hd]
        · rw [if_neg (by simp [ht, hd])]
  | none =>
    simp only [hcast] at hbound
    rw [pgTypeOf_inferred opts.records hcast]
    constructor
    · rintro ⟨hadmitted, hsame⟩
      rw [boundType_update, hbound] at hsame
      exact ⟨hsame, fun v hv hn => (updateFits_iff h _ _ v).mp (hadmitted v hv hn)⟩
    · rintro ⟨hnamed, hfits⟩
      refine ⟨fun v hv hn => (updateFits_iff h _ _ v).mpr (hfits v hv hn), ?_⟩
      rw [boundType_update, hbound]
      exact hnamed

end Main

/-- Integers by their decimal texts, and every other text of every other type. -/
def decimalParses (type text : String) : Prop :=
  if type = "int" then
    ∃ i, Within 31 i ∧ Decimal.parseNumber text.toList = some (Decimal.Dec.ofInt i, [])
  else if type = "bigint" then
    ∃ i, Within 63 i ∧ Decimal.parseNumber text.toList = some (Decimal.Dec.ofInt i, [])
  else True

/-- A table whose columns are integers. -/
def amounts : Postgres where
  Sql := String
  named := fun type => type
  column := fun _ => "int"
  parses := decimalParses
  dateText := fun iso => iso
  bufferText := fun _ => "\\x"

theorem parseNumber_bigintText (i : Int) :
    Decimal.parseNumber (bigintText i).toList = some (Decimal.Dec.ofInt i, []) := by
  have hread := Decimal.parseNumber_intText i Decimal.NumEnd.nil
  rw [List.append_nil] at hread
  rw [bigintText, String.toList_ofList]
  exact hread

theorem parses_number (bits : Nat) (n : JsNum) :
    (∃ i, Within bits i ∧ Decimal.parseNumber n.text.toList = some (Decimal.Dec.ofInt i, [])) ↔
      WholeWithin bits n := by
  cases n with
  | fin d =>
    have hread := Decimal.parseNumber_print d Decimal.NumEnd.nil
    rw [List.append_nil] at hread
    rw [JsNum.text, String.toList_ofList, hread]
    constructor
    · rintro ⟨i, hi, heq⟩
      cases heq
      exact ⟨i, rfl, hi⟩
    · rintro ⟨i, heq, hi⟩
      cases heq
      exact ⟨i, hi, rfl⟩
  | nan =>
    have hnone : Decimal.parseNumber JsNum.nan.text.toList = none := by decide +kernel
    rw [hnone]
    constructor
    · rintro ⟨_, _, heq⟩
      cases heq
    · rintro ⟨_, heq, _⟩
      cases heq
  | inf neg =>
    have hnone : Decimal.parseNumber (JsNum.inf neg).text.toList = none := by
      cases neg
      · decide +kernel
      · decide +kernel
    rw [hnone]
    constructor
    · rintro ⟨_, _, heq⟩
      cases heq
    · rintro ⟨_, heq, _⟩
      cases heq

theorem parses_bigint (bits : Nat) (i : Int) :
    (∃ j, Within bits j ∧ Decimal.parseNumber (bigintText i).toList =
      some (Decimal.Dec.ofInt j, [])) ↔ Within bits i := by
  rw [parseNumber_bigintText]
  constructor
  · rintro ⟨j, hj, heq⟩
    have hvalue := congrArg (fun p => p.elim 0 fun p => p.1.value) heq
    simp only [Option.elim_some, Decimal.Dec.value_ofInt, Int.cast_inj] at hvalue
    rw [hvalue]
    exact hj
  · intro hi
    exact ⟨i, hi, rfl⟩

theorem amounts_documented : amounts.Documented where
  int_number := parses_number 31
  int_bigint := parses_bigint 31
  bigint_number := parses_number 63
  bigint_bigint := parses_bigint 63
  numeric_number := fun _ => trivial

def noCasts : ModelClass where
  pk := ⟨["id"], none⟩
  serializers := fun _ => none
  sqlCast := fun _ => none

def amountRecord (n : JsNum) : Record := ⟨[("amount", .val (.num n))], by simp⟩

def amountGroup (n m : JsNum) : InsertGroup :=
  ⟨["amount"], [amountRecord n, amountRecord m], [amountRecord n, amountRecord m], rfl⟩

theorem half_normal : Decimal.Normal 5 (-1) := by decide

def half : JsNum := .fin ⟨5, -1, half_normal⟩

end LiteDb.BatchTypes
