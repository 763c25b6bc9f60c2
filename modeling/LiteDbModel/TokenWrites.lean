import LiteDbModel.CreateManyKeys
import LiteDbModel.UpdateMany
import LiteDbModel.ColumnFamilies
import LiteDbModel.Lib.Exit

/-!
# Serialized values and tokens in writes

Each family registers its own serializer, and each serializer decides for itself what it
takes; a token is one more object to it. `_insert` and `_update` serialize the record they
are given, `updateMany` does not, and the builders look for tokens in what is left.
-/

namespace LiteDb.TokenWrites
set_option autoImplicit false
open Keyed

/-! ## The families -/

/-- What the host adds: `formatLocalDate`, and the JSON text of a token object. -/
structure Env where
  runtime : Families.Runtime
  formatLocalDate : String → String
  tokenJson : Cell → Option String

abbrev Serialize := Cell → Except String Cell

def dateRefused (family : String) : String :=
  "litedbmodel: @column." ++ family ++ "() received a Date. A text column cannot serialize one — " ++
  "the driver would store an object literal. Use @column.datetime() / @column.date() for a date " ++
  "column, or format the value yourself."

def objectRefused (family : String) : String :=
  "litedbmodel: @column." ++ family ++ "() received an object. Use @column.json<T>() for a JSON " ++
  "column, or @column.custom() with a serializer."

/-- A token is an object as well. -/
def rejectNonText (family : String) : Serialize
  | .val .undefined => .ok (.val .null)
  | .val .null => .ok (.val .null)
  | .val (.date _) => .error (dateRefused family)
  | .val (.arr _) => .error (objectRefused family)
  | .val (.obj _) => .error (objectRefused family)
  | .val (.buffer _) => .error (objectRefused family)
  | .immediate _ => .error (objectRefused family)
  | .token _ _ => .error (objectRefused family)
  | cell => .ok cell

/-- `JSON.stringify` throws on a bigint. -/
def stringified : Option JsVal → Except String Cell
  | some v => .ok (.val v)
  | none => .error "Do not know how to serialize a BigInt"

/-- A serializer that returns what is not its own kind of value, tokens included. -/
def passing (f : JsVal → Option JsVal) : Serialize
  | .val v => stringified (f v)
  | token => .ok token

def serializeDate (env : Env) : JsVal → Option JsVal
  | .undefined => some .null
  | .null => some .null
  | .date iso => some (.str (env.formatLocalDate iso))
  | v => some v

/-- `JSON.stringify` takes a token as any other object. -/
def serializeJson (env : Env) : Serialize
  | .val v => stringified (Families.serializeJson v)
  | token => stringified ((env.tokenJson token).map .str)

inductive ColumnFamily
  | text
  | decimal
  | uuid
  | number
  | boolean
  | bigint
  | datetime
  | date
  | stringArray
  | intArray
  | numericArray
  | booleanArray
  | datetimeArray
  | json
  | passthrough
  | custom (serialize : Option Serialize)

def ColumnFamily.serializer (env : Env) (driver : Dialect) : ColumnFamily → Option Serialize
  | .text => some (rejectNonText "text")
  | .decimal => some (rejectNonText "decimal")
  | .uuid => some (rejectNonText "uuid")
  | .number => none
  | .boolean => none
  | .bigint => none
  | .datetime => some (passing (Families.serializeDatetime driver))
  | .date => some (passing (serializeDate env))
  | .stringArray => some (passing (Families.serializeArray env.runtime driver))
  | .intArray => some (passing (Families.serializeArray env.runtime driver))
  | .numericArray => some (passing (Families.serializeArray env.runtime driver))
  | .booleanArray => some (passing (Families.serializeBooleanArray driver))
  | .datetimeArray => some (passing (Families.serializeDatetimeArray env.runtime))
  | .json => some (serializeJson env)
  | .passthrough => none
  | .custom serialize => serialize

def ColumnFamily.sqlCast : ColumnFamily → Option String
  | .decimal => some "numeric"
  | .boolean => some "boolean"
  | .bigint => some "bigint"
  | .datetime => some "timestamp"
  | .date => some "date"
  | .stringArray => some "text[]"
  | .intArray => some "int[]"
  | .numericArray => some "numeric[]"
  | .booleanArray => some "boolean[]"
  | .json => some "jsonb"
  | .uuid => some "uuid"
  | _ => none

/-! ## The model class -/

structure ColumnMeta where
  propertyKey : String
  columnName : String
  family : ColumnFamily

def ColumnMeta.hasName (name : String) (c : ColumnMeta) : Bool :=
  c.propertyKey = name || c.columnName = name

/-- A model class on a driver; a column name is not empty and holds no comma. -/
structure WriteModel where
  env : Env
  dialect : Dialect
  columns : List ColumnMeta
  pk : PrimaryKey
  named : ∀ c ∈ columns, c.columnName ≠ "" ∧ ',' ∉ c.columnName.toList

/-- The loop of `getSerializeMap` and `getSqlCastMap`: by property and by column name. -/
def columnMap {β : Type} (get : ColumnMeta → Option β) (columns : List ColumnMeta) :
    List (String × β) :=
  columns.foldl (fun map c =>
    match get c with
    | none => map
    | some b =>
      let map := Keyed.put c.propertyKey b map
      if c.columnName ≠ c.propertyKey then Keyed.put c.columnName b map else map) []

/-- A value through a serializer, or as it is. -/
def applySerialize (serialize : Option Serialize) (cell : Cell) : Except String Cell :=
  match serialize with
  | some f => f cell
  | none => .ok cell

namespace WriteModel
variable (m : WriteModel)

def serializer (c : ColumnMeta) : Option Serialize := c.family.serializer m.env m.dialect

def getSerializeMap (name : String) : Option Serialize :=
  (columnMap m.serializer m.columns).lookup name

def getSqlCastMap (name : String) : Option String :=
  (columnMap (fun c => c.family.sqlCast) m.columns).lookup name

/-- What `serializeRecord` makes of one entry of a record. -/
def serializeEntry (p : String × Cell) : Except String Cell :=
  applySerialize (m.getSerializeMap p.1) p.2

/-- Serialization keeps the names of a record. -/
theorem mapM_names {f : String × Cell → Except String Cell} {cells out : List (String × Cell)}
    (h : cells.mapM (fun p => (f p).map fun cell => (p.1, cell)) = .ok out) :
    out.map (·.1) = cells.map (·.1) := by
  have hcells := Exit.mapM_ok_iff.mp h
  clear h
  induction hcells with
  | nil => rfl
  | @cons p q _ _ hp _ ih =>
    rw [List.map_cons, List.map_cons, ih]
    refine congrArg (· :: _) ?_
    cases hentry : f p with
    | error e =>
      rw [hentry] at hp
      cases hp
    | ok cell =>
      rw [hentry] at hp
      cases hp
      rfl

theorem serializeRecord_nodup {record : Record} {cells : List (String × Cell)}
    (h : record.cells.mapM (fun p => (m.serializeEntry p).map fun cell => (p.1, cell)) =
      .ok cells) : (cells.map (·.1)).Nodup := by
  rw [mapM_names h]
  exact record.nodup

def serializeRecord (record : Record) : Except String Record :=
  match h : record.cells.mapM fun p => (m.serializeEntry p).map fun cell => (p.1, cell) with
  | .ok cells => .ok ⟨cells, m.serializeRecord_nodup h⟩
  | .error e => .error e

/-- The serializers, for a record that none of them refuses. -/
def serializers : SerializeMap := fun name =>
  (m.getSerializeMap name).map fun f cell => (f cell).toOption.getD cell

def modelClass : ModelClass where
  pk := m.pk
  serializers := m.serializers
  sqlCast := m.getSqlCastMap

end WriteModel

/-! ## The writes -/

/-- A write that a caller asks for: `create` and `createMany` insert. -/
inductive WriteOp
  | insert (rows : List (List Pair))
  | update (values : List Pair)
  | updateMany (opts : UpdateManyOptions)

def WriteOp.records : WriteOp → List Record
  | .insert rows => rows.map pairsToRecord
  | .update values => [pairsToRecord values]
  | .updateMany opts => opts.records

/-- A write of a model's own columns; `rt` says that the compiled runtime is there. -/
structure WriteCall (m : WriteModel) where
  op : WriteOp
  rt : Bool
  dates : DateStrings
  declared : ∀ r ∈ op.records, ∀ name ∈ r.names, ∃ c ∈ m.columns, c.columnName = name

/-- One cell of a record: what the caller gave, what its statement builder is handed, and what the
statement sends for the column, nothing when it leaves the column out. -/
structure Site where
  name : String
  cell : Cell
  given : Except String Cell
  sent : Option SentCell
  /-- A column without a value is left out. -/
  leavesOut : Bool

namespace WriteModel
variable (m : WriteModel)

/-- `_insert`: every record is serialized before the first statement. -/
def insertGroups (raws : List Record) : Except String (List InsertGroup) := do
  let records ← raws.mapM m.serializeRecord
  return (groupRecords (records.zip raws)).map (·.2)

def insertSites (rt : Bool) (dates : DateStrings) (groups : List InsertGroup) : List Site :=
  let compiled := usesScp m.dialect rt && decide (groups.length = 1)
  (sentGroups m.dialect compiled dates groups).flatMap fun g => g.items.flatMap fun it =>
    it.2.cells.map fun p =>
      { name := p.1
        cell := p.2
        given := m.serializeEntry p
        sent := if p.1 ∈ g.columns then
            some (sentCell m.dialect compiled m.modelClass g it p.1) else none
        leavesOut := true }

/-- The `SET` clauses of `_update`, one for each entry of the serialized record. -/
def updateSites (values record : Record) : List Site :=
  values.cells.map fun p =>
    { name := p.1
      cell := p.2
      given := m.serializeEntry p
      sent := some ⟨.bound (if m.dialect = .postgres then boundCast m.getSqlCastMap p.1 else none),
        false, record.cell p.1⟩
      leavesOut := false }

/-- `updateMany` hands the builder the rows as they are. -/
def updateManySites (opts : UpdateManyOptions) : List Site :=
  opts.records.flatMap fun r => r.cells.map fun p =>
    { name := p.1
      cell := p.2
      given := .ok p.2
      sent := some (if p.1 ∈ opts.keyColumns then
          keyCell (builderFor m.dialect) m.modelClass opts r p.1
        else valueCell (builderFor m.dialect) m.modelClass opts r p.1)
      leavesOut := false }

variable {m}

def sites (call : WriteCall m) : Except String (List Site) :=
  match call.op with
  | .insert rows => (m.insertGroups (rows.map pairsToRecord)).map (m.insertSites call.rt call.dates)
  | .update values =>
    (m.serializeRecord (pairsToRecord values)).map (m.updateSites (pairsToRecord values))
  | .updateMany opts => .ok (m.updateManySites opts)

/-! ## What a write is to send -/

/-- The value that the column's own family makes of a plain value, and a token itself. -/
def expected (m : WriteModel) (c : ColumnMeta) (cell : Cell) : Except String Cell :=
  if cell.isToken then .ok cell else applySerialize (m.serializer c) cell

end WriteModel

/-- A token so carried is compiled into the statement. -/
def embeds : Carrier → Bool
  | .bound _ => true
  | .valuesRow _ => true
  | _ => false

/-- The statement carries the cell: a token's SQL in it, a value as a parameter; an insert leaves
out a column without a value, whose default it is. -/
def Site.Carries (s : Site) (cell : Cell) : Prop :=
  if s.leavesOut = true ∧ cell.live = false then s.sent = none
  else ∃ sent, s.sent = some sent ∧ sent.cell = cell ∧
    (cell.isToken = true → embeds sent.carrier = true)

def Site.Right (m : WriteModel) (c : ColumnMeta) (s : Site) : Prop :=
  ∃ cell, m.expected c s.cell = .ok cell ∧ s.given = .ok cell ∧ s.Carries cell

/-- A plain value that the serializer of one of its columns refuses. -/
def Refused {m : WriteModel} (call : WriteCall m) : Prop :=
  ∃ r ∈ call.op.records, ∃ p ∈ r.cells, ∃ c ∈ m.columns, c.columnName = p.1 ∧
    p.2.isToken = false ∧ ∀ cell, applySerialize (m.serializer c) p.2 ≠ .ok cell

/-- Each token arrives as its SQL and each other value serialized once by its own column, or the
call ends at a value that its column refuses. -/
def WritesOnce {m : WriteModel} (call : WriteCall m) : Prop :=
  match WriteModel.sites call with
  | .ok ss => ∀ s ∈ ss, ∀ c ∈ m.columns, c.columnName = s.name → s.Right m c
  | .error _ => Refused call

/-! ## When each cell arrives -/

/-- A family whose serializer returns the token as it is. -/
def ColumnFamily.Keeps (token : Cell) : ColumnFamily → Prop
  | .text => False
  | .decimal => False
  | .uuid => False
  | .json => False
  | .custom (some f) => f token = .ok token
  | _ => True

/-- The last column that has a serializer and the name, as its property or as its column. -/
def WriteModel.lastSerialized (m : WriteModel) (name : String) : Option ColumnMeta :=
  m.columns.reverse.find? fun c => c.hasName name && (m.serializer c).isSome

/-- The serializer registered under the column's name returns a token as it is, and makes of a
plain value what the column's own makes of it. -/
def CellSafe (m : WriteModel) (c : ColumnMeta) (cell : Cell) : Prop :=
  if cell.isToken then ∀ c' ∈ m.lastSerialized c.columnName, c'.family.Keeps cell
  else applySerialize ((m.lastSerialized c.columnName).bind m.serializer) cell =
    applySerialize (m.serializer c) cell

def AllSafe {m : WriteModel} (call : WriteCall m) : Prop :=
  ∀ r ∈ call.op.records, ∀ p ∈ r.cells, ∀ c ∈ m.columns, c.columnName = p.1 → CellSafe m c p.2

/-- No serializer refuses a cell. -/
def Serializable {m : WriteModel} (call : WriteCall m) : Prop :=
  ∀ r ∈ call.op.records, ∀ p ∈ r.cells, ∃ out, m.serializeEntry p = .ok out

/-- The batch sends the column as an array of the raw values' JSON texts. -/
def Unnested (m : WriteModel) (g : InsertGroup) (name : String) : Prop :=
  m.dialect = .postgres ∧ 1 < g.records.length ∧ g.hasDbToken = false ∧
    isArrayType (pgTypeOf m.getSqlCastMap name g.rawRecords) = true

/-- The one batch of the call is a MySQL payload, which holds dates as texts. -/
def DatesWritten (m : WriteModel) (rt : Bool) (groups : List InsertGroup) : Prop :=
  m.dialect = .mysql ∧ rt = true ∧ groups.length = 1

def isDate : Cell → Bool
  | .val (.date _) => true
  | _ => false

/-- The serialized values reach the statement: none is an array that is sent raw, unless it is the
raw value, and none a date that is written out. -/
def BatchesSafe (m : WriteModel) (rt : Bool) (raws : List Record) : Prop :=
  let groups := groupedByPattern m.serializers raws
  ∀ g ∈ groups, ∀ it ∈ g.items, ∀ p ∈ it.2.cells, ∀ out, m.serializeEntry p = .ok out →
    out.live = true → (Unnested m g p.1 → p.2 = out) ∧
      (DatesWritten m rt groups → isDate out = false)

/-- `updateMany` serializes nothing: a plain value is one that its serializer leaves, and a token
is compiled by MySQL's and SQLite's builders, by the latter only outside the keys. -/
def RowSafe (m : WriteModel) (opts : UpdateManyOptions) (c : ColumnMeta) (p : String × Cell) :
    Prop :=
  if p.2.isToken then m.dialect = .mysql ∨ m.dialect = .sqlite ∧ p.1 ∉ opts.keyColumns
  else applySerialize (m.serializer c) p.2 = .ok p.2

/-- The conditions of a write, by its kind. -/
def WriteSafe {m : WriteModel} (call : WriteCall m) : Prop :=
  match call.op with
  | .insert rows => (Serializable call → AllSafe call ∧
      BatchesSafe m call.rt (rows.map pairsToRecord)) ∧ (¬Serializable call → Refused call)
  | .update _ => (Serializable call → AllSafe call) ∧ (¬Serializable call → Refused call)
  | .updateMany opts => ∀ r ∈ opts.records, ∀ p ∈ r.cells, ∀ c ∈ m.columns, c.columnName = p.1 →
      RowSafe m opts c p

/-! ## The serializer of a name -/

theorem lookup_columnMap {β : Type} (get : ColumnMeta → Option β) (columns : List ColumnMeta)
    (name : String) : (columnMap get columns).lookup name =
      (columns.reverse.find? fun c => c.hasName name && (get c).isSome).bind get := by
  induction columns using List.reverseRecOn with
  | nil => rfl
  | append_singleton columns c ih =>
    have hstep : columnMap get (columns ++ [c]) =
        match get c with
        | none => columnMap get columns
        | some b =>
          let map := Keyed.put c.propertyKey b (columnMap get columns)
          if c.columnName ≠ c.propertyKey then Keyed.put c.columnName b map else map := by
      rw [columnMap, List.foldl_append]
      rfl
    rw [hstep, List.reverse_append, List.reverse_singleton, List.singleton_append, List.find?_cons]
    cases hget : get c with
    | none =>
      simp only [Option.isSome_none, Bool.and_false]
      exact ih
    | some b =>
      simp only [Option.isSome_some, Bool.and_true]
      by_cases hprop : c.propertyKey = name
      · have hname : c.hasName name = true := by simp [ColumnMeta.hasName, hprop]
        rw [hname]
        simp only [Option.bind_some, hget]
        split
        · next hne =>
          rw [lookup_put, if_neg, lookup_put, if_pos hprop.symm]
          intro heq
          exact hne (heq.symm.trans hprop.symm)
        · rw [lookup_put, if_pos hprop.symm]
      · by_cases hcol : c.columnName = name
        · have hname : c.hasName name = true := by simp [ColumnMeta.hasName, hcol]
          have hne : c.columnName ≠ c.propertyKey := fun h => hprop (h.symm.trans hcol)
          rw [hname]
          simp only [Option.bind_some, hget]
          rw [if_pos hne, lookup_put, if_pos hcol.symm]
        · have hname : c.hasName name = false := by simp [ColumnMeta.hasName, hprop, hcol]
          rw [hname, ← ih]
          split
          · rw [lookup_put, if_neg (Ne.symm hcol), lookup_put, if_neg (Ne.symm hprop)]
          · rw [lookup_put, if_neg (Ne.symm hprop)]

section Entries
variable {m : WriteModel}

theorem getSerializeMap_eq (name : String) :
    m.getSerializeMap name = (m.lastSerialized name).bind m.serializer :=
  lookup_columnMap m.serializer m.columns name

/-- A family leaves a token exactly when it keeps it. -/
theorem keeps_iff (c : ColumnMeta) {token : Cell} (h : token.isToken = true) :
    applySerialize (m.serializer c) token = .ok token ↔ c.family.Keeps token := by
  unfold WriteModel.serializer
  cases token with
  | val v => cases h
  | immediate sql =>
    cases hf : c.family with
    | json =>
      simp only [ColumnFamily.serializer, applySerialize, serializeJson, ColumnFamily.Keeps]
      cases m.env.tokenJson (.immediate sql) <;> simp [stringified]
    | custom serialize =>
      cases serialize <;> simp [ColumnFamily.serializer, applySerialize, ColumnFamily.Keeps]
    | _ =>
      simp [ColumnFamily.serializer, applySerialize, rejectNonText, passing, ColumnFamily.Keeps]
  | token sql params =>
    cases hf : c.family with
    | json =>
      simp only [ColumnFamily.serializer, applySerialize, serializeJson, ColumnFamily.Keeps]
      cases m.env.tokenJson (.token sql params) <;> simp [stringified]
    | custom serialize =>
      cases serialize <;> simp [ColumnFamily.serializer, applySerialize, ColumnFamily.Keeps]
    | _ =>
      simp [ColumnFamily.serializer, applySerialize, rejectNonText, passing, ColumnFamily.Keeps]

/-- What the caller may expect of a cell is what `serializeRecord` made of it. -/
theorem expected_iff {c : ColumnMeta} {cell out : Cell}
    (h : m.serializeEntry (c.columnName, cell) = .ok out) :
    m.expected c cell = .ok out ↔ CellSafe m c cell := by
  have hentry := h
  rw [WriteModel.serializeEntry, getSerializeMap_eq] at hentry
  unfold WriteModel.expected CellSafe
  split
  · next htoken =>
    cases hlast : m.lastSerialized c.columnName with
    | none =>
      rw [hlast] at hentry
      simp only [Option.bind_none, applySerialize] at hentry
      simp [hentry]
    | some c' =>
      rw [hlast, Option.bind_some] at hentry
      simp only [Option.mem_def, Option.some.injEq, forall_eq']
      rw [← keeps_iff c' htoken, hentry]
      constructor
      · intro heq
        rw [Except.ok.inj heq]
      · intro heq
        rw [Except.ok.inj heq]
  · rw [hentry]
    exact eq_comm

end Entries

/-! ## Records and groups -/

section Groups
variable {m : WriteModel}

theorem serializeCell_eq {p : String × Cell} {out : Cell} (h : m.serializeEntry p = .ok out) :
    serializeCell m.serializers p = (p.1, out) := by
  rw [WriteModel.serializeEntry] at h
  rw [serializeCell, WriteModel.serializers]
  cases hf : m.getSerializeMap p.1 with
  | none =>
    rw [hf] at h
    cases h
    rfl
  | some f =>
    rw [hf] at h
    have hout : f p.2 = .ok out := h
    simp only [Option.map_some, hout, Except.toOption, Option.getD_some]

theorem serializeRecord_iff (record out : Record) : m.serializeRecord record = .ok out ↔
    (∀ p ∈ record.cells, ∃ cell, m.serializeEntry p = .ok cell) ∧
      out = LiteDb.serializeRecord m.serializers record := by
  have hentry : ∀ p q, (m.serializeEntry p).map (fun cell => (p.1, cell)) = .ok q ↔
      (∃ cell, m.serializeEntry p = .ok cell) ∧ q = serializeCell m.serializers p := by
    intro p q
    cases hp : m.serializeEntry p with
    | error e => simp [Except.map]
    | ok cell =>
      rw [serializeCell_eq hp]
      simp [Except.map, eq_comm]
  have hmap : ∀ cells, record.cells.mapM
      (fun p => (m.serializeEntry p).map fun cell => (p.1, cell)) = .ok cells ↔
      (∀ p ∈ record.cells, ∃ cell, m.serializeEntry p = .ok cell) ∧
        cells = record.cells.map (serializeCell m.serializers) :=
    fun cells => Exit.mapM_ok_of hentry
  unfold WriteModel.serializeRecord
  constructor
  · intro h
    split at h
    · next cells hcells =>
      obtain ⟨hall, hout⟩ := (hmap cells).mp hcells
      obtain rfl := Except.ok.inj h
      refine ⟨hall, ?_⟩
      simp only [LiteDb.serializeRecord, hout]
    · cases h
  · intro h
    obtain ⟨hall, rfl⟩ := h
    have hcells := (hmap _).mpr ⟨hall, rfl⟩
    split
    · next cells hok =>
      have heq : cells = record.cells.map (serializeCell m.serializers) :=
        Except.ok.inj (hok.symm.trans hcells)
      simp only [LiteDb.serializeRecord, heq]
    · next e herr =>
      rw [hcells] at herr
      cases herr

theorem serializeRecords_iff {raws records : List Record} :
    raws.mapM m.serializeRecord = .ok records ↔
      (∀ r ∈ raws, ∀ p ∈ r.cells, ∃ cell, m.serializeEntry p = .ok cell) ∧
        records = raws.map (LiteDb.serializeRecord m.serializers) :=
  Exit.mapM_ok_of serializeRecord_iff

theorem insertGroups_iff (raws : List Record) (gs : List InsertGroup) :
    m.insertGroups raws = .ok gs ↔
      (∀ r ∈ raws, ∀ p ∈ r.cells, ∃ cell, m.serializeEntry p = .ok cell) ∧
        gs = groupedByPattern m.serializers raws := by
  have hgroups : (groupRecords ((raws.map (LiteDb.serializeRecord m.serializers)).zip raws)).map
      (·.2) = groupedByPattern m.serializers raws := by
    have hitems : (raws.map (LiteDb.serializeRecord m.serializers)).zip raws =
        serialized m.serializers raws := by
      conv_lhs => rw [← List.map_id raws, List.map_map, List.zip_map']
      rfl
    rw [hitems, groupRecords_eq, groupedByPattern_eq]
  rw [WriteModel.insertGroups, Exit.bind_ok_iff]
  simp only [serializeRecords_iff]
  constructor
  · intro h
    obtain ⟨records, ⟨hall, rfl⟩, hgs⟩ := h
    refine ⟨hall, ?_⟩
    rw [← hgroups]
    exact (Except.ok.inj hgs).symm
  · intro h
    obtain ⟨hall, rfl⟩ := h
    refine ⟨_, ⟨hall, rfl⟩, ?_⟩
    rw [hgroups]
    rfl

end Groups

/-! ## What a batch sends -/

section Batches
variable {m : WriteModel} {raws : List Record}

/-- The caller names only columns of the model. -/
def Declared (m : WriteModel) (raws : List Record) : Prop :=
  ∀ r ∈ raws, ∀ name ∈ r.names, ∃ c ∈ m.columns, c.columnName = name

theorem cutNames_plain {r : Record}
    (h : ∀ name ∈ recordColumns r, name ≠ "" ∧ ',' ∉ name.toList) :
    recordColumns r = ((cutNames r).filter (· ≠ [])).map String.ofList := by
  have hcut : ∀ names : List String, (∀ name ∈ names, name ≠ "" ∧ ',' ∉ name.toList) →
      names = ((names.flatMap fun c => c.toList.splitOn ',').filter (· ≠ [])).map
        String.ofList := by
    intro names
    induction names with
    | nil => simp
    | cons name names ih =>
      intro hnames
      obtain ⟨⟨hne, hcomma⟩, hrest⟩ := List.forall_mem_cons.mp hnames
      have hsplit : name.toList.splitOn ',' = [name.toList] := by
        apply List.splitOnP_eq_singleton
        intro x hx
        exact beq_false_of_ne fun heq => hcomma (heq ▸ hx)
      have hlist : name.toList ≠ [] := fun hnil => hne (String.toList_injective hnil)
      rw [List.flatMap_cons, hsplit, List.singleton_append,
        List.filter_cons_of_pos (by simpa using hlist), List.map_cons, ← ih hrest,
        String.ofList_toList]
  unfold cutNames
  split
  · next hnil =>
    rw [hnil]
    rfl
  · exact hcut _ h

theorem serializeRecord_names (serializers : SerializeMap) (r : Record) :
    (LiteDb.serializeRecord serializers r).names = r.names := by
  simp only [Record.names, LiteDb.serializeRecord, List.map_map]
  exact List.map_congr_left fun p _ => serializeCell_name serializers p

/-- The items of a group are records with their serialized forms, and set the group's columns. -/
theorem group_items (hd : Declared m raws) {g : InsertGroup}
    (hg : g ∈ groupedByPattern m.serializers raws) {it : Record × Record} (hit : it ∈ g.items) :
    it.2 ∈ raws ∧ it.1 = LiteDb.serializeRecord m.serializers it.2 ∧
      g.columns = recordColumns it.1 := by
  rw [groupedByPattern_eq] at hg
  obtain ⟨b, hb, rfl⟩ := List.mem_map.mp hg
  rw [batchOf_items] at hit
  have hmember : ∀ it ∈ b.2, ∃ raw ∈ raws, it = (LiteDb.serializeRecord m.serializers raw, raw) ∧
      patternKey it.1 = b.1 := by
    intro it hit
    rw [(mem_groups hb).1] at hit
    obtain ⟨hmem, hkey⟩ := List.mem_filter.mp hit
    obtain ⟨raw, hraw, rfl⟩ := List.mem_map.mp hmem
    exact ⟨raw, hraw, rfl, of_decide_eq_true hkey⟩
  have hplain : ∀ raw ∈ raws,
      ∀ name ∈ recordColumns (LiteDb.serializeRecord m.serializers raw),
        name ≠ "" ∧ ',' ∉ name.toList := by
    intro raw hraw name hname
    obtain ⟨v, hv, _⟩ := mem_recordColumns.mp hname
    have hnames : name ∈ (LiteDb.serializeRecord m.serializers raw).names :=
      List.mem_map_of_mem hv
    rw [serializeRecord_names] at hnames
    obtain ⟨c, hc, rfl⟩ := hd raw hraw name hnames
    exact m.named c hc
  obtain ⟨raw, hraw, rfl, hkey⟩ := hmember it hit
  refine ⟨hraw, rfl, ?_⟩
  obtain ⟨it₀, hit₀, hcolumns⟩ := batchOf_columns (List.ne_nil_of_mem hit)
  obtain ⟨raw₀, hraw₀, rfl, hkey₀⟩ := hmember it₀ hit₀
  rw [hcolumns, cutNames_plain (hplain raw₀ hraw₀), cutNames_plain (hplain raw hraw),
    (patternKey_eq_iff _ _).mp (hkey₀.trans hkey.symm)]

/-- The record of a sent item, after the dates are written out. -/
def sentRecord (m : WriteModel) (compiled : Bool) (dates : DateStrings) (record : Record) :
    Record :=
  if compiled then scpRecord m.dialect dates record else record

def sentGroup (m : WriteModel) (compiled : Bool) (dates : DateStrings) (g : InsertGroup) :
    InsertGroup where
  columns := g.columns
  records := g.records.map (sentRecord m compiled dates)
  rawRecords := g.rawRecords
  paired := (List.length_map _).trans g.paired

theorem sentGroup_items (m : WriteModel) (compiled : Bool) (dates : DateStrings)
    (g : InsertGroup) : (sentGroup m compiled dates g).items =
      g.items.map fun it => (sentRecord m compiled dates it.1, it.2) := by
  rw [InsertGroup.items, InsertGroup.items, sentGroup, List.zip_map_left]
  rfl

/-- What is sent are the groups of `_insert`, the dates of a payload written out. -/
theorem sentGroups_map (m : WriteModel) (compiled : Bool) (dates : DateStrings)
    (rows : List (List Pair))
    (hone : compiled = true → (createGroups m.modelClass rows).length = 1) :
    sentGroups m.dialect compiled dates (createGroups m.modelClass rows) =
      (createGroups m.modelClass rows).map (sentGroup m compiled dates) := by
  cases compiled with
  | false =>
    have hrecord : sentRecord m false dates = id := rfl
    have hid : sentGroup m false dates = id := by
      funext g
      simp [sentGroup, hrecord]
    rw [hid, List.map_id]
    rfl
  | true =>
    obtain ⟨g, hg⟩ := List.length_eq_one_iff.mp (hone rfl)
    rw [hg, sentGroups_one hg]
    rfl

theorem cell_of_mem {r : Record} {p : String × Cell} (hp : p ∈ r.cells) : r.cell p.1 = p.2 := by
  rw [Record.cell, lookup_of_mem r.nodup hp]
  rfl

theorem mysqlDateCell_isToken (dates : DateStrings) (cell : Cell) :
    (mysqlDateCell dates cell).isToken = cell.isToken := by
  cases cell with
  | val v => cases v <;> rfl
  | _ => rfl

/-- The cell of a batch is the record's own, or the raw one of an array that is unnested. -/
theorem sentCell_cell (dialect : Dialect) (compiled : Bool) (cls : ModelClass) (g : InsertGroup)
    (it : Record × Record) (c : String) :
    (sentCell dialect compiled cls g it c).cell =
      if dialect = .postgres ∧ 1 < g.records.length ∧ g.hasDbToken = false ∧
          isArrayType (pgTypeOf cls.sqlCast c g.rawRecords) = true then it.2.cell c
      else it.1.cell c := by
  have hbuild : (buildInsertCell dialect cls g it c).2 =
      if dialect = .postgres ∧ 1 < g.records.length ∧ g.hasDbToken = false ∧
          isArrayType (pgTypeOf cls.sqlCast c g.rawRecords) = true then it.2.cell c
      else it.1.cell c := by
    unfold buildInsertCell
    dsimp only
    split_ifs <;> simp_all
  cases compiled with
  | false => exact hbuild
  | true =>
    simp only [sentCell, if_true]
    unfold compileInsertCell
    split
    · exact hbuild
    · cases dialect with
      | postgres => exact hbuild
      | mysql => simp
      | sqlite => simp

/-- A batch with a token in it is bound value by value. -/
theorem sentCell_embeds {dialect : Dialect} {compiled : Bool} {cls : ModelClass} {g : InsertGroup}
    {it : Record × Record} {c : String} (h : g.hasDbToken = true) :
    embeds (sentCell dialect compiled cls g it c).carrier = true := by
  have hbuild : embeds (buildInsertCell dialect cls g it c).1 = true := by
    unfold buildInsertCell
    rw [if_neg fun hbatch => by rw [h] at hbatch; exact absurd hbatch.2.2 (by decide)]
    split <;> rfl
  cases compiled with
  | false => exact hbuild
  | true =>
    simp only [sentCell, compileInsertCell, h, if_true]
    exact hbuild

end Batches

/-! ## The conditions of the three writes -/

section Writes
variable {m : WriteModel} {raws : List Record}

theorem right_iff {c : ColumnMeta} {s : Site} {out : Cell} (hname : c.columnName = s.name)
    (hentry : m.serializeEntry (s.name, s.cell) = .ok out) (hgiven : s.given = .ok out) :
    s.Right m c ↔ CellSafe m c s.cell ∧ s.Carries out := by
  rw [← hname] at hentry
  rw [← expected_iff hentry, Site.Right, hgiven]
  constructor
  · intro h
    obtain ⟨cell, hexp, hcell, hcarries⟩ := h
    obtain rfl := Except.ok.inj hcell
    exact ⟨hexp, hcarries⟩
  · intro h
    exact ⟨out, h.1, rfl, h.2⟩

theorem mysqlDateCell_eq_iff (dates : DateStrings) (cell : Cell) :
    mysqlDateCell dates cell = cell ↔ isDate cell = false := by
  cases cell with
  | val v => cases v <;> simp [mysqlDateCell, isDate]
  | _ => simp [mysqlDateCell, isDate]

theorem sentRecord_cell {compiled : Bool} {dates : DateStrings} {r : Record} {p : String × Cell}
    (hp : p ∈ r.cells) : (sentRecord m compiled dates r).cell p.1 =
      if compiled = true ∧ m.dialect = .mysql then mysqlDateCell dates p.2 else p.2 := by
  cases compiled with
  | false =>
    rw [if_neg (by simp)]
    exact cell_of_mem hp
  | true =>
    simp only [sentRecord, if_true, scpRecord, true_and]
    split
    · have hmem : (p.1, mysqlDateCell dates p.2) ∈ (mysqlDateStrings dates r).cells :=
        List.mem_map_of_mem (f := fun c => (c.1, mysqlDateCell dates c.2)) hp
      exact cell_of_mem hmem
    · exact cell_of_mem hp

theorem hasDbToken_sent (compiled : Bool) (dates : DateStrings) {g : InsertGroup} {r : Record}
    (hr : r ∈ g.records) {p : String × Cell} (hp : p ∈ r.cells) (hc : p.1 ∈ g.columns)
    (ht : p.2.isToken = true) : (sentGroup m compiled dates g).hasDbToken = true := by
  rw [InsertGroup.hasDbToken, List.any_eq_true]
  refine ⟨sentRecord m compiled dates r, List.mem_map_of_mem hr, ?_⟩
  rw [List.any_eq_true]
  refine ⟨p.1, hc, ?_⟩
  rw [sentRecord_cell hp]
  split
  · rw [mysqlDateCell_isToken]
    exact ht
  · exact ht

theorem sentGroup_postgres (dates : DateStrings) (g : InsertGroup) (hd : m.dialect = .postgres)
    (compiled : Bool) : sentGroup m compiled dates g = g := by
  have hrecord : sentRecord m compiled dates = id := by
    funext r
    cases compiled <;> simp [sentRecord, scpRecord, hd]
  simp [sentGroup, hrecord]

/-- The site of a cell of an inserted record, whose serialized form is `out`. -/
theorem insertSite_carries (hd : Declared m raws) {rt : Bool} {dates : DateStrings}
    {g : InsertGroup} (hg : g ∈ groupedByPattern m.serializers raws)
    {it : Record × Record} (hit : it ∈ g.items)
    {p : String × Cell} (hp : p ∈ it.2.cells) {out : Cell} (hout : m.serializeEntry p = .ok out)
    {compiled : Bool} (hcompiled : (compiled = true ∧ m.dialect = .mysql) ↔
      DatesWritten m rt (groupedByPattern m.serializers raws)) {s : Site}
    (hleaves : s.leavesOut = true)
    (hsent : s.sent = if p.1 ∈ g.columns then
      some (sentCell m.dialect compiled m.modelClass (sentGroup m compiled dates g)
        (sentRecord m compiled dates it.1, it.2) p.1) else none) :
    s.Carries out ↔ (out.live = true → (Unnested m g p.1 → p.2 = out) ∧
      (DatesWritten m rt (groupedByPattern m.serializers raws) → isDate out = false)) := by
  obtain ⟨_, hitem, hcolumns⟩ := group_items hd hg hit
  have hmem : (p.1, out) ∈ it.1.cells := by
    rw [hitem, ← serializeCell_eq hout]
    exact List.mem_map_of_mem hp
  have hlive : p.1 ∈ g.columns ↔ out.live = true := by
    rw [hcolumns, mem_recordColumns]
    constructor
    · intro h
      obtain ⟨v, hv, hvlive⟩ := h
      have heq : v = out := (cell_of_mem hv).symm.trans (cell_of_mem hmem)
      rw [← heq]
      exact hvlive
    · intro h
      exact ⟨out, hmem, h⟩
  unfold Site.Carries
  cases hl : out.live with
  | false =>
    rw [if_pos ⟨hleaves, rfl⟩, hsent, if_neg (by rw [hlive, hl]; decide)]
    simp
  | true =>
    have hmemcol : p.1 ∈ g.columns := hlive.mpr hl
    rw [if_neg (by simp), hsent, if_pos hmemcol]
    have hrecord : it.1 ∈ g.records := (List.of_mem_zip hit).1
    have hembeds : out.isToken = true →
        embeds (sentCell m.dialect compiled m.modelClass (sentGroup m compiled dates g)
          (sentRecord m compiled dates it.1, it.2) p.1).carrier = true := by
      intro ht
      exact sentCell_embeds (hasDbToken_sent compiled dates hrecord hmem hmemcol ht)
    have hcell := sentCell_cell m.dialect compiled m.modelClass (sentGroup m compiled dates g)
      (sentRecord m compiled dates it.1, it.2) p.1
    dsimp only at hcell
    rw [sentRecord_cell hmem, cell_of_mem hp] at hcell
    have hequal : (sentCell m.dialect compiled m.modelClass (sentGroup m compiled dates g)
        (sentRecord m compiled dates it.1, it.2) p.1).cell = out ↔
        (Unnested m g p.1 → p.2 = out) ∧
          (DatesWritten m rt (groupedByPattern m.serializers raws) → isDate out = false) := by
      rw [hcell]
      by_cases hu : Unnested m g p.1
      · have hpg := hu.1
        have hcond : m.dialect = .postgres ∧ 1 < (sentGroup m compiled dates g).records.length ∧
            (sentGroup m compiled dates g).hasDbToken = false ∧
            isArrayType (pgTypeOf m.modelClass.sqlCast p.1
              (sentGroup m compiled dates g).rawRecords) = true := by
          rw [sentGroup_postgres dates g hpg]
          exact hu
        rw [if_pos hcond]
        constructor
        · intro h
          refine ⟨fun _ => h, ?_⟩
          intro hdates
          exact absurd (hpg.symm.trans hdates.1) (by decide)
        · intro h
          exact h.1 hu
      · have hcond : ¬(m.dialect = .postgres ∧
            1 < (sentGroup m compiled dates g).records.length ∧
            (sentGroup m compiled dates g).hasDbToken = false ∧
            isArrayType (pgTypeOf m.modelClass.sqlCast p.1
              (sentGroup m compiled dates g).rawRecords) = true) := by
          intro h
          rw [sentGroup_postgres dates g h.1] at h
          exact hu h
        rw [if_neg hcond]
        by_cases hdates : DatesWritten m rt (groupedByPattern m.serializers raws)
        · rw [if_pos (hcompiled.mpr hdates), mysqlDateCell_eq_iff]
          exact ⟨fun h => ⟨fun hu' => absurd hu' hu, fun _ => h⟩, fun h => h.2 hdates⟩
        · rw [if_neg fun h => hdates (hcompiled.mp h)]
          exact ⟨fun _ => ⟨fun hu' => absurd hu' hu, fun hd' => absurd hd' hdates⟩, fun _ => rfl⟩
    constructor
    · intro h _
      obtain ⟨sent, heq, hsc, _⟩ := h
      obtain rfl := Option.some.inj heq
      exact hequal.mp hsc
    · intro h
      exact ⟨_, rfl, hequal.mpr (h rfl), hembeds⟩

/-- Every record of the call lies in a group. -/
theorem exists_item {r : Record} (hr : r ∈ raws) : ∃ g ∈ groupedByPattern m.serializers raws,
    ∃ it ∈ g.items, it.2 = r := by
  obtain ⟨b, hb, hmem, _⟩ := @exists_batch m.serializers _ _ hr
  refine ⟨(batchOf b).2, ?_, (LiteDb.serializeRecord m.serializers r, r), ?_, rfl⟩
  · rw [groupedByPattern_eq]
    exact List.mem_map_of_mem hb
  · rw [batchOf_items]
    exact hmem

theorem insert_right (rows : List (List Pair)) (hd : Declared m (rows.map pairsToRecord))
    (rt : Bool) (dates : DateStrings)
    (hall : ∀ r ∈ rows.map pairsToRecord, ∀ p ∈ r.cells, ∃ out, m.serializeEntry p = .ok out) :
    (∀ s ∈ m.insertSites rt dates (groupedByPattern m.serializers (rows.map pairsToRecord)),
        ∀ c ∈ m.columns, c.columnName = s.name → s.Right m c) ↔
      (∀ r ∈ rows.map pairsToRecord, ∀ p ∈ r.cells, ∀ c ∈ m.columns, c.columnName = p.1 →
        CellSafe m c p.2) ∧ BatchesSafe m rt (rows.map pairsToRecord) := by
  let groups := groupedByPattern m.serializers (rows.map pairsToRecord)
  let compiled := usesScp m.dialect rt && decide (groups.length = 1)
  have hcompiled : (compiled = true ∧ m.dialect = .mysql) ↔ DatesWritten m rt groups := by
    simp only [compiled, usesScp, DatesWritten, Bool.and_eq_true, decide_eq_true_eq]
    constructor
    · intro h
      exact ⟨h.2, h.1.1.1, h.1.2⟩
    · intro h
      refine ⟨⟨⟨h.2.1, ?_⟩, h.2.2⟩, h.1⟩
      rw [h.1]
      decide
  have hsent : sentGroups m.dialect compiled dates groups =
      groups.map (sentGroup m compiled dates) := by
    apply sentGroups_map m compiled dates rows
    intro h
    exact of_decide_eq_true (Bool.and_eq_true_iff.mp h).2
  have hsite : ∀ g ∈ groups, ∀ it ∈ g.items, ∀ p ∈ it.2.cells, ∀ s : Site,
      s = { name := p.1
            cell := p.2
            given := m.serializeEntry p
            sent := if p.1 ∈ g.columns then
              some (sentCell m.dialect compiled m.modelClass (sentGroup m compiled dates g)
                (sentRecord m compiled dates it.1, it.2) p.1) else none
            leavesOut := true } →
      ∀ c, c.columnName = p.1 → (s.Right m c ↔ CellSafe m c p.2 ∧
        ∀ out, m.serializeEntry p = .ok out → out.live = true →
          (Unnested m g p.1 → p.2 = out) ∧ (DatesWritten m rt groups → isDate out = false)) := by
    intro g hg it hit p hp s hs c hc
    obtain ⟨out, hout⟩ := hall it.2 (group_items hd hg hit).1 p hp
    have hright : s.Right m c ↔ CellSafe m c s.cell ∧ s.Carries out := by
      apply right_iff
      · rw [hs]
        exact hc
      · rw [hs]
        exact hout
      · rw [hs]
        exact hout
    rw [hright, insertSite_carries hd hg hit hp hout hcompiled (by rw [hs]) (by rw [hs]), hs]
    simp only [hout, Except.ok.injEq, forall_eq']
    exact Iff.rfl
  have hitems : ∀ s, s ∈ m.insertSites rt dates groups ↔ ∃ g ∈ groups, ∃ it ∈ g.items,
      ∃ p ∈ it.2.cells, s = { name := p.1
                              cell := p.2
                              given := m.serializeEntry p
                              sent := if p.1 ∈ g.columns then
                                some (sentCell m.dialect compiled m.modelClass
                                  (sentGroup m compiled dates g)
                                  (sentRecord m compiled dates it.1, it.2) p.1) else none
                              leavesOut := true } := by
    intro s
    simp only [WriteModel.insertSites]
    rw [hsent]
    simp only [List.flatMap_map, List.mem_flatMap, List.mem_map, sentGroup_items]
    refine exists_congr fun g => and_congr_right fun _ => exists_congr fun it =>
      and_congr_right fun _ => exists_congr fun p => and_congr_right fun _ => ?_
    exact eq_comm
  constructor
  · intro h
    have hcell : ∀ g ∈ groups, ∀ it ∈ g.items, ∀ p ∈ it.2.cells, ∀ c ∈ m.columns,
        c.columnName = p.1 → CellSafe m c p.2 ∧
          ∀ out, m.serializeEntry p = .ok out → out.live = true →
            (Unnested m g p.1 → p.2 = out) ∧ (DatesWritten m rt groups → isDate out = false) := by
      intro g hg it hit p hp c hc hname
      have hmem := (hitems _).mpr ⟨g, hg, it, hit, p, hp, rfl⟩
      exact (hsite g hg it hit p hp _ rfl c hname).mp (h _ hmem c hc hname)
    constructor
    · intro r hr p hp c hc hname
      obtain ⟨g, hg, it, hit, rfl⟩ := exists_item (m := m) hr
      exact (hcell g hg it hit p hp c hc hname).1
    · intro g hg it hit p hp out hout hlive
      obtain ⟨c, hc, hname⟩ := hd it.2 (group_items hd hg hit).1 p.1 (List.mem_map_of_mem hp)
      exact (hcell g hg it hit p hp c hc hname).2 out hout hlive
  · intro h s hs c hc hname
    obtain ⟨g, hg, it, hit, p, hp, heq⟩ := (hitems s).mp hs
    have hname' : c.columnName = p.1 := by rw [hname, heq]
    refine (hsite g hg it hit p hp s heq c hname').mpr ⟨?_, ?_⟩
    · exact h.1 it.2 (group_items hd hg hit).1 p hp c hc hname'
    · intro out hout hlive
      exact h.2 g hg it hit p hp out hout hlive

theorem update_right (values : Record) {out : Record}
    (hout : m.serializeRecord values = .ok out) :
    (∀ s ∈ m.updateSites values out, ∀ c ∈ m.columns, c.columnName = s.name → s.Right m c) ↔
      ∀ p ∈ values.cells, ∀ c ∈ m.columns, c.columnName = p.1 → CellSafe m c p.2 := by
  obtain ⟨hall, rfl⟩ := (serializeRecord_iff values out).mp hout
  simp only [WriteModel.updateSites, List.forall_mem_map]
  refine forall_congr' fun p => forall_congr' fun hp => forall_congr' fun c =>
    forall_congr' fun _ => forall_congr' fun hname => ?_
  obtain ⟨cell, hcell⟩ := hall p hp
  rw [right_iff hname hcell hcell]
  refine and_iff_left ?_
  have hmem : (p.1, cell) ∈ (LiteDb.serializeRecord m.serializers values).cells := by
    rw [← serializeCell_eq hcell]
    exact List.mem_map_of_mem hp
  unfold Site.Carries
  rw [if_neg (by simp)]
  exact ⟨_, rfl, cell_of_mem hmem, fun _ => rfl⟩

/-- The builders of `updateMany` compile a token, but for PostgreSQL's and for SQLite's keys. -/
theorem updateMany_embeds (opts : UpdateManyOptions) (r : Record) (c : String) :
    embeds (if c ∈ opts.keyColumns then keyCell (builderFor m.dialect) m.modelClass opts r c
      else valueCell (builderFor m.dialect) m.modelClass opts r c).carrier = true ↔
    m.dialect = .mysql ∨ m.dialect = .sqlite ∧ c ∉ opts.keyColumns := by
  cases hdialect : m.dialect with
  | postgres =>
    have hunnest : embeds (unnestCell m.modelClass opts r c).carrier = false := by
      unfold unnestCell
      dsimp only
      split_ifs <;> rfl
    split <;> simp [builderFor, keyCell, valueCell, hunnest]
  | mysql => split <;> simp [builderFor, keyCell, valueCell, embeds]
  | sqlite =>
    split
    · next hk => simp [builderFor, keyCell, embeds, hk]
    · next hk => simp [builderFor, valueCell, embeds, hk]

theorem updateMany_cell (opts : UpdateManyOptions) {r : Record} {p : String × Cell}
    (hp : p ∈ r.cells) :
    (if p.1 ∈ opts.keyColumns then keyCell (builderFor m.dialect) m.modelClass opts r p.1
      else valueCell (builderFor m.dialect) m.modelClass opts r p.1).cell = p.2 := by
  have hname : p.1 ∈ r.names := List.mem_map_of_mem hp
  have hcell := cell_of_mem hp
  have hunnest : (unnestCell m.modelClass opts r p.1).cell = p.2 := by
    unfold unnestCell
    rw [if_pos hname, hcell]
    dsimp only
    split_ifs <;> rfl
  cases hdialect : m.dialect with
  | postgres => split <;> exact hunnest
  | mysql => split <;> exact hcell
  | sqlite => split <;> exact hcell

theorem updateMany_right (opts : UpdateManyOptions) :
    (∀ s ∈ m.updateManySites opts, ∀ c ∈ m.columns, c.columnName = s.name → s.Right m c) ↔
      ∀ r ∈ opts.records, ∀ p ∈ r.cells, ∀ c ∈ m.columns, c.columnName = p.1 →
        RowSafe m opts c p := by
  simp only [WriteModel.updateManySites, List.forall_mem_flatMap, List.forall_mem_map]
  refine forall_congr' fun r => forall_congr' fun _ => forall_congr' fun p =>
    forall_congr' fun hp => forall_congr' fun c => forall_congr' fun _ =>
      forall_congr' fun _ => ?_
  unfold Site.Right Site.Carries RowSafe WriteModel.expected
  simp only [Except.ok.injEq, Bool.false_eq_true, false_and, if_false, Option.some.injEq,
    exists_eq_left', updateMany_cell opts hp, updateMany_embeds]
  cases ht : p.2.isToken with
  | false => simp [ht]
  | true => simp [ht]

theorem sites_insert {call : WriteCall m} {rows : List (List Pair)} (h : call.op = .insert rows) :
    WriteModel.sites call =
      (m.insertGroups (rows.map pairsToRecord)).map (m.insertSites call.rt call.dates) := by
  simp only [WriteModel.sites, h]

theorem sites_update {call : WriteCall m} {values : List Pair} (h : call.op = .update values) :
    WriteModel.sites call =
      (m.serializeRecord (pairsToRecord values)).map (m.updateSites (pairsToRecord values)) := by
  simp only [WriteModel.sites, h]

/--
A write hands each token to its statement and each other value serialized once by its own column
exactly when no serializer on the way takes the token for a value, and no builder sends a value
that was not, or not only, serialized.
-/
theorem writesOnce_iff (m : WriteModel) (call : WriteCall m) :
    WritesOnce call ↔ WriteSafe call := by
  unfold WritesOnce WriteSafe
  have hdeclared : Declared m call.op.records := call.declared
  cases hop : call.op with
  | insert rows =>
    have hrecords : call.op.records = rows.map pairsToRecord := by rw [hop]; rfl
    rw [hrecords] at hdeclared
    dsimp only
    rw [sites_insert hop]
    by_cases hall : Serializable call
    · have hok : m.insertGroups (rows.map pairsToRecord) =
          .ok (groupedByPattern m.serializers (rows.map pairsToRecord)) := by
        refine (insertGroups_iff _ _).mpr ⟨?_, rfl⟩
        rw [← hrecords]
        exact hall
      have hall' := hall
      rw [Serializable, hrecords] at hall'
      simp only [hok, Except.map, hall, not_true_eq_false, false_implies, and_true, true_implies]
      rw [insert_right rows hdeclared call.rt call.dates hall', AllSafe, hrecords]
    · have herr : ∀ gs, m.insertGroups (rows.map pairsToRecord) ≠ .ok gs := by
        intro gs hgs
        apply hall
        rw [Serializable, hrecords]
        exact ((insertGroups_iff _ _).mp hgs).1
      cases hgs : m.insertGroups (rows.map pairsToRecord) with
      | ok gs => exact absurd hgs (herr gs)
      | error e =>
        simp only [Except.map, hall, not_false_eq_true, true_implies, false_implies, true_and]
  | update values =>
    have hrecords : call.op.records = [pairsToRecord values] := by rw [hop]; rfl
    dsimp only
    rw [sites_update hop]
    have hser : Serializable call ↔ ∀ p ∈ (pairsToRecord values).cells,
        ∃ cell, m.serializeEntry p = .ok cell := by
      rw [Serializable, hrecords]
      simp only [List.mem_singleton, forall_eq]
    cases hout : m.serializeRecord (pairsToRecord values) with
    | ok out =>
      have hall : Serializable call := hser.mpr ((serializeRecord_iff _ _).mp hout).1
      simp only [Except.map, hall, not_true_eq_false, false_implies, and_true, true_implies]
      rw [update_right _ hout, AllSafe, hrecords]
      simp only [List.mem_singleton, forall_eq]
    | error e =>
      have hall : ¬Serializable call := by
        intro hall
        have hok := (serializeRecord_iff (pairsToRecord values) _).mpr ⟨hser.mp hall, rfl⟩
        rw [hok] at hout
        cases hout
      simp only [Except.map, hall, not_false_eq_true, true_implies, false_implies, true_and]
  | updateMany opts =>
    have hsites : WriteModel.sites call = .ok (m.updateManySites opts) := by
      simp only [WriteModel.sites, hop]
    rw [hsites]
    exact updateMany_right opts

end Writes

/-- A model of one text column. -/
def noted : WriteModel where
  env :=
    { runtime := Families.isoRuntime
      formatLocalDate := id
      tokenJson := fun _ => none }
  dialect := .postgres
  columns := [⟨"note", "note", .text⟩]
  pk := ⟨["id"], some "id"⟩
  named := by decide

/-- An update of the column to `dbRaw("upper('x')")`. -/
def rawNote : WriteCall noted where
  op := .update [("note", some (.token "upper('x')" []))]
  rt := true
  dates := id
  declared := by decide

/-- The serializer of a text column takes the token for an object and throws. -/
theorem text_refuses_token : ¬ WritesOnce rawNote := by
  intro h
  have hsites : WriteModel.sites rawNote = .error (objectRefused "text") := rfl
  rw [WritesOnce, hsites] at h
  obtain ⟨r, hr, p, hp, _, _, _, hplain, _⟩ := h
  have hcells : ∀ r ∈ rawNote.op.records, ∀ p ∈ r.cells, p.2.isToken = true := by decide
  rw [hcells r hr p hp] at hplain
  cases hplain

end LiteDb.TokenWrites
