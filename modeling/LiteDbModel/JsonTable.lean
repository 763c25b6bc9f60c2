import LiteDbModel.BatchTypes
import LiteDbModel.KeyParameter
import LiteDbModel.SingleParam
import LiteDbModel.UpdateMany

/-!
# The columns of `JSON_TABLE`

MySQL reads the rows of a batch write back from one JSON parameter, each column
with the type that its first non-null value suggests.
-/

namespace LiteDb.JsonTable
set_option autoImplicit false
open Json Decimal KeyParameter
open BatchTypes (Within amountRecord half)

/-! ## The statement -/

/-- `r[c] === undefined ? null : r[c]`, where it is no token. -/
def jsonCell (r : Record) (c : String) : JsVal :=
  match r.cell c with
  | .val .undefined => .null
  | .val v => v
  | _ => .null

/-- The `JSON_TABLE` of a statement: its columns and the text that is bound to it. -/
structure TableSource where
  columns : List (String × JsonColumn)
  param : Option (List Char)

def typedColumns (columns : List String) (records : List Record) : List (String × JsonColumn) :=
  columns.map fun c => (c, mysqlJsonTableColumn c records)

def encodeRows (rows : List (List (String × JsVal))) : Option (List Char) :=
  encodeJsonParam .mysql (.arr (rows.map fun entries => .obj (Props.ofEntries entries)))

def rowEntries (columns : List String) (r : Record) : List (String × JsVal) :=
  columns.map fun c => (c, jsonCell r c)

def mysqlInsertJson (columns : List String) (records : List Record) : TableSource where
  columns := typedColumns columns records
  param := encodeRows (records.map (rowEntries columns))

/-- The flags of a row: 1 for a column that the row skips. -/
def flagEntries (opts : UpdateManyOptions) (r : Record) : List (String × JsVal) :=
  opts.skipColumnsNeeded.map fun c =>
    (UpdateManyOptions.skipFlag c, .num (JsNum.ofInt (if c ∈ r.names then 0 else 1)))

def mysqlUpdateManyJson (opts : UpdateManyOptions) : TableSource where
  columns := typedColumns opts.allColumns opts.records ++
    opts.skipColumnsNeeded.map fun c => (UpdateManyOptions.skipFlag c, .bigint)
  param := encodeRows (opts.records.map fun r => rowEntries opts.allColumns r ++ flagEntries opts r)

/-- A batch write that is sent as JSON: `rowsHaveDbToken` is false. -/
inductive JsonWrite
  | insert (columns : List String) (records : List Record)
    (plain : ∀ r ∈ records, ∀ c ∈ columns, (r.cell c).isToken = false)
  | update (opts : UpdateManyOptions) (plain : opts.hasDbToken = false)

namespace JsonWrite

def source : JsonWrite → TableSource
  | insert columns records _ => mysqlInsertJson columns records
  | update opts _ => mysqlUpdateManyJson opts

def records : JsonWrite → List Record
  | insert _ records _ => records
  | update opts _ => opts.records

/-- The columns a row has a value for: an update leaves the columns that the row skips. -/
def carries (w : JsonWrite) (r : Record) : List String :=
  match w with
  | insert columns _ _ => columns
  | update opts _ => opts.keyColumns ++ opts.updateColumns.filter (· ∈ r.names)

end JsonWrite

/-! ## MySQL -/

structure MySql where
  /-- The names can stand as the columns of a `JSON_TABLE` and in their paths. -/
  names : List String → Bool
  /-- The number its JSON has for a written one: the same for 64-bit integers and for what a double
  is written as. -/
  hold : Dec → Dec
  /-- What a column of each type reads from a JSON value; `text` is unquoted. -/
  bigint : Doc Scalar → Option Int
  decimal : Doc Scalar → Option Dec
  json : Doc Scalar → Option (Doc Scalar)
  text : Doc Scalar → Option String

/-- `DECIMAL(65,30)` -/
def FitsDecimal (d : Dec) : Prop := -30 ≤ d.exp ∧ d.mant.natAbs * 10 ^ (d.exp + 30).toNat < 10 ^ 65

instance (d : Dec) : Decidable (FitsDecimal d) := inferInstanceAs (Decidable (_ ∧ _))

def MySql.held (m : MySql) : Scalar → Scalar
  | .num d => .num (m.hold d)
  | s => s

structure MySql.Documented (m : MySql) : Prop where
  /-- No name occurs twice, and a name is an identifier. -/
  distinct : ∀ {names}, m.names names = true → names.Nodup
  identifier : ∀ {names}, m.names names = true → ∀ c ∈ names, ∀ x ∈ c.toList, x ≠ '\x00' ∧ x ≠ '"'
  bigint_range : ∀ {doc i}, m.bigint doc = some i → Within 63 i
  bigint_whole : ∀ {i}, Within 63 i → m.bigint (.leaf (.num (Dec.ofInt i))) = some i
  bigint_null : m.bigint (.leaf .null) = none
  decimal_range : ∀ {doc d}, m.decimal doc = some d → FitsDecimal d
  decimal_number : ∀ {d}, FitsDecimal d →
    (m.decimal (.leaf (.num d)) = some d ↔ m.hold d = d)
  decimal_null : m.decimal (.leaf .null) = none
  json_value : ∀ {doc}, doc ≠ .leaf .null → m.json doc = some (doc.map m.held)
  json_null : m.json (.leaf .null) = none ∨ m.json (.leaf .null) = some (.leaf .null)
  text_string : ∀ s, m.text (.leaf (.str s)) = some s
  text_number : ∀ {d s}, m.text (.leaf (.num d)) = some s → ∀ x ∈ s.toList, NumChar x

namespace MySql
variable (m : MySql)

/-- The JSON value that stands for what a column reads; SQL's null is null. -/
def value : JsonColumn → Doc Scalar → Doc Scalar
  | .bigint, doc => (m.bigint doc).elim (.leaf .null) fun i => .leaf (.num (Dec.ofInt i))
  | .decimal, doc => (m.decimal doc).elim (.leaf .null) fun d => .leaf (.num d)
  | .json, doc => (m.json doc).getD (.leaf .null)
  | .text, doc => (m.text doc).elim (.leaf .null) fun s => .leaf (.str s)

/-- `PATH '$.c'` of an element; a path that leads nowhere is null. -/
def column (doc : Doc Scalar) (c : String) (type : JsonColumn) : Doc Scalar :=
  match doc with
  | .obj ps => (ps.lookup c).elim (.leaf .null) (m.value type)
  | _ => .leaf .null

def tableRow (columns : List (String × JsonColumn)) (doc : Doc Scalar) : List (String × Doc Scalar) :=
  columns.map fun p => (p.1, m.column doc p.1 p.2)

/-- The rows of the `JSON_TABLE`, unless MySQL refuses the names or the text. -/
def tableRows (s : TableSource) : Option (List (List (String × Doc Scalar))) :=
  if m.names (s.columns.map (·.1)) then
    match s.param.bind parse with
    | some (.arr docs) => some (docs.map (m.tableRow s.columns))
    | _ => none
  else none

end MySql

/-- A row of the table has, in each column that the record carries, the value that was encoded. -/
def RowKept (carried : List String) (r : Record) (row : List (String × Doc Scalar)) : Prop :=
  ∀ c ∈ carried, ∃ doc, jsonOf .mysql (jsonCell r c) = some doc ∧ row.lookup c = some doc

/-- Each record of the write is read back as it was encoded. -/
def Preserves (m : MySql) (w : JsonWrite) : Prop :=
  ∀ (i : Nat) (r : Record), w.records[i]? = some r → ∃ rows row, m.tableRows w.source = some rows ∧
    rows[i]? = some row ∧ RowKept (w.carries r) r row

/-! ## The condition -/

/-- The number that a value is encoded as. -/
def asNumber : JsVal → Option Dec
  | .bool b => some (boolNum b)
  | .num (.fin d) => some d
  | .bigint i => some (Dec.ofInt i)
  | _ => none

def asText : JsVal → Option String
  | .str s | .date s => some s
  | _ => none

def Whole (v : JsVal) : Prop := v = .null ∨ ∃ i, asNumber v = some (Dec.ofInt i) ∧ Within 63 i

def Fractional (m : MySql) (v : JsVal) : Prop :=
  v = .null ∨ ∃ d, asNumber v = some d ∧ FitsDecimal d ∧ m.hold d = d

def Document (m : MySql) (v : JsVal) : Prop :=
  KeyParameter.encodable v = true ∧ ∃ doc, jsonOf .mysql v = some doc ∧ doc.map m.held = doc

/-- A null is read as null only where MySQL unquotes it to SQL's. -/
def Textual (m : MySql) (v : JsVal) : Prop :=
  v = .null ∧ m.text (.leaf .null) = none ∨ ∃ s, asText v = some s ∧ forgesBigint s = false

/-- A value is kept beside the first one of its column. -/
def Beside (m : MySql) (first : Option JsVal) (v : JsVal) : Prop :=
  match first with
  | some (.bool _) | some (.bigint _) => Whole v
  | some (.num n) => if n.isInteger then Whole v else Fractional m v
  | some (.arr _) | some (.obj _) | some (.date _) | some (.buffer _) => Document m v
  | _ => Textual m v

structure Safe (m : MySql) (w : JsonWrite) : Prop where
  names : w.records ≠ [] → m.names (w.source.columns.map (·.1)) = true
  values : ∀ r ∈ w.records, ∀ c ∈ w.carries r,
    if c = "__proto__" then jsonCell r c = .null else Beside m (sample c w.records) (jsonCell r c)

/-! ## What a column reads -/

/-- What a column of the type keeps. -/
def Kept (m : MySql) : JsonColumn → JsVal → Prop
  | .bigint => Whole
  | .decimal => Fractional m
  | .json => Document m
  | .text => Textual m

theorem beside_iff (m : MySql) (c : String) (rows : List Record) (v : JsVal) :
    Beside m (sample c rows) v ↔ Kept m (mysqlJsonTableColumn c rows) v := by
  rw [mysqlJsonTableColumn]
  cases sample c rows with
  | none => exact Iff.rfl
  | some first =>
    cases first with
    | num n =>
      simp only [Beside]
      split
      · exact Iff.rfl
      · exact Iff.rfl
    | _ => exact Iff.rfl

theorem held_str {m : MySql} {x : Scalar} {s : String} (h : m.held x = .str s) : x = .str s := by
  cases x with
  | str s' => exact h
  | _ => cases h

theorem encodable_of_string {m : MySql} {d : Dialect} (s : String) {t : Doc Prim}
    {doc doc' : Doc Scalar} (ht : some (Doc.leaf (Prim.str s)) = some t)
    (hdoc : some (Doc.leaf (Scalar.str s)) = some doc)
    (hread : t.read (leafRead d) keyRead = some doc') (heq : doc'.map m.held = doc) :
    (!forgesBigint s) = true := by
  cases ht
  cases hdoc
  rw [Doc.read, Option.map_eq_some_iff] at hread
  obtain ⟨x, hx, rfl⟩ := hread
  rw [Doc.map] at heq
  rw [held_str (Doc.leaf.inj heq)] at hx
  rw [(stringRead_eq_iff s).mp hx]
  rfl

/-! A document that is read with its own strings and keys was encoded without a forgery. -/

section
variable {m : MySql} {d : Dialect}

mutual
theorem encodable_of_read : (v : JsVal) → ∀ {t : Doc Prim} {doc doc' : Doc Scalar},
    jsonTree v = some t → jsonOf d v = some doc → t.read (leafRead d) keyRead = some doc' →
    doc'.map m.held = doc → KeyParameter.encodable v = true
  | .undefined, _, _, _, ht, _, _, _ => nomatch ht
  | .null, _, _, _, _, _, _, _ => rfl
  | .bool _, _, _, _, _, _, _, _ => rfl
  | .num (.fin _), _, _, _, _, _, _, _ => rfl
  | .num .nan, _, _, _, _, hdoc, _, _ => nomatch hdoc
  | .num (.inf _), _, _, _, _, hdoc, _, _ => nomatch hdoc
  | .bigint _, _, _, _, _, _, _, _ => rfl
  | .str s, _, _, _, ht, hdoc, hread, heq => encodable_of_string s ht hdoc hread heq
  | .date s, _, _, _, ht, hdoc, hread, heq => encodable_of_string s ht hdoc hread heq
  | .buffer _, _, _, _, _, hdoc, _, _ => nomatch hdoc
  | .arr xs, t, doc, doc', ht, hdoc, hread, heq => by
    cases ht
    obtain ⟨docs, hdocs, rfl⟩ := Option.map_eq_some_iff.mp hdoc
    rw [Doc.read, Option.map_eq_some_iff] at hread
    obtain ⟨docs', hread, rfl⟩ := hread
    rw [Doc.map] at heq
    exact encodables_of_read xs hdocs hread (Doc.arr.inj heq)
  | .obj ps, t, doc, doc', ht, hdoc, hread, heq => by
    cases ht
    obtain ⟨docs, hdocs, rfl⟩ := Option.map_eq_some_iff.mp hdoc
    rw [Doc.read, Option.map_eq_some_iff] at hread
    obtain ⟨docs', hread, rfl⟩ := hread
    rw [Doc.map] at heq
    exact encodableMembers_of_read ps hdocs hread (Doc.obj.inj heq)

theorem encodables_of_read : (xs : List JsVal) → ∀ {docs docs' : List (Doc Scalar)},
    jsonsOf d xs = some docs → Doc.readElems (leafRead d) keyRead (jsonElems xs) = some docs' →
    Doc.mapElems m.held docs' = docs → encodables xs = true
  | [], _, _, _, _, _ => rfl
  | x :: xs, docs, docs', hdocs, hread, heq => by
    obtain ⟨doc, hdoc, hdocs⟩ := Option.bind_eq_some_iff.mp hdocs
    obtain ⟨rest, hrest, rfl⟩ := Option.map_eq_some_iff.mp hdocs
    obtain ⟨t, ht⟩ := jsonTree_of_jsonOf hdoc
    rw [jsonElems, ht, Option.getD_some, Doc.readElems] at hread
    obtain ⟨doc', hdoc', hreads⟩ := Option.bind_eq_some_iff.mp hread
    obtain ⟨rest', hrest', rfl⟩ := Option.map_eq_some_iff.mp hreads
    obtain ⟨hhead, htail⟩ := List.cons.inj heq
    rw [encodables, Bool.and_eq_true]
    exact ⟨encodable_of_read x ht hdoc hdoc' hhead, encodables_of_read xs hrest hrest' htail⟩

theorem encodableMembers_of_read : (ps : List (String × JsVal)) →
    ∀ {docs docs' : List (String × Doc Scalar)}, membersOf d ps = some docs →
    Doc.readMembers (leafRead d) keyRead (jsonMembers ps) = some docs' →
    Doc.mapMembers m.held docs' = docs → encodableMembers ps = true
  | [], _, _, _, _, _ => rfl
  | (k, x) :: ps, docs, docs', hdocs, hread, heq => by
    obtain ⟨doc, hdoc, hdocs⟩ := Option.bind_eq_some_iff.mp hdocs
    obtain ⟨rest, hrest, rfl⟩ := Option.map_eq_some_iff.mp hdocs
    obtain ⟨t, ht⟩ := jsonTree_of_jsonOf hdoc
    simp only [jsonMembers, ht, Doc.readMembers] at hread
    obtain ⟨k', hkey, hread⟩ := Option.bind_eq_some_iff.mp hread
    obtain ⟨doc', hdoc', hreads⟩ := Option.bind_eq_some_iff.mp hread
    obtain ⟨rest', hrest', rfl⟩ := Option.map_eq_some_iff.mp hreads
    obtain ⟨hhead, htail⟩ := List.cons.inj heq
    obtain ⟨rfl, hvalue⟩ := Prod.mk.inj hhead
    have hplain : forgesBigint k' = false := (keyRead_eq_iff k').mp hkey
    simp only [encodableMembers, hplain, Bool.not_false, Bool.true_and, Bool.and_eq_true]
    exact ⟨encodable_of_read x ht hdoc hdoc' hvalue,
      encodableMembers_of_read ps hrest hrest' htail⟩
end
end

/-! ## The value of a column -/

theorem forged_read {s : String} {x : Scalar} (hx : stringRead s = some x)
    (hs : forgesBigint s = true) : ∃ d, x = .num d := by
  unfold stringRead at hx
  unfold forgesBigint at hs
  cases hmark : asMarker s.toList with
  | some ds =>
    rw [hmark] at hx
    obtain ⟨p, _, rfl⟩ := Option.map_eq_some_iff.mp hx
    exact ⟨p.1, rfl⟩
  | none =>
    rw [hmark, Option.isSome_none, Bool.false_or] at hs
    rw [hmark, hs] at hx
    cases hx

/-- A forged text is no text of a number. -/
theorem forged_not_number {s : String} (hs : forgesBigint s = true) : ¬ ∀ x ∈ s.toList, NumChar x := by
  intro hall
  have hplain : forgesBigint s = false := by
    rw [← String.ofList_toList (s := s)]
    apply SingleParam.not_forges_of_chars
    intro c hc
    refine ⟨?_, ?_⟩
    · rintro rfl
      exact absurd (hall _ hc) (by decide)
    · rintro rfl
      exact absurd (hall _ hc) (by decide)
  rw [hs] at hplain
  cases hplain

section
variable {m : MySql} (h : m.Documented)
include h

theorem null_value (type : JsonColumn) :
    m.value type (.leaf .null) = .leaf .null ↔ Kept m type .null := by
  cases type with
  | bigint =>
    rw [MySql.value, h.bigint_null]
    exact iff_of_true rfl (.inl rfl)
  | decimal =>
    rw [MySql.value, h.decimal_null]
    exact iff_of_true rfl (.inl rfl)
  | json =>
    refine iff_of_true ?_ ⟨rfl, _, rfl, rfl⟩
    rw [MySql.value]
    rcases h.json_null with hn | hn
    · rw [hn]
      rfl
    · rw [hn]
      rfl
  | text =>
    rw [MySql.value]
    cases htext : m.text (.leaf .null) with
    | none => exact iff_of_true rfl (.inl ⟨rfl, htext⟩)
    | some s =>
      refine iff_of_false (nomatch ·) ?_
      rintro (⟨_, hnone⟩ | ⟨_, hs, _⟩)
      · rw [htext] at hnone
        cases hnone
      · cases hs

theorem number_value {v : JsVal} {d : Dec} (hv : asNumber v = some d)
    (hdoc : jsonOf .mysql v = some (.leaf (.num d))) (type : JsonColumn) :
    m.value type (.leaf (.num d)) = .leaf (.num d) ↔ Kept m type v := by
  have hnull : v ≠ .null := by
    rintro rfl
    cases hv
  cases type with
  | bigint =>
    rw [MySql.value]
    constructor
    · intro heq
      cases hread : m.bigint (.leaf (.num d)) with
      | none =>
        rw [hread] at heq
        cases heq
      | some i =>
        rw [hread] at heq
        have hd : Dec.ofInt i = d := Scalar.num.inj (Doc.leaf.inj heq)
        exact .inr ⟨i, by rw [hd, hv], h.bigint_range hread⟩
    · rintro (rfl | ⟨i, hi, hwithin⟩)
      · exact absurd rfl hnull
      · rw [hv] at hi
        cases hi
        rw [h.bigint_whole hwithin]
        rfl
  | decimal =>
    rw [MySql.value]
    constructor
    · intro heq
      cases hread : m.decimal (.leaf (.num d)) with
      | none =>
        rw [hread] at heq
        cases heq
      | some e =>
        rw [hread] at heq
        have he : e = d := Scalar.num.inj (Doc.leaf.inj heq)
        rw [he] at hread
        have hfits := h.decimal_range hread
        exact .inr ⟨d, hv, hfits, (h.decimal_number hfits).mp hread⟩
    · rintro (rfl | ⟨e, he, hfits, hheld⟩)
      · exact absurd rfl hnull
      · rw [hv] at he
        cases he
        rw [(h.decimal_number hfits).mpr hheld]
        rfl
  | json =>
    rw [MySql.value, h.json_value (by simp), Option.getD_some]
    constructor
    · intro heq
      refine ⟨?_, _, hdoc, heq⟩
      cases v with
      | num n =>
        cases n with
        | fin n => rfl
        | _ => cases hv
      | bool _ | bigint _ => rfl
      | _ => cases hv
    · rintro ⟨_, doc, hdoc', heq⟩
      rw [hdoc] at hdoc'
      cases hdoc'
      exact heq
  | text =>
    refine iff_of_false ?_ ?_
    · rw [MySql.value]
      cases m.text (.leaf (.num d)) with
      | none => exact (nomatch ·)
      | some s => exact (nomatch ·)
    · rintro (⟨hn, _⟩ | ⟨s, hs, _⟩)
      · exact hnull hn
      · cases v with
        | str _ | date _ => cases hv
        | _ => cases hs

theorem text_value {v : JsVal} {s : String} (hv : asText v = some s)
    (hdoc : jsonOf .mysql v = some (.leaf (.str s))) (hsafe : KeyParameter.encodable v = !forgesBigint s)
    {x : Scalar} (hx : stringRead s = some x) (type : JsonColumn) :
    m.value type (.leaf x) = .leaf (.str s) ↔ Kept m type v := by
  have hnull : v ≠ .null := by
    rintro rfl
    cases hv
  have hnumber : asNumber v = none := by
    cases v with
    | str _ | date _ => rfl
    | _ => cases hv
  have hplain : x = .str s ↔ forgesBigint s = false := by
    rw [← stringRead_eq_iff s, hx, Option.some.injEq]
  cases type with
  | bigint =>
    refine iff_of_false ?_ ?_
    · rw [MySql.value]
      cases m.bigint (.leaf x) with
      | none => exact (nomatch ·)
      | some i => exact (nomatch ·)
    · rintro (hn | ⟨i, hi, _⟩)
      · exact hnull hn
      · rw [hnumber] at hi
        cases hi
  | decimal =>
    refine iff_of_false ?_ ?_
    · rw [MySql.value]
      cases m.decimal (.leaf x) with
      | none => exact (nomatch ·)
      | some i => exact (nomatch ·)
    · rintro (hn | ⟨i, hi, _⟩)
      · exact hnull hn
      · rw [hnumber] at hi
        cases hi
  | json =>
    rw [MySql.value]
    constructor
    · intro heq
      have hx' : x = .str s := by
        by_cases hleaf : Doc.leaf x = .leaf .null
        · cases hleaf
          rcases h.json_null with hn | hn
          · rw [hn] at heq
            cases heq
          · rw [hn] at heq
            cases heq
        · rw [h.json_value hleaf, Option.getD_some, Doc.map] at heq
          exact held_str (Doc.leaf.inj heq)
      rw [Kept, Document, hsafe, hplain.mp hx']
      exact ⟨rfl, _, hdoc, rfl⟩
    · rintro ⟨henc, _⟩
      rw [hsafe, Bool.not_eq_true'] at henc
      rw [hplain.mpr henc, h.json_value (by simp)]
      rfl
  | text =>
    rw [MySql.value]
    constructor
    · intro heq
      refine .inr ⟨s, hv, ?_⟩
      cases hforged : forgesBigint s with
      | false => rfl
      | true =>
        obtain ⟨d, rfl⟩ := forged_read hx hforged
        cases hread : m.text (.leaf (.num d)) with
        | none =>
          rw [hread] at heq
          cases heq
        | some t =>
          rw [hread] at heq
          obtain rfl : t = s := Scalar.str.inj (Doc.leaf.inj heq)
          exact absurd (h.text_number hread) (forged_not_number hforged)
    · rintro (⟨hn, _⟩ | ⟨t, ht, hforges⟩)
      · exact absurd hn hnull
      · rw [hv] at ht
        cases ht
        rw [hplain.mpr hforges, h.text_string]
        rfl

end

theorem value_leaf (m : MySql) {type : JsonColumn} (htype : type ≠ .json) (doc : Doc Scalar) :
    ∃ x, m.value type doc = .leaf x := by
  cases type with
  | bigint =>
    rw [MySql.value]
    cases m.bigint doc with
    | none => exact ⟨_, rfl⟩
    | some i => exact ⟨_, rfl⟩
  | decimal =>
    rw [MySql.value]
    cases m.decimal doc with
    | none => exact ⟨_, rfl⟩
    | some d => exact ⟨_, rfl⟩
  | json => exact absurd rfl htype
  | text =>
    rw [MySql.value]
    cases m.text doc with
    | none => exact ⟨_, rfl⟩
    | some s => exact ⟨_, rfl⟩

/-- A value that is no scalar of SQL is kept by a JSON column only. -/
theorem document_value {m : MySql} (h : m.Documented) {v : JsVal} {t : Doc Prim} {doc : Doc Scalar}
    (ht : jsonTree v = some t) (hread : t.read (leafRead .mysql) keyRead = some doc)
    (hnumber : asNumber v = none) (htext : asText v = none) (hnull : v ≠ .null)
    (hshape : ∀ x, jsonOf .mysql v ≠ some (.leaf x)) (type : JsonColumn) :
    jsonOf .mysql v = some (m.value type doc) ↔ Kept m type v := by
  by_cases htype : type = .json
  · subst htype
    rw [Kept]
    constructor
    · intro hdoc
      have hleaf : doc ≠ .leaf .null := by
        rintro rfl
        rw [MySql.value] at hdoc
        rcases h.json_null with hn | hn
        · rw [hn] at hdoc
          exact hshape _ hdoc
        · rw [hn] at hdoc
          exact hshape _ hdoc
      rw [MySql.value, h.json_value hleaf, Option.getD_some] at hdoc
      have henc := encodable_of_read v ht hdoc hread rfl
      obtain ⟨t', doc', ht', hdoc', hread'⟩ := (encoded_iff .mysql v).mpr henc
      rw [ht] at ht'
      cases ht'
      rw [hread] at hread'
      cases hread'
      refine ⟨henc, doc, hdoc', ?_⟩
      rw [hdoc] at hdoc'
      exact Option.some.inj hdoc'
    · rintro ⟨henc, doc', hdoc, hheld⟩
      obtain ⟨t', doc'', ht', hdoc'', hread'⟩ := (encoded_iff .mysql v).mpr henc
      rw [ht] at ht'
      cases ht'
      rw [hread] at hread'
      cases hread'
      rw [hdoc] at hdoc''
      cases hdoc''
      have hleaf : doc ≠ .leaf .null := by
        rintro rfl
        exact hshape _ hdoc
      rw [MySql.value, h.json_value hleaf, Option.getD_some, hheld, hdoc]
  · refine iff_of_false ?_ ?_
    · obtain ⟨x, hx⟩ := value_leaf m htype doc
      rw [hx]
      exact hshape x
    · cases type with
      | json => exact absurd rfl htype
      | bigint | decimal =>
        rintro (hn | ⟨_, hd, _⟩)
        · exact hnull hn
        · rw [hnumber] at hd
          cases hd
      | text =>
        rintro (⟨hn, _⟩ | ⟨_, hs, _⟩)
        · exact hnull hn
        · rw [htext] at hs
          cases hs

/-- What a column reads is the value that was encoded exactly when its type keeps that value. -/
theorem value_iff {m : MySql} (h : m.Documented) {v : JsVal} {t : Doc Prim} {doc : Doc Scalar}
    (ht : jsonTree v = some t) (hread : t.read (leafRead .mysql) keyRead = some doc)
    (type : JsonColumn) : jsonOf .mysql v = some (m.value type doc) ↔ Kept m type v := by
  have hnumber : ∀ {d}, asNumber v = some d → jsonOf .mysql v = some (.leaf (.num d)) →
      doc = .leaf (.num d) → (jsonOf .mysql v = some (m.value type doc) ↔ Kept m type v) := by
    rintro d hd hjson rfl
    rw [← number_value h hd hjson type, hjson, Option.some.injEq, eq_comm]
  have htext : ∀ {s x}, asText v = some s → jsonOf .mysql v = some (.leaf (.str s)) →
      KeyParameter.encodable v = (!forgesBigint s) → stringRead s = some x → doc = .leaf x →
      (jsonOf .mysql v = some (m.value type doc) ↔ Kept m type v) := by
    rintro s x hs hjson hsafe hx rfl
    rw [← text_value h hs hjson hsafe hx type, hjson, Option.some.injEq, eq_comm]
  cases v with
  | undefined => cases ht
  | null =>
    cases ht
    cases hread
    rw [← null_value h type, jsonOf, Option.some.injEq, eq_comm]
    rfl
  | bool b =>
    cases ht
    cases hread
    exact hnumber rfl rfl rfl
  | bigint i =>
    cases ht
    cases hread
    exact hnumber rfl rfl rfl
  | num n =>
    cases n with
    | fin d =>
      cases ht
      cases hread
      exact hnumber rfl rfl rfl
    | nan => exact document_value h ht hread rfl rfl (nomatch ·) (fun x hx => nomatch hx) type
    | inf b => exact document_value h ht hread rfl rfl (nomatch ·) (fun x hx => nomatch hx) type
  | str s | date s =>
    cases ht
    obtain ⟨x, hx, rfl⟩ := Option.map_eq_some_iff.mp hread
    exact htext rfl rfl rfl hx rfl
  | buffer bytes => exact document_value h ht hread rfl rfl (nomatch ·) (fun x hx => nomatch hx) type
  | arr xs =>
    refine document_value h ht hread rfl rfl (nomatch ·) ?_ type
    intro x hx
    obtain ⟨docs, _, heq⟩ := Option.map_eq_some_iff.mp hx
    cases heq
  | obj ps =>
    refine document_value h ht hread rfl rfl (nomatch ·) ?_ type
    intro x hx
    obtain ⟨docs, _, heq⟩ := Option.map_eq_some_iff.mp hx
    cases heq

/-! ## The rows of the table -/

theorem keyRead_self {k k' : String} (h : keyRead k = some k') : k' = k := by
  unfold keyRead at h
  split at h
  · cases h
  · exact (Option.some.inj h).symm

section
variable {ps : List (String × JsVal)} {docs : List (String × Doc Scalar)}

theorem readMembers_cons {k : String} {v : JsVal} {t : Doc Prim} (ht : jsonTree v = some t)
    (hread : Doc.readMembers (leafRead .mysql) keyRead (jsonMembers ((k, v) :: ps)) = some docs) :
    ∃ doc rest, t.read (leafRead .mysql) keyRead = some doc ∧
      Doc.readMembers (leafRead .mysql) keyRead (jsonMembers ps) = some rest ∧
      docs = (k, doc) :: rest := by
  simp only [jsonMembers, ht, Doc.readMembers] at hread
  obtain ⟨k', hkey, hread⟩ := Option.bind_eq_some_iff.mp hread
  obtain ⟨doc, hdoc, hrest⟩ := Option.bind_eq_some_iff.mp hread
  obtain ⟨rest, hrest, heq⟩ := Option.map_eq_some_iff.mp hrest
  obtain rfl := keyRead_self hkey
  exact ⟨doc, rest, hdoc, hrest, heq.symm⟩

/-- A member that is read is found under its own key. -/
theorem readMembers_lookup
    (hread : Doc.readMembers (leafRead .mysql) keyRead (jsonMembers ps) = some docs)
    (hn : (Props.keys ps).Nodup) {k : String} {v : JsVal} (hmem : (k, v) ∈ ps) {t : Doc Prim}
    (ht : jsonTree v = some t) :
    ∃ doc, t.read (leafRead .mysql) keyRead = some doc ∧ docs.lookup k = some doc := by
  induction ps generalizing docs with
  | nil => cases hmem
  | cons p ps ih =>
    obtain ⟨k', v'⟩ := p
    obtain ⟨hk', hps⟩ : k' ∉ Props.keys ps ∧ (Props.keys ps).Nodup := List.nodup_cons.mp hn
    rcases List.mem_cons.mp hmem with heq | hin
    · cases heq
      obtain ⟨doc, rest, hdoc, _, rfl⟩ := readMembers_cons ht hread
      exact ⟨doc, hdoc, List.lookup_cons_self⟩
    · have hne : k ≠ k' := by
        rintro rfl
        exact hk' (List.mem_map.mpr ⟨_, hin, rfl⟩)
      cases hv' : jsonTree v' with
      | none =>
        simp only [jsonMembers, hv'] at hread
        exact ih hread hps hin
      | some t' =>
        obtain ⟨doc', rest, _, hrest, rfl⟩ := readMembers_cons hv' hread
        obtain ⟨doc, hdoc, hlookup⟩ := ih hrest hps hin
        refine ⟨doc, hdoc, ?_⟩
        rw [List.lookup_cons, beq_false_of_ne hne]
        exact hlookup

theorem readMembers_absent
    (hread : Doc.readMembers (leafRead .mysql) keyRead (jsonMembers ps) = some docs) {k : String}
    (hk : k ∉ Props.keys ps) : docs.lookup k = none := by
  induction ps generalizing docs with
  | nil =>
    cases hread
    rfl
  | cons p ps ih =>
    obtain ⟨k', v'⟩ := p
    obtain ⟨hne, hps⟩ : k ≠ k' ∧ k ∉ Props.keys ps := not_or.mp fun h => hk (List.mem_cons.mpr h)
    cases hv' : jsonTree v' with
    | none =>
      simp only [jsonMembers, hv'] at hread
      exact ih hread hps
    | some t' =>
      obtain ⟨doc', rest, _, hrest, rfl⟩ := readMembers_cons hv' hread
      rw [List.lookup_cons, beq_false_of_ne hne]
      exact ih hrest hps

end

/-- The rows are read one by one. -/
theorem readElems_getElem {rows : List (List (String × JsVal))} {docs : List (Doc Scalar)}
    (hread : Doc.readElems (leafRead .mysql) keyRead (jsonElems (rows.map .obj)) = some docs)
    {i : Nat} {ps : List (String × JsVal)} (hi : rows[i]? = some ps) :
    ∃ members, Doc.readMembers (leafRead .mysql) keyRead (jsonMembers ps) = some members ∧
      docs[i]? = some (.obj members) := by
  induction rows generalizing docs i with
  | nil => cases hi
  | cons row rows ih =>
    rw [List.map_cons, jsonElems, Doc.readElems] at hread
    obtain ⟨doc, hdoc, hdocs⟩ := Option.bind_eq_some_iff.mp hread
    obtain ⟨rest, hrest, rfl⟩ := Option.map_eq_some_iff.mp hdocs
    cases i with
    | zero =>
      cases hi
      obtain ⟨members, hmembers, rfl⟩ := Option.map_eq_some_iff.mp hdoc
      exact ⟨members, hmembers, rfl⟩
    | succ i => exact ih hrest hi

theorem encodables_rows {rows : List (List (String × JsVal))}
    (h : ∀ ps ∈ rows, ∀ p ∈ ps, forgesBigint p.1 = false ∧ KeyParameter.encodable p.2 = true) :
    encodables (rows.map .obj) = true := by
  have hmembers : ∀ ps : List (String × JsVal),
      (∀ p ∈ ps, forgesBigint p.1 = false ∧ KeyParameter.encodable p.2 = true) → encodableMembers ps = true := by
    intro ps hps
    induction ps with
    | nil => rfl
    | cons p ps ih =>
      obtain ⟨hkey, hvalue⟩ := hps p List.mem_cons_self
      rw [encodableMembers, hkey, hvalue, ih fun q hq => hps q (List.mem_cons_of_mem p hq)]
      rfl
  induction rows with
  | nil => rfl
  | cons ps rows ih =>
    rw [List.map_cons, encodables, KeyParameter.encodable, hmembers ps (h ps List.mem_cons_self),
      ih fun qs hqs => h qs (List.mem_cons_of_mem ps hqs)]
    rfl

/-! ## The statement of a write -/

theorem jsonCell_tree (r : Record) (c : String) : ∃ t, jsonTree (jsonCell r c) = some t := by
  rw [jsonCell]
  cases r.cell c with
  | val v =>
    cases v with
    | num n => cases n <;> exact ⟨_, rfl⟩
    | _ => exact ⟨_, rfl⟩
  | _ => exact ⟨_, rfl⟩

theorem jsonCell_absent {r : Record} {c : String} (h : c ∉ r.names) : jsonCell r c = .null := by
  have hlookup : r.cells.lookup c = none := by
    apply List.lookup_eq_none_iff.mpr
    intro p hp
    apply bne_iff_ne.mpr
    rintro rfl
    exact h (List.mem_map.mpr ⟨p, hp, rfl⟩)
  rw [jsonCell, Record.cell, hlookup]
  rfl

theorem jsonOf_null {v : JsVal} : jsonOf .mysql v = some (.leaf .null) ↔ v = .null := by
  constructor
  · intro hjson
    cases v with
    | null => rfl
    | num n => cases n <;> cases hjson
    | arr xs =>
      obtain ⟨docs, _, heq⟩ := Option.map_eq_some_iff.mp hjson
      cases heq
    | obj ps =>
      obtain ⟨docs, _, heq⟩ := Option.map_eq_some_iff.mp hjson
      cases heq
    | _ => cases hjson
  · rintro rfl
    rfl

theorem kept_encodable {m : MySql} {type : JsonColumn} {v : JsVal} (hv : Kept m type v) :
    KeyParameter.encodable v = true := by
  have hnumber : ∀ {d}, asNumber v = some d → KeyParameter.encodable v = true := by
    intro d hd
    cases v with
    | num n =>
      cases n with
      | fin n => rfl
      | _ => cases hd
    | bool _ | bigint _ => rfl
    | _ => cases hd
  cases type with
  | bigint | decimal =>
    rcases hv with rfl | ⟨_, hd, _⟩
    · rfl
    · exact hnumber hd
  | json => exact hv.1
  | text =>
    rcases hv with ⟨rfl, _⟩ | ⟨s, hs, hplain⟩
    · rfl
    · cases v with
      | str _ | date _ =>
        cases hs
        rw [KeyParameter.encodable, hplain]
        rfl
      | _ => cases hs

namespace JsonWrite
variable (w : JsonWrite)

/-- What the payload's object of a record is assigned. -/
def entries (r : Record) : List (String × JsVal) :=
  match w with
  | insert columns _ _ => rowEntries columns r
  | update opts _ => rowEntries opts.allColumns r ++ flagEntries opts r

theorem source_param : w.source.param = encodeRows (w.records.map w.entries) := by
  cases w with
  | insert columns records plain => rfl
  | update opts plain => rfl

theorem source_names (r : Record) : w.source.columns.map (·.1) = Props.keys (w.entries r) := by
  cases w with
  | insert columns records plain =>
    simp [source, mysqlInsertJson, typedColumns, entries, rowEntries, Props.keys]
  | update opts plain =>
    simp only [source, mysqlUpdateManyJson, typedColumns, entries, rowEntries, flagEntries, Props.keys,
      List.map_append, List.map_map]
    rfl

theorem mem_of_carries {r : Record} {c : String} (hc : c ∈ w.carries r) :
    (c, mysqlJsonTableColumn c w.records) ∈ w.source.columns ∧ (c, jsonCell r c) ∈ w.entries r := by
  cases w with
  | insert columns records plain =>
    exact ⟨List.mem_map.mpr ⟨c, hc, rfl⟩, List.mem_map.mpr ⟨c, hc, rfl⟩⟩
  | update opts plain =>
    have hall : c ∈ opts.allColumns := by
      rcases List.mem_append.mp hc with hk | hu
      · exact List.mem_append_left _ hk
      · exact List.mem_append_right _ (List.mem_of_mem_filter hu)
    exact ⟨List.mem_append_left _ (List.mem_map.mpr ⟨c, hall, rfl⟩),
      List.mem_append_left _ (List.mem_map.mpr ⟨c, hall, rfl⟩)⟩

/-- What the object is assigned beside the values that the record carries is a null or a flag. -/
theorem entry_cases {r : Record} {p : String × JsVal} (hp : p ∈ w.entries r) :
    (p.1 ∈ w.carries r ∧ p.2 = jsonCell r p.1) ∨ KeyParameter.encodable p.2 = true := by
  cases w with
  | insert columns records plain =>
    obtain ⟨c, hc, rfl⟩ := List.mem_map.mp hp
    exact .inl ⟨hc, rfl⟩
  | update opts plain =>
    rcases List.mem_append.mp hp with hrow | hflag
    · obtain ⟨c, hc, rfl⟩ := List.mem_map.mp hrow
      by_cases hname : c ∈ r.names
      · left
        refine ⟨?_, rfl⟩
        rcases List.mem_append.mp hc with hk | hu
        · exact List.mem_append_left _ hk
        · exact List.mem_append_right _ (List.mem_filter.mpr ⟨hu, decide_eq_true hname⟩)
      · right
        change KeyParameter.encodable (jsonCell r c) = true
        rw [jsonCell_absent hname]
        rfl
    · obtain ⟨c, _, rfl⟩ := List.mem_map.mp hflag
      exact .inr rfl

end JsonWrite

/-- The rows of the table are read object by object. -/
theorem tableRows_eq (m : MySql) (w : JsonWrite) : m.tableRows w.source =
    if m.names (w.source.columns.map (·.1)) then
      (Doc.readElems (leafRead .mysql) keyRead
        (jsonElems ((w.records.map fun r => Props.ofEntries (w.entries r)).map .obj))).map
          fun docs => docs.map (m.tableRow w.source.columns)
    else none := by
  rw [MySql.tableRows, w.source_param, encodeRows]
  obtain ⟨text, htext, hparse⟩ := parse_encodeJsonParam .mysql
    (.arr ((w.records.map w.entries).map fun entries => .obj (Props.ofEntries entries))) rfl
  rw [htext, Option.bind_some, hparse, Doc.read, List.map_map, List.map_map]
  simp only [Function.comp_def]
  cases Doc.readElems (leafRead .mysql) keyRead
    (jsonElems (w.records.map fun r => .obj (Props.ofEntries (w.entries r)))) with
  | none => rfl
  | some docs => rfl

theorem tableRow_lookup (m : MySql) {columns : List (String × JsonColumn)} (doc : Doc Scalar)
    (hn : (columns.map (·.1)).Nodup) {c : String} {type : JsonColumn} (hc : (c, type) ∈ columns) :
    (m.tableRow columns doc).lookup c = some (m.column doc c type) := by
  induction columns with
  | nil => cases hc
  | cons p columns ih =>
    obtain ⟨hp, hrest⟩ := List.nodup_cons.mp hn
    rw [MySql.tableRow, List.map_cons]
    rcases List.mem_cons.mp hc with rfl | hin
    · exact List.lookup_cons_self
    · have hne : c ≠ p.1 := by
        rintro rfl
        exact hp (List.mem_map.mpr ⟨_, hin, rfl⟩)
      rw [List.lookup_cons, beq_false_of_ne hne]
      exact ih hrest hin

/-- One cell of the table, where the payload is read. -/
theorem cell_iff {m : MySql} (h : m.Documented) (w : JsonWrite) {r : Record}
    (hn : (Props.keys (w.entries r)).Nodup) {members : List (String × Doc Scalar)}
    (hread : Doc.readMembers (leafRead .mysql) keyRead (jsonMembers (Props.ofEntries (w.entries r))) =
      some members) {c : String} (hc : c ∈ w.carries r) :
    (∃ doc, jsonOf .mysql (jsonCell r c) = some doc ∧
      (m.tableRow w.source.columns (.obj members)).lookup c = some doc) ↔
      if c = "__proto__" then jsonCell r c = .null
      else Beside m (sample c w.records) (jsonCell r c) := by
  obtain ⟨hcolumn, hentry⟩ := w.mem_of_carries hc
  rw [tableRow_lookup m _ (by rwa [w.source_names r]) hcolumn]
  have hsome : (∃ doc, jsonOf .mysql (jsonCell r c) = some doc ∧
      some (m.column (.obj members) c (mysqlJsonTableColumn c w.records)) = some doc) ↔
      jsonOf .mysql (jsonCell r c) =
        some (m.column (.obj members) c (mysqlJsonTableColumn c w.records)) := by
    constructor
    · rintro ⟨doc, hdoc, heq⟩
      rw [hdoc, heq]
    · intro hdoc
      exact ⟨_, hdoc, rfl⟩
  rw [hsome, MySql.column]
  by_cases hproto : c = "__proto__"
  · have habsent : c ∉ Props.keys (Props.ofEntries (w.entries r)) := by
      intro hk
      obtain ⟨p, hp, rfl⟩ := List.mem_map.mp hk
      exact ((Props.mem_ofEntries hn).mp hp).2 hproto
    rw [if_pos hproto, readMembers_absent hread habsent]
    exact jsonOf_null
  · obtain ⟨t, ht⟩ := jsonCell_tree r c
    obtain ⟨doc, hdoc, hlookup⟩ := readMembers_lookup hread (Props.ofEntries_keys_nodup _)
      ((Props.mem_ofEntries hn).mpr ⟨hentry, hproto⟩) ht
    rw [if_neg hproto, beside_iff, hlookup]
    exact value_iff h ht hdoc _

section
variable {m : MySql} {w : JsonWrite}

theorem keys_nodup (h : m.Documented) (hnames : m.names (w.source.columns.map (·.1)) = true)
    (r : Record) : (Props.keys (w.entries r)).Nodup := by
  rw [← w.source_names r]
  exact h.distinct hnames

theorem members_read {docs : List (Doc Scalar)}
    (hdocs : Doc.readElems (leafRead .mysql) keyRead (jsonElems
      ((w.records.map fun r => Props.ofEntries (w.entries r)).map .obj)) = some docs)
    {i : Nat} {r : Record} (hi : w.records[i]? = some r) :
    ∃ members, Doc.readMembers (leafRead .mysql) keyRead
        (jsonMembers (Props.ofEntries (w.entries r))) = some members ∧
      docs[i]? = some (.obj members) := by
  apply readElems_getElem hdocs
  rw [List.getElem?_map, hi]
  rfl

/-- The row that a record which is read back has in the table. -/
theorem row_of_preserves (hkept : Preserves m w) {r : Record} (hr : r ∈ w.records) :
    m.names (w.source.columns.map (·.1)) = true ∧ ∃ members,
      Doc.readMembers (leafRead .mysql) keyRead
        (jsonMembers (Props.ofEntries (w.entries r))) = some members ∧
      RowKept (w.carries r) r (m.tableRow w.source.columns (.obj members)) := by
  obtain ⟨i, hi⟩ := List.mem_iff_getElem?.mp hr
  obtain ⟨rows, row, hrows, hrow, hkeeps⟩ := hkept i r hi
  rw [tableRows_eq] at hrows
  split at hrows
  next hnames =>
    obtain ⟨docs, hdocs, rfl⟩ := Option.map_eq_some_iff.mp hrows
    obtain ⟨members, hmembers, hdoc⟩ := members_read hdocs hi
    rw [List.getElem?_map, hdoc] at hrow
    cases hrow
    exact ⟨hnames, members, hmembers, hkeeps⟩
  next => cases hrows

theorem values_of_preserves (h : m.Documented) (hkept : Preserves m w) {r : Record}
    (hr : r ∈ w.records) {c : String} (hc : c ∈ w.carries r) :
    if c = "__proto__" then jsonCell r c = .null
    else Beside m (sample c w.records) (jsonCell r c) := by
  obtain ⟨hnames, members, hmembers, hkeeps⟩ := row_of_preserves hkept hr
  exact (cell_iff h w (keys_nodup h hnames r) hmembers hc).mp (hkeeps c hc)

/-- The payload of safe values is read, whatever a row of an update skips. -/
theorem encodables_of_safe (h : m.Documented) (hsafe : Safe m w)
    (hnames : m.names (w.source.columns.map (·.1)) = true) :
    encodables ((w.records.map fun r => Props.ofEntries (w.entries r)).map .obj) = true := by
  apply encodables_rows
  intro ps hps p hp
  obtain ⟨r, hr, rfl⟩ := List.mem_map.mp hps
  obtain ⟨hentry, hproto⟩ := (Props.mem_ofEntries (keys_nodup h hnames r)).mp hp
  have hname : p.1 ∈ w.source.columns.map (·.1) := by
    rw [w.source_names r]
    exact List.mem_map.mpr ⟨p, hentry, rfl⟩
  refine ⟨?_, ?_⟩
  · rw [← String.ofList_toList (s := p.1)]
    exact SingleParam.not_forges_of_chars (h.identifier hnames p.1 hname)
  · rcases w.entry_cases hentry with ⟨hc, hvalue⟩ | hplain
    · have hkeeps := hsafe.values r hr p.1 hc
      rw [if_neg hproto, beside_iff] at hkeeps
      rw [hvalue]
      exact kept_encodable hkeeps
    · exact hplain

end

/-- A batch write is read back as it was encoded exactly when each value is one that the first value
of its column makes room for. -/
theorem preserves_iff {m : MySql} (h : m.Documented) (w : JsonWrite) :
    Preserves m w ↔ Safe m w := by
  constructor
  · intro hkept
    refine ⟨?_, fun r hr c hc => values_of_preserves h hkept hr hc⟩
    intro hne
    obtain ⟨r, hr⟩ := List.exists_mem_of_ne_nil _ hne
    exact (row_of_preserves hkept hr).1
  · intro hsafe i r hi
    have hr : r ∈ w.records := List.mem_iff_getElem?.mpr ⟨i, hi⟩
    have hnames := hsafe.names (List.ne_nil_of_mem hr)
    obtain ⟨docs, _, hdocs⟩ := (encodeds_iff .mysql _).mpr (encodables_of_safe h hsafe hnames)
    obtain ⟨members, hmembers, hdoc⟩ := members_read hdocs hi
    refine ⟨docs.map (m.tableRow w.source.columns), m.tableRow w.source.columns (.obj members),
      ?_, ?_, ?_⟩
    · rw [tableRows_eq, if_pos hnames, hdocs]
      rfl
    · rw [List.getElem?_map, hdoc]
      rfl
    · intro c hc
      exact (cell_iff h w (keys_nodup h hnames r) hmembers hc).mpr (hsafe.values r hr c hc)

/-! ## Fractions -/

/-- A number is rounded to an integer and refused out of range; a JSON null is SQL's. -/
def mysql8 : MySql where
  names names := decide names.Nodup &&
    names.all fun c => c.toList.all fun x => x.isAlphanum || x = '_'
  hold d := d
  bigint
    | .leaf (.num d) =>
      let i := Binary64.roundEven d.value
      if -2 ^ 63 ≤ i ∧ i < 2 ^ 63 then some i else none
    | _ => none
  decimal
    | .leaf (.num d) => if FitsDecimal d then some d else none
    | _ => none
  json doc := some (doc.map fun x => match x with
    | .num d => .num d
    | x => x)
  text
    | .leaf .null => none
    | .leaf (.str s) => some s
    | .leaf (.num d) => some (String.ofList d.print)
    | doc => some (String.ofList (doc.text scalarText quote))

theorem mysql8_documented : mysql8.Documented where
  distinct := by
    intro names hnames
    exact of_decide_eq_true (Bool.and_eq_true_iff.mp hnames).1
  identifier := by
    intro names hnames c hc x hx
    have hchar := List.all_eq_true.mp (List.all_eq_true.mp (Bool.and_eq_true_iff.mp hnames).2 c hc) x hx
    refine ⟨?_, ?_⟩
    · rintro rfl
      exact absurd hchar (by decide)
    · rintro rfl
      exact absurd hchar (by decide)
  bigint_range := by
    intro doc i hread
    simp only [mysql8] at hread
    split at hread
    · split at hread
      next hrange =>
        cases hread
        exact hrange
      next => cases hread
    · cases hread
  bigint_whole := by
    intro i hi
    simp only [mysql8, Dec.value_ofInt, Binary64.roundEven_intCast]
    exact if_pos hi
  bigint_null := rfl
  decimal_range := by
    intro doc d hread
    simp only [mysql8] at hread
    split at hread
    · split at hread
      next hfits =>
        cases hread
        exact hfits
      next => cases hread
    · cases hread
  decimal_number := by
    intro d hfits
    refine iff_of_true ?_ rfl
    simp only [mysql8]
    exact if_pos hfits
  decimal_null := rfl
  json_value := fun _ => rfl
  json_null := .inr rfl
  text_string := fun _ => rfl
  text_number := by
    intro d s hread x hx
    cases hread
    rw [String.toList_ofList] at hx
    exact print_chars d x hx

theorem amounts_plain (n k : JsNum) : ∀ r ∈ [amountRecord n, amountRecord k], ∀ c ∈ ["amount"],
    (r.cell c).isToken = false := by
  intro r hr c hc
  obtain rfl := List.mem_singleton.mp hc
  rcases List.mem_cons.mp hr with rfl | hr
  · rfl
  · obtain rfl := List.mem_singleton.mp hr
    rfl

def amountsWrite (n k : JsNum) : JsonWrite :=
  .insert ["amount"] [amountRecord n, amountRecord k] (amounts_plain n k)

/-- A column that starts with a fraction keeps an integer, too. -/
theorem fraction_first_preserved :
    mysql8.Documented ∧ Preserves mysql8 (amountsWrite half (.ofInt 1)) := by
  refine ⟨mysql8_documented, (preserves_iff mysql8_documented _).mpr ⟨fun _ => by decide, ?_⟩⟩
  intro r hr c hc
  obtain rfl := List.mem_singleton.mp hc
  rw [if_neg (by decide)]
  rcases List.mem_cons.mp hr with rfl | hr
  · exact .inr ⟨_, rfl, by decide, rfl⟩
  · obtain rfl := List.mem_singleton.mp hr
    exact .inr ⟨_, rfl, by decide, rfl⟩

/-- The amounts 1 and 0.5 are read as `BIGINT`, which has no 0.5. -/
theorem fraction_rounded : ¬ ∀ (m : MySql), m.Documented → ∀ w : JsonWrite, Preserves m w := by
  intro h
  have hkept := h mysql8 mysql8_documented (amountsWrite (.ofInt 1) half)
  have hvalue := values_of_preserves mysql8_documented hkept (r := amountRecord half)
    (List.mem_cons_of_mem _ List.mem_cons_self) (c := "amount") List.mem_cons_self
  rw [if_neg (by decide)] at hvalue
  rcases hvalue with hnull | ⟨i, hi, _⟩
  · cases hnull
  · have hexp := ofInt_exp_nonneg i
    rw [← Option.some.inj hi] at hexp
    exact absurd hexp (by decide)

end LiteDb.JsonTable
