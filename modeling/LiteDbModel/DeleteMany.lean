import LiteDbModel.CastSyntax
import LiteDbModel.InsertGroups
import LiteDbModel.SingleParam

/-!
# Deleting the rows of a key set

`compileDeleteMany` asks for a set of composite keys by one `IN` list for each key column. What
the lists accept together is compared with the key tuples.
-/

namespace LiteDb.DeleteMany
set_option autoImplicit false
open SingleParam (Kind Cells Same)
open SqlCond (andAll)

/-! ## The compiled statements -/

/-- A key's value in one column. -/
abbrev Atom := { v : JsVal // v.isAtom = true }

def Atom.cond (a : Atom) : CondVal := .js a.1 a.2

/-- A key: its columns with their values. -/
abbrev Key := List (String × Atom)

def Key.at (key : Key) (c : String) : Atom :=
  (Props.get key c).getD ⟨.undefined, isAtom_undefined⟩

def isDefined : JsVal → Bool
  | .undefined => false
  | _ => true

def Key.present (key : Key) (c : String) : Bool := isDefined (key.at c).1

def plainValue : CondVal → JsVal
  | .js v _ => v
  | _ => .undefined

def encodeJsonArrayParam (dialect : Dialect) (values : List CondVal) : CondVal :=
  .js (.str (String.ofList
    ((encodeJsonParam dialect (.arr (values.map plainValue))).getD []))) rfl

/-- `conditionsFor(...).compile` -/
def whereClause (dialect : Dialect) (conditions : List (String × CondVal)) : Piece :=
  match dialect with
  | .postgres => compile (getSqlCastFormatter .postgres) (.mk conditions .and [])
  | .mysql => compileJsonArrays (encodeJsonArrayParam .mysql) .mysql none (.mk conditions .and [])
  | .sqlite =>
    compileJsonArrays (encodeJsonArrayParam .sqlite) .sqlite none (.mk conditions .and [])

def returningText : Option String → String
  | none | some "" => ""
  | some cols => " RETURNING " ++ cols

def compileDelete (dialect : Dialect) (tableName : String) (conditions : List (String × CondVal))
    (returning : Option String) : Except String Piece :=
  let clause := whereClause dialect conditions
  if clause.sql = "" then .error "DELETE requires conditions"
  else .ok ⟨"DELETE FROM " ++ tableName ++ " WHERE " ++ clause.sql ++ returningText returning,
    clause.params⟩

/-- The column of a condition object with the values of the keys. -/
def listOf (keys : List Key) (c : String) : String × CondVal :=
  (c, .arr (keys.map fun key => (key.at c).cond))

def patternKey (keyColumns : List String) (key : Key) : String :=
  ",".intercalate ((keyColumns.filter key.present).mergeSort sortsBefore)

/-- The conditions of a group of keys with the same columns. -/
def groupConditions (keyColumns : List String) (group : List Key) : List (String × CondVal) :=
  let present := keyColumns.filter fun c => group.head?.any fun key => key.present c
  Props.ofEntries (present.map (listOf group))

def compileDeleteMany (dialect : Dialect) (tableName : String) (keyColumns : List String)
    (keys : List Key) (returning : Option String) : Except String (List Piece) :=
  match keyColumns, keys with
  | [], _ => .error "compileDeleteMany: keyColumns must be non-empty"
  | _, [] => .ok []
  | [col], keys =>
    (compileDelete dialect tableName (Props.ofEntries [listOf keys col]) returning).map ([·])
  | keyColumns, keys =>
    (Keyed.groups (patternKey keyColumns) keys).mapM fun group =>
      compileDelete dialect tableName (groupConditions keyColumns group.2) returning

/-! ## A set of key tuples -/

/-- The columns of a composite key. -/
structure KeyColumns (n : Nat) where
  name : Fin (n + 2) → String
  distinct : Function.Injective name
  /-- An identifier is no placeholder text, no reserved key and no array index. -/
  plain : ∀ i, hasHole (name i) = false ∧ reserved (name i) = false ∧ Props.index (name i) = none

section Tuples
variable {n : Nat} (columns : KeyColumns n) {kind : Fin (n + 2) → Kind}

def KeyColumns.names : List String := List.ofFn columns.name

theorem kind_atom (k : Kind) (c : Option k.Val) : (k.js c).isAtom = true := by
  cases c <;> cases k <;> rfl

def keyOf (e : Cells kind) : Key :=
  List.ofFn fun i => (columns.name i, ⟨(kind i).js (e i), kind_atom _ _⟩)

variable (keys : List (Cells kind)) (dialect : Dialect)

/-- The values of one column, as a list to look a cell up in. -/
def columnTest (i : Fin (n + 2)) : SingleParam.Test :=
  ⟨1, .column, "", fun _ => columns.name i, fun _ => "", fun _ => kind i,
    keys.map fun e _ => e i⟩

def columnValues (i : Fin (n + 2)) : List CondVal :=
  keys.map fun e => .js ((kind i).js (e i)) (kind_atom _ _)

def textParams {kind : Fin 1 → Kind} : Option (SingleParam.Param kind) → List CondVal
  | some (.json text) => [.js (.str (String.ofList text)) rfl]
  | _ => []

/-- The column's `IN`: PostgreSQL binds the values one by one, the others bind them as a text. -/
def columnIn (i : Fin (n + 2)) : Piece :=
  match dialect with
  | .postgres => ⟨columns.name i ++ " IN (" ++ placeholders "?" (columnValues keys i) ++ ")",
      columnValues keys i⟩
  | d => ⟨((columnTest columns keys i).predicate d).sql,
      textParams (SingleParam.encodeParam d .column (columnTest columns keys i).list)⟩

/-- What it answers for a cell, where the statement does not fail. -/
def columnTruth (i : Fin (n + 2)) (cell : Option (kind i).Val) : Option (Option Bool) :=
  match dialect with
  | .postgres => some (SingleParam.expandedTruth (columnTest columns keys i).list fun _ => cell)
  | d => (columnTest columns keys i).truth d fun _ => cell

/-- The one statement for the keys. -/
def deleteText (tableName : String) (returning : Option String) : Piece :=
  ⟨"DELETE FROM " ++ tableName ++ " WHERE " ++
      join " AND " (List.ofFn fun i => (columnIn columns keys dialect i).sql) ++
      returningText returning,
    (List.ofFn fun i => (columnIn columns keys dialect i).params).flatten⟩

/-- Whether the statement deletes a row; `none` where a list cannot be read. -/
def deletes (row : Cells kind) : Option Bool :=
  let truth := fun i => columnTruth columns keys dialect i (row i)
  if ∀ i, (truth i).isSome then some (andAll (List.ofFn fun i => (truth i).join) = some true)
  else none

/-- What the statement leaves of a table. -/
def kept : List (Cells kind) → Option (List (Cells kind))
  | [] => some []
  | row :: rows => (deletes columns keys dialect row).bind fun deleted =>
    (kept rows).map fun rest => if deleted then rest else row :: rest

/-- What is left of a table; for no keys there is no statement. -/
def remaining (rows : List (Cells kind)) : Option (List (Cells kind)) :=
  if keys.isEmpty then some rows else kept columns keys dialect rows

end Tuples

instance (k : Kind) : DecidableEq k.Val :=
  match k with
  | .text => inferInstanceAs (DecidableEq String)
  | .integer => inferInstanceAs (DecidableEq SingleParam.I64)
  | .boolean => inferInstanceAs (DecidableEq Bool)

/-- The row's key, without a null, is one of the keys. -/
def IsKey {n : Nat} {kind : Fin n → Kind} (keys : List (Cells kind)) (row : Cells kind) : Prop :=
  ∃ e ∈ keys, ∀ i, (row i).isSome ∧ row i = e i

instance {n : Nat} {kind : Fin n → Kind} (keys : List (Cells kind)) (row : Cells kind) :
    Decidable (IsKey keys row) :=
  inferInstanceAs (Decidable (∃ e ∈ keys, ∀ i, (row i).isSome ∧ row i = e i))

/-- The lists can be read, and every combination of values that they are read as, one for each
column, is a key, which is read as itself. -/
structure Rectangular {n : Nat} {kind : Fin n → Kind} (dialect : Dialect)
    (keys : List (Cells kind)) : Prop where
  readable : dialect ≠ .postgres → ∀ e ∈ keys, ∀ i, (kind i).breaks (e i) = false
  tuples : ∀ v : (i : Fin n) → (kind i).Val,
    (∀ i, ∃ e ∈ keys, (kind i).ReadAs dialect (e i) (v i)) ↔ ∃ e ∈ keys, ∀ i, e i = some (v i)

/-! ## The statement of a key set -/

section Compiled
variable {n : Nat} (columns : KeyColumns n) {kind : Fin (n + 2) → Kind}
  {keys : List (Cells kind)} (dialect : Dialect)

theorem get_ofFn {α : Type} {m : Nat} {name : Fin m → String} (hname : Function.Injective name)
    (f : Fin m → α) (i : Fin m) :
    Props.get (List.ofFn fun i => (name i, f i)) (name i) = some (f i) := by
  have hmem : name i ∈ Props.keys (List.ofFn fun i => (name i, f i)) :=
    List.mem_map.mpr ⟨(name i, f i), List.mem_ofFn.mpr ⟨i, rfl⟩, rfl⟩
  obtain ⟨v, hv⟩ := Props.exists_get hmem
  obtain ⟨j, hj⟩ := List.mem_ofFn.mp (Props.mem_of_get hv)
  obtain ⟨hnames, rfl⟩ := Prod.mk.inj hj
  rw [hv, hname hnames]

theorem keyOf_at (e : Cells kind) (i : Fin (n + 2)) :
    (keyOf columns e).at (columns.name i) = ⟨(kind i).js (e i), kind_atom _ _⟩ := by
  rw [Key.at, keyOf, get_ofFn columns.distinct, Option.getD_some]

theorem keyOf_present (e : Cells kind) {c : String} (hc : c ∈ columns.names) :
    (keyOf columns e).present c = true := by
  obtain ⟨i, rfl⟩ := List.mem_ofFn.mp hc
  have hdefined : ∀ (k : Kind) (c : Option k.Val), isDefined (k.js c) = true := by
    intro k c
    cases c <;> cases k <;> rfl
  rw [Key.present, keyOf_at]
  exact hdefined _ _

theorem plain_ne {key name : String} (hkey : reserved key = false) (hname : reserved name = true) :
    key ≠ name := by
  rintro rfl
  rw [hkey] at hname
  cases hname

/-- The conditions hold the columns in their order. -/
theorem ofEntries_columns (f : Fin (n + 2) → CondVal) :
    Props.ofEntries (List.ofFn fun i => (columns.name i, f i)) =
      List.ofFn fun i => (columns.name i, f i) := by
  have hcanonical : Props.Canonical (Props.keys (List.ofFn fun i => (columns.name i, f i))) := by
    rw [Props.keys, List.map_ofFn, Props.Canonical, List.pairwise_ofFn]
    intro i j hij
    refine ⟨fun h => hij.ne (columns.distinct h), ?_⟩
    have hindex := fun i => (columns.plain i).2.2
    simp only [Function.comp_apply, Props.before, hindex]
  rw [Props.ofEntries_canonical hcanonical, List.filter_eq_self]
  intro p hp
  obtain ⟨i, rfl⟩ := List.mem_ofFn.mp hp
  simpa using plain_ne (columns.plain i).2.1 (by decide : reserved "__proto__" = true)

theorem columnIn_sql_ne (i : Fin (n + 2)) : (columnIn columns keys dialect i).sql ≠ "" := by
  have hnonempty : ∀ s t u : String, t ≠ "" → s ++ t ++ u ≠ "" := by
    intro s t u ht h
    apply ht
    have hlen := congrArg String.length h
    rw [String.length_append, String.length_append, String.length_empty] at hlen
    exact String.length_eq_zero_iff.mp (by omega)
  cases dialect with
  | postgres =>
    rw [columnIn]
    dsimp only
    rw [String.append_assoc]
    exact hnonempty _ _ _ (by decide)
  | mysql => exact append_ne_empty (by decide)
  | sqlite => exact append_ne_empty (by decide)

/-- MySQL and SQLite are sent the values as one text. -/
theorem columnIn_json (d : JsonArrayDialect) (i : Fin (n + 2)) :
    columnIn columns keys d.dialect i = ⟨inListPredicate d.dialect (columns.name i),
      [encodeJsonArrayParam d.dialect (columnValues keys i)]⟩ := by
  have hpayload : (columnTest columns keys i).list.map (SingleParam.Shape.column.payload fun _ =>
      kind i) = (columnValues keys i).map plainValue := by
    simp only [columnTest, columnValues, List.map_map]
    rfl
  have hparam : ∀ payload : List JsVal, payload = (columnValues keys i).map plainValue →
      textParams ((encodeJsonParam d.dialect (.arr payload)).map .json :
        Option (SingleParam.Param fun _ : Fin 1 => kind i)) =
      [encodeJsonArrayParam d.dialect (columnValues keys i)] := by
    rintro payload rfl
    rfl
  have hbound := hparam _ hpayload
  cases d with
  | mysql => exact congrArg (Piece.mk _) hbound
  | sqlite => exact congrArg (Piece.mk _) hbound

theorem compileJsonArrays_and (encode : List CondVal → CondVal) (d : JsonArrayDialect)
    (fmt : Formatter) (ps : List (String × CondVal)) :
    compileJsonArrays encode d fmt (.mk ps .and []) =
      joinPieces " AND " (ps.map fun p => compileJsonEntry encode d fmt p.1 p.2) := by
  have hsep : " " ++ Operator.and.text ++ " " = " AND " := by decide
  simp only [compileJsonArrays, compileNested, List.append_nil, hsep]

/-- A column's condition is compiled to its list. -/
theorem whereClause_columns (hne : keys ≠ []) :
    whereClause dialect (List.ofFn fun i => (columns.name i, .arr (columnValues keys i))) =
      ⟨join " AND " (List.ofFn fun i => (columnIn columns keys dialect i).sql),
        (List.ofFn fun i => (columnIn columns keys dialect i).params).flatten⟩ := by
  have hvalues : ∀ i, columnValues keys i ≠ [] := by
    intro i h
    exact hne (List.map_eq_nil_iff.mp h)
  have hpieces : ∀ pieces : List Piece,
      pieces = (List.ofFn fun i => columnIn columns keys dialect i) →
      joinPieces " AND " pieces =
        ⟨join " AND " (List.ofFn fun i => (columnIn columns keys dialect i).sql),
          (List.ofFn fun i => (columnIn columns keys dialect i).params).flatten⟩ := by
    rintro pieces rfl
    rw [joinPieces, List.map_ofFn, List.filter_eq_self.mpr, List.flatMap, List.map_ofFn]
    · rfl
    · intro s hs
      obtain ⟨i, rfl⟩ := List.mem_ofFn.mp hs
      simpa using columnIn_sql_ne columns dialect i
  have hor : ∀ i, columns.name i ≠ "__or__" := fun i => plain_ne (columns.plain i).2.1 (by decide)
  have hraw : ∀ i, columns.name i ≠ "__raw__" :=
    fun i => plain_ne (columns.plain i).2.1 (by decide)
  have hjson : ∀ d : JsonArrayDialect, dialect = d.dialect →
      (List.ofFn fun i => (columns.name i, CondVal.arr (columnValues keys i))).map (fun p =>
        compileJsonEntry (encodeJsonArrayParam d.dialect) d none p.1 p.2) =
      List.ofFn fun i => columnIn columns keys dialect i := by
    rintro d rfl
    rw [List.map_ofFn]
    congr 1
    funext i
    obtain ⟨hhole, hreserved, -⟩ := columns.plain i
    rw [columnIn_json]
    simp [compileJsonEntry, hvalues i, hhole, hreserved]
  cases dialect with
  | postgres =>
    rw [whereClause, compile_and, List.map_ofFn]
    apply hpieces
    congr 1
    funext i
    obtain ⟨hhole, hreserved, -⟩ := columns.plain i
    simp [compileCondition, hor i, hraw i, hreserved, compileArray, hhole, hvalues i, columnIn]
  | mysql => exact (compileJsonArrays_and _ _ _ _).trans (hpieces _ (hjson .mysql rfl))
  | sqlite => exact (compileJsonArrays_and _ _ _ _).trans (hpieces _ (hjson .sqlite rfl))

theorem present_columns {key : Key} (h : ∀ c ∈ columns.names, key.present c = true) :
    columns.names.filter key.present = columns.names := List.filter_eq_self.mpr h

theorem groupConditions_columns (hne : keys ≠ []) :
    groupConditions columns.names (keys.map (keyOf columns)) =
      List.ofFn fun i => (columns.name i, .arr (columnValues keys i)) := by
  obtain ⟨e, rest, rfl⟩ := List.exists_cons_of_ne_nil hne
  have hlist : ∀ i, listOf ((e :: rest).map (keyOf columns)) (columns.name i) =
      (columns.name i, .arr (columnValues (e :: rest) i)) := by
    intro i
    rw [listOf, columnValues, List.map_map]
    congr 2
    apply List.map_congr_left
    intro e' _
    rw [Function.comp_apply, keyOf_at]
    rfl
  rw [groupConditions]
  simp only [List.map_cons, List.head?_cons, Option.any_some]
  rw [present_columns columns fun c hc => keyOf_present columns e hc, ← List.map_cons,
    KeyColumns.names, List.map_ofFn]
  simp only [Function.comp_def, hlist]
  exact ofEntries_columns columns _

/-- A set of key tuples is deleted by one statement, an empty one by none. -/
theorem compileDeleteMany_keys (tableName : String) (keys : List (Cells kind))
    (returning : Option String) :
    compileDeleteMany dialect tableName columns.names (keys.map (keyOf columns)) returning =
      .ok (if keys = [] then [] else [deleteText columns keys dialect tableName returning]) := by
  by_cases hne : keys = []
  · subst hne
    rw [if_pos rfl, KeyColumns.names, List.ofFn_succ]
    rfl
  have hpattern : ∀ key ∈ keys.map (keyOf columns), patternKey columns.names key =
      ",".intercalate (columns.names.mergeSort sortsBefore) := by
    intro key hkey
    obtain ⟨e, -, rfl⟩ := List.mem_map.mp hkey
    rw [patternKey, present_columns columns fun c hc => keyOf_present columns e hc]
  have hgroups := Keyed.groups_of_one (fun h => hne (List.map_eq_nil_iff.mp h)) hpattern
  have hclause := whereClause_columns columns dialect hne
  have hsql : join " AND " (List.ofFn fun i => (columnIn columns keys dialect i).sql) ≠ "" := by
    rw [List.ofFn_succ]
    exact join_ne_empty (columnIn_sql_ne columns dialect 0)
  have hdelete : compileDelete dialect tableName
      (groupConditions columns.names (keys.map (keyOf columns))) returning =
      .ok (deleteText columns keys dialect tableName returning) := by
    rw [compileDelete, groupConditions_columns columns hne, hclause, if_neg hsql]
    rfl
  obtain ⟨a, b, names, hnames⟩ : ∃ a b names, columns.names = a :: b :: names := by
    rw [KeyColumns.names, List.ofFn_succ, List.ofFn_succ]
    exact ⟨_, _, _, rfl⟩
  obtain ⟨key, rest, hkeys⟩ := List.exists_cons_of_ne_nil
    fun h : keys.map (keyOf columns) = [] => hne (List.map_eq_nil_iff.mp h)
  rw [hnames, hkeys] at hgroups hdelete
  rw [if_neg hne, hnames, hkeys, compileDeleteMany]
  · rw [hgroups, List.mapM_cons, hdelete]
    rfl
  · intro h
    cases h
  · intro col h
    cases h
  · intro h
    cases h

end Compiled
/-! ## What the lists accept together -/

section Accepted
variable {n : Nat} (columns : KeyColumns n) {kind : Fin (n + 2) → Kind}
  {keys : List (Cells kind)} {dialect : Dialect}

theorem readable_column {i : Fin (n + 2)} :
    SingleParam.Readable dialect (columnTest columns keys i).list ↔
      ∀ e ∈ keys, (kind i).breaks (e i) = false := by
  rw [SingleParam.readable_iff]
  constructor
  · intro h e he
    exact h (fun _ => e i) (List.mem_map_of_mem he) (0 : Fin 1)
  · intro h e he j
    obtain ⟨e', he', rfl⟩ := List.mem_map.mp he
    exact h e' he'

theorem found_column {i : Fin (n + 2)} {cell : Option (kind i).Val} :
    (columnTest columns keys i).Found dialect (fun _ => cell) ↔
      ∃ v, cell = some v ∧ ∃ e ∈ keys, (kind i).ReadAs dialect (e i) v := by
  constructor
  · rintro ⟨e, he, hread⟩
    obtain ⟨e', he', rfl⟩ := List.mem_map.mp he
    obtain ⟨v, hv, hread⟩ := hread (0 : Fin 1)
    exact ⟨v, hv, e', he', hread⟩
  · rintro ⟨v, hv, e, he, hread⟩
    exact ⟨fun _ => e i, List.mem_map_of_mem he, fun _ => ⟨v, hv, hread⟩⟩

/-- A list that can be read accepts the values that it is read as. -/
theorem columnTruth_readable {i : Fin (n + 2)}
    (h : dialect ≠ .postgres → ∀ e ∈ keys, (kind i).breaks (e i) = false)
    (cell : Option (kind i).Val) : ∃ truth, columnTruth columns keys dialect i cell = some truth ∧
      (truth = some true ↔ ∃ v, cell = some v ∧ ∃ e ∈ keys, (kind i).ReadAs dialect (e i) v) := by
  have hjson : dialect ≠ .postgres →
      ∃ truth, (columnTest columns keys i).truth dialect (fun _ => cell) = some truth ∧
        (truth = some true ↔ ∃ v, cell = some v ∧ ∃ e ∈ keys, (kind i).ReadAs dialect (e i) v) := by
    intro hd
    refine ⟨_, (SingleParam.truth_json hd _ _).trans
      (if_pos ((readable_column columns).mpr (h hd))), ?_⟩
    exact (SingleParam.lookup_true dialect (columnTest columns keys i) _).trans
      (found_column columns)
  cases dialect with
  | postgres =>
    refine ⟨_, rfl, ?_⟩
    exact (SingleParam.expandedTruth_true (columnTest columns keys i) _).trans
      (SingleParam.found_postgres.symm.trans (found_column columns))
  | mysql => exact hjson (by decide)
  | sqlite => exact hjson (by decide)

theorem columnTruth_unreadable {i : Fin (n + 2)} (hd : dialect ≠ .postgres)
    (h : ¬ ∀ e ∈ keys, (kind i).breaks (e i) = false) (cell : Option (kind i).Val) :
    columnTruth columns keys dialect i cell = none := by
  have hnone : (columnTest columns keys i).truth dialect (fun _ => cell) = none :=
    (SingleParam.truth_json hd _ _).trans (if_neg fun hr => h ((readable_column columns).mp hr))
  cases dialect with
  | postgres => exact absurd rfl hd
  | mysql => exact hnone
  | sqlite => exact hnone

/-- A row is deleted whose cells are accepted column by column. -/
theorem deletes_readable
    (h : dialect ≠ .postgres → ∀ e ∈ keys, ∀ i, (kind i).breaks (e i) = false)
    (row : Cells kind) : ∃ deleted, deletes columns keys dialect row = some deleted ∧
      (deleted = true ↔ ∀ i, ∃ v, row i = some v ∧
        ∃ e ∈ keys, (kind i).ReadAs dialect (e i) v) := by
  choose truth htruth haccepts using fun i =>
    columnTruth_readable columns (fun hd e he => h hd e he i) (row i)
  refine ⟨decide (andAll (List.ofFn truth) = some true), ?_, ?_⟩
  · simp [deletes, htruth]
  · rw [decide_eq_true_iff, SqlCond.andAll_true]
    constructor
    · intro hall i
      exact (haccepts i).mp (hall _ (List.mem_ofFn.mpr ⟨i, rfl⟩))
    · intro hall t ht
      obtain ⟨i, rfl⟩ := List.mem_ofFn.mp ht
      exact (haccepts i).mpr (hall i)

theorem kept_eq_some_iff {p : Cells kind → Bool} :
    (∀ rows, kept columns keys dialect rows = some (rows.filter fun row => !p row)) ↔
      ∀ row, deletes columns keys dialect row = some (p row) := by
  constructor
  · intro h row
    have hone := h [row]
    rw [kept] at hone
    cases hdel : deletes columns keys dialect row with
    | none =>
      rw [hdel] at hone
      cases hone
    | some deleted =>
      rw [hdel] at hone
      cases hp : p row <;> cases deleted <;> simp [kept, hp] at hone ⊢
  · intro h rows
    induction rows with
    | nil => rfl
    | cons row rows ih =>
      rw [kept, h row, Option.bind_some, ih, Option.map_some]
      cases hp : p row <;> simp [hp]

end Accepted

theorem isKey_iff {n : Nat} {kind : Fin n → Kind} {keys : List (Cells kind)} {row : Cells kind} :
    IsKey keys row ↔ ∃ v : (i : Fin n) → (kind i).Val, (∀ i, row i = some (v i)) ∧
      ∃ e ∈ keys, ∀ i, e i = some (v i) := by
  constructor
  · rintro ⟨e, he, hall⟩
    choose v hv using fun i => Option.isSome_iff_exists.mp (hall i).1
    exact ⟨v, hv, e, he, fun i => (hall i).2.symm.trans (hv i)⟩
  · rintro ⟨v, hv, e, he, hall⟩
    exact ⟨e, he, fun i => ⟨by rw [hv i]; rfl, (hv i).trans (hall i).symm⟩⟩

/-- On PostgreSQL the set is the product of its columns: whatever keys the columns' values are taken
from, together they are a key. -/
theorem rectangular_postgres {n : Nat} {kind : Fin n → Kind} {keys : List (Cells kind)} :
    Rectangular .postgres keys ↔ ∀ pick : Fin n → Cells kind,
      (∀ i, pick i ∈ keys ∧ (pick i i).isSome) → ∃ e ∈ keys, ∀ i, e i = pick i i := by
  constructor
  · intro h pick hpick
    choose v hv using fun i => Option.isSome_iff_exists.mp (hpick i).2
    obtain ⟨e, he, hall⟩ := (h.tuples v).mp fun i =>
      ⟨pick i, (hpick i).1, SingleParam.readAs_postgres.mpr (hv i)⟩
    exact ⟨e, he, fun i => (hall i).trans (hv i).symm⟩
  · intro h
    refine ⟨fun hd => absurd rfl hd, ?_⟩
    intro v
    simp only [SingleParam.readAs_postgres]
    constructor
    · intro hcolumns
      choose pick hmem hv using hcolumns
      obtain ⟨e, he, hall⟩ := h pick fun i => ⟨hmem i, by rw [hv i]; rfl⟩
      exact ⟨e, he, fun i => (hall i).trans (hv i)⟩
    · rintro ⟨e, he, hall⟩ i
      exact ⟨e, he, hall i⟩

/-! ## Two keys and the row between them -/

def twoColumns : KeyColumns 0 where
  name := ![("a" : String), "b"]
  distinct := by decide
  plain := by decide +kernel

def pair (a b : SingleParam.I64) : Cells (n := 2) fun _ => .integer := ![some a, some b]

end LiteDb.DeleteMany
