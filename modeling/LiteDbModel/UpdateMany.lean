import LiteDbModel.Carriers
import LiteDbModel.Lib.Update

/-!
# `updateMany`

One batch `UPDATE` for a list of rows: the builders join the table with the rows
(an `UNNEST`, a `VALUES` list, a `JSON_TABLE`) or pick each value by the key (a
`CASE`, a sub-select). A column that some row skips gets a flag beside it.
-/

namespace LiteDb
set_option autoImplicit false

/-! ## The options of the builders -/

/-- The rows of a batch: each has every key column, and its other columns are updated. -/
structure UpdateManyOptions where
  keyColumns : List String
  updateColumns : List String
  records : List Record
  keyed : ∀ r ∈ records, ∀ k ∈ keyColumns, k ∈ r.names
  covered : ∀ r ∈ records, ∀ c ∈ r.names, c ∈ keyColumns ∨ c ∈ updateColumns
  apart : ∀ c ∈ updateColumns, c ∉ keyColumns
  used : ∀ c ∈ updateColumns, ∃ r ∈ records, c ∈ r.names
  nonempty : updateColumns ≠ []

/-- The union of the value columns of the records, sorted. -/
def valueColumnNames (keyColumns : List String) (records : List Record) : List String :=
  ((records.flatMap Record.names).filter (· ∉ keyColumns)).dedup.mergeSort sortsBefore

/-- The first key column that some record lacks. -/
def missingKey (keyColumns : List String) (records : List Record) : Option String :=
  (records.flatMap fun r => keyColumns.filter (· ∉ r.names)).head?

theorem mem_valueColumnNames {keyColumns : List String} {records : List Record} {c : String} :
    c ∈ valueColumnNames keyColumns records ↔ (∃ r ∈ records, c ∈ r.names) ∧ c ∉ keyColumns := by
  simp [valueColumnNames]

theorem keyed_of_missingKey {keyColumns : List String} {records : List Record}
    (h : missingKey keyColumns records = none) :
    ∀ r ∈ records, ∀ k ∈ keyColumns, k ∈ r.names := by
  intro r hr k hk
  by_contra hnot
  rw [missingKey, List.head?_eq_none_iff, List.flatMap_eq_nil_iff] at h
  have hnil := h r hr
  rw [List.filter_eq_nil_iff] at hnil
  exact hnil k hk (decide_eq_true hnot)

/-- `DBModel.updateMany` up to the statement: no options when there is nothing to update. -/
def updateManyOptions (keyColumns : List String) (rows : List (List Pair)) :
    Except String (Option UpdateManyOptions) :=
  let records := rows.map pairsToRecord
  if hne : valueColumnNames keyColumns records = [] then .ok none
  else
    match hkey : missingKey keyColumns records with
    | some k => .error ("updateMany: row missing required key column '" ++ k ++ "'")
    | none => .ok (some {
        keyColumns := keyColumns
        updateColumns := valueColumnNames keyColumns records
        records := records
        keyed := keyed_of_missingKey hkey
        covered := by
          intro r hr c hc
          by_cases hk : c ∈ keyColumns
          · exact Or.inl hk
          · exact Or.inr (mem_valueColumnNames.mpr ⟨⟨r, hr, hc⟩, hk⟩)
        apart := fun c hc => (mem_valueColumnNames.mp hc).2
        used := fun c hc => (mem_valueColumnNames.mp hc).1
        nonempty := hne })

/-- Without options there is nothing to set in any row. -/
theorem keys_only_of_no_options {keyColumns : List String} {rows : List (List Pair)}
    (h : updateManyOptions keyColumns rows = .ok none) :
    ∀ row ∈ rows, ∀ c ∈ (pairsToRecord row).names, c ∈ keyColumns := by
  intro row hrow c hc
  by_contra hkey
  have hmem : c ∈ valueColumnNames keyColumns (rows.map pairsToRecord) :=
    mem_valueColumnNames.mpr ⟨⟨pairsToRecord row, List.mem_map_of_mem hrow, hc⟩, hkey⟩
  rw [updateManyOptions] at h
  split at h
  · next hnil =>
    rw [hnil] at hmem
    exact List.not_mem_nil hmem
  · split at h <;> cases h

namespace UpdateManyOptions
variable (opts : UpdateManyOptions)

def allColumns : List String := opts.keyColumns ++ opts.updateColumns

/-- The columns with a flag: some record skips them. -/
def skipColumnsNeeded : List String :=
  opts.updateColumns.filter fun c => opts.records.any fun r => c ∉ r.names

def skipFlag (c : String) : String := "_skip_" ++ c

/-- A flag has the name of a column of the batch. -/
def flagsClash : Bool := opts.skipColumnsNeeded.any fun c => skipFlag c ∈ opts.allColumns

/-- `rowsHaveDbToken`. -/
def hasDbToken : Bool := opts.records.any fun r => opts.allColumns.any fun c => (r.cell c).isToken

end UpdateManyOptions

/-! ## The cells of the batch -/

inductive UpdateBuilder
  | postgres
  | mysql
  | sqlite
  | mysqlJson
  | sqliteJson
deriving DecidableEq

def builderFor : Dialect → UpdateBuilder
  | .postgres => .postgres
  | .mysql => .mysql
  | .sqlite => .sqlite

def UpdateBuilder.dialect : UpdateBuilder → Dialect
  | .postgres => .postgres
  | .mysql | .mysqlJson => .mysql
  | .sqlite | .sqliteJson => .sqlite

/-- The compiled form: one JSON payload on MySQL and SQLite, when no value is a token. -/
def compileUpdateMany (dialect : Dialect) (opts : UpdateManyOptions) : UpdateBuilder :=
  if opts.hasDbToken then builderFor dialect
  else
    match dialect with
    | .postgres => .postgres
    | .mysql => .mysqlJson
    | .sqlite => .sqliteJson

/-- A member of a record in the payload: a flag overwrites a column of its name. -/
def payloadCell (opts : UpdateManyOptions) (r : Record) (c : String) : Cell :=
  match opts.skipColumnsNeeded.find? fun d => UpdateManyOptions.skipFlag d = c with
  | some d => .val (.num (JsNum.ofInt (if d ∈ r.names then 0 else 1)))
  | none =>
    match r.cell c with
    | .val .undefined => .val .null
    | cell => cell

/-- PostgreSQL's `buildUpdateMany`: a skipped value is sent as null. -/
def unnestCell (cls : ModelClass) (opts : UpdateManyOptions) (r : Record) (c : String) :
    SentCell :=
  let pgType := pgTypeOf cls.sqlCast c opts.records
  let cell := if c ∈ r.names then r.cell c else .val .null
  if isArrayType pgType then ⟨.unnestArray pgType, false, cell⟩
  else if isJsonType pgType then ⟨.unnestJson pgType, false, cell⟩
  else ⟨.unnest (if pgType = "timestamp" then "timestamptz" else pgType), false, cell⟩

/-- The cell a builder sends as a key of a record. -/
def keyCell (builder : UpdateBuilder) (cls : ModelClass) (opts : UpdateManyOptions) (r : Record)
    (k : String) : SentCell :=
  match builder with
  | .postgres => unnestCell cls opts r k
  | .mysql => ⟨.valuesRow (opts.records.map fun s => s.cell k), false, r.cell k⟩
  | .sqlite => ⟨.keyParam, false, r.cell k⟩
  | .mysqlJson => ⟨.jsonTable (mysqlJsonTableColumn k opts.records), false, payloadCell opts r k⟩
  | .sqliteJson => ⟨.jsonExtract, false, payloadCell opts r k⟩

/-- The cell a builder sends as the new value of a column. -/
def valueCell (builder : UpdateBuilder) (cls : ModelClass) (opts : UpdateManyOptions) (r : Record)
    (c : String) : SentCell :=
  match builder with
  | .postgres => unnestCell cls opts r c
  | .mysql => ⟨.valuesRow (opts.records.map fun s => s.cell c), false, r.cell c⟩
  | .sqlite => ⟨.bound none, false, r.cell c⟩
  | .mysqlJson => ⟨.jsonTable (mysqlJsonTableColumn c opts.records), false, payloadCell opts r c⟩
  | .sqliteJson => ⟨.jsonExtract, false, payloadCell opts r c⟩

/-- The keys that the `IN` of the SQLite statements lists. -/
def listCell (builder : UpdateBuilder) (opts : UpdateManyOptions) (r : Record) (k : String) :
    SentCell :=
  if builder = .sqliteJson then ⟨.jsonIn, false, payloadCell opts r k⟩
  else ⟨.inList, false, r.cell k⟩

/-! ## The database -/

/-- The database and its driver, behind the statements. -/
structure UpdateEngine (S : Type) where
  /-- The driver and the database take the parameter, whatever the table holds. -/
  binds : String → SentCell → Bool
  /-- A stored key equals the one that is carried. -/
  matchesKey : String → SentCell → S → Bool
  /-- What a column of a row stores for a value so carried; nothing when it is refused. -/
  stores : String → SentCell → StoredRow S → Option S
  null : S
  /-- The joined row that is used when several match. -/
  choose : Record → List Record → Record
  chosen : ∀ r rs, choose r rs ∈ r :: rs

/-- Set the columns of a row, unless a value is refused. -/
def assign {S : Type} (columns : List String) (value : String → Option S) (row : StoredRow S) :
    Option (StoredRow S) :=
  if columns.all fun c => (value c).isSome then
    some fun c => if c ∈ columns then (value c).getD (row c) else row c
  else none

section Running
variable {S : Type} (eng : UpdateEngine S) (cls : ModelClass) (builder : UpdateBuilder)
  (opts : UpdateManyOptions)

/-! ## The batch statement -/

/-- The SQLite statements read each value by its key, the others join the rows. -/
def UpdateBuilder.readsByKey : UpdateBuilder → Bool
  | .sqlite | .sqliteJson => true
  | _ => false

/-- The keys of a record match a row, as the batch sends them. -/
def picks (r : Record) (row : StoredRow S) : Bool :=
  opts.keyColumns.all fun k => eng.matchesKey k (keyCell builder cls opts r k) (row k)

/-- The keys of a record match a row in the `IN` of the SQLite statements. -/
def lists (r : Record) (row : StoredRow S) : Bool :=
  opts.keyColumns.all fun k => eng.matchesKey k (listCell builder opts r k) (row k)

/-- The record whose values a row gets: the first by `CASE` and `LIMIT 1`, one of them by a join. -/
def joined (row : StoredRow S) : Option Record :=
  match opts.records.filter fun r => picks eng cls builder opts r row with
  | [] => none
  | r :: rs => some (if builder.readsByKey then r else eng.choose r rs)

/-- The statement updates a row. -/
def reaches (row : StoredRow S) : Bool :=
  if builder.readsByKey then opts.records.any fun r => lists eng builder opts r row
  else (joined eng cls builder opts row).isSome

/-- The value of a column: the stored one where its flag is up, and null where no key matches. -/
def batchValue (row : StoredRow S) (c : String) : Option S :=
  match joined eng cls builder opts row with
  | none => some eng.null
  | some r => if c ∈ r.names then eng.stores c (valueCell builder cls opts r c) row else some (row c)

def batchRow (row : StoredRow S) : Option (StoredRow S) :=
  if reaches eng cls builder opts row then
    assign opts.updateColumns (batchValue eng cls builder opts row) row
  else some row

/-- The keys and values of a record are accepted. A `CASE` has no placeholder for a skipped one. -/
def batchBindsRecord (r : Record) : Bool :=
  (opts.keyColumns.all fun k => eng.binds k (keyCell builder cls opts r k) &&
    (!builder.readsByKey || eng.binds k (listCell builder opts r k))) &&
  opts.updateColumns.all fun c => (decide (builder = .sqlite) && decide (c ∉ r.names)) ||
    eng.binds c (valueCell builder cls opts r c)

/-- The statement is well formed, with no two joined columns of one name, and accepted. -/
def batchBinds : Bool :=
  decide (opts.keyColumns ≠ []) && (builder.readsByKey || !opts.flagsClash) &&
    opts.records.all (batchBindsRecord eng cls builder opts)

/-- The one batch `UPDATE`. -/
def batchUpdate (table : List (StoredRow S)) : Option (List (StoredRow S)) :=
  if batchBinds eng cls builder opts then Update.each (batchRow eng cls builder opts) table else none

/-! ## The rows one after another -/

/-- The columns that `_update` sets for a record. -/
def setColumns (r : Record) : List String := r.names.filter (· ∉ opts.keyColumns)

/-- A value of `_update`: serialized, with the column's cast on PostgreSQL. -/
def setCell (r : Record) (c : String) : SentCell :=
  ⟨.bound (if builder.dialect = .postgres then boundCast cls.sqlCast c else none), false,
    (serializeRecord cls.serializers r).cell c⟩

/-- A key of `_update`. -/
def conditionCell (r : Record) (k : String) : SentCell := ⟨.condition, false, r.cell k⟩

/-- The keys of a record select a row. -/
def selects (r : Record) (row : StoredRow S) : Bool :=
  opts.keyColumns.all fun k => eng.matchesKey k (conditionCell r k) (row k)

def updateRow (r : Record) (row : StoredRow S) : Option (StoredRow S) :=
  if selects eng opts r row then
    assign (setColumns opts r) (fun c => eng.stores c (setCell cls builder r c) row) row
  else some row

/-- `_update` returns before it sends anything when it has nothing to set. -/
def updateBinds (r : Record) : Bool :=
  setColumns opts r = [] || (decide (opts.keyColumns ≠ []) &&
    (opts.keyColumns.all fun k => eng.binds k (conditionCell r k)) &&
    (setColumns opts r).all fun c => eng.binds c (setCell cls builder r c))

/-- One `_update`. -/
def update (r : Record) (table : List (StoredRow S)) : Option (List (StoredRow S)) :=
  if updateBinds eng cls builder opts r then
    Update.each (updateRow eng cls builder opts r) table
  else none

/-- The rows updated one after another. -/
def updateEach (table : List (StoredRow S)) : Option (List (StoredRow S)) :=
  opts.records.foldlM (fun table r => update eng cls builder opts r table) table

/-! ## What a caller is promised -/

/-- No stored row has the keys of two of the records. -/
def DistinctKeys : Prop :=
  opts.records.Pairwise fun r s =>
    ∀ row : StoredRow S, ¬ (selects eng opts r row = true ∧ selects eng opts s row = true)

/-- The batch leaves every table as the rows would, one after another. -/
def SameEffect : Prop :=
  ∀ table, batchUpdate eng cls builder opts table = updateEach eng cls builder opts table

/-- The value that the record of a row's own key gives to a column of it. -/
def ownValue (row : StoredRow S) (c : String) : Option S :=
  match opts.records.find? fun r => selects eng opts r row with
  | none => some (row c)
  | some r => if c ∈ r.names then eng.stores c (setCell cls builder r c) row else some (row c)

/-- The value that a row keeps or gets from the batch. -/
def reachedValue (row : StoredRow S) (c : String) : Option S :=
  if reaches eng cls builder opts row then batchValue eng cls builder opts row c else some (row c)

/-- The cells of the batch are accepted when the rows' own are, and each row gets the values of
the record of its key, or is refused by both. -/
structure UpdatesAlike : Prop where
  binds : batchBinds eng cls builder opts = opts.records.all (updateBinds eng cls builder opts)
  values : batchBinds eng cls builder opts = true → ∀ row : StoredRow S,
    (∀ c ∈ opts.updateColumns,
      reachedValue eng cls builder opts row c = ownValue eng cls builder opts row c) ∨
    ((∃ c ∈ opts.updateColumns, reachedValue eng cls builder opts row c = none) ∧
      ∃ c ∈ opts.updateColumns, ownValue eng cls builder opts row c = none)

end Running

/-! ## Setting the columns of a row -/

section Assign
variable {S : Type} {columns : List String} {value other : String → Option S}
  {row row' : StoredRow S}

theorem assign_frame (h : assign columns value row = some row') {c : String} (hc : c ∉ columns) :
    row' c = row c := by
  rw [assign] at h
  split at h
  · cases h
    exact if_neg hc
  · cases h

theorem assign_eq_none : assign columns value row = none ↔ ∃ c ∈ columns, value c = none := by
  rw [assign]
  split
  · next hall =>
    refine iff_of_false (Option.some_ne_none _) ?_
    rintro ⟨c, hc, hnone⟩
    have hsome := List.all_eq_true.mp hall c hc
    rw [hnone] at hsome
    cases hsome
  · next hall =>
    refine iff_of_true rfl ?_
    simpa using hall

theorem assign_of_some (h : ∀ c ∈ columns, (value c).isSome) :
    assign columns value row =
      some fun c => if c ∈ columns then (value c).getD (row c) else row c := by
  rw [assign, if_pos (List.all_eq_true.mpr h)]

/-- Columns set to what they hold stay as they are. -/
theorem assign_stored (h : ∀ c ∈ columns, value c = some (row c)) :
    assign columns value row = some row := by
  rw [assign_of_some fun c hc => by rw [h c hc]; rfl, Option.some.injEq]
  funext c
  by_cases hc : c ∈ columns
  · rw [if_pos hc, h c hc]
    rfl
  · exact if_neg hc

theorem assign_congr (h : ∀ c ∈ columns, value c = other c) :
    assign columns value row = assign columns other row := by
  by_cases hnone : ∃ c ∈ columns, value c = none
  · have hother : ∃ c ∈ columns, other c = none := by
      obtain ⟨c, hc, heq⟩ := hnone
      exact ⟨c, hc, (h c hc).symm.trans heq⟩
    rw [assign_eq_none.mpr hnone, assign_eq_none.mpr hother]
  · have hvalue : ∀ c ∈ columns, (value c).isSome := by
      intro c hc
      rw [Option.isSome_iff_ne_none]
      exact fun heq => hnone ⟨c, hc, heq⟩
    rw [assign_of_some hvalue, assign_of_some fun c hc => h c hc ▸ hvalue c hc]
    congr 1
    funext c
    by_cases hc : c ∈ columns
    · rw [if_pos hc, if_pos hc, h c hc]
    · rw [if_neg hc, if_neg hc]

theorem assign_eq_iff : assign columns value row = assign columns other row ↔
    (∀ c ∈ columns, value c = other c) ∨
      ((∃ c ∈ columns, value c = none) ∧ ∃ c ∈ columns, other c = none) := by
  constructor
  · intro heq
    by_cases hnone : ∃ c ∈ columns, value c = none
    · have hother := heq.symm.trans (assign_eq_none.mpr hnone)
      exact Or.inr ⟨hnone, assign_eq_none.mp hother⟩
    · have hvalue : ∀ c ∈ columns, (value c).isSome := by
        intro c hc
        rw [Option.isSome_iff_ne_none]
        exact fun h => hnone ⟨c, hc, h⟩
      have hother : ∀ c ∈ columns, (other c).isSome := by
        intro c hc
        rw [Option.isSome_iff_ne_none]
        intro h
        exact hnone (assign_eq_none.mp (heq.trans (assign_eq_none.mpr ⟨c, hc, h⟩)))
      rw [assign_of_some hvalue, assign_of_some hother, Option.some.injEq] at heq
      refine Or.inl fun c hc => ?_
      have hcell := congrFun heq c
      rw [if_pos hc, if_pos hc] at hcell
      obtain ⟨v, hv⟩ := Option.isSome_iff_exists.mp (hvalue c hc)
      obtain ⟨w, hw⟩ := Option.isSome_iff_exists.mp (hother c hc)
      rw [hv, hw] at hcell ⊢
      exact congrArg some hcell
  · rintro (h | ⟨hv, hw⟩)
    · exact assign_congr h
    · rw [assign_eq_none.mpr hv, assign_eq_none.mpr hw]

end Assign

/-! ## The rows one after another -/

section Effect
variable {S : Type} {eng : UpdateEngine S} {cls : ModelClass} {builder : UpdateBuilder}
  {opts : UpdateManyOptions}

theorem mem_setColumns {r : Record} (hr : r ∈ opts.records) {c : String} :
    c ∈ setColumns opts r ↔ c ∈ opts.updateColumns ∧ c ∈ r.names := by
  simp only [setColumns, List.mem_filter, decide_eq_true_eq]
  constructor
  · rintro ⟨hc, hkey⟩
    exact ⟨(opts.covered r hr c hc).resolve_left hkey, hc⟩
  · rintro ⟨hc, hname⟩
    exact ⟨hname, opts.apart c hc⟩

/-- A record sets the columns it has and keeps the others. -/
theorem assign_setColumns {r : Record} (hr : r ∈ opts.records) (value : String → Option S)
    (row : StoredRow S) : assign (setColumns opts r) value row =
      assign opts.updateColumns (fun c => if c ∈ r.names then value c else some (row c)) row := by
  by_cases hnone : ∃ c ∈ setColumns opts r, value c = none
  · rw [assign_eq_none.mpr hnone, eq_comm, assign_eq_none]
    obtain ⟨c, hc, heq⟩ := hnone
    obtain ⟨hupdate, hname⟩ := (mem_setColumns hr).mp hc
    exact ⟨c, hupdate, by rw [if_pos hname, heq]⟩
  · have hvalue : ∀ c ∈ setColumns opts r, (value c).isSome := by
      intro c hc
      rw [Option.isSome_iff_ne_none]
      exact fun heq => hnone ⟨c, hc, heq⟩
    have hall : ∀ c ∈ opts.updateColumns,
        ((fun c => if c ∈ r.names then value c else some (row c)) c).isSome := by
      intro c hc
      by_cases hname : c ∈ r.names
      · simpa only [if_pos hname] using hvalue c ((mem_setColumns hr).mpr ⟨hc, hname⟩)
      · simp only [if_neg hname, Option.isSome_some]
    rw [assign_of_some hvalue, assign_of_some hall]
    congr 1
    funext c
    by_cases hc : c ∈ opts.updateColumns
    · by_cases hname : c ∈ r.names
      · rw [if_pos ((mem_setColumns hr).mpr ⟨hc, hname⟩), if_pos hc, if_pos hname]
      · have hnot : c ∉ setColumns opts r := fun h => hname ((mem_setColumns hr).mp h).2
        rw [if_neg hnot, if_pos hc, if_neg hname]
        rfl
    · have hnot : c ∉ setColumns opts r := fun h => hc ((mem_setColumns hr).mp h).1
      rw [if_neg hnot, if_neg hc]

/-- An update leaves the keys of a row as they are. -/
theorem updateRow_selective :
    Update.Selective (selects eng opts) (updateRow eng cls builder opts) where
  idle := by
    intro r row h
    rw [updateRow, h]
    rfl
  stable := by
    intro r s row row' h
    have hkeys : ∀ k ∈ opts.keyColumns, row' k = row k := by
      intro k hk
      rw [updateRow] at h
      split at h
      · apply assign_frame h
        rw [setColumns, List.mem_filter]
        intro hset
        simp [hk] at hset
      · cases h
        rfl
    rw [Bool.eq_iff_iff, selects, selects, List.all_eq_true, List.all_eq_true]
    refine forall₂_congr fun k hk => ?_
    rw [hkeys k hk]

theorem updateEach_eq (table : List (StoredRow S)) : updateEach eng cls builder opts table =
    if opts.records.all (updateBinds eng cls builder opts) then
      Update.sequence (updateRow eng cls builder opts) opts.records table
    else none := by
  rw [updateEach]
  induction opts.records generalizing table with
  | nil => rfl
  | cons r rs ih =>
    rw [List.foldlM_cons, List.all_cons, update]
    rcases hbinds : updateBinds eng cls builder opts r with _ | _
    · rfl
    · rw [Update.sequence, List.foldlM_cons, if_pos rfl, Bool.true_and]
      rcases Update.each (updateRow eng cls builder opts r) table with _ | table'
      · simp
      · exact ih table'

/-- What the updates make of a row is what the record of its key says. -/
theorem rowSequence_eq_assign (hkeys : DistinctKeys eng opts) (row : StoredRow S) :
    Update.rowSequence (updateRow eng cls builder opts) opts.records row =
      assign opts.updateColumns (ownValue eng cls builder opts row) row := by
  have honce : opts.records.Pairwise fun r s =>
      ¬ (selects eng opts r row = true ∧ selects eng opts s row = true) :=
    hkeys.imp fun h => h row
  rw [Update.rowSequence_eq_find updateRow_selective honce]
  rcases hfind : opts.records.find? (fun r => selects eng opts r row) with _ | r
  · refine (assign_stored fun c _ => ?_).symm
    rw [ownValue, hfind]
  · have hr : r ∈ opts.records := List.mem_of_find?_eq_some hfind
    have hsel : selects eng opts r row = true := by simpa using List.find?_some hfind
    simp only [updateRow, hsel, if_true]
    rw [assign_setColumns hr]
    apply assign_congr
    intro c _
    rw [ownValue, hfind]

theorem batchRow_eq_assign (row : StoredRow S) : batchRow eng cls builder opts row =
    assign opts.updateColumns (reachedValue eng cls builder opts row) row := by
  rw [batchRow]
  split
  · next hreach =>
    apply assign_congr
    intro c _
    rw [reachedValue, if_pos hreach]
  · next hreach =>
    refine (assign_stored fun c _ => ?_).symm
    rw [reachedValue, if_neg hreach]

/-- The batch has the effect of the rows exactly when both are accepted together and make the
same of each row. -/
theorem sameEffect_iff_assign (hkeys : DistinctKeys eng opts) :
    SameEffect eng cls builder opts ↔
      batchBinds eng cls builder opts = opts.records.all (updateBinds eng cls builder opts) ∧
      (batchBinds eng cls builder opts = true → ∀ row : StoredRow S,
        assign opts.updateColumns (reachedValue eng cls builder opts row) row =
          assign opts.updateColumns (ownValue eng cls builder opts row) row) := by
  have hrows : (∀ table, Update.each (batchRow eng cls builder opts) table =
      Update.sequence (updateRow eng cls builder opts) opts.records table) ↔
      ∀ row, assign opts.updateColumns (reachedValue eng cls builder opts row) row =
        assign opts.updateColumns (ownValue eng cls builder opts row) row := by
    simp only [Update.sequence_eq_each, Update.each_eq_iff, batchRow_eq_assign,
      rowSequence_eq_assign hkeys]
  constructor
  · intro hsame
    have hbinds : batchBinds eng cls builder opts =
        opts.records.all (updateBinds eng cls builder opts) := by
      have hempty := hsame []
      rw [updateEach_eq, Update.sequence_eq_each, batchUpdate] at hempty
      rcases hb : batchBinds eng cls builder opts with _ | _
      · rcases hu : opts.records.all (updateBinds eng cls builder opts) with _ | _
        · rfl
        · simp [hb, hu, Update.each] at hempty
      · rcases hu : opts.records.all (updateBinds eng cls builder opts) with _ | _
        · simp [hb, hu, Update.each] at hempty
        · rfl
    refine ⟨hbinds, fun hb => hrows.mp fun table => ?_⟩
    have htable := hsame table
    rwa [batchUpdate, updateEach_eq, ← hbinds, hb, if_pos rfl, if_pos rfl] at htable
  · rintro ⟨hbinds, hvalues⟩ table
    rw [batchUpdate, updateEach_eq, ← hbinds]
    rcases hb : batchBinds eng cls builder opts with _ | _
    · rfl
    · exact hrows.mpr (hvalues hb) table

end Effect

/-! ## When the cells mean the same -/

section Faithful
variable {S : Type} (eng : UpdateEngine S) (cls : ModelClass) (builder : UpdateBuilder)
  (opts : UpdateManyOptions)

/-- The keys of the batch compare as the rows' own do, and its values store the same. -/
structure UpdatesFaithfully : Prop where
  binds : batchBinds eng cls builder opts = opts.records.all (updateBinds eng cls builder opts)
  keys : ∀ r ∈ opts.records, ∀ row : StoredRow S,
    picks eng cls builder opts r row = selects eng opts r row
  listed : builder.readsByKey = true → ∀ r ∈ opts.records, ∀ row : StoredRow S,
    lists eng builder opts r row = selects eng opts r row
  values : ∀ r ∈ opts.records, ∀ c ∈ opts.updateColumns, c ∈ r.names → ∀ row : StoredRow S,
    eng.stores c (valueCell builder cls opts r c) row = eng.stores c (setCell cls builder r c) row

variable {eng cls builder opts}

/-- A row is joined to the record whose own keys select it. -/
theorem joined_eq_find (h : UpdatesFaithfully eng cls builder opts) (hkeys : DistinctKeys eng opts)
    (row : StoredRow S) :
    joined eng cls builder opts row = opts.records.find? fun r => selects eng opts r row := by
  have hfilter : opts.records.filter (fun r => picks eng cls builder opts r row) =
      opts.records.filter fun r => selects eng opts r row :=
    List.filter_congr fun r hr => h.keys r hr row
  have honce : (opts.records.filter fun r => selects eng opts r row).Pairwise fun r s =>
      ¬ (selects eng opts r row = true ∧ selects eng opts s row = true) :=
    (hkeys.imp fun h => h row).filter _
  have hmem : ∀ r ∈ opts.records.filter (fun r => selects eng opts r row),
      selects eng opts r row = true := fun r hr => (List.mem_filter.mp hr).2
  rw [joined, hfilter, ← List.head?_filter]
  rcases hrows : opts.records.filter (fun r => selects eng opts r row) with _ | ⟨r, rs⟩
  · rfl
  · rw [hrows] at honce hmem
    have hnil : rs = [] := by
      rcases rs with _ | ⟨s, rs⟩
      · rfl
      · have hnot := (List.pairwise_cons.mp honce).1 s List.mem_cons_self
        exact absurd ⟨hmem r List.mem_cons_self, hmem s (by simp)⟩ hnot
    subst hnil
    have hchosen : eng.choose r [] = r := by simpa using eng.chosen r []
    simp only [hchosen, ite_self, List.head?_cons]

theorem reaches_eq_find (h : UpdatesFaithfully eng cls builder opts)
    (hkeys : DistinctKeys eng opts) (row : StoredRow S) : reaches eng cls builder opts row =
      (opts.records.find? fun r => selects eng opts r row).isSome := by
  rw [reaches, joined_eq_find h hkeys]
  split
  · next hreads =>
    rw [Bool.eq_iff_iff, List.any_eq_true, List.find?_isSome]
    apply exists_congr
    intro r
    exact and_congr_right fun hr => by rw [h.listed hreads r hr row]
  · rfl

theorem reachedValue_eq_ownValue (h : UpdatesFaithfully eng cls builder opts)
    (hkeys : DistinctKeys eng opts) (row : StoredRow S) {c : String} (hc : c ∈ opts.updateColumns) :
    reachedValue eng cls builder opts row c = ownValue eng cls builder opts row c := by
  rw [reachedValue, reaches_eq_find h hkeys, batchValue, joined_eq_find h hkeys, ownValue]
  rcases hfind : opts.records.find? (fun r => selects eng opts r row) with _ | r
  · rfl
  · have hr : r ∈ opts.records := List.mem_of_find?_eq_some hfind
    by_cases hname : c ∈ r.names
    · simp only [Option.isSome_some, if_true, if_pos hname]
      exact h.values r hr c hc hname row
    · simp only [Option.isSome_some, if_true, if_neg hname]

/-- A batch that carries its cells faithfully has the effect of the rows. -/
theorem sameEffect_of_faithful (h : UpdatesFaithfully eng cls builder opts)
    (hkeys : DistinctKeys eng opts) : SameEffect eng cls builder opts := by
  apply (sameEffect_iff_assign hkeys).mpr
  refine ⟨h.binds, fun _ row => ?_⟩
  exact assign_congr fun c hc => reachedValue_eq_ownValue h hkeys row hc

end Faithful

/-! ## A raw value on PostgreSQL -/

/-- The JSON text of a `DBImmediateValue`, which the driver writes into a text array. -/
def immediateJson (sql : String) : String := "\x7b\"value\":\"" ++ sql ++ "\",\"operator\":\"=\"\x7d"

/-- A table of text columns, on a database whose clock reads one time. -/
def clockEngine : UpdateEngine String where
  binds _ _ := true
  matchesKey _ sent s :=
    match sent.cell with
    | .val (.str t) => decide (t = s)
    | _ => false
  stores _ sent _ :=
    match sent.carrier, sent.cell with
    | _, .val (.str t) => some t
    | .unnest _, .immediate sql => some (immediateJson sql)
    | _, .immediate _ => some "12:00"
    | _, _ => some ""
  null := ""
  choose r _ := r
  chosen _ _ := List.mem_cons_self

/-- `updateMany([[[id, 'u1'], [seen, dbNow()]]], { keyColumns: [id] })`. -/
def seenNow : UpdateManyOptions where
  keyColumns := ["id"]
  updateColumns := ["seen"]
  records := [⟨[("id", .val (.str "u1")), ("seen", .immediate "NOW()")], by decide⟩]
  keyed := by decide
  covered := by decide
  apart := by decide
  used := by decide
  nonempty := by decide

def untypedClass : ModelClass where
  pk := ⟨["id"], none⟩
  serializers _ := none
  sqlCast _ := none

theorem seenNow_distinctKeys : DistinctKeys clockEngine seenNow := List.pairwise_singleton _ _

theorem seenNow_sqlite_faithful :
    UpdatesFaithfully clockEngine untypedClass .sqlite seenNow where
  binds := by decide
  keys := List.forall_mem_singleton.mpr fun _ => rfl
  listed _ := List.forall_mem_singleton.mpr fun _ => rfl
  values := List.forall_mem_singleton.mpr (List.forall_mem_singleton.mpr fun _ _ => rfl)

end LiteDb
