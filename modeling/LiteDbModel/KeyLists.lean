import LiteDbModel.Values
import Mathlib.Data.List.Nodup
import Mathlib.Data.List.Dedup

/-!
# Key tuples looked up column by column

MySQL has no `RETURNING`: after a batch `UPDATE` the primary keys are selected by one
`IN` list for each key column. A row may then take its columns from different tuples.
-/

namespace LiteDb.KeyLists
set_option autoImplicit false

structure SelectPkeysOptions where
  tableName : String
  pkeyColumns : List String
  keyColumns : List String
  keyValues : List (List JsVal)

/-- `IN (?)` over an array, which the driver expands to its elements. -/
structure InList where
  column : String
  values : List JsVal

structure SelectPkeys where
  tableName : String
  pkeyColumns : List String
  conditions : List InList

def buildSelectPkeys (o : SelectPkeysOptions) : SelectPkeys where
  tableName := o.tableName
  pkeyColumns := o.pkeyColumns
  conditions := o.keyColumns.zipIdx.map fun p =>
    ⟨p.1, o.keyValues.map fun kv => kv.getD p.2 .undefined⟩

def SelectPkeys.sql (s : SelectPkeys) : String :=
  "SELECT DISTINCT " ++ ", ".intercalate s.pkeyColumns ++ " FROM " ++ s.tableName ++ " WHERE " ++
    " AND ".intercalate (s.conditions.map fun c => c.column ++ " IN (?)")

def SelectPkeys.params (s : SelectPkeys) : List JsVal := s.conditions.map fun c => .arr c.values

section
variable {γ : Type} [DecidableEq γ] (same : String → JsVal → γ → Bool)

/-- A table whose rows differ in their primary keys. -/
structure KeyedTable (γ : Type) (pkey : List String) where
  rows : List (String → γ)
  keyed : (rows.map fun r => pkey.map r).Nodup

/-- The rows that `WHERE` accepts, where `same` is how the database compares a column to a parameter. -/
def SelectPkeys.accepts (s : SelectPkeys) (row : String → γ) : Bool :=
  s.conditions.all fun c => c.values.any fun v => same c.column v (row c.column)

def SelectPkeys.result (s : SelectPkeys) (rows : List (String → γ)) : List (List γ) :=
  ((rows.filter (s.accepts same)).map fun r => s.pkeyColumns.map r).dedup

/-- The join condition of the batch `UPDATE`: some tuple is the row's own. -/
def joined (keyColumns : List String) (keyValues : List (List JsVal)) (row : String → γ) : Bool :=
  keyValues.any fun kv => keyColumns.zipIdx.all fun p => same p.1 (kv.getD p.2 .undefined) (row p.1)

/-- The primary keys of the updated rows that the table holds. -/
def updatedPkeys (o : SelectPkeysOptions) (rows : List (String → γ)) : List (List γ) :=
  (rows.filter (joined same o.keyColumns o.keyValues)).map fun r => o.pkeyColumns.map r

variable (o : SelectPkeysOptions)

omit [DecidableEq γ] in
theorem accepts_iff (row : String → γ) : (buildSelectPkeys o).accepts same row = true ↔
    ∀ p ∈ o.keyColumns.zipIdx, ∃ kv ∈ o.keyValues, same p.1 (kv.getD p.2 .undefined) (row p.1) = true := by
  simp [SelectPkeys.accepts, buildSelectPkeys]

omit [DecidableEq γ] in
theorem joined_iff (row : String → γ) : joined same o.keyColumns o.keyValues row = true ↔
    ∃ kv ∈ o.keyValues, ∀ p ∈ o.keyColumns.zipIdx, same p.1 (kv.getD p.2 .undefined) (row p.1) = true := by
  simp [joined]

omit [DecidableEq γ] in
/-- A row of a tuple is in the list of each column. -/
theorem accepts_of_joined {row : String → γ} (h : joined same o.keyColumns o.keyValues row = true) :
    (buildSelectPkeys o).accepts same row = true := by
  obtain ⟨kv, hkv, hall⟩ := (joined_iff same o row).mp h
  exact (accepts_iff same o row).mpr fun p hp => ⟨kv, hkv, hall p hp⟩

omit [DecidableEq γ] in
/-- With one key column the list and the tuples say the same. -/
theorem joined_of_single {row : String → γ} {column : String} (hone : o.keyColumns = [column])
    (h : (buildSelectPkeys o).accepts same row = true) : joined same o.keyColumns o.keyValues row = true := by
  rw [accepts_iff, hone] at h
  obtain ⟨kv, hkv, hsame⟩ := h (column, 0) (by simp)
  rw [joined_iff, hone]
  refine ⟨kv, hkv, ?_⟩
  intro p hp
  rw [List.mem_singleton.mp hp]
  exact hsame

theorem mem_result {rows : List (String → γ)} {k : List γ} : k ∈ (buildSelectPkeys o).result same rows ↔
    ∃ r ∈ rows, (buildSelectPkeys o).accepts same r = true ∧ o.pkeyColumns.map r = k := by
  simp [SelectPkeys.result, buildSelectPkeys, and_assoc]

omit [DecidableEq γ] in
theorem mem_updatedPkeys {rows : List (String → γ)} {k : List γ} : k ∈ updatedPkeys same o rows ↔
    ∃ r ∈ rows, joined same o.keyColumns o.keyValues r = true ∧ o.pkeyColumns.map r = k := by
  simp [updatedPkeys, and_assoc]

/-- The selected primary keys are those of the updated rows exactly when no row of the table has
every key column listed without its tuple being one of the list. -/
theorem selectPkeys_exact_iff (t : KeyedTable γ o.pkeyColumns) :
    (∀ k, k ∈ (buildSelectPkeys o).result same t.rows ↔ k ∈ updatedPkeys same o t.rows) ↔
      ∀ row ∈ t.rows, (∀ p ∈ o.keyColumns.zipIdx, ∃ kv ∈ o.keyValues,
          same p.1 (kv.getD p.2 .undefined) (row p.1) = true) →
        joined same o.keyColumns o.keyValues row = true := by
  constructor
  · intro h row hrow heach
    have hacc := (accepts_iff same o row).mpr heach
    have hk := (h (o.pkeyColumns.map row)).mp ((mem_result same o).mpr ⟨row, hrow, hacc, rfl⟩)
    obtain ⟨r, hr, hjoined, hkey⟩ := (mem_updatedPkeys same o).mp hk
    rwa [List.inj_on_of_nodup_map t.keyed hr hrow hkey] at hjoined
  · intro h k
    rw [mem_result, mem_updatedPkeys]
    constructor
    · rintro ⟨r, hr, hacc, hk⟩
      exact ⟨r, hr, h r hr ((accepts_iff same o r).mp hacc), hk⟩
    · rintro ⟨r, hr, hjoined, hk⟩
      exact ⟨r, hr, accepts_of_joined same o hjoined, hk⟩

theorem selectPkeys_single {column : String} (hone : o.keyColumns = [column])
    (t : KeyedTable γ o.pkeyColumns) (k : List γ) :
    k ∈ (buildSelectPkeys o).result same t.rows ↔ k ∈ updatedPkeys same o t.rows := by
  rw [mem_result, mem_updatedPkeys]
  constructor
  · rintro ⟨r, hr, hacc, hk⟩
    exact ⟨r, hr, joined_of_single same o hone hacc, hk⟩
  · rintro ⟨r, hr, hjoined, hk⟩
    exact ⟨r, hr, accepts_of_joined same o hjoined, hk⟩

end

/-! ## Two updated rows and the row between them -/

def sameInt (_ : String) : JsVal → Int → Bool
  | .num n, i => n = JsNum.ofInt i
  | _, _ => false

def pair (a b : Int) (column : String) : Int := if column = "a" then a else b

def num (i : Int) : JsVal := .num (JsNum.ofInt i)

def diagonal : SelectPkeysOptions where
  tableName := "t"
  pkeyColumns := ["a", "b"]
  keyColumns := ["a", "b"]
  keyValues := [[num 1, num 1], [num 2, num 2]]

/-- The rows (1, 1) and (2, 2) are updated, and the untouched (1, 2) is selected with them. -/
theorem untouched_selected :
    [1, 2] ∈ (buildSelectPkeys diagonal).result sameInt [pair 1 1, pair 1 2, pair 2 2] ∧
      [1, 2] ∉ updatedPkeys sameInt diagonal [pair 1 1, pair 1 2, pair 2 2] := by
  decide +kernel

end LiteDb.KeyLists
