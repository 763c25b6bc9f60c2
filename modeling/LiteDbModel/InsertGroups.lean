import LiteDbModel.Records
import LiteDbModel.Lib.Text

/-!
# Grouping the records of a batch insert

A batch insert issues one `INSERT` per column pattern. `_insert` and
`compileInsertMany` group the serialized records on their own, each keyed by the
sorted live column names joined with a comma.
-/

namespace LiteDb
set_option autoImplicit false
open Keyed

/-! ## Column patterns -/

/-- The names of the columns a record sets, sorted. -/
def recordColumns (record : Record) : List String :=
  ((record.cells.filter (·.2.live)).map (·.1)).mergeSort sortsBefore

def patternKey (record : Record) : String := ",".intercalate (recordColumns record)

/-- One batch: its columns, and the serialized records with the raw ones in step. -/
structure InsertGroup where
  columns : List String
  records : List Record
  rawRecords : List Record
  paired : records.length = rawRecords.length

/-- The group with one more record. -/
def InsertGroup.push (g : InsertGroup) (record raw : Record) : InsertGroup where
  columns := g.columns
  records := g.records ++ [record]
  rawRecords := g.rawRecords ++ [raw]
  paired := by rw [List.length_append, List.length_append, g.paired]; rfl

/-- Add a record to the group of its pattern, which is opened at the end when there is none. -/
def place (key : String) (record raw : Record) :
    List (String × InsertGroup) → List (String × InsertGroup)
  | [] => [(key, ⟨recordColumns record, [record], [raw], rfl⟩)]
  | (k, g) :: gs =>
    if k = key then (k, g.push record raw) :: gs
    else (k, g) :: place key record raw gs

/-- A single record makes its group at once; several are placed by their pattern. -/
def groupRecords (items : List (Record × Record)) : List (String × InsertGroup) :=
  match items with
  | [(record, raw)] => [("_", ⟨recordColumns record, [record], [raw], rfl⟩)]
  | items => items.foldl (fun grouped it => place (patternKey it.1) it.1 it.2 grouped) []

/-- The records with their raw forms, as `_insert` holds them after serialization. -/
def serialized (serializers : SerializeMap) (values : List Record) : List (Record × Record) :=
  values.map fun raw => (serializeRecord serializers raw, raw)

/-- `_insert`: nothing to insert for no record, else the groups of the serialized ones. -/
def groupedByPattern (serializers : SerializeMap) (values : List Record) : List InsertGroup :=
  match values with
  | [] => []
  | values => (groupRecords (serialized serializers values)).map (·.2)

/-- What `compileInsertMany` is given: the raw records, when present, pair up with the others. -/
structure InsertManyBuildOptions where
  records : List Record
  rawRecords : Option (List Record)
  paired : ∀ raws, rawRecords = some raws → raws.length = records.length

def InsertManyBuildOptions.items (options : InsertManyBuildOptions) : List (Record × Record) :=
  match options.rawRecords with
  | some raws => options.records.zip raws
  | none => options.records.map fun record => (record, record)

def compileInsertManyGroups (options : InsertManyBuildOptions) : List InsertGroup :=
  (groupRecords options.items).map (·.2)

/-- The options a model's own insert passes. -/
def compileOptions (serializers : SerializeMap) (values : List Record) :
    InsertManyBuildOptions where
  records := values.map (serializeRecord serializers)
  rawRecords := some values
  paired := by
    intro raws h
    cases h
    rw [List.length_map]

/-- The options of a caller with no raw records. -/
def bareOptions (serializers : SerializeMap) (values : List Record) : InsertManyBuildOptions where
  records := values.map (serializeRecord serializers)
  rawRecords := none
  paired := by
    intro raws h
    cases h

/-! ## What the grouping is for -/

def InsertGroup.items (g : InsertGroup) : List (Record × Record) := g.records.zip g.rawRecords

/-- The columns are exactly those the record sets, each once. -/
def SetsColumns (columns : List String) (record : Record) : Prop :=
  columns.Nodup ∧ ∀ c, c ∈ columns ↔ ∃ v, (c, v) ∈ record.cells ∧ v.live = true

structure Partition (items : List (Record × Record)) (gs : List InsertGroup) : Prop where
  once : (gs.flatMap InsertGroup.items).Perm items
  inOrder : ∀ g ∈ gs, g.items.Sublist items
  columns : ∀ g ∈ gs, ∀ it ∈ g.items, SetsColumns g.columns it.1 ∧ SetsColumns g.columns it.2

/-- `_insert` partitions the records, and `compileInsertMany` makes the same groups of them. -/
structure GroupsRecords (serializers : SerializeMap) (values : List Record) : Prop where
  partition : Partition (serialized serializers values) (groupedByPattern serializers values)
  compiled : compileInsertManyGroups (compileOptions serializers values) =
    groupedByPattern serializers values
  compiledBare : (compileInsertManyGroups (bareOptions serializers values)).map
      (fun g => (g.columns, g.records)) =
    (groupedByPattern serializers values).map fun g => (g.columns, g.records)

/-- The names a pattern key shows when it is cut at its commas. -/
def cutNames (record : Record) : List (List Char) :=
  match recordColumns record with
  | [] => [[]]
  | columns => columns.flatMap fun c => c.toList.splitOn ','

/-- The records set different columns, but a comma inside a name hides it from the key. -/
def PatternsCollide (r s : Record) : Prop :=
  ¬ (∀ c, c ∈ recordColumns r ↔ c ∈ recordColumns s) ∧ cutNames r = cutNames s

/-- Serialization leaves which columns the record sets as it is. -/
def KeepsColumns (serializers : SerializeMap) (record : Record) : Prop :=
  ∀ c, c ∈ recordColumns (serializeRecord serializers record) ↔ c ∈ recordColumns record

/-! ## Columns and pattern keys -/

theorem mem_recordColumns {record : Record} {c : String} :
    c ∈ recordColumns record ↔ ∃ v, (c, v) ∈ record.cells ∧ v.live = true := by
  simp [recordColumns]

theorem recordColumns_nodup (record : Record) : (recordColumns record).Nodup := by
  apply (List.mergeSort_perm _ _).nodup_iff.mpr
  exact record.nodup.sublist (List.filter_sublist.map _)

theorem setsColumns_iff {r s : Record} :
    SetsColumns (recordColumns s) r ↔ ∀ c, c ∈ recordColumns s ↔ c ∈ recordColumns r := by
  constructor
  · intro h c
    rw [h.2 c, mem_recordColumns]
  · intro h
    refine ⟨recordColumns_nodup s, ?_⟩
    intro c
    rw [h c, mem_recordColumns]

/-- Two keys are the same text exactly when the names are cut alike at their commas. -/
theorem patternKey_eq_iff (r s : Record) : patternKey r = patternKey s ↔ cutNames r = cutNames s := by
  let names (columns : List String) : List (List Char) :=
    if columns = [] then [[]] else columns.map String.toList
  have hne : ∀ columns, names columns ≠ [] := by
    intro columns
    rcases columns with _ | ⟨c, columns⟩ <;> simp [names]
  have htext : ∀ r : Record,
      (patternKey r).toList = [','].intercalate (names (recordColumns r)) := by
    intro r
    rw [patternKey, String.toList_intercalate]
    rcases recordColumns r with _ | ⟨c, columns⟩
    · simp [names, List.intercalate]
    · rfl
  have hcut : ∀ r : Record,
      cutNames r = (names (recordColumns r)).flatMap fun t => t.splitOn ',' := by
    intro r
    rw [cutNames]
    rcases recordColumns r with _ | ⟨c, columns⟩
    · simp [names]
    · simp [names, List.flatMap_map]
  rw [← String.toList_inj, htext, htext, hcut, hcut, Text.intercalate_eq_iff _ (hne _) (hne _)]

/-! ## The groups as batches of one key -/

/-- The batch that the records of one key form. -/
def batchOf (g : String × List (Record × Record)) : String × InsertGroup :=
  (g.1, ⟨((g.2.head?).map fun it => recordColumns it.1).getD [], g.2.map (·.1), g.2.map (·.2),
    by rw [List.length_map, List.length_map]⟩)

theorem place_batchOf (record raw : Record) {gs : List (String × List (Record × Record))}
    (hne : ∀ g ∈ gs, g.2 ≠ []) (key : String) :
    place key record raw (gs.map batchOf) = (push key (record, raw) gs).map batchOf := by
  induction gs with
  | nil => rfl
  | cons g gs ih =>
    obtain ⟨k, its⟩ := g
    obtain ⟨hits, hgs⟩ := List.forall_mem_cons.mp hne
    rw [List.map_cons, push]
    by_cases hk : k = key
    · obtain ⟨it, its, rfl⟩ := List.exists_cons_of_ne_nil hits
      simp [batchOf, place, InsertGroup.push, hk]
    · rw [if_neg hk, List.map_cons, ← ih hgs]
      simp [batchOf, place, hk]

theorem foldl_place (items : List (Record × Record)) :
    items.foldl (fun grouped it => place (patternKey it.1) it.1 it.2 grouped) [] =
      (groups (fun it => patternKey it.1) items).map batchOf := by
  induction items using List.reverseRecOn with
  | nil => rfl
  | append_singleton items it ih =>
    have hne : ∀ g ∈ groups (fun it : Record × Record => patternKey it.1) items, g.2 ≠ [] := by
      intro g hg
      obtain ⟨_, a, ha, _⟩ := mem_groups hg
      exact List.ne_nil_of_mem ha
    rw [List.foldl_append, ih, List.foldl_cons, List.foldl_nil, place_batchOf _ _ hne, groups,
      groups, List.foldl_append]
    rfl

/-- The single-record path makes the group that placing the record would. -/
theorem groupRecords_eq (items : List (Record × Record)) :
    (groupRecords items).map (·.2) =
      (groups (fun it => patternKey it.1) items).map fun g => (batchOf g).2 := by
  have hmap : ∀ gs : List (String × List (Record × Record)),
      (gs.map batchOf).map (·.2) = gs.map fun g => (batchOf g).2 := by
    intro gs
    rw [List.map_map]
    rfl
  rcases items with _ | ⟨it, _ | ⟨it', items⟩⟩
  · rfl
  · rfl
  · rw [groupRecords, foldl_place, hmap]
    intro record raw h
    cases h

theorem groupedByPattern_eq (serializers : SerializeMap) (values : List Record) :
    groupedByPattern serializers values =
      (groups (fun it => patternKey it.1) (serialized serializers values)).map
        fun g => (batchOf g).2 := by
  rcases values with _ | ⟨v, values⟩
  · rfl
  · exact groupRecords_eq _

theorem batchOf_items (g : String × List (Record × Record)) : (batchOf g).2.items = g.2 := by
  simp only [InsertGroup.items, batchOf, List.zip_map']
  exact List.map_id g.2

theorem batchOf_columns {g : String × List (Record × Record)} (h : g.2 ≠ []) :
    ∃ it ∈ g.2, (batchOf g).2.columns = recordColumns it.1 := by
  obtain ⟨it, its, hits⟩ := List.exists_cons_of_ne_nil h
  refine ⟨it, ?_, ?_⟩
  · rw [hits]
    exact List.mem_cons_self
  · simp [batchOf, hits]

variable {serializers : SerializeMap} {values : List Record}

theorem mem_serialized {raw : Record} (h : raw ∈ values) :
    (serializeRecord serializers raw, raw) ∈ serialized serializers values :=
  List.mem_map_of_mem h

/-- Every record lies in the batch of its pattern. -/
theorem exists_batch {raw : Record} (h : raw ∈ values) :
    ∃ g ∈ groups (fun it => patternKey it.1) (serialized serializers values),
      (serializeRecord serializers raw, raw) ∈ g.2 ∧
        g.1 = patternKey (serializeRecord serializers raw) := by
  have hmem : (serializeRecord serializers raw, raw) ∈ serialized serializers values :=
    mem_serialized h
  obtain ⟨g, hg, hkey⟩ := exists_mem_groups (fun it : Record × Record => patternKey it.1) hmem
  refine ⟨g, hg, ?_, hkey⟩
  rw [(mem_groups hg).1]
  exact List.mem_filter.mpr ⟨hmem, by simp [hkey]⟩

theorem SetsColumns.same {columns : List String} {r s : Record} (hr : SetsColumns columns r)
    (hs : SetsColumns columns s) (c : String) : c ∈ recordColumns r ↔ c ∈ recordColumns s := by
  rw [mem_recordColumns, mem_recordColumns, ← hr.2, ← hs.2]

theorem partition_iff {items : List (Record × Record)} :
    Partition items ((groups (fun it => patternKey it.1) items).map fun g => (batchOf g).2) ↔
    ∀ g ∈ groups (fun it => patternKey it.1) items, ∀ it ∈ g.2,
      SetsColumns (batchOf g).2.columns it.1 ∧ SetsColumns (batchOf g).2.columns it.2 := by
  constructor
  · intro h g hg it hit
    apply h.columns _ (List.mem_map_of_mem hg) it
    rw [batchOf_items]
    exact hit
  · intro h
    refine ⟨?_, ?_, ?_⟩
    · simp only [List.flatMap_map, batchOf_items]
      exact groups_perm _ _
    · intro g hbatch
      obtain ⟨g, hg, rfl⟩ := List.mem_map.mp hbatch
      rw [batchOf_items, (mem_groups hg).1]
      exact List.filter_sublist
    · intro g hbatch
      obtain ⟨g, hg, rfl⟩ := List.mem_map.mp hbatch
      rw [batchOf_items]
      exact h g hg

/-- The two paths group alike: the compiled one is given what `_insert` holds. -/
theorem compileInsertManyGroups_eq (serializers : SerializeMap) (values : List Record) :
    compileInsertManyGroups (compileOptions serializers values) =
      groupedByPattern serializers values := by
  have hitems : (compileOptions serializers values).items = serialized serializers values := by
    simp only [InsertManyBuildOptions.items, compileOptions, serialized]
    conv_lhs => rw [← List.map_id values, List.map_map, List.zip_map']
    rfl
  rw [compileInsertManyGroups, hitems, groupRecords_eq, groupedByPattern_eq]

/-- The columns and the serialized records of a batch do not depend on the raw ones. -/
theorem batches_of_records (items : List (Record × Record)) :
    ((groups (fun it => patternKey it.1) items).map fun g => (batchOf g).2).map
        (fun g => (g.columns, g.records)) =
      (groups patternKey (items.map (·.1))).map fun g =>
        (((g.2.head?).map recordColumns).getD [], g.2) := by
  rw [groups_mapped, List.map_map, List.map_map]
  apply List.map_congr_left
  intro g _
  simp [batchOf, Function.comp_def]

theorem compileInsertManyGroups_bare (serializers : SerializeMap) (values : List Record) :
    (compileInsertManyGroups (bareOptions serializers values)).map
        (fun g => (g.columns, g.records)) =
      (groupedByPattern serializers values).map fun g => (g.columns, g.records) := by
  rw [compileInsertManyGroups, groupRecords_eq, groupedByPattern_eq, batches_of_records,
    batches_of_records]
  simp [InsertManyBuildOptions.items, bareOptions, serialized, Function.comp_def]

theorem groupsRecords_partition (serializers : SerializeMap) (values : List Record) :
    GroupsRecords serializers values ↔
      ∀ g ∈ groups (fun it => patternKey it.1) (serialized serializers values), ∀ it ∈ g.2,
        SetsColumns (batchOf g).2.columns it.1 ∧ SetsColumns (batchOf g).2.columns it.2 := by
  rw [← partition_iff, ← groupedByPattern_eq]
  constructor
  · intro h
    exact h.partition
  · intro h
    exact ⟨h, compileInsertManyGroups_eq serializers values,
      compileInsertManyGroups_bare serializers values⟩

theorem GroupsRecords.keepsColumns (h : GroupsRecords serializers values) {r : Record}
    (hr : r ∈ values) : KeepsColumns serializers r := by
  obtain ⟨g, hg, hmem, _⟩ := exists_batch hr
  obtain ⟨hrecord, hraw⟩ := (groupsRecords_partition _ _).mp h g hg _ hmem
  exact hrecord.same hraw

theorem GroupsRecords.not_collide (h : GroupsRecords serializers values) {r s : Record}
    (hr : r ∈ values) (hs : s ∈ values) :
    ¬ PatternsCollide (serializeRecord serializers r) (serializeRecord serializers s) := by
  rintro ⟨hdiff, hcut⟩
  have hcolumns := (groupsRecords_partition _ _).mp h
  obtain ⟨g, hg, hmem, hkey⟩ := exists_batch hr
  -- the colliding record has the same key, so it lies in the same batch
  have hmem' : (serializeRecord serializers s, s) ∈ g.2 := by
    rw [(mem_groups hg).1]
    refine List.mem_filter.mpr ⟨mem_serialized hs, decide_eq_true ?_⟩
    rw [hkey, eq_comm, patternKey_eq_iff]
    exact hcut
  exact hdiff ((hcolumns g hg _ hmem).1.same (hcolumns g hg _ hmem').1)

theorem groupsRecords_of (hkeeps : ∀ r ∈ values, KeepsColumns serializers r)
    (hcollide : ∀ r ∈ values, ∀ s ∈ values,
      ¬ PatternsCollide (serializeRecord serializers r) (serializeRecord serializers s)) :
    GroupsRecords serializers values := by
  rw [groupsRecords_partition]
  intro g hg it hit
  obtain ⟨hfilter, first, hfirst, _⟩ := mem_groups hg
  obtain ⟨it₀, hit₀, hcolumns⟩ := batchOf_columns (List.ne_nil_of_mem hfirst)
  have hmember : ∀ it ∈ g.2, ∃ raw ∈ values, it = (serializeRecord serializers raw, raw) ∧
      patternKey it.1 = g.1 := by
    intro it hit
    rw [hfilter] at hit
    obtain ⟨hmem, hkey⟩ := List.mem_filter.mp hit
    obtain ⟨raw, hraw, rfl⟩ := List.mem_map.mp hmem
    exact ⟨raw, hraw, rfl, of_decide_eq_true hkey⟩
  obtain ⟨r, hr, rfl, hkey⟩ := hmember it hit
  obtain ⟨s, hs, rfl, hkey'⟩ := hmember it₀ hit₀
  have hsame : ∀ c, c ∈ recordColumns (serializeRecord serializers s) ↔
      c ∈ recordColumns (serializeRecord serializers r) := by
    by_contra hdiff
    refine hcollide s hs r hr ⟨hdiff, ?_⟩
    rw [← patternKey_eq_iff, hkey, hkey']
  rw [hcolumns, setsColumns_iff, setsColumns_iff]
  refine ⟨hsame, ?_⟩
  intro c
  rw [hsame c, hkeeps r hr c]

/-- Both paths partition the records alike, each group with exactly the columns its records
set, if and only if serialization keeps every record's columns and no two patterns collide. -/
theorem groupsRecords_iff (serializers : SerializeMap) (values : List Record) :
    GroupsRecords serializers values ↔
      (∀ r ∈ values, KeepsColumns serializers r) ∧
      ∀ r ∈ values, ∀ s ∈ values,
        ¬ PatternsCollide (serializeRecord serializers r) (serializeRecord serializers s) := by
  constructor
  · intro h
    exact ⟨fun r hr => h.keepsColumns hr, fun r hr s hs => h.not_collide hr hs⟩
  · rintro ⟨hkeeps, hcollide⟩
    exact groupsRecords_of hkeeps hcollide

/-- The serializer of a datetime column. -/
def serializeDatetime (dialect : Dialect) : Serializer
  | .val .undefined => .val .null
  | .val (.date iso) => if dialect = .postgres then .val (.str iso) else .val (.date iso)
  | cell => cell

/-- Two records whose columns are joined to one key share a batch, and a datetime column that
a record leaves undefined is in its batch all the same. -/
theorem insert_groups_wrong_columns : ¬ (∀ values, GroupsRecords (fun _ => none) values) ∧
    ¬ ∀ values, GroupsRecords
      (fun c => if c = "published_at" then some (serializeDatetime .sqlite) else none) values := by
  refine ⟨?_, ?_⟩
  · intro h
    let one (name : String) : String × Cell := (name, .val (.str "x"))
    let joined : Record := ⟨[one "a,b"], by simp⟩
    let apart : Record := ⟨[one "a", one "b"], by simp [one]⟩
    have hjoined : recordColumns joined = ["a,b"] := List.mergeSort_singleton "a,b"
    have hapart : recordColumns apart = ["a", "b"] := by
      have hsorted : (["a", "b"] : List String).Pairwise (sortsBefore · ·) := by decide
      exact List.mergeSort_of_pairwise hsorted
    apply (h [joined, apart]).not_collide (r := joined) (s := apart) (by simp) (by simp)
    change PatternsCollide joined apart
    refine ⟨?_, ?_⟩
    · intro hsame
      have hmem : "a,b" ∈ recordColumns apart := (hsame "a,b").mp (hjoined ▸ List.mem_singleton_self _)
      rw [hapart] at hmem
      simp at hmem
    · rw [cutNames, cutNames, hjoined, hapart]
      rfl
  · intro h
    let raw : Record := ⟨[("published_at", .val .undefined)], by simp⟩
    have hkeeps := (h [raw]).keepsColumns (List.mem_singleton_self raw) "published_at"
    rw [mem_recordColumns, mem_recordColumns] at hkeeps
    obtain ⟨v, hv, hlive⟩ := hkeeps.mp ⟨.val .null, List.mem_singleton_self _, rfl⟩
    obtain ⟨-, rfl⟩ := Prod.mk.inj (List.mem_singleton.mp hv)
    cases hlive

end LiteDb
