import LiteDbModel.ColumnFamilies
import LiteDbModel.Lib.Keyed

/-!
# Instances of a class chain

`@model` copies the column map its class inherits, adds the class's own columns
and wraps `typeCastFromDB`: the base's casts run first, then every cast of the
class's own map. A row is copied onto the instance by the names of its cells, the
casts are applied by the names of the properties.
-/

namespace LiteDb.ClassChain
set_option autoImplicit false
open Keyed

/-- An object: its own properties in their order. -/
abbrev Obj := List (String × JsVal)

/-- `this[key]` -/
def Obj.get (o : Obj) (key : String) : JsVal := (o.lookup key).getD .undefined

theorem Obj.get_put (o : Obj) (key : String) (v : JsVal) (k : String) :
    Obj.get (put key v o) k = if k = key then v else o.get k := by
  rw [Obj.get, lookup_put]
  split
  · rfl
  · rfl

/-- `Object.assign(target, source)` -/
def Obj.assign (target source : Obj) : Obj := source.foldl (fun o p => put p.1 p.2 o) target

/-- A row has one cell of a name. -/
structure Row where
  cells : Obj
  nodup : (cells.map (·.1)).Nodup

def Row.cell (row : Row) (columnName : String) : JsVal := Obj.get row.cells columnName

theorem Obj.get_assign (o : Obj) (row : Row) (key : String) :
    Obj.get (o.assign row.cells) key = (row.cells.lookup key).getD (o.get key) := by
  have hfold : ∀ (l : Obj) (o : Obj), (l.map (·.1)).Nodup →
      Obj.get (o.assign l) key = (l.lookup key).getD (o.get key) := by
    intro l
    induction l with
    | nil => exact fun _ _ => rfl
    | cons p l ih =>
      intro o hn
      obtain ⟨hp, hl⟩ := List.nodup_cons.mp hn
      change Obj.get (Obj.assign (put p.1 p.2 o) l) key = _
      rw [ih (put p.1 p.2 o) hl, Obj.get_put, lookup_cons_eq]
      by_cases hk : key = p.1
      · have hnone : l.lookup key = none := by
          refine List.lookup_eq_none_iff.mpr fun q hq => ?_
          have hne : key ≠ q.1 := fun heq =>
            hp (List.mem_map.mpr ⟨q, hq, heq ▸ hk⟩)
          simpa using hne
        rw [hnone, if_pos hk, if_pos hk]
        rfl
      · rw [if_neg hk, if_neg hk]
  exact hfold row.cells o row.nodup

abbrev TypeCastFn := JsVal → Except String JsVal

structure ColumnMeta where
  columnName : String
  typeCast : Option TypeCastFn

/-- The cast of a column; a column without one leaves the value. -/
def ColumnMeta.cast (column : ColumnMeta) (v : JsVal) : Except String JsVal :=
  match column.typeCast with
  | some cast => cast v
  | none => .ok v

/-- Columns by property. -/
abbrev ColumnMap := List (String × ColumnMeta)

/-- `DBModel`, or a `@model` class with the columns its decorators register and the fields its
constructor sets. -/
inductive Class
  | dbModel
  | model (base : Class) (declared : ColumnMap) (fields : Obj)

/-- The map of a class: `new Map(inherited)`, then `registerColumn` for each own column. -/
def Class.columns : Class → ColumnMap
  | .dbModel => []
  | .model base declared _ => declared.foldl (fun m p => put p.1 p.2 m) base.columns

/-- `new this()`: a base's fields are set first. -/
def Class.create : Class → Obj
  | .dbModel => []
  | .model base _ fields => base.create.assign fields

def typeCastColumns (columns : ColumnMap) : List (String × TypeCastFn) :=
  columns.filterMap fun p => p.2.typeCast.map fun cast => (p.1, cast)

/-- The decorator-defined casts of one class. -/
def applyCasts : List (String × TypeCastFn) → Obj → Except String Obj
  | [], o => .ok o
  | (propKey, typeCast) :: rest, o =>
    match typeCast (o.get propKey) with
    | .ok v => applyCasts rest (put propKey v o)
    | .error e => .error e

/-- The method of `DBModel` does nothing; each `@model` calls the one before it. -/
def Class.typeCastFromDB : Class → Obj → Except String Obj
  | .dbModel, o => .ok o
  | .model base declared fields, o =>
    match base.typeCastFromDB o with
    | .ok o => applyCasts (typeCastColumns (Class.model base declared fields).columns) o
    | .error e => .error e

/-- `_createInstance` -/
def Class.createInstance (c : Class) (row : Row) : Except String Obj :=
  c.typeCastFromDB (c.create.assign row.cells)

/-- The instance has at each declared property the column's cast of the column's cell. -/
def Class.Reads (c : Class) (row : Row) (inst : Obj) : Prop :=
  ∀ p ∈ c.columns, p.2.cast (row.cell p.2.columnName) = .ok (inst.get p.1)

/-- Every instance built from the row reads it, and one is built unless a column's cast refuses the
column's cell. -/
def Class.Builds (c : Class) (row : Row) : Prop :=
  (∀ inst, c.createInstance row = .ok inst → c.Reads row inst) ∧
    ((∀ p ∈ c.columns, ∃ v, p.2.cast (row.cell p.2.columnName) = .ok v) →
      ∃ inst, c.createInstance row = .ok inst)

/-! ## The casts of a property -/

/-- The cast a map has for a property. -/
def castOf (columns : ColumnMap) (propKey : String) (v : JsVal) : Except String JsVal :=
  match columns.lookup propKey with
  | some column => column.cast v
  | none => .ok v

/-- The casts that the classes of the chain have for a property, the base's first. -/
def Class.castsOf : Class → String → JsVal → Except String JsVal
  | .dbModel, _, v => .ok v
  | .model base declared fields, propKey, v =>
    match base.castsOf propKey v with
    | .ok v => castOf (Class.model base declared fields).columns propKey v
    | .error e => .error e

/-- The casts before the class's own. -/
def Class.earlier : Class → String → JsVal → Except String JsVal
  | .dbModel, _, v => .ok v
  | .model base _ _, propKey, v => base.castsOf propKey v

/-- What a property holds before the casts: the cell of its name, or the field the constructor set. -/
def Class.given (c : Class) (row : Row) (propKey : String) : JsVal :=
  (row.cells.lookup propKey).getD (c.create.get propKey)

theorem columns_nodup (c : Class) : (c.columns.map (·.1)).Nodup := by
  induction c with
  | dbModel => exact List.nodup_nil
  | model base declared fields ih => exact foldl_put_keys_nodup ih

theorem columns_of_base {base : Class} (declared : ColumnMap) (fields : Obj) {k : String}
    (h : k ∈ base.columns.map (·.1)) : k ∈ (Class.model base declared fields).columns.map (·.1) :=
  mem_keys_foldl_put.mpr (.inl h)

theorem castOf_mem {columns : ColumnMap} (hn : (columns.map (·.1)).Nodup) {p : String × ColumnMeta}
    (hp : p ∈ columns) (v : JsVal) : castOf columns p.1 v = p.2.cast v := by
  rw [castOf, lookup_of_mem hn hp]

theorem castOf_fresh {columns : ColumnMap} {k : String} (h : k ∉ columns.map (·.1)) (v : JsVal) :
    castOf columns k v = .ok v := by
  have hnone : columns.lookup k = none := by
    refine List.lookup_eq_none_iff.mpr fun q hq => ?_
    have hne : k ≠ q.1 := fun heq => h (List.mem_map.mpr ⟨q, hq, heq.symm⟩)
    simpa using hne
  rw [castOf, hnone]

theorem castOf_cons (p : String × ColumnMeta) (columns : ColumnMap) (k : String) (v : JsVal) :
    castOf (p :: columns) k v = if k = p.1 then p.2.cast v else castOf columns k v := by
  rw [castOf, lookup_cons_eq]
  split
  · rename_i column hc
    split at hc
    · rename_i hk
      cases hc
      rw [if_pos hk]
    · rename_i hk
      rw [if_neg hk, castOf, hc]
  · rename_i hc
    split at hc
    · cases hc
    · rename_i hk
      rw [if_neg hk, castOf, hc]

/-! ## One class's casts -/

theorem typeCastColumns_none {p : String × ColumnMeta} (h : p.2.typeCast = none)
    (columns : ColumnMap) : typeCastColumns (p :: columns) = typeCastColumns columns :=
  List.filterMap_cons_none (by rw [h]; rfl)

theorem typeCastColumns_some {p : String × ColumnMeta} {cast : TypeCastFn}
    (h : p.2.typeCast = some cast) (columns : ColumnMap) :
    typeCastColumns (p :: columns) = (p.1, cast) :: typeCastColumns columns :=
  List.filterMap_cons_some (by rw [h]; rfl)

theorem applyCasts_get {columns : ColumnMap} (hn : (columns.map (·.1)).Nodup) {o o' : Obj}
    (h : applyCasts (typeCastColumns columns) o = .ok o') (k : String) :
    castOf columns k (o.get k) = .ok (o'.get k) := by
  induction columns generalizing o with
  | nil =>
    cases h
    rfl
  | cons p columns ih =>
    obtain ⟨hp, hcs⟩ := List.nodup_cons.mp hn
    obtain ⟨propKey, column⟩ := p
    rw [castOf_cons]
    cases hcast : column.typeCast with
    | none =>
      rw [typeCastColumns_none hcast] at h
      have hrest := ih hcs h
      by_cases hk : k = propKey
      · rw [if_pos hk, ColumnMeta.cast, hcast]
        rw [castOf_fresh (hk ▸ hp)] at hrest
        exact hrest
      · rw [if_neg hk]
        exact hrest
    | some cast =>
      rw [typeCastColumns_some hcast, applyCasts] at h
      cases hv : cast (o.get propKey) with
      | error e =>
        rw [hv] at h
        cases h
      | ok v =>
        rw [hv] at h
        have hrest := ih hcs h
        rw [Obj.get_put] at hrest
        by_cases hk : k = propKey
        · rw [if_pos hk] at hrest
          rw [castOf_fresh (hk ▸ hp)] at hrest
          rw [if_pos hk, hk, ColumnMeta.cast, hcast, ← hk, ← hrest, hk]
          exact hv
        · rw [if_neg hk] at hrest
          rw [if_neg hk]
          exact hrest

theorem applyCasts_ok {columns : ColumnMap} (hn : (columns.map (·.1)).Nodup) {o : Obj}
    (h : ∀ p ∈ columns, ∃ v, p.2.cast (o.get p.1) = .ok v) :
    ∃ o', applyCasts (typeCastColumns columns) o = .ok o' := by
  induction columns generalizing o with
  | nil => exact ⟨o, rfl⟩
  | cons p columns ih =>
    obtain ⟨hp, hcs⟩ := List.nodup_cons.mp hn
    obtain ⟨propKey, column⟩ := p
    obtain ⟨v, hv⟩ := h _ List.mem_cons_self
    rw [ColumnMeta.cast] at hv
    cases hcast : column.typeCast with
    | none =>
      rw [typeCastColumns_none hcast]
      exact ih hcs fun q hq => h q (List.mem_cons_of_mem _ hq)
    | some cast =>
      rw [hcast] at hv
      rw [typeCastColumns_some hcast, applyCasts]
      rw [show cast (o.get propKey) = .ok v from hv]
      refine ih hcs fun q hq => ?_
      have hne : q.1 ≠ propKey := fun heq => hp (List.mem_map.mpr ⟨q, hq, heq⟩)
      rw [Obj.get_put, if_neg hne]
      exact h q (List.mem_cons_of_mem _ hq)

/-! ## The casts of the chain -/

theorem typeCastFromDB_get {c : Class} {o o' : Obj} (h : c.typeCastFromDB o = .ok o') (k : String) :
    c.castsOf k (o.get k) = .ok (o'.get k) := by
  induction c generalizing o' with
  | dbModel =>
    cases h
    rfl
  | model base declared fields ih =>
    rw [Class.typeCastFromDB] at h
    cases hbase : base.typeCastFromDB o with
    | error e =>
      rw [hbase] at h
      cases h
    | ok o₁ =>
      rw [hbase] at h
      rw [Class.castsOf, ih hbase]
      exact applyCasts_get (columns_nodup _) h k

theorem castsOf_base {base : Class} {declared : ColumnMap} {fields : Obj} {k : String} {v w : JsVal}
    (h : (Class.model base declared fields).castsOf k v = .ok w) : ∃ u, base.castsOf k v = .ok u ∧
      castOf (Class.model base declared fields).columns k u = .ok w := by
  rw [Class.castsOf] at h
  cases hu : base.castsOf k v with
  | error e =>
    rw [hu] at h
    cases h
  | ok u =>
    rw [hu] at h
    exact ⟨u, rfl, h⟩

theorem castsOf_undeclared {c : Class} {k : String} (h : k ∉ c.columns.map (·.1)) (v : JsVal) :
    c.castsOf k v = .ok v := by
  induction c with
  | dbModel => rfl
  | model base declared fields ih =>
    rw [Class.castsOf, ih fun hk => h (columns_of_base declared fields hk)]
    exact castOf_fresh h v

theorem typeCastFromDB_ok {c : Class} {o : Obj}
    (h : ∀ p ∈ c.columns, ∃ v, c.castsOf p.1 (o.get p.1) = .ok v) :
    ∃ o', c.typeCastFromDB o = .ok o' := by
  induction c with
  | dbModel => exact ⟨o, rfl⟩
  | model base declared fields ih =>
    have hbase : ∀ p ∈ base.columns, ∃ v, base.castsOf p.1 (o.get p.1) = .ok v := by
      intro p hp
      obtain ⟨q, hq, hkey⟩ := List.mem_map.mp
        (columns_of_base declared fields (List.mem_map_of_mem hp))
      obtain ⟨v, hv⟩ := h q hq
      obtain ⟨u, hu, -⟩ := castsOf_base hv
      exact ⟨u, hkey ▸ hu⟩
    obtain ⟨o₁, ho₁⟩ := ih hbase
    rw [Class.typeCastFromDB, ho₁]
    refine applyCasts_ok (columns_nodup _) fun p hp => ?_
    obtain ⟨v, hv⟩ := h p hp
    obtain ⟨u, hu, hcast⟩ := castsOf_base hv
    rw [typeCastFromDB_get ho₁ p.1] at hu
    cases hu
    rw [castOf_mem (columns_nodup _) hp] at hcast
    exact ⟨v, hcast⟩

/-! ## What a built instance reads -/

/-- The column's own cast gives of what stands under the property, after the casts before it, what it
gives of the column's cell. -/
def Class.Settles (c : Class) (row : Row) (p : String × ColumnMeta) : Prop :=
  ∃ w v, c.earlier p.1 (c.given row p.1) = .ok w ∧ p.2.cast w = .ok v ∧
    p.2.cast (row.cell p.2.columnName) = .ok v

/-- A column's own cast refuses the column's cell. -/
def Class.RefusesCell (c : Class) (row : Row) : Prop :=
  ∃ p ∈ c.columns, ∃ e, p.2.cast (row.cell p.2.columnName) = .error e

/-- The casts of a property refuse what stands under it. -/
def Class.RefusesGiven (c : Class) (row : Row) : Prop :=
  ∃ p ∈ c.columns, ∃ e, c.castsOf p.1 (c.given row p.1) = .error e

theorem castsOf_eq {c : Class} {p : String × ColumnMeta} (hp : p ∈ c.columns) {v u : JsVal} :
    c.castsOf p.1 v = .ok u ↔ ∃ w, c.earlier p.1 v = .ok w ∧ p.2.cast w = .ok u := by
  cases c with
  | dbModel => exact absurd hp List.not_mem_nil
  | model base declared fields =>
    constructor
    · intro h
      obtain ⟨w, hw, hcast⟩ := castsOf_base h
      rw [castOf_mem (columns_nodup _) hp] at hcast
      exact ⟨w, hw, hcast⟩
    · rintro ⟨w, hw, hcast⟩
      change base.castsOf p.1 v = .ok w at hw
      rw [Class.castsOf, hw]
      exact (castOf_mem (columns_nodup _) hp w).trans hcast

theorem createInstance_get {c : Class} {row : Row} {inst : Obj} (h : c.createInstance row = .ok inst)
    (k : String) : c.castsOf k (c.given row k) = .ok (inst.get k) := by
  have hget := typeCastFromDB_get h k
  rwa [Obj.get_assign] at hget

theorem createInstance_ok {c : Class} {row : Row} (h : ¬ c.RefusesGiven row) :
    ∃ inst, c.createInstance row = .ok inst := by
  refine typeCastFromDB_ok fun p hp => ?_
  rw [Obj.get_assign]
  cases hcast : c.castsOf p.1 (c.given row p.1) with
  | ok v => exact ⟨v, hcast⟩
  | error e => exact absurd ⟨p, hp, e, hcast⟩ h

/-- A row is read as its columns declare it exactly when every column's cast settles, or when the
row is refused either way. -/
theorem createInstance_builds_iff (c : Class) (row : Row) :
    c.Builds row ↔ (∀ p ∈ c.columns, c.Settles row p) ∨ (c.RefusesCell row ∧ c.RefusesGiven row) := by
  constructor
  · rintro ⟨hreads, hbuilt⟩
    cases hinst : c.createInstance row with
    | ok inst =>
      refine .inl fun p hp => ?_
      obtain ⟨w, hw, hcast⟩ := (castsOf_eq hp).mp (createInstance_get hinst p.1)
      exact ⟨w, inst.get p.1, hw, hcast, hreads inst hinst p hp⟩
    | error e =>
      have hnone : ¬ ∃ inst, c.createInstance row = .ok inst := by
        rintro ⟨inst, h⟩
        rw [hinst] at h
        cases h
      refine .inr ⟨?_, ?_⟩
      · by_contra hcell
        refine hnone (hbuilt fun p hp => ?_)
        cases hcast : p.2.cast (row.cell p.2.columnName) with
        | ok v => exact ⟨v, rfl⟩
        | error e => exact absurd ⟨p, hp, e, hcast⟩ hcell
      · by_contra hgiven
        exact hnone (createInstance_ok hgiven)
  · rintro (hsettles | ⟨⟨p, hp, e, hcell⟩, q, hq, e', hgiven⟩)
    · refine ⟨fun inst hinst p hp => ?_, fun _ => createInstance_ok ?_⟩
      · obtain ⟨w, v, hw, hcast, hcell⟩ := hsettles p hp
        have hv := (castsOf_eq hp).mpr ⟨w, hw, hcast⟩
        rw [createInstance_get hinst p.1] at hv
        cases hv
        exact hcell
      · rintro ⟨p, hp, e, hgiven⟩
        obtain ⟨w, v, hw, hcast, -⟩ := hsettles p hp
        rw [(castsOf_eq hp).mpr ⟨w, hw, hcast⟩] at hgiven
        cases hgiven
    · refine ⟨fun inst hinst => ?_, fun hall => ?_⟩
      · rw [createInstance_get hinst q.1] at hgiven
        cases hgiven
      · obtain ⟨v, hv⟩ := hall p hp
        rw [hv] at hcell
        cases hcell

/-- A class that extends `DBModel` itself and renames no column reads every row, as long as its
constructor sets no column. -/
theorem direct_builds {declared : ColumnMap} {fields : Obj}
    (hname : ∀ p ∈ (Class.model .dbModel declared fields).columns, p.2.columnName = p.1)
    (hfields : ∀ p ∈ (Class.model .dbModel declared fields).columns,
      Obj.get (Class.model .dbModel declared fields).create p.1 = .undefined) (row : Row) :
    (Class.model .dbModel declared fields).Builds row := by
  have hgiven : ∀ p ∈ (Class.model .dbModel declared fields).columns,
      (Class.model .dbModel declared fields).given row p.1 = row.cell p.2.columnName := by
    intro p hp
    rw [Class.given, hfields p hp, hname p hp]
    rfl
  rw [createInstance_builds_iff]
  by_cases hcell : (Class.model .dbModel declared fields).RefusesCell row
  · obtain ⟨p, hp, e, he⟩ := hcell
    refine .inr ⟨⟨p, hp, e, he⟩, p, hp, e, ?_⟩
    rw [hgiven p hp]
    exact (castOf_mem (columns_nodup _) hp _).trans he
  · refine .inl fun p hp => ?_
    cases hcast : p.2.cast (row.cell p.2.columnName) with
    | error e => exact absurd ⟨p, hp, e, hcast⟩ hcell
    | ok v => exact ⟨row.cell p.2.columnName, v, by rw [hgiven p hp]; rfl, hcast, hcast⟩

/-- A subclass that declares nothing casts the columns it inherits once more. -/
theorem castsOf_subclass (base : Class) (fields : Obj) {p : String × ColumnMeta}
    (hp : p ∈ base.columns) {v w : JsVal} (h : base.castsOf p.1 v = .ok w) :
    (Class.model base [] fields).castsOf p.1 v = p.2.cast w := by
  rw [Class.castsOf, h]
  exact castOf_mem (columns_nodup base) hp w

/-- A column under another property. -/
def account : Class :=
  .model .dbModel [("active", ⟨"is_active", some (Families.Family.cast Families.isoRuntime .postgres .boolean)⟩)] []

def accountRow : Row := ⟨[("is_active", .bool true)], by decide⟩

/-- A json column that a subclass inherits. -/
def draft : Class :=
  .model (.model .dbModel
    [("body", ⟨"body", some (Families.Family.cast Families.isoRuntime .sqlite .json)⟩)] []) [] []

def draftRow : Row := ⟨[("body", .str "\"1\"")], by decide⟩

/-- The renamed column is lost, and the inherited one is decoded twice: the text `"1"` comes back as
a number. -/
theorem column_misread : ¬ account.Builds accountRow ∧ ¬ draft.Builds draftRow := by
  constructor
  · rintro ⟨hreads, -⟩
    have h := hreads [("is_active", .bool true), ("active", .undefined)] rfl _ List.mem_cons_self
    cases h
  · rintro ⟨hreads, -⟩
    have h := hreads [("body", .num (.fin (Decimal.Dec.ofParts 1 0)))] rfl _ List.mem_cons_self
    cases h

end LiteDb.ClassChain
