import LiteDbModel.Values
import LiteDbModel.Lib.Keyed

/-!
# Records to write

A caller writes column-value pairs, which become a record: a plain object whose
values may be tokens. The serializers of the model's columns are applied to it.
-/

namespace LiteDb
set_option autoImplicit false
open Keyed

/-- A value to insert: a plain one, or a token that carries SQL text. -/
inductive Cell
  | val (v : JsVal)
  /-- A `DBImmediateValue`. -/
  | immediate (sql : String)
  /-- Any other `DBToken`: the text it compiles to and the values it binds. -/
  | token (sql : String) (params : List JsVal)

/-- A record is its own properties; no name occurs twice. -/
structure Record where
  cells : List (String × Cell)
  nodup : (cells.map (·.1)).Nodup

/-- `val !== undefined && !(val instanceof DBImmediateValue && val.value === 'DEFAULT')`. -/
def Cell.live : Cell → Bool
  | .val .undefined => false
  | .immediate sql => sql ≠ "DEFAULT"
  | _ => true

abbrev Serializer := Cell → Cell

/-- `getSerializeMap`: the serializer of a column, by property or column name. -/
abbrev SerializeMap := String → Option Serializer

def serializeCell (serializers : SerializeMap) (cell : String × Cell) : String × Cell :=
  match serializers cell.1 with
  | some serialize => (cell.1, serialize cell.2)
  | none => cell

theorem serializeCell_name (serializers : SerializeMap) (cell : String × Cell) :
    (serializeCell serializers cell).1 = cell.1 := by
  rw [serializeCell]
  split <;> rfl

def serializeRecord (serializers : SerializeMap) (record : Record) : Record where
  cells := record.cells.map (serializeCell serializers)
  nodup := by
    have hnames : ((·.1) ∘ serializeCell serializers) = fun c : String × Cell => c.1 :=
      funext fun c => serializeCell_name serializers c
    rw [List.map_map, hnames]
    exact record.nodup

/-- `Object.keys`. -/
def Record.names (record : Record) : List String := record.cells.map (·.1)

/-- `r[col]`: a column the record does not have is `undefined`. -/
def Record.cell (record : Record) (col : String) : Cell :=
  (record.cells.lookup col).getD (.val .undefined)

/-- `val instanceof DBToken`. -/
def Cell.isToken : Cell → Bool
  | .val _ => false
  | _ => true

/-- A column-value pair; no value stands for `SKIP`. -/
abbrev Pair := String × Option Cell

/-- The record of the pairs that are not skipped; the last value of a column stands. -/
def pairCells (pairs : List Pair) : List (String × Cell) :=
  pairs.foldl (fun cells p =>
    match p.2 with
    | some cell => put p.1 cell cells
    | none => cells) []

def pairsToRecord (pairs : List Pair) : Record where
  cells := pairCells pairs
  nodup := by
    have hfold : ∀ (ps : List Pair) (cells : List (String × Cell)), (cells.map (·.1)).Nodup →
        ((ps.foldl (fun cells p =>
          match p.2 with
          | some cell => put p.1 cell cells
          | none => cells) cells).map (·.1)).Nodup := by
      intro ps
      induction ps with
      | nil => exact fun _ h => h
      | cons p ps ih =>
        intro cells h
        rw [List.foldl_cons]
        apply ih
        split
        · exact put_keys_nodup h
        · exact h
    exact hfold pairs [] List.nodup_nil

/-! ## The order of names -/

/-- The UTF-16 code units of a character. -/
def utf16 (c : Char) : List Nat :=
  if c.toNat < 0x10000 then [c.toNat]
  else [0xD800 + (c.toNat - 0x10000) / 0x400, 0xDC00 + (c.toNat - 0x10000) % 0x400]

/-- The default order of `Array.prototype.sort` on strings. -/
def sortsBefore (s t : String) : Bool := s.toList.flatMap utf16 ≤ t.toList.flatMap utf16

/-! ## The model class -/

/-- `getPrimaryKey`. -/
structure PrimaryKey where
  columns : List String
  autoInc : Option String

structure ModelClass where
  pk : PrimaryKey
  serializers : SerializeMap
  sqlCast : String → Option String

end LiteDb
