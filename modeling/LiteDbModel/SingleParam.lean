import LiteDbModel.JsonParam
import LiteDbModel.Lib.Binary64
import LiteDbModel.Lib.SqlCond

/-!
# Membership with a single parameter

The static predicates bind a whole list as one parameter, which the server expands:
PostgreSQL an array of its own, MySQL and SQLite a JSON text. What the server reads
from the text is compared with the row as the dialect documents it.
-/

namespace LiteDb.SingleParam
set_option autoImplicit false
open Json Decimal SqlCond

/-! ## Columns and lists -/

inductive Kind
  | text
  | integer
  | boolean

abbrev I64 := { i : Int // -2 ^ 63 ≤ i ∧ i < 2 ^ 63 }

abbrev Kind.Val : Kind → Type
  | .text => String
  | .integer => I64
  | .boolean => Bool

/-- A bc `int` is a bigint. -/
def Kind.js : (k : Kind) → Option k.Val → JsVal
  | _, none => .null
  | .text, some s => .str s
  | .integer, some i => .bigint i
  | .boolean, some b => .bool b

/-- The cells of some columns: a row's, or an element's of the list. -/
abbrev Cells {n : Nat} (kind : Fin n → Kind) := (i : Fin n) → Option (kind i).Val

/-- One column, or a tuple of at least two. -/
inductive Shape : Nat → Type
  | column : Shape 1
  | tuple (n : Nat) : Shape (n + 2)

/-- A column's element is its value, a tuple's is the array of them. -/
def Shape.payload {n : Nat} (kind : Fin n → Kind) : Shape n → Cells kind → JsVal
  | .column, e => (kind 0).js (e 0)
  | .tuple _, e => .arr (List.ofFn fun i => (kind i).js (e i))

/-! ## What the server reads -/

inductive SqlValue
  | text (s : String)
  | num (d : Dec)
  | bool (b : Bool)
deriving DecidableEq

/-- The value that PostgreSQL is sent. -/
def Kind.native : (k : Kind) → k.Val → SqlValue
  | .text, s => .text s
  | .integer, i => .num (Dec.ofInt i)
  | .boolean, b => .bool b

/-- `JSON_UNQUOTE`: a string's content, and the text of any other document. -/
def jsonUnquote : Scalar → Option SqlValue
  | .null => some (.text "null")
  | .bool b => some (.text (if b then "true" else "false"))
  | .num d => some (.text (String.ofList d.print))
  | .str s => some (.text s)

/-- The `value` of `json_each`, and `json_extract`. -/
def jsonExtract : Scalar → Option SqlValue
  | .null => none
  | .bool b => some (.num (boolNum b))
  | .num d => some (.num d)
  | .str s => some (.text s)

def scalarOf : Doc Scalar → Option Scalar
  | .leaf s => some s
  | _ => none

/-- The path of a column in an element: `'$'`, or `'$[i]'` in a tuple. -/
def Shape.at {n : Nat} : Shape n → Doc Scalar → Fin n → Option Scalar
  | .column, d, _ => scalarOf d
  | .tuple _, .arr ds, i => ds[i.val]?.bind scalarOf
  | .tuple _, _, _ => none

/-- One row of the subquery for each element of the array. A text that is no JSON array fails the statement. -/
def jsonRows {n : Nat} (shape : Shape n) (read : Scalar → Option SqlValue) (text : List Char) :
    Option (List (Fin n → Option SqlValue)) :=
  match parse text with
  | some (.arr ds) => some (ds.map fun d i => (shape.at d i).bind read)
  | _ => none

/-- `UNNEST` of several arrays, the shorter ones filled up with nulls; a single one is `ANY`'s. -/
def arrayRows {n : Nat} {kind : Fin n → Kind} (arrays : (i : Fin n) → List (Option (kind i).Val)) :
    List (Fin n → Option SqlValue) :=
  (List.range (Finset.univ.sup fun i => (arrays i).length)).map fun j i =>
    ((arrays i)[j]?.join).map (kind i).native

inductive Param {n : Nat} (kind : Fin n → Kind)
  | arrays (arrays : (i : Fin n) → List (Option (kind i).Val))
  | json (text : List Char)

structure StaticPredicate {n : Nat} (kind : Fin n → Kind) where
  sql : String
  /-- What the row is looked up in. -/
  rows : Param kind → Option (List (Fin n → Option SqlValue))

def Param.arrayRows {n : Nat} {kind : Fin n → Kind} : Param kind → Option (List (Fin n → Option SqlValue))
  | .arrays a => some (SingleParam.arrayRows a)
  | .json _ => none

def Param.jsonRows {n : Nat} {kind : Fin n → Kind} (shape : Shape n)
    (read : Scalar → Option SqlValue) : Param kind → Option (List (Fin n → Option SqlValue))
  | .arrays _ => none
  | .json text => SingleParam.jsonRows shape read text

def inListPredicate (dialect : Dialect) (kind : Fin 1 → Kind) (col : String) : StaticPredicate kind :=
  match dialect with
  | .postgres => ⟨col ++ " = ANY(?)", Param.arrayRows⟩
  | .mysql =>
    ⟨col ++ " IN (SELECT JSON_UNQUOTE(v) FROM JSON_TABLE(?, '$[*]' COLUMNS(v JSON PATH '$')) jt)",
      Param.jsonRows .column jsonUnquote⟩
  | .sqlite => ⟨col ++ " IN (SELECT value FROM json_each(?))", Param.jsonRows .column jsonExtract⟩

def commaList (parts : List String) : String := ", ".intercalate parts

def tupleInPredicate {n : Nat} (dialect : Dialect) (kind : Fin (n + 2) → Kind) (table : String)
    (columns pgElementTypes : Fin (n + 2) → String) : StaticPredicate kind :=
  let qualified := commaList (List.ofFn fun i => table ++ "." ++ columns i)
  match dialect with
  | .postgres =>
    ⟨"(" ++ qualified ++ ") IN (SELECT * FROM UNNEST(" ++
      commaList (List.ofFn fun i => "?::" ++ pgElementTypes i) ++ "))", Param.arrayRows⟩
  | .mysql =>
    let jtCols := commaList (List.ofFn fun i : Fin (n + 2) => s!"c{i} JSON PATH '$[{i}]'")
    let selectCols := commaList (List.ofFn fun i : Fin (n + 2) => s!"JSON_UNQUOTE(c{i})")
    ⟨"(" ++ qualified ++ ") IN (SELECT " ++ selectCols ++ " FROM JSON_TABLE(?, '$[*]' COLUMNS(" ++
      jtCols ++ ")) jt)", Param.jsonRows (.tuple n) jsonUnquote⟩
  | .sqlite =>
    let projected := commaList (List.ofFn fun i : Fin (n + 2) => s!"json_extract(value, '$[{i}]')")
    ⟨"(" ++ qualified ++ ") IN (SELECT " ++ projected ++ " FROM json_each(?))",
      Param.jsonRows (.tuple n) jsonExtract⟩

example : (tupleInPredicate .mysql (fun _ => .integer) "t" (fun i : Fin 2 => if i = 0 then "a" else "b")
      (fun _ => "int[]")).sql =
    "(t.a, t.b) IN (SELECT JSON_UNQUOTE(c0), JSON_UNQUOTE(c1) FROM JSON_TABLE(?, '$[*]' COLUMNS(" ++
      "c0 JSON PATH '$[0]', c1 JSON PATH '$[1]')) jt)" := by decide +kernel

/-- PostgreSQL binds one array a column, the others the one text of `encodeJsonArrayParam`. -/
def encodeParam {n : Nat} {kind : Fin n → Kind} (dialect : Dialect) (shape : Shape n)
    (list : List (Cells kind)) : Option (Param kind) :=
  match dialect with
  | .postgres => some (.arrays fun i => list.map fun e => e i)
  | d => (encodeJsonParam d (.arr (list.map (shape.payload kind)))).map .json

/-! ## How it is compared -/

def SqlValue.toText : SqlValue → String
  | .text s => s
  | .num d => String.ofList d.print
  | .bool b => if b then "true" else "false"

/-- MySQL's number of a text: the one that it starts with, or zero. -/
def leadingNumber (s : String) : Dec :=
  match parseNumber s.toList with
  | some (d, _) => d
  | none => Dec.ofInt 0

/-- MySQL compares two numbers exactly, but a number with a text as doubles. -/
def mysqlNumberEq (x : Int) : SqlValue → Bool
  | .num d => (x : ℚ) = d.value
  | .text s => Binary64.ofRat x = Binary64.ofRat (leadingNumber s).value
  | .bool b => (x : ℚ) = (boolNum b).value

/-- SQLite compares a number column with a text that is written like a number as numbers. -/
def sqliteNumberEq (x : Int) : SqlValue → Bool
  | .num d => (x : ℚ) = d.value
  | .text s =>
    match parseNumber s.toList with
    | some (d, []) => (x : ℚ) = d.value
    | _ => false
  | .bool b => (x : ℚ) = (boolNum b).value

def boolInt (b : Bool) : Int := if b then 1 else 0

/-- A boolean column of MySQL and SQLite stores 1 and 0. A text column compares texts, as they are. -/
def sqlEq : Dialect → (k : Kind) → k.Val → SqlValue → Bool
  | .postgres, k, v, w => k.native v = w
  | .mysql, .text, s, w => s = w.toText
  | .mysql, .integer, i, w => mysqlNumberEq i w
  | .mysql, .boolean, b, w => mysqlNumberEq (boolInt b) w
  | .sqlite, .text, s, w => s = w.toText
  | .sqlite, .integer, i, w => sqliteNumberEq i w
  | .sqlite, .boolean, b, w => sqliteNumberEq (boolInt b) w

/-- A comparison with a null is unknown. -/
def sqlEq3 (dialect : Dialect) (k : Kind) : Option k.Val → Option SqlValue → Option Bool
  | some v, some w => some (sqlEq dialect k v w)
  | _, _ => none

def rowEq3 {n : Nat} {kind : Fin n → Kind} (dialect : Dialect) (row : Cells kind)
    (r : Fin n → Option SqlValue) : Option Bool :=
  andAll (List.ofFn fun i => sqlEq3 dialect (kind i) (row i) (r i))

def StaticPredicate.truth {n : Nat} {kind : Fin n → Kind} (dialect : Dialect) (p : StaticPredicate kind)
    (param : Param kind) (row : Cells kind) : Option (Option Bool) :=
  (p.rows param).map fun rows => orAll (rows.map (rowEq3 dialect row))

/-- `IN (?, ?, …)`, each value bound on its own. -/
def expandedTruth {n : Nat} {kind : Fin n → Kind} (list : List (Cells kind)) (row : Cells kind) :
    Option Bool :=
  orAll (list.map fun e => rowEq3 .postgres row fun i => (e i).map (kind i).native)

/-! ## Conditions -/

/-- A membership test: what its columns are, and the list. -/
structure Test where
  n : Nat
  shape : Shape n
  table : String
  columns : Fin n → String
  pgElementTypes : Fin n → String
  kind : Fin n → Kind
  list : List (Cells kind)

def Test.predicate (dialect : Dialect) (t : Test) : StaticPredicate t.kind :=
  match t with
  | ⟨_, .column, _, columns, _, kind, _⟩ => inListPredicate dialect kind (columns 0)
  | ⟨_, .tuple _, table, columns, pgElementTypes, kind, _⟩ =>
    tupleInPredicate dialect kind table columns pgElementTypes

/-- The result of the test for a row, where the statement does not fail. -/
def Test.truth (dialect : Dialect) (t : Test) (row : Cells t.kind) : Option (Option Bool) := do
  let param ← encodeParam dialect t.shape t.list
  (t.predicate dialect).truth dialect param row

/-- Equal cells, none of them null. -/
def Same {n : Nat} {kind : Fin n → Kind} (row e : Cells kind) : Prop :=
  ∀ i, ∃ v, row i = some v ∧ e i = some v

/-- The row's value is among the list's. -/
def Test.Contains (t : Test) (row : Cells t.kind) : Prop := ∃ e ∈ t.list, Same row e

mutual

/-- Groups of tests over the rows of a table; `cells` picks a test's columns. -/
inductive Tree (Row : Type)
  | test (t : Test) (cells : Row → Cells t.kind)
  | all (parts : Trees Row)
  | any (parts : Trees Row)

inductive Trees (Row : Type)
  | nil
  | cons (first : Tree Row) (rest : Trees Row)

end

variable {Row : Type}

mutual

def Tree.truth (dialect : Dialect) (row : Row) : Tree Row → Option (Option Bool)
  | .test t cells => t.truth dialect (cells row)
  | .all parts => (parts.truths dialect row).map andAll
  | .any parts => (parts.truths dialect row).map orAll

def Trees.truths (dialect : Dialect) (row : Row) : Trees Row → Option (List (Option Bool))
  | .nil => some []
  | .cons first rest => do
    let v ← first.truth dialect row
    let vs ← rest.truths dialect row
    some (v :: vs)

end

mutual

/-- What the groups mean, with each test replaced by the membership that it stands for. -/
def Tree.Means (row : Row) : Tree Row → Prop
  | .test t cells => t.Contains (cells row)
  | .all parts => parts.MeansAll row
  | .any parts => parts.MeansAny row

def Trees.MeansAll (row : Row) : Trees Row → Prop
  | .nil => True
  | .cons first rest => first.Means row ∧ rest.MeansAll row

def Trees.MeansAny (row : Row) : Trees Row → Prop
  | .nil => False
  | .cons first rest => first.Means row ∨ rest.MeansAny row

end

mutual

def Tree.tests : Tree Row → List Test
  | .test t _ => [t]
  | .all parts => parts.tests
  | .any parts => parts.tests

def Trees.tests : Trees Row → List Test
  | .nil => []
  | .cons first rest => first.tests ++ rest.tests

end

/-- Every row gets the answer of the membership. -/
def Test.Exact (dialect : Dialect) (t : Test) : Prop :=
  ∀ row, ∃ v, t.truth dialect row = some v ∧ (v = some true ↔ t.Contains row)

/-- Each test of the groups is exact, and so are the groups. -/
structure Tree.Exact (dialect : Dialect) (tree : Tree Row) : Prop where
  tests : ∀ t ∈ tree.tests, t.Exact dialect
  groups : ∀ row, ∃ v, tree.truth dialect row = some v ∧ (v = some true ↔ tree.Means row)

/-! ## The encoded list as the server reads it -/

def Kind.prim : (k : Kind) → Option k.Val → Prim
  | _, none => .null
  | .text, some s => .str s
  | .integer, some i => .bigint i
  | .boolean, some b => .bool b

def Shape.doc {α : Type} {n : Nat} : Shape n → (Fin n → α) → Doc α
  | .column, f => .leaf (f 0)
  | .tuple _, f => .arr (List.ofFn fun i => .leaf (f i))

theorem jsonTree_js (k : Kind) (c : Option k.Val) : jsonTree (k.js c) = some (.leaf (k.prim c)) := by
  cases c with
  | none => cases k <;> rfl
  | some v => cases k <;> rfl

theorem jsonElems_map {α : Type} {f : α → JsVal} {g : α → Doc Prim} (h : ∀ a, jsonTree (f a) = some (g a))
    (xs : List α) : jsonElems (xs.map f) = xs.map g := by
  induction xs with
  | nil => rfl
  | cons x xs ih => rw [List.map_cons, jsonElems, h, ih, List.map_cons, Option.getD_some]

section
variable {n : Nat} {kind : Fin n → Kind}

theorem jsonTree_payload (shape : Shape n) (e : Cells kind) :
    jsonTree (shape.payload kind e) = some (shape.doc fun i => (kind i).prim (e i)) := by
  cases shape with
  | column => exact jsonTree_js (kind 0) (e 0)
  | tuple m =>
    rw [Shape.payload, jsonTree, Shape.doc, List.ofFn_eq_map, List.ofFn_eq_map,
      jsonElems_map fun i => jsonTree_js (kind i) (e i)]

theorem Shape.at_doc (shape : Shape n) (g : Fin n → Scalar) (i : Fin n) :
    shape.at (shape.doc g) i = some (g i) := by
  cases shape with
  | column =>
    have h0 : i = 0 := Subsingleton.elim i 0
    rw [h0]
    rfl
  | tuple m =>
    rw [Shape.doc, Shape.at, List.getElem?_ofFn, dif_pos i.isLt]
    rfl

section
variable {leafOf : Prim → Option Scalar} {keyOf : String → Option String}

theorem readElems_map {α : Type} {f : α → Doc Prim} {g : α → Doc Scalar} {xs : List α}
    (h : ∀ x ∈ xs, (f x).read leafOf keyOf = some (g x)) :
    Doc.readElems leafOf keyOf (xs.map f) = some (xs.map g) := by
  induction xs with
  | nil => rfl
  | cons x xs ih =>
    have hx := h x List.mem_cons_self
    have hxs := ih fun y hy => h y (List.mem_cons_of_mem x hy)
    rw [List.map_cons, Doc.readElems, hx, hxs]
    rfl

theorem readElems_none {α : Type} {f : α → Doc Prim} {xs : List α} {x : α} (hx : x ∈ xs)
    (h : (f x).read leafOf keyOf = none) : Doc.readElems leafOf keyOf (xs.map f) = none := by
  induction xs with
  | nil => cases hx
  | cons y ys ih =>
    rw [List.map_cons, Doc.readElems]
    rcases List.mem_cons.mp hx with rfl | hy
    · rw [h]
      rfl
    · rw [ih hy]
      cases (f y).read leafOf keyOf <;> rfl

theorem read_doc (shape : Shape n) {f : Fin n → Prim} {g : Fin n → Scalar}
    (h : ∀ i, leafOf (f i) = some (g i)) :
    (shape.doc f).read leafOf keyOf = some (shape.doc g) := by
  cases shape with
  | column => simp [Shape.doc, Doc.read, h 0]
  | tuple m =>
    have hread : Doc.readElems leafOf keyOf ((List.finRange (m + 2)).map fun i => Doc.leaf (f i)) =
        some ((List.finRange (m + 2)).map fun i => Doc.leaf (g i)) := by
      apply readElems_map
      intro i _
      simp [Doc.read, h i]
    rw [Shape.doc, Shape.doc, List.ofFn_eq_map, List.ofFn_eq_map, Doc.read, hread]
    rfl

theorem read_doc_none (shape : Shape n) {f : Fin n → Prim} {i : Fin n} (h : leafOf (f i) = none) :
    (shape.doc f).read leafOf keyOf = none := by
  cases shape with
  | column =>
    have h0 : i = 0 := Subsingleton.elim i 0
    rw [h0] at h
    simp [Shape.doc, Doc.read, h]
  | tuple m =>
    have hread : Doc.readElems leafOf keyOf ((List.finRange (m + 2)).map fun i => Doc.leaf (f i)) =
        none := by
      apply readElems_none (List.mem_finRange i)
      simp [Doc.read, h]
    rw [Shape.doc, List.ofFn_eq_map, Doc.read, hread]
    rfl

end

/-- What the server reads for a cell of the list. -/
def Kind.served (dialect : Dialect) (k : Kind) (c : Option k.Val) : Option Scalar :=
  leafRead dialect (k.prim c)

def Readable (dialect : Dialect) (list : List (Cells kind)) : Prop :=
  ∀ e ∈ list, ∀ i, (kind i).served dialect (e i) ≠ none

instance (dialect : Dialect) (list : List (Cells kind)) : Decidable (Readable dialect list) :=
  inferInstanceAs (Decidable (∀ e ∈ list, ∀ i, (kind i).served dialect (e i) ≠ none))

theorem rows_encoded (dialect : Dialect) (shape : Shape n) (list : List (Cells kind)) :
    ∃ text, encodeJsonParam dialect (.arr (list.map (shape.payload kind))) = some text ∧
      ∀ read, jsonRows shape read text =
        if Readable dialect list then
          some (list.map fun e i => ((kind i).served dialect (e i)).bind read)
        else none := by
  obtain ⟨text, henc, hparse⟩ := parse_encodeJsonParam dialect (.arr (list.map (shape.payload kind)))
    (t := .arr (jsonElems (list.map (shape.payload kind)))) rfl
  refine ⟨text, henc, ?_⟩
  intro read
  rw [jsonElems_map (jsonTree_payload shape), Doc.read] at hparse
  split
  next hread =>
    have hg : ∀ e ∈ list, (shape.doc fun i => (kind i).prim (e i)).read (leafRead dialect) keyRead =
        some (shape.doc fun i => ((kind i).served dialect (e i)).getD .null) := by
      intro e he
      apply read_doc
      intro i
      obtain ⟨s, hs⟩ := Option.ne_none_iff_exists'.mp (hread e he i)
      rw [hs]
      exact hs
    rw [readElems_map hg] at hparse
    rw [jsonRows, hparse]
    simp only [Option.map_some, List.map_map, Option.some.injEq]
    apply List.map_congr_left
    intro e he
    funext i
    obtain ⟨s, hs⟩ := Option.ne_none_iff_exists'.mp (hread e he i)
    simp [Function.comp, Shape.at_doc, hs]
  next hread =>
    simp only [Readable, not_forall, not_not] at hread
    obtain ⟨e, he, i, hi⟩ := hread
    rw [readElems_none he (read_doc_none shape hi)] at hparse
    rw [jsonRows, hparse]
    rfl

end

/-- `UNNEST` gives back the tuples whose columns it is given. -/
theorem arrayRows_columns {n : Nat} {kind : Fin n → Kind} (shape : Shape n) (list : List (Cells kind)) :
    arrayRows (fun i => list.map fun e => e i) = list.map fun e i => (e i).map (kind i).native := by
  have hne : (Finset.univ : Finset (Fin n)).Nonempty := by
    cases shape with
    | column => exact ⟨0, Finset.mem_univ 0⟩
    | tuple m => exact ⟨0, Finset.mem_univ 0⟩
  have hlen : (Finset.univ.sup fun i => (list.map fun e : Cells kind => e i).length) = list.length := by
    simp only [List.length_map]
    exact Finset.sup_const hne _
  rw [arrayRows, hlen]
  apply List.ext_getElem
  · simp
  · intro j hj hj'
    have hjl : j < list.length := by simpa using hj
    simp [hjl]

/-! ## What an element is taken for -/

/-- The text that the server has for a string of the list, which is not always the string. -/
def textRead (s : String) : Option String :=
  match stringRead s with
  | some (.str t) => some t
  | some (.num d) => some (String.ofList d.print)
  | _ => none

/-- A value of the column that the server takes an element of the list for. On MySQL a null is the
text `null`, which a number column compares as zero, and an integer is the nearest double. -/
def Kind.ReadAs (dialect : Dialect) : (k : Kind) → Option k.Val → k.Val → Prop
  | .text, some s, v => if dialect = .postgres then v = s else textRead s = some v
  | .integer, some i, v => if dialect = .mysql then Binary64.ofRat v.1 = Binary64.ofRat i.1 else v = i
  | .boolean, some b, v => v = b
  | .text, none, v => dialect = .mysql ∧ v = "null"
  | .integer, none, v => dialect = .mysql ∧ Binary64.ofRat v.1 = 0
  | .boolean, none, v => dialect = .mysql ∧ v = false

/-- What the server has for an element of the list, by the dialect's form of the predicate. -/
def Kind.value (dialect : Dialect) (k : Kind) (c : Option k.Val) : Option SqlValue :=
  match dialect with
  | .postgres => c.map k.native
  | .mysql => (k.served .mysql c).bind jsonUnquote
  | .sqlite => (k.served .sqlite c).bind jsonExtract

theorem leadingNumber_print (d : Dec) : leadingNumber (String.ofList d.print) = d := by
  have h := parseNumber_print d Decimal.NumEnd.nil
  rw [List.append_nil] at h
  rw [leadingNumber, String.toList_ofList, h]

theorem mysqlNumberEq_print (x y : Int) :
    mysqlNumberEq x (.text (String.ofList (Dec.ofInt y).print)) = true ↔
      Binary64.ofRat x = Binary64.ofRat y := by
  simp only [mysqlNumberEq, leadingNumber_print, Dec.value_ofInt, decide_eq_true_eq]

theorem ofRat_boolInt (b : Bool) : Binary64.ofRat (boolInt b) = boolInt b := by
  apply Binary64.ofRat_intCast
  cases b <;> decide

theorem ofRat_zero : Binary64.ofRat 0 = 0 := by
  have h := Binary64.ofRat_intCast (i := 0) (by decide)
  exact_mod_cast h

theorem mysqlNumberEq_null (x : Int) : mysqlNumberEq x (.text "null") = true ↔ Binary64.ofRat x = 0 := by
  have hnull : leadingNumber "null" = Dec.ofInt 0 := by decide +kernel
  simp only [mysqlNumberEq, hnull, Dec.value_ofInt, decide_eq_true_eq, Int.cast_zero, ofRat_zero]

theorem boolInt_inj {a b : Bool} : boolInt a = boolInt b ↔ a = b := by
  cases a <;> cases b <;> decide

theorem boolNum_eq (b : Bool) : boolNum b = Dec.ofInt (boolInt b) := by
  cases b <;> rfl

theorem sqliteNumberEq_num (x y : Int) : sqliteNumberEq x (.num (Dec.ofInt y)) = true ↔ x = y := by
  simp only [sqliteNumberEq, Dec.value_ofInt, decide_eq_true_eq, Int.cast_inj]

theorem ofInt_inj {a b : Int} : Dec.ofInt a = Dec.ofInt b ↔ a = b := by
  constructor
  · intro h
    have hv := congrArg Dec.value h
    rw [Dec.value_ofInt, Dec.value_ofInt] at hv
    exact_mod_cast hv
  · intro h
    rw [h]

theorem native_inj (k : Kind) {v w : k.Val} : k.native v = k.native w ↔ v = w := by
  cases k with
  | text => simp [Kind.native]
  | integer => simp [Kind.native, ofInt_inj, Subtype.ext_iff]
  | boolean => simp [Kind.native]

/-- Only the value of `sqlEq` counts for a cell that is not null. -/
theorem sqlEq3_true {dialect : Dialect} {k : Kind} {c : Option k.Val} {w : Option SqlValue} :
    sqlEq3 dialect k c w = some true ↔
      ∃ v, c = some v ∧ ∃ u, w = some u ∧ sqlEq dialect k v u = true := by
  cases c with
  | none => simp [sqlEq3]
  | some v =>
    cases w with
    | none => simp [sqlEq3]
    | some u => simp [sqlEq3]

theorem matches_postgres (k : Kind) (c : Option k.Val) (v : k.Val) :
    (∃ u, k.value .postgres c = some u ∧ sqlEq .postgres k v u = true) ↔ k.ReadAs .postgres c v := by
  cases c with
  | none =>
    cases k <;> simp [Kind.value, Kind.ReadAs]
  | some w =>
    have h : (∃ u, k.value .postgres (some w) = some u ∧ sqlEq .postgres k v u = true) ↔ v = w := by
      simp [Kind.value, sqlEq, native_inj]
    rw [h]
    cases k <;> simp [Kind.ReadAs]

theorem stringRead_cases {s : String} {r : Scalar} (h : stringRead s = some r) :
    (∃ t, r = .str t) ∨ ∃ d, r = .num d := by
  unfold stringRead at h
  split at h
  next ds _ =>
    obtain ⟨p, _, rfl⟩ := Option.map_eq_some_iff.mp h
    exact .inr ⟨p.1, rfl⟩
  next =>
    split at h
    · cases h
    · exact .inl ⟨s, (Option.some.inj h).symm⟩

theorem textRead_unquote (s : String) : (stringRead s).bind jsonUnquote = (textRead s).map .text := by
  unfold textRead
  cases hr : stringRead s with
  | none => rfl
  | some r =>
    rcases stringRead_cases hr with ⟨t, rfl⟩ | ⟨d, rfl⟩
    · rfl
    · rfl

theorem textRead_extract (s : String) :
    ((stringRead s).bind jsonExtract).map SqlValue.toText = textRead s := by
  unfold textRead
  cases hr : stringRead s with
  | none => rfl
  | some r =>
    rcases stringRead_cases hr with ⟨t, rfl⟩ | ⟨d, rfl⟩
    · rfl
    · rfl

theorem sqlEq_mysql_text (v : String) (w : SqlValue) : sqlEq .mysql .text v w = true ↔ v = w.toText :=
  decide_eq_true_iff

theorem matches_mysql (k : Kind) (c : Option k.Val) (v : k.Val) :
    (∃ u, k.value .mysql c = some u ∧ sqlEq .mysql k v u = true) ↔ k.ReadAs .mysql c v := by
  cases k with
  | text =>
    cases c with
    | none =>
      have hs : Kind.value .mysql .text none = some (.text "null") := rfl
      simp only [hs, sqlEq_mysql_text, SqlValue.toText, Kind.ReadAs, Option.some.injEq,
        exists_eq_left', true_and]
    | some s =>
      have hs : Kind.value .mysql .text (some s) = (textRead s).map .text := textRead_unquote s
      rw [hs, Kind.ReadAs, if_neg (by decide)]
      simp only [sqlEq_mysql_text, Option.map_eq_some_iff]
      constructor
      · intro h
        obtain ⟨_, ⟨t, ht, rfl⟩, hv⟩ := h
        exact ht.trans (congrArg some hv.symm)
      · intro h
        exact ⟨.text v, ⟨v, h, rfl⟩, rfl⟩
  | integer =>
    cases c with
    | none =>
      have hs : Kind.value .mysql .integer none = some (.text "null") := rfl
      simp only [hs, sqlEq, Kind.ReadAs, Option.some.injEq, exists_eq_left', mysqlNumberEq_null, true_and]
    | some i =>
      have hs : Kind.value .mysql .integer (some i) =
          some (.text (String.ofList (Dec.ofInt i.1).print)) := rfl
      simp only [hs, sqlEq, Kind.ReadAs, Option.some.injEq, exists_eq_left', mysqlNumberEq_print, if_true]
  | boolean =>
    cases c with
    | none =>
      have hs : Kind.value .mysql .boolean none = some (.text "null") := rfl
      simp only [hs, sqlEq, Kind.ReadAs, Option.some.injEq, exists_eq_left', mysqlNumberEq_null,
        ofRat_boolInt, true_and]
      cases v <;> simp [boolInt]
    | some b =>
      have hs : Kind.value .mysql .boolean (some b) =
          some (.text (String.ofList (boolNum b).print)) := rfl
      simp only [hs, sqlEq, Kind.ReadAs, Option.some.injEq, exists_eq_left', boolNum_eq,
        mysqlNumberEq_print, ofRat_boolInt, Int.cast_inj, boolInt_inj]

theorem matches_sqlite (k : Kind) (c : Option k.Val) (v : k.Val) :
    (∃ u, k.value .sqlite c = some u ∧ sqlEq .sqlite k v u = true) ↔ k.ReadAs .sqlite c v := by
  cases c with
  | none =>
    have hs : k.value .sqlite none = none := by cases k <;> rfl
    rw [hs]
    cases k <;> simp [Kind.ReadAs]
  | some w =>
    cases k with
    | text =>
      have hs : (Kind.value .sqlite .text (some w)).map SqlValue.toText = textRead w :=
        textRead_extract w
      rw [Kind.ReadAs, if_neg (by decide), ← hs, Option.map_eq_some_iff]
      simp only [sqlEq, decide_eq_true_eq]
      exact exists_congr fun u => and_congr_right fun _ => eq_comm
    | integer =>
      have hs : Kind.value .sqlite .integer (some w) = some (.num (Dec.ofInt w.1)) := rfl
      rw [Kind.ReadAs, if_neg (by decide)]
      simp only [hs, sqlEq, Option.some.injEq, exists_eq_left', sqliteNumberEq_num, Subtype.ext_iff]
    | boolean =>
      have hs : Kind.value .sqlite .boolean (some w) = some (.num (boolNum w)) := rfl
      simp only [hs, sqlEq, Kind.ReadAs, Option.some.injEq, exists_eq_left', boolNum_eq,
        sqliteNumberEq_num, boolInt_inj]

/-- A cell of the row is found equal to an element exactly when it is a value that the element is
read as. -/
theorem sqlEq3_value (dialect : Dialect) (k : Kind) (x : Option k.Val) (c : Option k.Val) :
    sqlEq3 dialect k x (k.value dialect c) = some true ↔ ∃ v, x = some v ∧ k.ReadAs dialect c v := by
  rw [sqlEq3_true]
  apply exists_congr
  intro v
  apply and_congr_right
  intro _
  cases dialect with
  | postgres => exact matches_postgres k c v
  | mysql => exact matches_mysql k c v
  | sqlite => exact matches_sqlite k c v

/-! ## When the list is read back -/

/-- A string of the list that the encoder takes for one of its own bigints. -/
def Kind.forges : (k : Kind) → Option k.Val → Bool
  | .text, some s => forgesBigint s
  | _, _ => false

/-- A string that leaves no JSON text behind. -/
def Kind.breaks : (k : Kind) → Option k.Val → Bool
  | .text, some s => (stringRead s).isNone
  | _, _ => false

/-- The list as it is read from the JSON text: no string breaks the text, an element without a null
has no forging string, and on MySQL every row that an element is read as is in the list. -/
structure Test.ReadsBack (dialect : Dialect) (t : Test) : Prop where
  readable : ∀ e ∈ t.list, ∀ i, (t.kind i).breaks (e i) = false
  found : ∀ e ∈ t.list, (∀ i, e i ≠ none) → ∀ i, (t.kind i).forges (e i) = false
  alone : dialect = .mysql → ∀ e ∈ t.list, ∀ row,
    (∀ i, ∃ v, row i = some v ∧ (t.kind i).ReadAs .mysql (e i) v) → t.Contains row

theorem served_ne_none (dialect : Dialect) (k : Kind) (c : Option k.Val) :
    k.served dialect c ≠ none ↔ k.breaks c = false := by
  cases c with
  | none => cases k <;> simp [Kind.served, Kind.prim, leafRead, Kind.breaks]
  | some v =>
    cases k with
    | text =>
      have hs : Kind.served dialect .text (some v) = stringRead v := rfl
      rw [hs, Kind.breaks]
      cases stringRead v <;> simp
    | integer => simp [Kind.served, Kind.prim, leafRead, Kind.breaks]
    | boolean => simp [Kind.served, Kind.prim, leafRead, Kind.breaks]

theorem not_forges_of_chars {cs : List Char} (h : ∀ c ∈ cs, c ≠ '\x00' ∧ c ≠ '"') :
    forgesBigint (String.ofList cs) = false := by
  have hends : ∀ l : List Char, (∀ c ∈ l, c ≠ '"') → endsInMarker l = false := by
    intro l hl
    induction l with
    | nil => rfl
    | cons c l ih =>
      rw [endsInMarker, ih fun d hd => hl d (List.mem_cons_of_mem c hd),
        decide_eq_false (hl c List.mem_cons_self)]
      rfl
  have hmark : asMarker cs = none := by
    unfold asMarker
    split
    · exact absurd rfl (h _ List.mem_cons_self).1
    · rfl
  rw [forgesBigint, String.toList_ofList, hmark, hends cs fun c hc => (h c hc).2]
  rfl

theorem textRead_not_forges {s t : String} (h : textRead s = some t) : forgesBigint t = false := by
  unfold textRead at h
  split at h
  next u hu =>
    obtain rfl := Option.some.inj h
    have heq : s = u := by
      unfold stringRead at hu
      split at hu
      next => obtain ⟨p, _, hp⟩ := Option.map_eq_some_iff.mp hu; cases hp
      next =>
        split at hu
        · cases hu
        · exact Scalar.str.inj (Option.some.inj hu)
    rw [← heq, ← stringRead_eq_iff, hu, heq]
  next d hd =>
    cases h
    apply not_forges_of_chars
    intro c hc
    rcases print_chars d c hc with rfl | rfl | rfl | rfl | hdigit
    · decide
    · decide
    · decide
    · decide
    · constructor
      · rintro rfl
        exact absurd hdigit (by decide)
      · rintro rfl
        exact absurd hdigit (by decide)
  next => cases h

theorem textRead_self {s : String} (h : forgesBigint s = false) : textRead s = some s := by
  rw [textRead, (stringRead_eq_iff s).mpr h]

theorem readAs_not_forges {dialect : Dialect} (hd : dialect ≠ .postgres) {k : Kind}
    {c : Option k.Val} {v : k.Val} (h : k.ReadAs dialect c v) : k.forges (some v) = false := by
  cases k with
  | text =>
    cases c with
    | none =>
      obtain ⟨_, rfl⟩ := h
      decide +kernel
    | some s =>
      rw [Kind.ReadAs, if_neg hd] at h
      exact textRead_not_forges h
  | integer => rfl
  | boolean => rfl

theorem readAs_self (dialect : Dialect) {k : Kind} {v : k.Val} (h : k.forges (some v) = false) :
    k.ReadAs dialect (some v) v := by
  cases k with
  | text =>
    rw [Kind.ReadAs]
    split
    · rfl
    · exact textRead_self h
  | integer =>
    rw [Kind.ReadAs]
    split <;> rfl
  | boolean => rfl

theorem readAs_postgres {k : Kind} {c : Option k.Val} {v : k.Val} :
    k.ReadAs .postgres c v ↔ c = some v := by
  cases c with
  | none => cases k <;> simp [Kind.ReadAs]
  | some w => cases k <;> simp [Kind.ReadAs, eq_comm]

theorem readAs_sqlite {k : Kind} {c : Option k.Val} {v : k.Val} (h : k.ReadAs .sqlite c v) :
    c ≠ none ∧ (k.forges c = false → c = some v) := by
  cases c with
  | none => cases k <;> exact absurd h.1 (by decide)
  | some w =>
    refine ⟨Option.some_ne_none w, ?_⟩
    intro hf
    cases k with
    | text =>
      rw [Kind.ReadAs, if_neg (by decide), textRead_self hf] at h
      exact h
    | integer =>
      rw [Kind.ReadAs, if_neg (by decide)] at h
      rw [h]
    | boolean =>
      rw [Kind.ReadAs] at h
      rw [h]

theorem breaks_of_not_forges {k : Kind} {c : Option k.Val} (h : k.forges c = false) :
    k.breaks c = false := by
  cases c with
  | none => cases k <;> rfl
  | some v =>
    cases k with
    | text =>
      have hread : stringRead v = some (.str v) := (stringRead_eq_iff v).mpr h
      rw [Kind.breaks, hread]
      rfl
    | integer => rfl
    | boolean => rfl

/-- An integer that is the double of no other. -/
def Kind.small : (k : Kind) → Option k.Val → Bool
  | .integer, some i => |i.1| < 2 ^ 53
  | _, _ => true

theorem readAs_mysql {k : Kind} {c : Option k.Val} {v : k.Val} (hnull : c ≠ none)
    (hforge : k.forges c = false) (hsmall : k.small c = true) (h : k.ReadAs .mysql c v) :
    c = some v := by
  cases c with
  | none => exact absurd rfl hnull
  | some w =>
    cases k with
    | text =>
      rw [Kind.ReadAs, if_neg (by decide), textRead_self hforge] at h
      exact h
    | integer =>
      rw [Kind.ReadAs, if_pos rfl] at h
      have hw : |w.1| < 2 ^ 53 := of_decide_eq_true hsmall
      exact congrArg some (Subtype.ext (Binary64.ofRat_eq_small hw h)).symm
    | boolean =>
      rw [Kind.ReadAs] at h
      rw [h]

/-! ## A test's answer -/

/-- Some element of the list is read as the row. -/
def Test.Found (dialect : Dialect) (t : Test) (row : Cells t.kind) : Prop :=
  ∃ e ∈ t.list, ∀ i, ∃ v, row i = some v ∧ (t.kind i).ReadAs dialect (e i) v

theorem predicate_rows (dialect : Dialect) (t : Test) : (t.predicate dialect).rows =
    match dialect with
    | .postgres => Param.arrayRows
    | .mysql => Param.jsonRows t.shape jsonUnquote
    | .sqlite => Param.jsonRows t.shape jsonExtract := by
  obtain ⟨n, shape, table, columns, types, kind, list⟩ := t
  cases shape <;> cases dialect <;> rfl

/-- The test as a lookup among the values that the server has for the list. -/
def Test.lookup (dialect : Dialect) (t : Test) (row : Cells t.kind) : Option Bool :=
  orAll (t.list.map fun e => rowEq3 dialect row fun i => (t.kind i).value dialect (e i))

theorem truth_postgres (t : Test) (row : Cells t.kind) :
    t.truth .postgres row = some (t.lookup .postgres row) := by
  have hrows := arrayRows_columns t.shape t.list
  simp only [Test.truth, encodeParam, StaticPredicate.truth, predicate_rows, Param.arrayRows, hrows,
    Option.bind_eq_bind, Option.bind_some, Option.map_some, List.map_map, Test.lookup, Kind.value,
    Function.comp_def]

theorem truth_json {dialect : Dialect} (hd : dialect ≠ .postgres) (t : Test) (row : Cells t.kind) :
    t.truth dialect row =
      if Readable dialect t.list then some (t.lookup dialect row) else none := by
  obtain ⟨text, henc, hrows⟩ := rows_encoded dialect t.shape t.list
  cases dialect with
  | postgres => exact absurd rfl hd
  | mysql =>
    simp only [Test.truth, encodeParam, henc, StaticPredicate.truth, predicate_rows, Param.jsonRows,
      hrows, Option.bind_eq_bind, Option.map_some, Option.bind_some]
    split
    · simp only [Option.map_some, List.map_map, Test.lookup, Kind.value, Function.comp_def]
    · rfl
  | sqlite =>
    simp only [Test.truth, encodeParam, henc, StaticPredicate.truth, predicate_rows, Param.jsonRows,
      hrows, Option.bind_eq_bind, Option.map_some, Option.bind_some]
    split
    · simp only [Option.map_some, List.map_map, Test.lookup, Kind.value, Function.comp_def]
    · rfl

theorem rowEq3_true {n : Nat} {kind : Fin n → Kind} {dialect : Dialect} {row : Cells kind}
    {r : Fin n → Option SqlValue} :
    rowEq3 dialect row r = some true ↔ ∀ i, sqlEq3 dialect (kind i) (row i) (r i) = some true := by
  rw [rowEq3, andAll_true]
  constructor
  · intro h i
    exact h _ (List.mem_ofFn.mpr ⟨i, rfl⟩)
  · intro h v hv
    obtain ⟨i, rfl⟩ := List.mem_ofFn.mp hv
    exact h i

theorem lookup_true (dialect : Dialect) (t : Test) (row : Cells t.kind) :
    t.lookup dialect row = some true ↔ t.Found dialect row := by
  rw [Test.lookup, orAll_true]
  constructor
  · intro h
    obtain ⟨_, hv, rfl⟩ := h
    obtain ⟨e, he, heq⟩ := List.mem_map.mp hv
    exact ⟨e, he, fun i => (sqlEq3_value dialect _ _ _).mp (rowEq3_true.mp heq i)⟩
  · intro h
    obtain ⟨e, he, hall⟩ := h
    have heq := rowEq3_true.mpr fun i => (sqlEq3_value dialect _ _ _).mpr (hall i)
    exact ⟨_, List.mem_map.mpr ⟨e, he, rfl⟩, heq⟩

theorem found_self {dialect : Dialect} {t : Test} {row e : Cells t.kind} (he : e ∈ t.list)
    (hs : Same row e) (hf : ∀ i, (t.kind i).forges (e i) = false) : t.Found dialect row := by
  refine ⟨e, he, ?_⟩
  intro i
  obtain ⟨v, hrow, hev⟩ := hs i
  have hplain := hf i
  rw [hev] at hplain
  refine ⟨v, hrow, ?_⟩
  rw [hev]
  exact readAs_self dialect hplain

theorem same_complete {n : Nat} {kind : Fin n → Kind} {row e : Cells kind} (h : Same row e) :
    ∀ i, e i ≠ none := by
  intro i hnone
  obtain ⟨v, _, hev⟩ := h i
  rw [hev] at hnone
  cases hnone

theorem found_of_contains {dialect : Dialect} {t : Test} {row : Cells t.kind}
    (h : t.ReadsBack dialect) (hc : t.Contains row) : t.Found dialect row := by
  obtain ⟨e, he, hs⟩ := hc
  exact found_self he hs (h.found e he (same_complete hs))

theorem contains_of_found {dialect : Dialect} {t : Test} {row : Cells t.kind}
    (hd : dialect ≠ .postgres) (h : t.ReadsBack dialect) (hf : t.Found dialect row) :
    t.Contains row := by
  obtain ⟨e, he, hread⟩ := hf
  cases dialect with
  | postgres => exact absurd rfl hd
  | mysql => exact h.alone rfl e he row hread
  | sqlite =>
    have hcomplete : ∀ i, e i ≠ none := by
      intro i
      obtain ⟨v, _, hv⟩ := hread i
      exact (readAs_sqlite hv).1
    refine ⟨e, he, ?_⟩
    intro i
    obtain ⟨v, hrow, hv⟩ := hread i
    exact ⟨v, hrow, (readAs_sqlite hv).2 (h.found e he hcomplete i)⟩

theorem found_postgres {t : Test} {row : Cells t.kind} : t.Found .postgres row ↔ t.Contains row := by
  simp only [Test.Found, readAs_postgres, Test.Contains, Same]

theorem readable_iff {dialect : Dialect} {t : Test} : Readable dialect t.list ↔
    ∀ e ∈ t.list, ∀ i, (t.kind i).breaks (e i) = false := by
  simp only [Readable, served_ne_none]

/-- PostgreSQL is sent the values themselves; a JSON text has to give them back. -/
theorem Test.exact_iff (dialect : Dialect) (t : Test) :
    t.Exact dialect ↔ dialect = .postgres ∨ t.ReadsBack dialect := by
  by_cases hd : dialect = .postgres
  · subst hd
    refine iff_of_true ?_ (.inl rfl)
    intro row
    refine ⟨t.lookup .postgres row, truth_postgres t row, ?_⟩
    rw [lookup_true, found_postgres]
  · constructor
    · intro h
      have hreadable : Readable dialect t.list := by
        obtain ⟨v, hv, _⟩ := h fun _ => none
        rw [truth_json hd] at hv
        by_contra hno
        rw [if_neg hno] at hv
        cases hv
      have hiff : ∀ row, t.Found dialect row ↔ t.Contains row := by
        intro row
        obtain ⟨v, hv, hmeans⟩ := h row
        rw [truth_json hd, if_pos hreadable] at hv
        rw [← lookup_true, Option.some.inj hv]
        exact hmeans
      refine .inr ⟨readable_iff.mp hreadable, ?_, ?_⟩
      · intro e he hcomplete i
        -- the row that is the element itself has to be found
        have hself : t.Contains e := by
          refine ⟨e, he, ?_⟩
          intro j
          obtain ⟨v, hv⟩ := Option.ne_none_iff_exists'.mp (hcomplete j)
          exact ⟨v, hv, hv⟩
        obtain ⟨e', _, hread⟩ := (hiff e).mpr hself
        obtain ⟨v, hev, hv⟩ := hread i
        rw [hev]
        exact readAs_not_forges hd hv
      · intro hm e he row hread
        subst hm
        exact (hiff row).mp ⟨e, he, hread⟩
    · intro h row
      have hback := h.resolve_left hd
      refine ⟨t.lookup dialect row, ?_, ?_⟩
      · rw [truth_json hd, if_pos (readable_iff.mpr hback.readable)]
      · rw [lookup_true]
        exact ⟨contains_of_found hd hback, found_of_contains hback⟩

/-- The expanded list accepts the rows whose value is in it. -/
theorem expandedTruth_true (t : Test) (row : Cells t.kind) :
    expandedTruth t.list row = some true ↔ t.Contains row := by
  rw [← found_postgres, ← lookup_true]
  rfl

/-! ## Groups -/

mutual

theorem Tree.truth_means {dialect : Dialect} (row : Row) : ∀ tree : Tree Row,
    (∀ t ∈ tree.tests, t.Exact dialect) →
    ∃ v, tree.truth dialect row = some v ∧ (v = some true ↔ tree.Means row)
  | .test t cells, h => h t List.mem_cons_self (cells row)
  | .all parts, h => by
    obtain ⟨vs, hvs, hall, _⟩ := parts.truths_means row h
    refine ⟨andAll vs, by rw [Tree.truth, hvs]; rfl, ?_⟩
    rw [andAll_true, Tree.Means]
    exact hall
  | .any parts, h => by
    obtain ⟨vs, hvs, _, hany⟩ := parts.truths_means row h
    refine ⟨orAll vs, by rw [Tree.truth, hvs]; rfl, ?_⟩
    rw [orAll_true, Tree.Means]
    exact hany

theorem Trees.truths_means {dialect : Dialect} (row : Row) : ∀ parts : Trees Row,
    (∀ t ∈ parts.tests, t.Exact dialect) →
    ∃ vs, parts.truths dialect row = some vs ∧
      ((∀ v ∈ vs, v = some true) ↔ parts.MeansAll row) ∧
      ((∃ v ∈ vs, v = some true) ↔ parts.MeansAny row)
  | .nil, _ => ⟨[], rfl, by simp [Trees.MeansAll], by simp [Trees.MeansAny]⟩
  | .cons first rest, h => by
    rw [Trees.tests, List.forall_mem_append] at h
    obtain ⟨v, hv, hfirst⟩ := first.truth_means row h.1
    obtain ⟨vs, hvs, hall, hany⟩ := rest.truths_means row h.2
    refine ⟨v :: vs, ?_, ?_, ?_⟩
    · rw [Trees.truths, hv, hvs]
      rfl
    · rw [List.forall_mem_cons, Trees.MeansAll, hfirst, hall]
    · rw [List.exists_mem_cons_iff, Trees.MeansAny, hfirst, hany]

end

/-- On MySQL a list without nulls, forging strings and integers of more than 53 binary digits is
read back. -/
theorem readsBack_mysql {t : Test} (hnull : ∀ e ∈ t.list, ∀ i, e i ≠ none)
    (hforge : ∀ e ∈ t.list, ∀ i, (t.kind i).forges (e i) = false)
    (hsmall : ∀ e ∈ t.list, ∀ i, (t.kind i).small (e i) = true) : t.ReadsBack .mysql := by
  refine ⟨?_, fun e he _ => hforge e he, ?_⟩
  · intro e he i
    exact breaks_of_not_forges (hforge e he i)
  · intro _ e he row hread
    refine ⟨e, he, ?_⟩
    intro i
    obtain ⟨v, hrow, hv⟩ := hread i
    exact ⟨v, hrow, readAs_mysql (hnull e he i) (hforge e he i) (hsmall e he i) hv⟩

/-- `users.name IN (…)` with a list of one null. -/
def nullName : Test :=
  ⟨1, .column, "users", fun _ => "name", fun _ => "text[]", fun _ => .text, [fun _ => none]⟩

end LiteDb.SingleParam
