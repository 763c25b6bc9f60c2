import LiteDbModel.ColumnMembership

/-!
# What a column condition tests

`condToKeyValue` serializes a column's value and wraps it in the column's cast before
`DBConditions` looks at its kind. A compiled text is read back as a test of the column's
cell, so that the columns of every family can be held to one meaning.
-/

namespace LiteDb.ColumnTests
set_option autoImplicit false
open Membership

/-! ## Tests and the rows they accept -/

/-- What a cell is compared with: a bound value, or a text of the statement. -/
inductive Operand
  | param (v : CondVal)
  | sql (p : Piece)

def Operand.isNull : Operand → Bool
  | .param v => v.isNull
  | .sql _ => false

inductive Test
  | all
  | isNull
  | among (operands : List Operand)
  /-- Any other condition, by its text. -/
  | own (p : Piece)

/-- Rows with the column's cell in each, and whether a comparison and a text hold in them. -/
structure Table where
  Row : Type
  Cell : Type
  cell : Row → Option Cell
  equals : Cell → Operand → Bool
  holds : Piece → Row → Option Bool

def Operand.nonNull (o : Operand) : Option Operand := if o.isNull then none else some o

/-- Three-valued; a null cell equals nothing. -/
def Table.truth (T : Table) (row : T.Row) : Test → Option Bool
  | .all => some true
  | .isNull => some (T.cell row).isNone
  | .among operands => (T.cell row).bind fun x => member3 T.equals x (operands.map Operand.nonNull)
  | .own p => T.holds p row

def Table.Accepts (T : Table) (row : T.Row) (t : Test) : Prop := T.truth row t = some true

/-- Accepting the same rows of every table. -/
def SameRows (t u : Test) : Prop := ∀ (T : Table) (row : T.Row), T.Accepts row t ↔ T.Accepts row u

/-- A test up to the order, the repetition and the nulls of its operands. -/
inductive Meaning
  | all
  | isNull
  | oneOf (operands : Set Operand)
  | own (p : Piece)

def operandSet (operands : List Operand) : Set Operand := {o | o ∈ operands ∧ o.isNull = false}

def Test.meaning : Test → Meaning
  | .all => .all
  | .isNull => .isNull
  | .among operands => .oneOf (operandSet operands)
  | .own p => .own p

def Table.Meets (T : Table) (row : T.Row) : Meaning → Prop
  | .all => True
  | .isNull => T.cell row = none
  | .oneOf operands => ∃ x, T.cell row = some x ∧ ∃ o ∈ operands, T.equals x o = true
  | .own p => T.holds p row = some true

theorem some_mem_nonNull {operands : List Operand} {o : Operand} :
    some o ∈ operands.map Operand.nonNull ↔ o ∈ operandSet operands := by
  rw [List.mem_map]
  constructor
  · intro h
    obtain ⟨q, hq, ho⟩ := h
    rw [Operand.nonNull] at ho
    split at ho
    · cases ho
    · next hnull =>
      cases ho
      exact ⟨hq, Bool.eq_false_iff.mpr hnull⟩
  · intro h
    obtain ⟨hmem, hnull⟩ := h
    refine ⟨o, hmem, ?_⟩
    rw [Operand.nonNull, hnull, if_neg Bool.false_ne_true]

theorem accepts_iff (T : Table) (row : T.Row) (t : Test) :
    T.Accepts row t ↔ T.Meets row t.meaning := by
  unfold Table.Accepts
  cases t with
  | all => simp [Table.truth, Table.Meets, Test.meaning]
  | isNull => simp [Table.truth, Table.Meets, Test.meaning]
  | among operands =>
    simp only [Table.truth, Table.Meets, Test.meaning, Option.bind_eq_some_iff, member3_true,
      some_mem_nonNull]
  | own p => rfl

/-- A table of one row whose cell is null. -/
def nullTable : Table where
  Row := Unit
  Cell := Unit
  cell _ := none
  equals _ _ := false
  holds _ _ := none

/-- A table of one row, whose cell equals the given operands. -/
def cellTable (equals : Operand → Bool) (holds : Piece → Option Bool) : Table where
  Row := Unit
  Cell := Unit
  cell _ := some ()
  equals _ := equals
  holds p _ := holds p

theorem oneOf_subset {R S : Set Operand}
    (h : ∀ (T : Table) (row : T.Row), T.Meets row (.oneOf R) → T.Meets row (.oneOf S)) : R ⊆ S := by
  classical
  intro o ho
  obtain ⟨x, hx, q, hq, heq⟩ := h (cellTable (fun q => decide (q = o)) fun _ => none) ()
    ⟨(), rfl, o, ho, by simp [cellTable]⟩
  obtain rfl : q = o := by simpa [cellTable] using heq
  exact hq

/-- Tables tell different meanings apart. -/
theorem meaning_ext {m n : Meaning}
    (h : ∀ (T : Table) (row : T.Row), T.Meets row m ↔ T.Meets row n) : m = n := by
  classical
  have hnull := h nullTable ()
  have hnone := h (cellTable (fun _ => false) fun _ => none) ()
  have hholds := h (cellTable (fun _ => false) fun _ => some true) ()
  cases m with
  | all =>
    clear h
    cases n <;> simp_all [Table.Meets, nullTable, cellTable]
  | isNull =>
    clear h
    cases n <;> simp_all [Table.Meets, nullTable, cellTable]
  | oneOf R =>
    cases n with
    | oneOf S =>
      have hsub : R ⊆ S := oneOf_subset fun T row => (h T row).mp
      have hsup : S ⊆ R := oneOf_subset fun T row => (h T row).mpr
      rw [Set.Subset.antisymm hsub hsup]
    | _ =>
      clear h
      simp_all [Table.Meets, nullTable, cellTable]
  | own p =>
    cases n with
    | own q =>
      have hq := (h (cellTable (fun _ => false) fun q => decide (q = p)) ()).mp
        (by simp [Table.Meets, cellTable])
      obtain rfl : q = p := by simpa [Table.Meets, cellTable] using hq
      rfl
    | _ =>
      clear h
      simp_all [Table.Meets, nullTable, cellTable]

theorem sameRows_iff {t u : Test} : SameRows t u ↔ t.meaning = u.meaning := by
  constructor
  · intro h
    apply meaning_ext
    intro T row
    rw [← accepts_iff, ← accepts_iff]
    exact h T row
  · intro h T row
    rw [accepts_iff, accepts_iff, h]

/-! ## Reading a compiled condition -/

/-- A column whose name holds no opening parenthesis either. -/
structure TestedColumn extends NamedColumn where
  unbracketed : '(' ∉ column.columnName.toList

def TestedColumn.name (c : TestedColumn) : String := c.column.columnName

/-- The placeholders a text may use for the column: the plain one, and the one with its cast. -/
def TestedColumn.holes (dialect : Dialect) (c : TestedColumn) : List String :=
  ["?", c.toNamedColumn.placeholder dialect]

theorem atom_null : JsVal.null.isAtom = true := rfl

theorem atom_bool (b : Bool) : (JsVal.bool b).isAtom = true := rfl

/-- The test that a text states of the column. -/
def readTest (name : String) (holes : List String) (p : Piece) : Test :=
  if p.params.isEmpty then
    if p.sql = "" then .all
    else if p.sql = "1 = 0" then .among []
    else if p.sql = name ++ " IS NULL" then .isNull
    else if p.sql = name ++ " = TRUE" then .among [.param (.js (.bool true) (atom_bool true))]
    else if p.sql = name ++ " = FALSE" then .among [.param (.js (.bool false) (atom_bool false))]
    else .own p
  else if p.params.length = 1 ∧ ∃ hole ∈ holes, p.sql = name ++ " = " ++ hole then
    .among (p.params.map .param)
  else if ∃ hole ∈ holes, p.sql = name ++ " IN (" ++ placeholders hole p.params ++ ")" then
    .among (p.params.map .param)
  else .own p

/-- What `[column, value]` compiles to on its own; nothing for `SKIP`. -/
def predicate (fmt : Formatter) (c : Column) (v : CondVal) : Piece :=
  match (CondElem.column c v).keyValue with
  | none => .blank
  | some kv => own fmt kv

def TestedColumn.reads (dialect : Dialect) (c : TestedColumn) (p : Piece) : Test :=
  readTest c.name (c.holes dialect) p

def TestedColumn.test (dialect : Dialect) (c : TestedColumn) (v : CondVal) : Test :=
  c.reads dialect (predicate (getSqlCastFormatter dialect) c.column v)

def Column.uncast (c : Column) : Column := { c with sqlCast := none }

/-- The test of the same column without its cast. -/
def TestedColumn.uncastTest (dialect : Dialect) (c : TestedColumn) (v : CondVal) : Test :=
  c.reads dialect (predicate (getSqlCastFormatter dialect) (Column.uncast c.column) v)

/-! ## The meaning of a value -/

/-- The text and the parameters of an `sql` fragment. -/
def fragmentOf : CondVal → Option Piece
  | .obj ps =>
    match Props.get ps "_tag", Props.get ps "sql", Props.get ps "params" with
    | some (.js (.str tag) _), some (.js (.str sql) _), some (.arr params) =>
      if tag ∈ ["SqlFragment", "SqlTypedFragment", "SqlCondition"] then some ⟨sql, params⟩ else none
    | _, _, _ => none
  | _ => none

/-- The condition that a token or a subcondition states by itself. -/
def ownText (fmt : Formatter) (name : String) : CondVal → Option Piece
  | .token t => some (t.compile fmt name)
  | .nested d => some (compile fmt d).wrap
  | _ => none

/-- The SQL of a token, a subcondition or a fragment as a value. -/
def valueText (fmt : Formatter) (v : CondVal) : Option Piece :=
  (ownText fmt "" v).or (fragmentOf v)

def operand (fmt : Formatter) (v : CondVal) : Operand :=
  match valueText fmt v with
  | some p => .sql p
  | none => .param v

/-- The column's serialization, which leaves SQL as it is. -/
def bindValue (fmt : Formatter) (c : Column) (v : CondVal) : CondVal :=
  match valueText fmt v, c.serialize with
  | none, some f => f v
  | _, _ => v

/-- The condition that a single value states of the column. -/
def TestedColumn.states (dialect : Dialect) (c : TestedColumn) (v : CondVal) : Test :=
  match ownText (getSqlCastFormatter dialect) c.name v with
  | some p => c.reads dialect p
  | none => .among [operand (getSqlCastFormatter dialect) v]

/-- What `[column, value]` means, whatever the column's family. -/
def TestedColumn.meant (dialect : Dialect) (c : TestedColumn) : CondVal → Test
  | .skip | .js .undefined _ => .all
  | .js .null _ => .isNull
  | .arr xs => .among (xs.map fun x => operand (getSqlCastFormatter dialect)
      (bindValue (getSqlCastFormatter dialect) c.column x))
  | v => c.states dialect (bindValue (getSqlCastFormatter dialect) c.column v)

/-- The compiled condition accepts the rows it means, and the column's cast changes none. -/
def MeansTheSame (dialect : Dialect) (c : TestedColumn) (v : CondVal) : Prop :=
  SameRows (c.test dialect v) (c.meant dialect v) ∧
    SameRows (c.test dialect v) (c.uncastTest dialect v)

/-! ## The values that keep their meaning -/

/-- A value to be bound: neither null nor a list, and no `true` under a name with a blank. -/
def Bindable (name : String) : CondVal → Prop
  | .js v _ => v ≠ .null ∧ (v = .bool true → ' ' ∉ name.toList)
  | .arr _ => False
  | v => fragmentOf v = none

/-- Whether the condition of a column and a value is compiled to what it means, by the value's
kind; `b` is what the column's serializer makes of it. -/
def Sound (dialect : Dialect) (c : TestedColumn) (v : CondVal) : Prop :=
  let fmt := getSqlCastFormatter dialect
  let b := serializeCondValue c.column v
  match v with
  | .skip | .token _ => True
  | .js .undefined _ => c.column.cast = none ∧ reserved c.name ∧ ownText fmt c.name b = none
  | .js .null _ => c.column.cast = none ∧
      (b = .js .null atom_null ∧ ¬reserved c.name ∨
        ownText fmt c.name b = some ⟨c.name ++ " IS NULL", []⟩)
  | .nested d => c.column.cast = none ∧ ownText fmt c.name b = some (compile fmt d).wrap
  | .arr xs => ¬reserved c.name ∧
      ∀ x ∈ xs, valueText fmt x = none ∧ valueText fmt (bindValue fmt c.column x) = none
  | v => fragmentOf v = none ∧
      if (ownText fmt c.name b).isSome then c.column.cast = none
      else ¬reserved c.name ∧ Bindable c.name b

/-! ## What the reader makes of a text -/

section Reader
variable {c : TestedColumn} {dialect : Dialect} {p : Piece}

theorem reads_own {q : Piece} (h : c.reads dialect p = .own q) : q = p := by
  unfold TestedColumn.reads readTest at h
  split_ifs at h <;> exact (Test.own.inj h).symm

theorem reads_all (h : c.reads dialect p = .all) : p.sql = "" := by
  unfold TestedColumn.reads readTest at h
  split_ifs at h with _ hempty
  exact hempty

theorem reads_null (h : c.reads dialect p = .isNull) : p = ⟨c.name ++ " IS NULL", []⟩ := by
  unfold TestedColumn.reads readTest at h
  split_ifs at h with hparams _ _ hsql
  obtain ⟨sql, params⟩ := p
  obtain rfl := List.isEmpty_iff.mp hparams
  exact congrArg (Piece.mk · []) hsql

/-- The operands read off a text are its parameters, or a truth value. -/
theorem reads_among {operands : List Operand} (h : c.reads dialect p = .among operands) :
    ∀ o ∈ operands, (∃ v ∈ p.params, o = .param v) ∨ ∃ b, o = .param (.js (.bool b) rfl) := by
  have hparams : ∀ o ∈ p.params.map Operand.param, ∃ v ∈ p.params, o = .param v := by
    intro o ho
    obtain ⟨v, hv, rfl⟩ := List.mem_map.mp ho
    exact ⟨v, hv, rfl⟩
  unfold TestedColumn.reads readTest at h
  split_ifs at h <;> obtain rfl := Test.among.inj h <;> intro o ho
  · cases ho
  · exact Or.inr ⟨true, List.mem_singleton.mp ho⟩
  · exact Or.inr ⟨false, List.mem_singleton.mp ho⟩
  · exact Or.inl (hparams o ho)
  · exact Or.inl (hparams o ho)

theorem read_never : c.reads dialect ⟨"1 = 0", []⟩ = .among [] := rfl

theorem ends_ne {s t u : String} {a b : Char} (hs : s.toList.getLast? = some a)
    (hu : u.toList.getLast? = some b) (h : a ≠ b) : t ++ s ≠ u := by
  intro heq
  have hlast := congrArg (fun x => x.toList.getLast?) heq
  simp only [String.toList_append, List.getLast?_append, hs, hu] at hlast
  exact h (Option.some.inj hlast)

theorem read_null : c.reads dialect ⟨c.name ++ " IS NULL", []⟩ = .isNull := by
  have hempty : c.name ++ " IS NULL" ≠ "" := append_ne_empty (by decide)
  have hnever : c.name ++ " IS NULL" ≠ "1 = 0" :=
    ends_ne (a := 'L') (b := '0') (by decide) (by decide) (by decide)
  simp [TestedColumn.reads, readTest, hempty, hnever]

theorem read_bool (b : Bool) :
    c.reads dialect ⟨c.name ++ " = " ++ (if b then "TRUE" else "FALSE"), []⟩ =
      .among [.param (.js (.bool b) rfl)] := by
  have hlast : ∀ s : String, c.name ++ " = " ++ s = c.name ++ (" = " ++ s) :=
    fun s => String.append_assoc
  have hempty : ∀ s, c.name ++ (" = " ++ s) ≠ "" := by
    intro s
    rw [← hlast]
    exact append_append_ne_empty (by decide)
  have hnull : ∀ s, c.name ++ (" = " ++ s) ≠ c.name ++ " IS NULL" := by
    intro s h
    have hl := congrArg String.toList h
    simp [String.toList_append] at hl
  cases b with
  | true =>
    have hnever : c.name ++ " = TRUE" ≠ "1 = 0" :=
      ends_ne (a := 'E') (b := '0') (by decide) (by decide) (by decide)
    have htext : " = " ++ "TRUE" = " = TRUE" := by decide
    have h1 := hempty "TRUE"
    have h2 := hnull "TRUE"
    simp only [if_true, hlast]
    rw [htext] at h1 h2 ⊢
    simp [TestedColumn.reads, readTest, h1, h2, hnever]
  | false =>
    have hnever : c.name ++ " = FALSE" ≠ "1 = 0" :=
      ends_ne (a := 'E') (b := '0') (by decide) (by decide) (by decide)
    have htext : " = " ++ "FALSE" = " = FALSE" := by decide
    have h1 := hempty "FALSE"
    have h2 := hnull "FALSE"
    have htrue : c.name ++ " = FALSE" ≠ c.name ++ " = TRUE" := by
      intro h
      have hl := congrArg String.toList h
      simp [String.toList_append] at hl
    simp only [Bool.false_eq_true, if_false, hlast]
    rw [htext] at h1 h2 ⊢
    simp [TestedColumn.reads, readTest, h1, h2, hnever, htrue]

theorem read_equals {hole : String} (h : hole ∈ c.holes dialect) (v : CondVal) :
    c.reads dialect ⟨c.name ++ " = " ++ hole, [v]⟩ = .among [.param v] := by
  have hmatch : ∃ hole' ∈ c.holes dialect, c.name ++ " = " ++ hole = c.name ++ " = " ++ hole' :=
    ⟨hole, h, rfl⟩
  simp only [TestedColumn.reads, readTest, List.isEmpty_cons, Bool.false_eq_true, if_false,
    List.length_singleton, true_and, if_pos hmatch, List.map_cons, List.map_nil]

theorem read_in {hole : String} (h : hole ∈ c.holes dialect) {values : List CondVal}
    (hne : values ≠ []) :
    c.reads dialect ⟨c.name ++ " IN (" ++ placeholders hole values ++ ")", values⟩ =
      .among (values.map .param) := by
  have hempty : values.isEmpty = false := List.isEmpty_eq_false_iff.mpr hne
  have hmatch : ∃ hole' ∈ c.holes dialect, c.name ++ " IN (" ++ placeholders hole values ++ ")" =
      c.name ++ " IN (" ++ placeholders hole' values ++ ")" := ⟨hole, h, rfl⟩
  simp only [TestedColumn.reads, readTest, hempty, Bool.false_eq_true, if_false, if_pos hmatch,
    ite_self]

/-- A text in parentheses is none of the column's own. -/
theorem read_wrap (q : Piece) : c.reads dialect q.wrap = .own q.wrap := by
  have hhead : ∀ rest : String, q.wrap.sql ≠ c.name ++ rest := by
    intro rest heq
    have hl := congrArg (fun s => s.toList.head?) heq
    have hname : c.name ≠ "" := name_ne_empty c.toNamedColumn
    rcases hn : c.name.toList with _ | ⟨a, as⟩
    · exact hname (String.toList_injective hn)
    · simp only [Piece.wrap, String.toList_append, hn] at hl
      have hopen : "(".toList = ['('] := by decide
      rw [hopen] at hl
      obtain rfl : '(' = a := by simpa using hl
      exact c.unbracketed (by
        have : c.column.columnName.toList = '(' :: as := hn
        rw [this]
        exact List.mem_cons_self)
  have hempty : q.wrap.sql ≠ "" := append_ne_empty (by decide)
  have hnever : q.wrap.sql ≠ "1 = 0" := by
    have : "(" ++ q.sql ++ ")" ≠ "1 = 0" :=
      ends_ne (a := ')') (b := '0') (by decide) (by decide) (by decide)
    exact this
  have hequals : ∀ hole, q.wrap.sql ≠ c.name ++ " = " ++ hole := by
    intro hole
    rw [String.append_assoc]
    exact hhead _
  have hin : ∀ hole, q.wrap.sql ≠ c.name ++ " IN (" ++ placeholders hole q.wrap.params ++ ")" := by
    intro hole
    rw [String.append_assoc, String.append_assoc]
    exact hhead _
  simp only [TestedColumn.reads, readTest, hempty, hnever, hhead, hequals, hin, if_false,
    and_false, exists_const, ite_self]

end Reader

/-! ## The two ways of compiling a value -/

/-- The operands that are bound under a cast. -/
def boundOperands : CondVal → List Operand
  | .arr xs => xs.map .param
  | b => [.param b]

section Compiled
variable {c : TestedColumn} {dialect : Dialect} {v : CondVal}

/-- The test of a column without a cast, from the serialized value. -/
def TestedColumn.plain (dialect : Dialect) (c : TestedColumn) (b : CondVal) : Test :=
  c.reads dialect (compileCondition (getSqlCastFormatter dialect) c.name b)

theorem name_ne_raw (c : TestedColumn) : c.name ≠ "__raw__" := fun h => c.named (by
  have hn : c.column.columnName = "__raw__" := h
  rw [hn]
  decide)

theorem name_ne_or (c : TestedColumn) : c.name ≠ "__or__" := fun h => c.named (by
  have hn : c.column.columnName = "__or__" := h
  rw [hn]
  decide)

theorem cast_cases (col : Column) :
    (col.cast = none ∧ (col.sqlCast = none ∨ col.sqlCast = some "")) ∨
      ∃ sqlCast, col.cast = some sqlCast ∧ col.sqlCast = some sqlCast ∧ sqlCast ≠ "" := by
  rcases h : col.sqlCast with _ | sqlCast
  · exact Or.inl ⟨by rw [Column.cast, h]; rfl, Or.inl rfl⟩
  · by_cases hempty : sqlCast = ""
    · subst hempty
      exact Or.inl ⟨by rw [Column.cast, h]; rfl, Or.inr rfl⟩
    · exact Or.inr ⟨sqlCast, by simp [Column.cast, h, hempty], rfl, hempty⟩

theorem columnValue_token (col : Column) (t : DBToken) :
    columnValue col (.token t) = .token t := rfl

theorem columnValue_plain {col : Column} (h : col.cast = none) (hv : ∀ t, v ≠ .token t) :
    columnValue col v = serializeCondValue col v := by
  have hcast : col.sqlCast = none ∨ col.sqlCast = some "" := by
    rcases cast_cases col with hc | ⟨sqlCast, hc, _⟩
    · exact hc.2
    · rw [h] at hc
      cases hc
  unfold columnValue
  split
  · next t => exact absurd rfl (hv t)
  · rcases hcast with hc | hc <;> simp only [hc]

theorem columnValue_cast {col : Column} {sqlCast : String} (h : col.cast = some sqlCast)
    (hv : ∀ t, v ≠ .token t) :
    columnValue col v =
      match serializeCondValue col v with
      | .arr xs => .token (.castArray xs sqlCast)
      | w => .token (.cast w sqlCast "=") := by
  obtain ⟨hsql, hne⟩ : col.sqlCast = some sqlCast ∧ sqlCast ≠ "" := by
    rcases cast_cases col with hc | ⟨sqlCast', hc, hsql, hne⟩
    · rw [hc.1] at h
      cases h
    · rw [h] at hc
      cases hc
      exact ⟨hsql, hne⟩
  unfold columnValue
  split
  · next t => exact absurd rfl (hv t)
  · rw [hsql]
    split
    · next hnone => cases hnone
    · next hnone =>
      cases hnone
      exact absurd rfl hne
    · next sqlCast' _ hsome =>
      cases hsome
      rfl

theorem predicate_eq (fmt : Formatter) (col : Column) (hv : v ≠ .skip) :
    predicate fmt col v = compileCondition fmt col.columnName (columnValue col v) := by
  unfold predicate
  cases v with
  | skip => exact absurd rfl hv
  | _ => rfl

theorem compile_token (fmt : Formatter) (c : TestedColumn) (t : DBToken) :
    compileCondition fmt c.name (.token t) = t.compile fmt c.name := by
  rw [compileCondition, if_neg (name_ne_raw c)]

theorem compile_nested (fmt : Formatter) (c : TestedColumn) (d : DBConditions) :
    compileCondition fmt c.name (.nested d) = (compile fmt d).wrap := by
  rw [compileCondition, if_neg (name_ne_raw c)]

/-- SQL of its own is compiled as it is. -/
theorem compile_ownText {fmt : Formatter} {b : CondVal} {p : Piece}
    (h : ownText fmt c.name b = some p) : compileCondition fmt c.name b = p := by
  cases b with
  | token t =>
    rw [compile_token]
    exact Option.some.inj h
  | nested d =>
    rw [compile_nested]
    exact Option.some.inj h
  | _ => cases h

theorem test_token (t : DBToken) : c.test dialect (.token t) =
    c.reads dialect (t.compile (getSqlCastFormatter dialect) c.name) := by
  rw [TestedColumn.test, predicate_eq _ _ (by simp), columnValue_token]
  exact congrArg _ (compile_token _ c t)

theorem uncastTest_token (t : DBToken) : c.uncastTest dialect (.token t) =
    c.reads dialect (t.compile (getSqlCastFormatter dialect) c.name) := by
  rw [TestedColumn.uncastTest, predicate_eq _ _ (by simp), columnValue_token]
  exact congrArg _ (compile_token _ c t)

theorem test_plain (hcast : c.column.cast = none) (hs : v ≠ .skip) (ht : ∀ t, v ≠ .token t) :
    c.test dialect v = c.plain dialect (serializeCondValue c.column v) := by
  rw [TestedColumn.test, predicate_eq _ _ hs, columnValue_plain hcast ht]
  rfl

theorem uncastTest_plain (hs : v ≠ .skip) (ht : ∀ t, v ≠ .token t) :
    c.uncastTest dialect v = c.plain dialect (serializeCondValue c.column v) := by
  rw [TestedColumn.uncastTest, predicate_eq _ _ hs, columnValue_plain rfl ht]
  rfl

/-- Under a cast every value is bound, whatever its kind. -/
theorem test_cast {sqlCast : String} (hcast : c.column.cast = some sqlCast) (hs : v ≠ .skip)
    (ht : ∀ t, v ≠ .token t) :
    c.test dialect v = .among (boundOperands (serializeCondValue c.column v)) := by
  have hname : c.name ≠ "" := name_ne_empty c.toNamedColumn
  have hhole : (getSqlCastFormatter dialect).format "?" sqlCast ∈ c.holes dialect := by
    simp [TestedColumn.holes, NamedColumn.placeholder, hcast]
  have hone : ∀ w, c.reads dialect ((DBToken.cast w sqlCast "=").compile
      (getSqlCastFormatter dialect) c.name) = .among [.param w] := by
    intro w
    have htext : keyed c.name
        (" " ++ "=" ++ " " ++ (getSqlCastFormatter dialect).format "?" sqlCast)
        ((getSqlCastFormatter dialect).format "?" sqlCast) =
        c.name ++ " = " ++ (getSqlCastFormatter dialect).format "?" sqlCast := by
      rw [keyed, if_pos hname]
      apply String.toList_injective
      simp [String.toList_append]
    rw [DBToken.compile, htext]
    exact read_equals hhole w
  rw [TestedColumn.test, predicate_eq _ _ hs, columnValue_cast hcast ht]
  cases hb : serializeCondValue c.column v with
  | arr xs =>
    refine (congrArg (c.reads dialect) (compile_token _ c _)).trans ?_
    rw [DBToken.compile, inList]
    split
    · next hnil =>
      subst hnil
      exact read_never
    · next hne =>
      rw [boundOperands, ← read_in hhole hne]
      apply congrArg
      apply congrArg (Piece.mk · xs)
      rw [keyed, if_pos hname]
      apply String.toList_injective
      simp [String.toList_append]
  | _ => exact (congrArg (c.reads dialect) (compile_token _ c _)).trans (hone _)

theorem uncastTest_of_none (hcast : c.column.cast = none) :
    c.uncastTest dialect v = c.test dialect v := by
  by_cases hs : v = .skip
  · subst hs
    rfl
  · by_cases ht : ∃ t, v = .token t
    · obtain ⟨t, rfl⟩ := ht
      rw [uncastTest_token, test_token]
    · have ht' : ∀ t, v ≠ .token t := fun t h => ht ⟨t, h⟩
      rw [test_plain hcast hs ht', uncastTest_plain hs ht']

/-! ## The plain test by the kind of the serialized value -/

theorem plain_ownText {b : CondVal} {p : Piece}
    (h : ownText (getSqlCastFormatter dialect) c.name b = some p) :
    c.plain dialect b = c.reads dialect p := by
  rw [TestedColumn.plain, compile_ownText h]

theorem plain_reserved {b : CondVal} (h : ownText (getSqlCastFormatter dialect) c.name b = none)
    (hres : reserved c.name = true) : c.plain dialect b = .all := by
  rw [TestedColumn.plain]
  cases b with
  | token t => cases h
  | nested d => cases h
  | arr xs =>
    rw [compileCondition, if_neg (name_ne_or c), if_neg (name_ne_raw c), if_pos hres]
    rfl
  | js w hw =>
    simp only [compileCondition, if_neg (name_ne_raw c), if_pos hres]
    rfl
  | skip =>
    rw [compileCondition, if_pos hres]
    rfl
  | obj ps =>
    rw [compileCondition, if_pos hres]
    rfl

theorem plain_null (hres : ¬reserved c.name = true) :
    c.plain dialect (.js .null rfl) = .isNull := by
  simp only [TestedColumn.plain, compileCondition, if_neg (name_ne_raw c), if_neg hres, compileJs]
  exact read_null

theorem plain_arr (hres : ¬reserved c.name = true) (xs : List CondVal) :
    c.plain dialect (.arr xs) = .among (xs.map .param) := by
  have hhole : "?" ∈ c.holes dialect := List.mem_cons_self
  have hunmarked : hasHole c.name = false := c.unmarked
  rw [TestedColumn.plain, compileCondition, if_neg (name_ne_or c), if_neg (name_ne_raw c),
    if_neg hres, compileArray, hunmarked, if_neg Bool.false_ne_true]
  split
  · next hnil =>
    subst hnil
    exact read_never
  · next hne => exact read_in hhole hne

theorem plain_scalar (v : CondVal) :
    c.reads dialect (compileScalar c.name v) = .among [.param v] := by
  have hunmarked : hasHole c.name = false := c.unmarked
  have htext : c.name ++ " = ?" = c.name ++ " = " ++ "?" := by
    apply String.toList_injective
    simp [String.toList_append]
  rw [compileScalar, hunmarked, if_neg Bool.false_ne_true, htext]
  exact read_equals List.mem_cons_self v

theorem plain_bool (hres : ¬reserved c.name = true) (b : Bool)
    (h : b = true → ' ' ∉ c.name.toList) :
    c.plain dialect (.js (.bool b) rfl) = .among [.param (.js (.bool b) rfl)] := by
  simp only [TestedColumn.plain, compileCondition, if_neg (name_ne_raw c), if_neg hres, compileJs,
    compileBool, if_neg fun hb : b = true ∧ ' ' ∈ c.name.toList => h hb.1 hb.2]
  exact read_bool b

theorem plain_blankTrue (hres : ¬reserved c.name = true) (h : ' ' ∈ c.name.toList) :
    c.plain dialect (.js (.bool true) rfl) = c.reads dialect ⟨c.name, []⟩ := by
  simp only [TestedColumn.plain, compileCondition, if_neg (name_ne_raw c), if_neg hres, compileJs,
    compileBool, h, and_self, if_true]

end Compiled

/-! ## A token binds only parts of itself -/

theorem whereClause_params {ps : List Piece} {w : CondVal} (h : w ∈ (whereClause ps).params) :
    ∃ p ∈ ps, w ∈ p.params := by
  unfold whereClause at h
  split at h
  · cases h
  · exact List.mem_flatMap.mp h

theorem inList_params {key placeholder : String} {values : List CondVal} {w : CondVal}
    (h : w ∈ (inList key placeholder values).params) : w ∈ values := by
  unfold inList at h
  split at h
  · cases h
  · exact h

mutual
theorem token_param_lt (fmt : Formatter) (key : String) (t : DBToken) {w : CondVal}
    (h : w ∈ (t.compile fmt key).params) : sizeOf w < sizeOf t := by
  cases t with
  | value v operator =>
    obtain rfl := List.mem_singleton.mp h
    simp only [DBToken.value.sizeOf_spec]
    omega
  | cast v sqlType operator =>
    obtain rfl := List.mem_singleton.mp h
    simp only [DBToken.cast.sizeOf_spec]
    omega
  | array values =>
    have hlt := List.sizeOf_lt_of_mem (inList_params h)
    simp only [DBToken.array.sizeOf_spec]
    omega
  | castArray values sqlType =>
    have hlt := List.sizeOf_lt_of_mem (inList_params h)
    simp only [DBToken.castArray.sizeOf_spec]
    omega
  | dynamic func values =>
    have hlt : sizeOf w < sizeOf values := List.sizeOf_lt_of_mem h
    simp only [DBToken.dynamic.sizeOf_spec]
    omega
  | tupleIn columns tuples =>
    rw [DBToken.compile] at h
    split at h
    · cases h
    · obtain ⟨t, ht, hw⟩ := List.mem_flatten.mp h
      have htuple := List.sizeOf_lt_of_mem ht
      have hlt := List.sizeOf_lt_of_mem hw
      simp only [DBToken.tupleIn.sizeOf_spec]
      omega
  | subquery parentColumns tableName selectColumns conditions notIn =>
    obtain ⟨p, hp, hw⟩ := whereClause_params h
    have hlt := subqueryConditions_lt conditions hp hw
    simp only [DBToken.subquery.sizeOf_spec]
    omega
  | existsIn tableName conditions notExists =>
    obtain ⟨p, hp, hw⟩ := whereClause_params h
    have hlt := subqueryConditions_lt conditions hp hw
    simp only [DBToken.existsIn.sizeOf_spec]
    omega
  | _ => cases h

theorem subqueryConditions_lt (conditions : List (ColumnRef × CondVal)) {p : Piece} {w : CondVal}
    (hp : p ∈ subqueryConditions conditions) (h : w ∈ p.params) : sizeOf w < sizeOf conditions := by
  cases conditions with
  | nil => cases hp
  | cons q conditions =>
    obtain ⟨col, v⟩ := q
    rw [subqueryConditions] at hp
    rcases List.mem_cons.mp hp with rfl | hp
    · have hle := subqueryCondition_le (formatColumn col) v h
      simp only [List.cons.sizeOf_spec, Prod.mk.sizeOf_spec]
      omega
    · have hlt := subqueryConditions_lt conditions hp h
      simp only [List.cons.sizeOf_spec]
      omega

theorem subqueryCondition_le (colRef : String) (v : CondVal) {w : CondVal}
    (h : w ∈ (subqueryCondition colRef v).params) : sizeOf w ≤ sizeOf v := by
  cases v with
  | token t =>
    have hrec := token_param_lt none colRef t (w := w)
    have hlt : sizeOf w < sizeOf t := by
      cases t with
      | parentRef column => cases h
      | _ => exact hrec h
    simp only [CondVal.token.sizeOf_spec]
    omega
  | arr xs =>
    simp only [subqueryCondition] at h
    split at h
    · cases h
    · have hlt : sizeOf w < sizeOf xs := List.sizeOf_lt_of_mem h
      simp only [CondVal.arr.sizeOf_spec]
      omega
  | js u hu =>
    cases u with
    | null => cases h
    | _ =>
      obtain rfl := List.mem_singleton.mp h
      exact le_rfl
  | _ =>
    obtain rfl := List.mem_singleton.mp h
    exact le_rfl
end

/-! ## Tests that mean the same -/

section Meanings
variable {c : TestedColumn} {dialect : Dialect} {v b : CondVal}

theorem SameRows.refl (t : Test) : SameRows t t := fun _ _ => Iff.rfl

theorem SameRows.symm {t u : Test} (h : SameRows t u) : SameRows u t := fun T row => (h T row).symm

theorem SameRows.trans {t u w : Test} (h : SameRows t u) (h' : SameRows u w) : SameRows t w :=
  fun T row => (h T row).trans (h' T row)

theorem same_all {t : Test} (h : SameRows t .all) : t = .all := by
  have hm := sameRows_iff.mp h
  cases t <;> first | rfl | cases hm

theorem same_null {t : Test} (h : SameRows t .isNull) : t = .isNull := by
  have hm := sameRows_iff.mp h
  cases t <;> first | rfl | cases hm

theorem same_own {t : Test} {p : Piece} (h : SameRows t (.own p)) : t = .own p := by
  have hm := sameRows_iff.mp h
  cases t with
  | own q =>
    cases hm
    rfl
  | _ => cases hm

/-- A test with the same rows as a list tests for a list with each of its operands. -/
theorem same_among {t : Test} {operands : List Operand} (h : SameRows t (.among operands)) :
    ∃ operands', t = .among operands' ∧ ∀ o ∈ operands, o.isNull = false → o ∈ operands' := by
  have hm := sameRows_iff.mp h
  cases t with
  | among operands' =>
    refine ⟨operands', rfl, ?_⟩
    intro o ho hnull
    have hset : operandSet operands' = operandSet operands := Meaning.oneOf.inj hm
    have hmem : o ∈ operandSet operands' := by
      rw [hset]
      exact ⟨ho, hnull⟩
    exact hmem.1
  | _ => cases hm

theorem plain_all_iff : SameRows (c.plain dialect b) .all ↔
    reserved c.name = true ∧ ownText (getSqlCastFormatter dialect) c.name b = none := by
  constructor
  · intro h
    have hall := same_all h
    have hempty := reads_all hall
    have hsilent := (compileCondition_sql_eq_empty (getSqlCastFormatter dialect) c.name b).mp hempty
    have hname : c.name ≠ "" := name_ne_empty c.toNamedColumn
    cases b with
    | token t =>
      rcases hsilent with hraw | hsilent
      · exact absurd hraw (name_ne_raw c)
      · cases t <;> first | exact absurd hsilent.1 hname | exact absurd hsilent not_false
    | nested d => exact absurd hsilent (name_ne_raw c)
    | arr xs =>
      simp only [silent, if_neg (name_ne_or c), if_neg (name_ne_raw c)] at hsilent
      exact ⟨hsilent, rfl⟩
    | js w hw =>
      simp only [silent, if_neg (name_ne_raw c)] at hsilent
      exact ⟨hsilent, rfl⟩
    | _ => exact ⟨hsilent, rfl⟩
  · intro h
    rw [plain_reserved h.2 h.1]
    exact SameRows.refl _

/-- A value without SQL of its own, on a column whose name is not reserved. -/
theorem plain_bound (hown : ownText (getSqlCastFormatter dialect) c.name b = none)
    (hres : ¬reserved c.name = true) :
    (b = .js .null rfl ∧ c.plain dialect b = .isNull) ∨
      (b = .js (.bool true) rfl ∧ ' ' ∈ c.name.toList ∧
        c.plain dialect b = c.reads dialect ⟨c.name, []⟩) ∨
      c.plain dialect b = .among (boundOperands b) := by
  cases b with
  | token t => cases hown
  | nested d => cases hown
  | arr xs => exact Or.inr (Or.inr (plain_arr hres xs))
  | js w hw =>
    cases w with
    | null => exact Or.inl ⟨rfl, plain_null hres⟩
    | bool b =>
      by_cases hblank : b = true ∧ ' ' ∈ c.name.toList
      · obtain ⟨rfl, hblank⟩ := hblank
        exact Or.inr (Or.inl ⟨rfl, hblank, plain_blankTrue hres hblank⟩)
      · exact Or.inr (Or.inr (plain_bool hres b fun hb hmem => hblank ⟨hb, hmem⟩))
    | _ =>
      refine Or.inr (Or.inr ?_)
      simp only [TestedColumn.plain, compileCondition, if_neg (name_ne_raw c), if_neg hres,
        compileJs]
      exact plain_scalar _
  | skip =>
    refine Or.inr (Or.inr ?_)
    simp only [TestedColumn.plain, compileCondition, if_neg hres]
    exact plain_scalar _
  | obj ps =>
    refine Or.inr (Or.inr ?_)
    simp only [TestedColumn.plain, compileCondition, if_neg hres]
    exact plain_scalar _

/-- A name alone is no test of any operand. -/
theorem reads_name_among (c : TestedColumn) {operands : List Operand}
    (h : c.reads dialect ⟨c.name, []⟩ = .among operands) : operands = [] := by
  have htrue : c.name ≠ c.name ++ " = TRUE" := by
    intro hn
    have hl := congrArg String.length hn
    rw [String.length_append] at hl
    exact absurd hl (by have : " = TRUE".length = 7 := rfl; omega)
  have hfalse : c.name ≠ c.name ++ " = FALSE" := by
    intro hn
    have hl := congrArg String.length hn
    rw [String.length_append] at hl
    exact absurd hl (by have : " = FALSE".length = 8 := rfl; omega)
  unfold TestedColumn.reads readTest at h
  simp only [List.isEmpty_nil, if_true, if_neg htrue, if_neg hfalse] at h
  split_ifs at h
  exact (Test.among.inj h).symm

theorem plain_null_iff : SameRows (c.plain dialect b) .isNull ↔
    b = .js .null rfl ∧ ¬reserved c.name = true ∨
      ownText (getSqlCastFormatter dialect) c.name b = some ⟨c.name ++ " IS NULL", []⟩ := by
  constructor
  · intro h
    have hnull := same_null h
    cases hown : ownText (getSqlCastFormatter dialect) c.name b with
    | some p =>
      rw [plain_ownText hown] at hnull
      exact Or.inr (congrArg some (reads_null hnull))
    | none =>
      have hres : ¬reserved c.name = true := by
        intro hres
        rw [plain_reserved hown hres] at hnull
        cases hnull
      rcases plain_bound hown hres with hb | ⟨_, _, hb⟩ | hb
      · exact Or.inl ⟨hb.1, hres⟩
      · rw [hb] at hnull
        have hname := congrArg Piece.sql (reads_null hnull)
        have hl := congrArg String.length hname
        simp only [String.length_append] at hl
        have : " IS NULL".length = 8 := rfl
        omega
      · rw [hb] at hnull
        cases hnull
  · intro h
    rcases h with ⟨rfl, hres⟩ | hown
    · rw [plain_null hres]
      exact SameRows.refl _
    · rw [plain_ownText hown, read_null]
      exact SameRows.refl _

theorem plain_own_iff (d : DBConditions) :
    SameRows (c.plain dialect b) (.own (compile (getSqlCastFormatter dialect) d).wrap) ↔
      ownText (getSqlCastFormatter dialect) c.name b =
        some (compile (getSqlCastFormatter dialect) d).wrap := by
  constructor
  · intro h
    have hown' := same_own h
    cases hown : ownText (getSqlCastFormatter dialect) c.name b with
    | some p =>
      rw [plain_ownText hown] at hown'
      rw [reads_own hown']
    | none =>
      by_cases hres : reserved c.name = true
      · rw [plain_reserved hown hres] at hown'
        cases hown'
      · rcases plain_bound hown hres with ⟨_, hb⟩ | ⟨_, _, hb⟩ | hb
        · rw [hb] at hown'
          cases hown'
        · rw [hb] at hown'
          have hname := reads_own hown'
          have hopen : '(' ∈ (compile (getSqlCastFormatter dialect) d).wrap.sql.toList := by
            simp [Piece.wrap, String.toList_append]
          rw [hname] at hopen
          exact absurd hopen c.unbracketed
        · rw [hb] at hown'
          cases hown'
  · intro h
    rw [plain_ownText h, read_wrap]
    exact SameRows.refl _

/-- Every element of a list keeps its meaning when none of them is SQL. -/
theorem list_same_iff (xs : List CondVal) :
    SameRows (.among (boundOperands (serializeCondValue c.column (.arr xs))))
        (c.meant dialect (.arr xs)) ↔
      ∀ x ∈ xs, valueText (getSqlCastFormatter dialect) x = none ∧
        valueText (getSqlCastFormatter dialect)
          (bindValue (getSqlCastFormatter dialect) c.column x) = none := by
  have hbound : ∃ f : CondVal → CondVal,
      boundOperands (serializeCondValue c.column (.arr xs)) = xs.map (fun x => .param (f x)) ∧
        ∀ x, valueText (getSqlCastFormatter dialect) x = none →
          bindValue (getSqlCastFormatter dialect) c.column x = f x := by
    cases hf : c.column.serialize with
    | none =>
      refine ⟨id, by simp [serializeCondValue, hf, boundOperands], ?_⟩
      intro x hx
      simp only [bindValue, hx, hf, id]
    | some f =>
      refine ⟨f, by simp [serializeCondValue, hf, boundOperands], ?_⟩
      intro x hx
      simp only [bindValue, hx, hf]
  obtain ⟨f, hlist, hbind⟩ := hbound
  have hmeant : c.meant dialect (.arr xs) = .among (xs.map fun x =>
      operand (getSqlCastFormatter dialect) (bindValue (getSqlCastFormatter dialect) c.column x)) :=
    rfl
  rw [hlist, hmeant]
  constructor
  · intro h x hx
    obtain ⟨operands, heq, hsub⟩ := same_among h
    obtain rfl := Test.among.inj heq
    have hnone : valueText (getSqlCastFormatter dialect)
        (bindValue (getSqlCastFormatter dialect) c.column x) = none := by
      cases htext : valueText (getSqlCastFormatter dialect)
          (bindValue (getSqlCastFormatter dialect) c.column x) with
      | none => rfl
      | some p =>
        have hop : operand (getSqlCastFormatter dialect)
            (bindValue (getSqlCastFormatter dialect) c.column x) = .sql p := by
          rw [operand, htext]
        have hmem := hsub (.sql p) (List.mem_map.mpr ⟨x, hx, hop⟩) rfl
        obtain ⟨y, _, hy⟩ := List.mem_map.mp hmem
        cases hy
    refine ⟨?_, hnone⟩
    cases htext : valueText (getSqlCastFormatter dialect) x with
    | none => rfl
    | some p =>
      have hkeep : bindValue (getSqlCastFormatter dialect) c.column x = x := by
        simp only [bindValue, htext]
      rw [hkeep, htext] at hnone
      cases hnone
  · intro h
    have heq : (xs.map fun x => Operand.param (f x)) = xs.map fun x =>
        operand (getSqlCastFormatter dialect)
          (bindValue (getSqlCastFormatter dialect) c.column x) := by
      apply List.map_congr_left
      intro x hx
      obtain ⟨htext, hbound⟩ := h x hx
      rw [operand, hbound, hbind x htext]
    rw [heq]
    exact SameRows.refl _

theorem not_mem_self {b : CondVal} {ys : List CondVal} (h : b = .arr ys) : b ∉ ys := by
  intro hmem
  have hlt := List.sizeOf_lt_of_mem hmem
  rw [h] at hlt
  simp only [CondVal.arr.sizeOf_spec] at hlt
  omega

theorem operand_eq {fmt : Formatter} {b : CondVal} (h : ownText fmt c.name b = none) :
    operand fmt b = match fragmentOf b with
      | some p => .sql p
      | none => .param b := by
  have hown : ownText fmt "" b = none := by
    cases b with
    | token t => cases h
    | nested d => cases h
    | _ => rfl
  rw [operand, valueText, hown, Option.none_or]

/-- Bound under a cast, a value is compared with itself; it keeps its meaning unless it is a list
or a fragment. -/
theorem bound_operand (h : ownText (getSqlCastFormatter dialect) c.name b = none)
    (hsame : SameRows (.among (boundOperands b))
      (.among [operand (getSqlCastFormatter dialect) b])) (hnull : b ≠ .js .null rfl) :
    (∀ ys, b ≠ .arr ys) ∧ fragmentOf b = none := by
  obtain ⟨operands, heq, hsub⟩ := same_among hsame
  obtain rfl := Test.among.inj heq
  constructor
  · intro ys hb
    subst hb
    have hop : operand (getSqlCastFormatter dialect) (.arr ys) = .param (.arr ys) := rfl
    have hmem := hsub (.param (.arr ys)) (by rw [hop]; exact List.mem_singleton_self _) rfl
    obtain ⟨y, hy, heq⟩ := List.mem_map.mp hmem
    cases heq
    exact not_mem_self rfl hy
  · cases hfrag : fragmentOf b with
    | none => rfl
    | some p =>
      have hop : operand (getSqlCastFormatter dialect) b = .sql p := by
        rw [operand_eq h, hfrag]
      have hmem := hsub (.sql p) (by rw [hop]; exact List.mem_singleton_self _) rfl
      cases b with
      | obj ps => cases List.mem_singleton.mp hmem
      | _ => cases hfrag

end Meanings

/-! ## The columns and values that keep their meaning -/

section Sound
variable {c : TestedColumn} {dialect : Dialect} {v b : CondVal}

theorem js_eq_iff {u w : JsVal} (hu : u.isAtom = true) (hw : w.isAtom = true) :
    CondVal.js u hu = CondVal.js w hw ↔ u = w := by
  constructor
  · intro h
    cases h
    rfl
  · intro h
    subst h
    rfl

theorem bindable_iff (hown : ownText (getSqlCastFormatter dialect) c.name b = none) :
    Bindable c.name b ↔ (b ≠ .js .null rfl ∧ (b = .js (.bool true) rfl → ' ' ∉ c.name.toList)) ∧
      (∀ ys, b ≠ .arr ys) ∧ fragmentOf b = none := by
  cases b with
  | token t => cases hown
  | nested d => cases hown
  | arr xs => simp [Bindable]
  | js w hw =>
    rw [ne_eq, js_eq_iff hw rfl, js_eq_iff hw rfl]
    simp [Bindable, fragmentOf]
  | _ => simp [Bindable]

theorem boundOperands_bindable (hown : ownText (getSqlCastFormatter dialect) c.name b = none)
    (hb : Bindable c.name b) :
    boundOperands b = [operand (getSqlCastFormatter dialect) b] := by
  obtain ⟨_, harr, hfrag⟩ := (bindable_iff hown).mp hb
  rw [operand_eq hown, hfrag]
  cases b with
  | arr xs => exact absurd rfl (harr xs)
  | _ => rfl

theorem plain_operand_iff (hown : ownText (getSqlCastFormatter dialect) c.name b = none) :
    SameRows (c.plain dialect b) (.among [operand (getSqlCastFormatter dialect) b]) ↔
      ¬reserved c.name = true ∧ Bindable c.name b := by
  constructor
  · intro h
    obtain ⟨operands, hplain, hsub⟩ := same_among h
    have hres : ¬reserved c.name = true := by
      intro hres
      rw [plain_reserved hown hres] at hplain
      cases hplain
    have hnull : b ≠ .js .null rfl := by
      intro hb
      rw [hb, plain_null hres] at hplain
      cases hplain
    have hblank : b = .js (.bool true) rfl → ' ' ∉ c.name.toList := by
      intro hb hmem
      subst hb
      rw [plain_blankTrue hres hmem] at hplain
      obtain rfl := reads_name_among c hplain
      exact absurd (hsub (.param (.js (.bool true) rfl)) (List.mem_singleton_self _) rfl)
        List.not_mem_nil
    refine ⟨hres, (bindable_iff hown).mpr ⟨⟨hnull, hblank⟩, ?_⟩⟩
    rcases plain_bound hown hres with ⟨hb, _⟩ | ⟨hb, hmem, _⟩ | hb
    · exact absurd hb hnull
    · exact absurd hmem (hblank hb)
    · rw [hb] at h
      exact bound_operand hown h hnull
  · intro h
    obtain ⟨hres, hb⟩ := h
    obtain ⟨⟨hnull, hblank⟩, _⟩ := (bindable_iff hown).mp hb
    rcases plain_bound hown hres with ⟨hb', _⟩ | ⟨hb', hmem, _⟩ | hb'
    · exact absurd hb' hnull
    · exact absurd hmem (hblank hb')
    · rw [hb', boundOperands_bindable hown hb]
      exact SameRows.refl _

/-- A cast binds the token itself, and no text of a token does. -/
theorem bound_ownText {p : Piece} (hown : ownText (getSqlCastFormatter dialect) c.name b = some p) :
    ¬SameRows (.among (boundOperands b)) (c.reads dialect p) := by
  intro h
  cases b with
  | token t =>
    obtain rfl := Option.some.inj hown
    obtain ⟨operands, hreads, hsub⟩ := same_among h.symm
    have hmem := hsub (.param (.token t)) (List.mem_singleton_self _) rfl
    rcases reads_among hreads _ hmem with ⟨w, hw, heq⟩ | ⟨b, heq⟩
    · have hlt := token_param_lt _ _ t hw
      rw [← Operand.param.inj heq] at hlt
      simp only [CondVal.token.sizeOf_spec] at hlt
      omega
    · cases heq
  | nested d =>
    obtain rfl := Option.some.inj hown
    rw [read_wrap] at h
    cases same_own h
  | _ => cases hown

theorem means_plain (hcast : c.column.cast = none) (hs : v ≠ .skip) (ht : ∀ t, v ≠ .token t) :
    MeansTheSame dialect c v ↔
      SameRows (c.plain dialect (serializeCondValue c.column v)) (c.meant dialect v) := by
  rw [MeansTheSame, uncastTest_of_none hcast, test_plain hcast hs ht]
  exact and_iff_left (SameRows.refl _)

theorem means_cast {sqlCast : String} (hcast : c.column.cast = some sqlCast) (hs : v ≠ .skip)
    (ht : ∀ t, v ≠ .token t) :
    MeansTheSame dialect c v ↔
      SameRows (.among (boundOperands (serializeCondValue c.column v))) (c.meant dialect v) ∧
        SameRows (.among (boundOperands (serializeCondValue c.column v)))
          (c.plain dialect (serializeCondValue c.column v)) := by
  rw [MeansTheSame, uncastTest_plain hs ht, test_cast hcast hs ht]

theorem means_fragment {p : Piece} (hfrag : fragmentOf v = some p)
    (hmeant : c.meant dialect v =
      c.states dialect (bindValue (getSqlCastFormatter dialect) c.column v)) :
    ¬MeansTheSame dialect c v := by
  intro h
  have hown : ∀ name, ownText (getSqlCastFormatter dialect) name v = none := by
    intro name
    cases v <;> first | rfl | cases hfrag
  have htext : valueText (getSqlCastFormatter dialect) v = some p := by
    rw [valueText, hown, Option.none_or, hfrag]
  have hsql : c.meant dialect v = .among [.sql p] := by
    have hbind : bindValue (getSqlCastFormatter dialect) c.column v = v := by
      simp only [bindValue, htext]
    rw [hmeant, hbind, TestedColumn.states, hown, operand, htext]
  have hsame := h.1
  rw [hsql] at hsame
  obtain ⟨operands, hreads, hsub⟩ := same_among hsame
  rcases reads_among hreads _ (hsub (.sql p) (List.mem_singleton_self _) rfl) with
    ⟨w, _, heq⟩ | ⟨b, heq⟩
  · cases heq
  · cases heq

/-- A single value that is neither null nor SQL. -/
theorem means_single_iff (hs : v ≠ .skip) (ht : ∀ t, v ≠ .token t) (hd : ∀ d, v ≠ .nested d)
    (ha : ∀ xs, v ≠ .arr xs)
    (hmeant : c.meant dialect v =
      c.states dialect (bindValue (getSqlCastFormatter dialect) c.column v)) :
    MeansTheSame dialect c v ↔ fragmentOf v = none ∧
      if (ownText (getSqlCastFormatter dialect) c.name (serializeCondValue c.column v)).isSome then
        c.column.cast = none
      else ¬reserved c.name = true ∧ Bindable c.name (serializeCondValue c.column v) := by
  cases hfrag : fragmentOf v with
  | some p => exact iff_of_false (means_fragment hfrag hmeant) (by simp)
  | none =>
    have hbind : bindValue (getSqlCastFormatter dialect) c.column v =
        serializeCondValue c.column v := by
      have htext : valueText (getSqlCastFormatter dialect) v = none := by
        rw [valueText, hfrag, Option.or_none]
        cases v with
        | token t => exact absurd rfl (ht t)
        | nested d => exact absurd rfl (hd d)
        | _ => rfl
      unfold serializeCondValue
      cases hf : c.column.serialize <;> simp only [bindValue, htext, hf]
    rw [hbind] at hmeant
    generalize hb : serializeCondValue c.column v = b at hmeant ⊢
    rw [and_iff_right rfl]
    rcases cast_cases c.column with ⟨hcast, _⟩ | ⟨sqlCast, hcast, _⟩
    · rw [means_plain hcast hs ht, hmeant, hb]
      cases hown : ownText (getSqlCastFormatter dialect) c.name b with
      | some p =>
        rw [plain_ownText hown, TestedColumn.states, hown]
        exact iff_of_true (SameRows.refl _) hcast
      | none =>
        rw [TestedColumn.states, hown]
        exact plain_operand_iff hown
    · rw [means_cast hcast hs ht, hmeant, hb]
      cases hown : ownText (getSqlCastFormatter dialect) c.name b with
      | some p =>
        rw [TestedColumn.states, hown]
        refine iff_of_false (fun h => bound_ownText hown h.1) ?_
        simp [hcast]
      | none =>
        rw [TestedColumn.states, hown]
        constructor
        · intro h
          exact (plain_operand_iff hown).mp (h.2.symm.trans h.1)
        · intro h
          have hplain := (plain_operand_iff hown).mpr h
          rw [boundOperands_bindable hown h.2]
          exact ⟨SameRows.refl _, hplain.symm⟩

def tokenColumn : TestedColumn where
  column := ⟨"reset_token", some "uuid", none⟩
  named := by decide
  unmarked := by decide
  unbracketed := by decide

end Sound

end LiteDb.ColumnTests
