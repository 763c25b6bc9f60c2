import LiteDbModel.KeyParameter
import LiteDbModel.Lib.Exit
import LiteDbModel.Lib.Template
import LiteDbModel.WriteNode

/-!
# The parameters of a write

A statement is given here with its values in their places. What the compiler emits for a node is
the text of the statement that the node describes, with a question mark for every value, and the
parameters and their columns are the values from left to right.
-/

namespace LiteDb.WriteNode
set_option autoImplicit false
open KeyParameter (inListAround inListAround_text)
open MysqlReturning (mysqlPkHint)
open Template (Part)

/-! ## Statements with their values in place -/

/-- A value and the column it belongs to. -/
structure Slot where
  column : String
  value : JsVal

abbrev Parts := List (Part Slot Char)

def literal (s : String) : Part Slot Char := .text s.toList

def between (before : String) (column : String) (value : JsVal) (after : String) : Parts :=
  [literal before, .slot ⟨column, value⟩, literal after]

inductive Condition
  | isNull (column : String)
  | isNotNull (column : String)
  | equals (column : String) (value : JsVal)
  /-- A text that holds the place of its value. -/
  | custom (before after : String) (value : JsVal)
  | compares (column symbol : String) (value : JsVal)
  | among (column : String) (value : JsVal)

def Condition.parts (dialect : Dialect) : Condition → Parts
  | isNull column => [literal (column ++ " IS NULL")]
  | isNotNull column => [literal (column ++ " IS NOT NULL")]
  | equals column value => between (column ++ " = ") column value ""
  | custom before after value => between before (before ++ "?" ++ after) value after
  | compares column symbol value => between (column ++ " " ++ symbol ++ " ") column value ""
  | among column value =>
    between (inListAround dialect column).before column value (inListAround dialect column).after

structure Assignment where
  column : String
  value : JsVal
  cast : String

/-- The place of an assigned value. -/
def Assignment.place (a : Assignment) : Parts := [.slot ⟨a.column, a.value⟩, literal a.cast]

inductive Statement
  | insert (table : String) (assigned : List Assignment) (tail : String)
  | update (table : String) (assigned : List Assignment) (conds : List Condition) (tail : String)
  | delete (table : String) (conds : List Condition) (tail : String)
  /-- The arrays of the columns of a batch. -/
  | unnest (head : String) (arrays : List Assignment) (tail : String)

def whereParts (dialect : Dialect) (conds : List Condition) : Parts :=
  if conds = [] then []
  else literal " WHERE " :: Template.sepBy " AND ".toList (conds.map (Condition.parts dialect))

def Statement.parts (dialect : Dialect) : Statement → Parts
  | insert table assigned tail =>
    literal ("INSERT INTO " ++ table ++ " (" ++ commas (assigned.map Assignment.column) ++
      ") VALUES (") :: (Template.sepBy ", ".toList (assigned.map Assignment.place) ++
        [literal (")" ++ tail)])
  | update table assigned conds tail =>
    literal ("UPDATE " ++ table ++ " SET ") ::
      (Template.sepBy ", ".toList
        (assigned.map fun a => literal (a.column ++ " = ") :: a.place) ++
          (whereParts dialect conds ++ [literal tail]))
  | delete table conds tail =>
    literal ("DELETE FROM " ++ table) :: (whereParts dialect conds ++ [literal tail])
  | unnest head arrays tail =>
    literal (head ++ " FROM UNNEST(") :: (Template.sepBy ", ".toList (arrays.map Assignment.place) ++
      [literal (") AS v(" ++ commas (arrays.map Assignment.column) ++ ")" ++ tail)])

/-! ## What a node says -/

inductive ColumnOf : JsVal → String → Prop
  | ref (path : List JsVal) (column : String) : ColumnOf (.obj [("ref", .arr (path ++ [.str column]))]) column
  | refOpt (path : List JsVal) (column : String) :
      ColumnOf (.obj [("refOpt", .arr (path ++ [.str column]))]) column

/-- The condition that a WHERE member stands for. -/
inductive Condition.Of : JsVal → Condition → Prop
  | isNull {col : JsVal} {column : String} (hc : ColumnOf col column) :
      Of (.obj [("eq", .arr [col, .null])]) (.isNull column)
  | isNotNull {col : JsVal} {column : String} (hc : ColumnOf col column) :
      Of (.obj [("ne", .arr [col, .null])]) (.isNotNull column)
  | equals {col value : JsVal} {column : String} (hc : ColumnOf col column) (hv : value ≠ .null) :
      Of (.obj [("eq", .arr [col, value])]) (.equals column value)
  | custom {col value : JsVal} {before after : String} (hc : ColumnOf col (before ++ "?" ++ after))
      (hv : value ≠ .null) : Of (.obj [("eq", .arr [col, value])]) (.custom before after value)
  | compares {op symbol : String} {col value : JsVal} {column : String} (hc : ColumnOf col column)
      (hop : cmpOp op = some symbol) (hv : op = "ne" → value ≠ .null) :
      Of (.obj [(op, .arr [col, value])]) (.compares column symbol value)
  | among {col value : JsVal} {column : String} (hc : ColumnOf col column) :
      Of (.obj [("in", .arr [col, value])]) (.among column value)

def columnsAndValues (as : List Assignment) : List (String × JsVal) :=
  as.map fun a => (a.column, a.value)

/-- The fields of a family with their values. -/
def fieldsOf (family : Ports) (cols : List String) : List (String × JsVal) :=
  cols.map fun c => (c, valueOf family c)

/-- A batch of rows; a delete is none. -/
def WriteNodeLike.Batch (node : WriteNodeLike) : Prop :=
  node.component ≠ .delete ∧ node.ports.lookup "batch" = some (.str "true")

/-- The statement is the one that the node describes. -/
def WriteNodeLike.Means (node : WriteNodeLike) : Statement → Prop
  | .insert table assigned _ => node.component = .insert ∧ ¬ node.Batch ∧
      node.ports.lookup "table" = some (.str table) ∧
      columnsAndValues assigned = fieldsOf (collectFamily node.ports "values")
        (sorted (collectFamily node.ports "values"))
  | .update table assigned conds _ => node.component = .update ∧ ¬ node.Batch ∧
      node.ports.lookup "table" = some (.str table) ∧
      columnsAndValues assigned = fieldsOf (collectFamily node.ports "set")
        ((collectFamily node.ports "set").map Prod.fst) ∧
      ∃ members, whereMembers node.ports "Update" = .ok members ∧
        List.Forall₂ Condition.Of members conds
  | .delete table conds _ => node.component = .delete ∧
      node.ports.lookup "table" = some (.str table) ∧
      ∃ members, whereMembers node.ports "Delete" = .ok members ∧
        List.Forall₂ Condition.Of members conds
  | .unnest _ arrays _ => node.Batch ∧
      ((node.component = .insert ∧
        columnsAndValues arrays = fieldsOf (collectFamily node.ports "values")
          (sorted (collectFamily node.ports "values"))) ∨
      (node.component = .update ∧
        columnsAndValues arrays = fieldsOf (collectFamily node.ports "key")
          (sorted (collectFamily node.ports "key")) ++
            fieldsOf (collectFamily node.ports "set") (sorted (collectFamily node.ports "set"))))

/-! ## The correspondence -/

/-- The question marks of the text are the statement's values, from left to right: written in their
places the parameters make the statement. -/
structure TxOp.Binds (op : TxOp) (parts : Parts) (param : Slot → TxParam) : Prop where
  sql : op.sql.toList = Template.marked '?' parts
  params : op.params = (Template.slots parts).map param
  filled : ∀ write : TxParam → List Char, Template.fill '?' op.sql.toList (op.params.map write) =
    some (Template.render (fun slot => write (param slot)) parts)

/-- The columns and values of the rows of a batch. -/
def WriteNodeLike.rowFields (node : WriteNodeLike) : List (String × JsVal) :=
  let values := collectFamily node.ports "values"
  let key := collectFamily node.ports "key"
  let set := collectFamily node.ports "set"
  if node.component = .insert then fieldsOf values (sorted values)
  else fieldsOf key (sorted key) ++ fieldsOf set (sorted set)

structure TxOp.Corresponds (op : TxOp) (node : WriteNodeLike) (dialect : Dialect) : Prop where
  values : ¬ node.Batch → ∃ s m, node.Means s ∧ op.writeMeta = some m ∧ m.batch = false ∧
    op.Binds (s.parts dialect) (fun slot => .expr slot.value) ∧
    m.bindColumns = (Template.slots (s.parts dialect)).map Slot.column
  arrays : node.Batch → dialect = .postgres → ∃ s, node.Means s ∧ op.writeMeta = none ∧
    op.Binds (s.parts dialect) (fun slot => .batchArray slot.column slot.value dialect)
  rows : node.Batch → dialect ≠ .postgres → ∃ m, op.writeMeta = some m ∧ m.batch = true ∧
    m.bindColumns = node.rowFields.map Prod.fst ∧
    op.params = List.replicate (op.sql.toList.count '?')
      (.batchRows m.bindColumns (node.rowFields.map Prod.snd) dialect)

/-! ## Texts without question marks -/

def holes (s : String) : Nat := s.toList.count '?'

/-- The WHERE member's column is a name, or a text with the place of its one value. -/
def PlainMember (m : JsVal) : Prop := ∀ op col value column,
  m = .obj [(op, .arr [col, value])] → ColumnOf col column → reserved column = false ∧
    (holes column = 0 ∨ holes column = 1 ∧ op = "eq" ∧ value ≠ .null)

/-- The names and texts of the node have no question marks. -/
structure WriteNodeLike.Plain (node : WriteNodeLike) : Prop where
  texts : ∀ name ∈ ["table", "returning", "onConflict", "pk", "autoInc"], ∀ s,
    node.ports.lookup name = some (.str s) → holes s = 0
  columns : ∀ family ∈ ["values", "set", "key"], ∀ p ∈ collectFamily node.ports family,
    holes p.1 = 0
  casts : ∀ p ∈ collectFamily node.ports "sqlCast", ∀ s, p.2 = .str s → holes s = 0
  members : ∀ ctx members, whereMembers node.ports ctx = .ok members → ∀ m ∈ members, PlainMember m
  apart : ∀ c ∈ (collectFamily node.ports "set").map Prod.fst,
    c ∉ (collectFamily node.ports "key").map Prod.fst

theorem holes_eq_zero {s : String} : holes s = 0 ↔ '?' ∉ s.toList := List.count_eq_zero

theorem holes_append (s t : String) : holes (s ++ t) = holes s + holes t := by
  rw [holes, String.toList_append, List.count_append, holes, holes]

theorem toList_commas (ss : List String) :
    (commas ss).toList = ", ".toList.intercalate (ss.map String.toList) :=
  String.toList_intercalate

theorem holes_intercalate {sep : String} (hsep : holes sep = 0) {ss : List String}
    (h : ∀ s ∈ ss, holes s = 0) : holes (sep.intercalate ss) = 0 := by
  rw [holes, String.toList_intercalate]
  induction ss with
  | nil => rfl
  | cons s ss ih =>
    have hrest := ih fun t ht => h t (List.mem_cons_of_mem s ht)
    have hs : s.toList.count '?' = 0 := h s List.mem_cons_self
    rcases ss with _ | ⟨t, ss⟩
    · rw [List.map_singleton, List.intercalate_singleton, hs]
    · rw [List.map_cons] at hrest
      rw [List.map_cons, List.map_cons, List.intercalate_cons_cons, List.count_append,
        List.count_append, hs, hrest, Nat.zero_add, Nat.add_zero]
      exact hsep

theorem holes_commas {ss : List String} (h : ∀ s ∈ ss, holes s = 0) : holes (commas ss) = 0 :=
  holes_intercalate (by decide) h

theorem holes_commas_map {α : Type} {l : List α} {f : α → String} (h : ∀ a ∈ l, holes (f a) = 0) :
    holes (commas (l.map f)) = 0 := by
  apply holes_commas
  intro s hs
  obtain ⟨a, ha, rfl⟩ := List.mem_map.mp hs
  exact h a ha

/-! ## WHERE members -/

theorem v1ConditionText_eq (key : String) (v : CondVal) :
    v1ConditionText key v = (compileCondition none key v).sql := by
  have hjoin : v1ConditionText key v =
      join " AND " (([(compileCondition none key v).sql]).filter (· ≠ "")) := by
    simp [v1ConditionText, compile, compileEntries, compileNested, joinPieces, Operator.text]
  rw [hjoin]
  by_cases hempty : (compileCondition none key v).sql = ""
  · simp [hempty, join]
  · simp [hempty, join]

theorem reserved_append {key : String} (h : reserved key = false) {c : Char} (hc : c ≠ '_')
    (s : String) (hs : s.toList.head? = some c) : reserved (key ++ s) = false := by
  obtain ⟨t, ht⟩ : ∃ t, s.toList = c :: t := by
    cases hl : s.toList with
    | nil =>
      rw [hl] at hs
      exact nomatch hs
    | cons d t =>
      rw [hl] at hs
      exact ⟨t, by rw [Option.some_inj.mp hs]⟩
  rw [reserved, String.toList_append, ht]
  rw [reserved] at h
  generalize key.toList = l at h ⊢
  rcases l with _ | ⟨a, _ | ⟨b, l⟩⟩
  · simp [List.isPrefixOf, hc.symm]
  · simp [List.isPrefixOf, hc.symm]
  · simpa [List.isPrefixOf] using h

theorem probeText {key : String} (h : reserved key = false) :
    v1ConditionText key probe = if hasHole key then key else key ++ " = ?" := by
  have hraw : key ≠ "__raw__" := by
    rintro rfl
    exact absurd h (by decide)
  rw [v1ConditionText_eq, probe]
  simp only [compileCondition, if_neg hraw, h, Bool.false_eq_true, if_false, compileJs, compileScalar]
  split <;> rfl

theorem nullText {key : String} (h : reserved key = false) :
    v1ConditionText key (.js .null rfl) = key ++ " IS NULL" := by
  have hraw : key ≠ "__raw__" := by
    rintro rfl
    exact absurd h (by decide)
  rw [v1ConditionText_eq]
  simp only [compileCondition, if_neg hraw, h, Bool.false_eq_true, if_false, compileJs]

theorem trueText {key : String} (h : reserved key = false) (hspace : ' ' ∈ key.toList) :
    v1ConditionText key (.js (.bool true) rfl) = key := by
  have hraw : key ≠ "__raw__" := by
    rintro rfl
    exact absurd h (by decide)
  rw [v1ConditionText_eq]
  simp only [compileCondition, if_neg hraw, h, Bool.false_eq_true, if_false, compileJs, compileBool,
    hspace, and_self, if_true]

/-- The fragment is the text of the parts, with their values and columns. -/
structure WhereFragment.Lowers (f : WhereFragment) (parts : Parts) : Prop where
  sql : f.sql.toList = Template.marked '?' parts
  params : f.params = (Template.slots parts).map Slot.value
  columns : f.columns = (Template.slots parts).map Slot.column
  clear : Template.Clear '?' parts
  nonempty : f.sql ≠ ""

theorem clear_literal {s : String} (h : holes s = 0) : Template.Clear '?' [literal s] := by
  intro t ht
  obtain rfl : t = s.toList := by simpa [literal] using ht
  exact holes_eq_zero.mp h

theorem clear_between {before after : String} (hb : holes before = 0) (ha : holes after = 0)
    (column : String) (value : JsVal) :
    Template.Clear '?' (between before column value after) := by
  intro t ht
  have hmem : t = before.toList ∨ t = after.toList := by simpa [between, literal] using ht
  rcases hmem with rfl | rfl
  · exact holes_eq_zero.mp hb
  · exact holes_eq_zero.mp ha

theorem lowers_literal {s : String} (h : holes s = 0) (hne : s ≠ "") :
    WhereFragment.Lowers ⟨s, [], []⟩ [literal s] :=
  ⟨(List.append_nil s.toList).symm, rfl, rfl, clear_literal h, hne⟩

theorem lowers_between {before after : String} (hb : holes before = 0) (ha : holes after = 0)
    (column : String) (value : JsVal) :
    WhereFragment.Lowers ⟨before ++ "?" ++ after, [value], [column]⟩
      (between before column value after) := by
  refine ⟨?_, rfl, rfl, clear_between hb ha column value, ?_⟩
  · have hmark : Template.marked '?' (between before column value after) =
        before.toList ++ ('?' :: (after.toList ++ [])) := rfl
    rw [hmark, String.toList_append, String.toList_append, List.append_nil, List.append_assoc]
    rfl
  · intro h
    have hchars := congrArg String.toList h
    simp [String.toList_append] at hchars

theorem opKey_some {node args : JsVal} {op : String} (h : opKey node = some (op, args)) :
    node = .obj [(op, args)] := by
  unfold opKey at h
  split at h
  next =>
    obtain ⟨rfl, rfl⟩ := Prod.mk.inj (Option.some_inj.mp h)
    rfl
  next => exact nomatch h

theorem columnOf_ok {node : JsVal} {ctx column : String} (h : columnOf node ctx = .ok column) :
    ColumnOf node column := by
  unfold columnOf at h
  split at h
  next op path hkey =>
    split at h
    next href =>
      split at h
      next xs =>
        split at h
        next c hlast =>
          obtain rfl := Except.ok.inj h
          obtain ⟨path, rfl⟩ := List.getLast?_eq_some_iff.mp hlast
          rw [opKey_some hkey]
          rcases href with rfl | rfl
          · exact ColumnOf.ref path c
          · exact ColumnOf.refOpt path c
        next => exact nomatch h
      next => exact nomatch h
    next => exact nomatch h
  next => exact nomatch h

theorem operands_ok {args : JsVal} {op ctx column : String} {value : JsVal}
    (h : operands args op ctx = .ok (column, value)) :
    ∃ col, args = .arr [col, value] ∧ ColumnOf col column := by
  obtain ⟨⟨col, val⟩, hbin, h⟩ := Exit.bind_ok_iff.mp h
  obtain ⟨c, hcol, h⟩ := Exit.bind_ok_iff.mp h
  obtain ⟨rfl, rfl⟩ := Prod.mk.inj (Except.ok.inj h)
  refine ⟨col, ?_, columnOf_ok hcol⟩
  unfold binOperands at hbin
  split at hbin
  next =>
    obtain ⟨rfl, rfl⟩ := Prod.mk.inj (Except.ok.inj hbin)
    rfl
  next => exact nomatch hbin

theorem map_ok_iff {ε α β : Type} {x : Except ε α} {f : α → β} {b : β} :
    x.map f = .ok b ↔ ∃ a, x = .ok a ∧ f a = b := by
  cases x with
  | error e => simp [Except.map]
  | ok a => simp [Except.map]

theorem hasHole_eq (s : String) : hasHole s = decide (0 < holes s) := by
  rw [hasHole, holes, Bool.eq_iff_iff, List.contains_iff_mem, decide_eq_true_eq, List.count_pos_iff]

/-- A text with one question mark is cut at it. -/
theorem exists_hole {s : String} (h : holes s = 1) :
    ∃ before after, s = before ++ "?" ++ after ∧ holes before = 0 ∧ holes after = 0 := by
  have hmem : '?' ∈ s.toList := List.count_pos_iff.mp (by rw [← holes, h]; exact Nat.one_pos)
  obtain ⟨l, r, hs, hl⟩ := List.eq_append_cons_of_mem hmem
  have hcount : s.toList.count '?' = 1 := h
  rw [hs, List.count_append, List.count_cons_self, List.count_eq_zero.mpr hl] at hcount
  refine ⟨String.ofList l, String.ofList r, ?_, ?_, ?_⟩
  · apply String.toList_injective
    have hmark : "?".toList = ['?'] := rfl
    rw [hs, String.toList_append, String.toList_append, hmark, String.toList_ofList,
      String.toList_ofList, List.append_assoc, List.singleton_append]
  · rw [holes, String.toList_ofList]
    exact List.count_eq_zero.mpr hl
  · rw [holes, String.toList_ofList]
    omega

/-- The probe's question mark stands in the member's own text. -/
theorem probe_lowers {before after column : String} {value : JsVal}
    (hreserved : reserved (before ++ "?" ++ after) = false) (hb : holes before = 0)
    (ha : holes after = 0) :
    WhereFragment.Lowers ⟨v1ConditionText (before ++ "?" ++ after) probe, [value], [column]⟩
      (between before column value after) := by
  have hhole : hasHole (before ++ "?" ++ after) = true := by
    have hone : holes "?" = 1 := by decide
    rw [hasHole_eq, holes_append, holes_append, hone]
    apply decide_eq_true
    omega
  rw [probeText hreserved, if_pos hhole]
  exact lowers_between hb ha column value

theorem eqMember_lowers {node col value : JsVal} {column : String}
    (hnode : node = .obj [("eq", .arr [col, value])]) (hc : ColumnOf col column)
    (hplain : PlainMember node) (dialect : Dialect) :
    ∃ cond, Condition.Of node cond ∧ (eqMember column value).Lowers (cond.parts dialect) := by
  obtain ⟨hreserved, hholes⟩ := hplain "eq" col value column hnode hc
  by_cases hnull : value = .null
  · subst hnull
    have hzero : holes column = 0 := by
      rcases hholes with h | ⟨-, -, h⟩
      · exact h
      · exact absurd rfl h
    refine ⟨.isNull column, hnode ▸ Condition.Of.isNull hc, ?_⟩
    have htext : eqMember column .null = ⟨column ++ " IS NULL", [], []⟩ := by
      rw [eqMember, nullText hreserved]
    have hword : holes " IS NULL" = 0 := by decide
    rw [htext]
    refine lowers_literal (by rw [holes_append, hzero, hword]) ?_
    intro h
    have hchars := congrArg String.toList h
    simp [String.toList_append] at hchars
  · have htext : eqMember column value = ⟨v1ConditionText column probe, [value], [column]⟩ := by
      unfold eqMember
      split
      next => exact absurd rfl hnull
      next => rfl
    rw [htext]
    rcases hholes with hzero | ⟨hone, -, -⟩
    · refine ⟨.equals column value, hnode ▸ Condition.Of.equals hc hnull, ?_⟩
      have hhole : hasHole column = false := by rw [hasHole_eq, hzero]; rfl
      have hword : holes " = " = 0 := by decide
      have hempty : holes "" = 0 := by decide
      have heq : column ++ " = ?" = (column ++ " = ") ++ "?" ++ "" := by
        rw [String.append_empty, String.append_assoc]
        rfl
      rw [probeText hreserved, hhole, if_neg Bool.false_ne_true, heq]
      exact lowers_between (by rw [holes_append, hzero, hword]) hempty column value
    · obtain ⟨before, after, rfl, hb, ha⟩ := exists_hole hone
      exact ⟨.custom before after value, hnode ▸ Condition.Of.custom hc hnull,
        probe_lowers hreserved hb ha⟩

theorem cmpMember_lowers {node col value : JsVal} {op symbol column : String}
    (hop : cmpOp op = some symbol) (hnode : node = .obj [(op, .arr [col, value])])
    (hc : ColumnOf col column) (hplain : PlainMember node) (dialect : Dialect) :
    ∃ cond, Condition.Of node cond ∧
      (cmpMember op symbol column value).Lowers (cond.parts dialect) := by
  have hne : op ≠ "eq" := by
    rintro rfl
    exact nomatch hop
  obtain ⟨hreserved, hholes⟩ := hplain op col value column hnode hc
  have hzero : holes column = 0 := by
    rcases hholes with h | ⟨-, h, -⟩
    · exact h
    · exact absurd h hne
  by_cases hnull : op = "ne" ∧ value = .null
  · obtain ⟨rfl, rfl⟩ := hnull
    refine ⟨.isNotNull column, hnode ▸ Condition.Of.isNotNull hc, ?_⟩
    have hkey : reserved (column ++ " IS NOT NULL") = false :=
      reserved_append (c := ' ') hreserved (by decide) _ rfl
    have hspace : ' ' ∈ (column ++ " IS NOT NULL").toList := by
      rw [String.toList_append]
      exact List.mem_append_right _ (by decide)
    have hword : holes " IS NOT NULL" = 0 := by decide
    have htext : cmpMember "ne" symbol column .null = ⟨column ++ " IS NOT NULL", [], []⟩ := by
      rw [cmpMember, trueText hkey hspace]
    rw [htext]
    refine lowers_literal (by rw [holes_append, hzero, hword]) ?_
    intro h
    have hchars := congrArg String.toList h
    simp [String.toList_append] at hchars
  · have htext : cmpMember op symbol column value =
        ⟨v1ConditionText (column ++ " " ++ symbol ++ " ?") probe, [value], [column]⟩ := by
      unfold cmpMember
      split
      next => exact absurd ⟨rfl, rfl⟩ hnull
      next => rfl
    have hsymbol : holes symbol = 0 := by
      unfold cmpOp at hop
      split at hop
      all_goals first
        | (obtain rfl := Option.some_inj.mp hop; decide)
        | cases hop
    have hblank : holes " " = 0 ∧ holes "" = 0 := by decide
    have heq : column ++ " " ++ symbol ++ " ?" = (column ++ " " ++ symbol ++ " ") ++ "?" ++ "" := by
      rw [String.append_empty]
      exact (@String.append_assoc (column ++ " " ++ symbol) " " "?").symm
    have hkey : reserved (column ++ " " ++ symbol ++ " ?") = false := by
      rw [String.append_assoc, String.append_assoc]
      refine reserved_append (c := ' ') hreserved (by decide) _ ?_
      rw [String.toList_append]
      rfl
    refine ⟨.compares column symbol value, ?_, ?_⟩
    · rw [hnode]
      exact Condition.Of.compares hc hop fun h hv => hnull ⟨h, hv⟩
    · rw [htext, heq]
      rw [heq] at hkey
      refine probe_lowers hkey ?_ hblank.2
      rw [holes_append, holes_append, holes_append, hzero, hsymbol, hblank.1]

theorem inMember_lowers {node col value : JsVal} {column : String}
    (hnode : node = .obj [("in", .arr [col, value])]) (hc : ColumnOf col column)
    (hplain : PlainMember node) (dialect : Dialect) :
    ∃ cond, Condition.Of node cond ∧ WhereFragment.Lowers
      ⟨v1ConditionText (inListPredicate dialect column) probe, [value], [column]⟩
      (cond.parts dialect) := by
  obtain ⟨hreserved, hholes⟩ := hplain "in" col value column hnode hc
  have hzero : holes column = 0 := by
    rcases hholes with h | ⟨-, h, -⟩
    · exact h
    · exact absurd h (by decide)
  refine ⟨.among column value, hnode ▸ Condition.Of.among hc, ?_⟩
  have hbefore : holes (inListAround dialect column).before = 0 := by
    have hwords : holes " = ANY(" = 0 ∧ holes " IN (SELECT JSON_UNQUOTE(v) FROM JSON_TABLE(" = 0 ∧
        holes " IN (SELECT value FROM json_each(" = 0 := by decide
    cases dialect with
    | postgres => exact (holes_append _ _).trans (by rw [hzero, hwords.1])
    | mysql => exact (holes_append _ _).trans (by rw [hzero, hwords.2.1])
    | sqlite => exact (holes_append _ _).trans (by rw [hzero, hwords.2.2])
  have hafter : holes (inListAround dialect column).after = 0 := by
    cases dialect with
    | postgres => exact (by decide : holes ")" = 0)
    | mysql => exact (by decide : holes ", '$[*]' COLUMNS(v JSON PATH '$')) jt)" = 0)
    | sqlite => exact (by decide : holes "))" = 0)
  have hkey : reserved (inListPredicate dialect column) = false := by
    cases dialect with
    | postgres => exact reserved_append (c := ' ') hreserved (by decide) _ rfl
    | mysql => exact reserved_append (c := ' ') hreserved (by decide) _ rfl
    | sqlite => exact reserved_append (c := ' ') hreserved (by decide) _ rfl
  have htext := inListAround_text dialect column
  rw [KeyParameter.Around.text] at htext
  rw [← htext] at hkey ⊢
  exact probe_lowers hkey hbefore hafter

/-- A lowered member is the text of the condition it stands for. -/
theorem lowerWhereMember_ok {node : JsVal} {ctx : String} {dialect : Dialect} {f : WhereFragment}
    (h : lowerWhereMember node ctx dialect = .ok f) (hplain : PlainMember node) :
    ∃ cond, Condition.Of node cond ∧ f.Lowers (cond.parts dialect) := by
  unfold lowerWhereMember at h
  split at h
  next => exact nomatch h
  next op args hkey =>
    have hnode := opKey_some hkey
    split at h
    next hop =>
      obtain ⟨⟨column, value⟩, hoperands, rfl⟩ := map_ok_iff.mp h
      obtain ⟨col, rfl, hc⟩ := operands_ok hoperands
      rw [hop] at hnode
      exact inMember_lowers hnode hc hplain dialect
    next =>
      split at h
      next hop =>
        obtain ⟨⟨column, value⟩, hoperands, rfl⟩ := map_ok_iff.mp h
        obtain ⟨col, rfl, hc⟩ := operands_ok hoperands
        rw [hop] at hnode
        exact eqMember_lowers hnode hc hplain dialect
      next =>
        split at h
        next symbol hop =>
          obtain ⟨⟨column, value⟩, hoperands, rfl⟩ := map_ok_iff.mp h
          obtain ⟨col, rfl, hc⟩ := operands_ok hoperands
          exact cmpMember_lowers hop hnode hc hplain dialect
        next => exact nomatch h

theorem members_lower {dialect : Dialect} (ctx : Nat → String) {members : List JsVal} :
    ∀ {k : Nat} {fs : List WhereFragment},
      List.Forall₂ (fun m f => lowerWhereMember m.1 (ctx m.2) dialect = .ok f) (members.zipIdx k) fs →
      (∀ m ∈ members, PlainMember m) →
      ∃ conds, List.Forall₂ Condition.Of members conds ∧
        List.Forall₂ (fun f cond => WhereFragment.Lowers f (cond.parts dialect)) fs conds := by
  induction members with
  | nil =>
    intro k fs h _
    rw [List.zipIdx_nil, List.forall₂_nil_left_iff] at h
    rw [h]
    exact ⟨[], List.Forall₂.nil, List.Forall₂.nil⟩
  | cons m members ih =>
    intro k fs h hplain
    rw [List.zipIdx_cons, List.forall₂_cons_left_iff] at h
    obtain ⟨f, fs, hf, hfs, rfl⟩ := h
    obtain ⟨cond, hof, hlowers⟩ := lowerWhereMember_ok hf (hplain m List.mem_cons_self)
    obtain ⟨conds, hofs, hrest⟩ := ih hfs fun n hn => hplain n (List.mem_cons_of_mem m hn)
    exact ⟨cond :: conds, List.Forall₂.cons hof hofs, List.Forall₂.cons hlowers hrest⟩

theorem whereTail_lowers {dialect : Dialect} {fs : List WhereFragment} {conds : List Condition}
    (h : List.Forall₂ (fun f cond => WhereFragment.Lowers f (cond.parts dialect)) fs conds) :
    (whereTail (" AND ".intercalate (fs.map WhereFragment.sql))).toList =
        Template.marked '?' (whereParts dialect conds) ∧
      fs.flatMap WhereFragment.params =
        (Template.slots (whereParts dialect conds)).map Slot.value ∧
      fs.flatMap WhereFragment.columns =
        (Template.slots (whereParts dialect conds)).map Slot.column ∧
      Template.Clear '?' (whereParts dialect conds) := by
  have hsql : (fs.map WhereFragment.sql).map String.toList =
      (conds.map (Condition.parts dialect)).map (Template.marked '?') := by
    rw [List.map_map, List.map_map]
    induction h with
    | nil => rfl
    | cons hf _ ih => exact congrArg₂ List.cons hf.sql ih
  have hparams : fs.flatMap WhereFragment.params =
      (conds.flatMap fun cond => Template.slots (cond.parts dialect)).map Slot.value := by
    clear hsql
    induction h with
    | nil => rfl
    | cons hf _ ih => rw [List.flatMap_cons, List.flatMap_cons, List.map_append, ih, hf.params]
  have hcolumns : fs.flatMap WhereFragment.columns =
      (conds.flatMap fun cond => Template.slots (cond.parts dialect)).map Slot.column := by
    clear hsql hparams
    induction h with
    | nil => rfl
    | cons hf _ ih => rw [List.flatMap_cons, List.flatMap_cons, List.map_append, ih, hf.columns]
  have hclear : ∀ t ∈ conds.map (Condition.parts dialect), Template.Clear '?' t := by
    clear hsql hparams hcolumns
    induction h with
    | nil => exact fun t ht => nomatch ht
    | cons hf _ ih =>
      intro t ht
      rcases List.mem_cons.mp ht with rfl | ht
      · exact hf.clear
      · exact ih t ht
  cases h with
  | nil => exact ⟨rfl, rfl, rfl, fun s hs => nomatch hs⟩
  | @cons f cond fs conds hf hfs =>
    have hne : " AND ".intercalate ((f :: fs).map WhereFragment.sql) ≠ "" := by
      intro hempty
      have hchars := congrArg String.toList hempty
      rw [String.toList_intercalate, List.map_cons, List.map_cons] at hchars
      apply hf.nonempty
      apply String.toList_injective
      rcases fs with _ | ⟨g, fs⟩
      · simpa using hchars
      · rw [List.map_cons, List.map_cons, List.intercalate_cons_cons] at hchars
        exact (List.append_eq_nil_iff.mp (List.append_eq_nil_iff.mp hchars).1).1
    have hparts : whereParts dialect (cond :: conds) = literal " WHERE " ::
        Template.sepBy " AND ".toList ((cond :: conds).map (Condition.parts dialect)) := rfl
    have hword : holes " WHERE " = 0 := by decide
    refine ⟨?_, ?_, ?_, ?_⟩
    · have hmark : Template.marked '?' (whereParts dialect (cond :: conds)) = " WHERE ".toList ++
          Template.marked '?' (Template.sepBy " AND ".toList
            ((cond :: conds).map (Condition.parts dialect))) := rfl
      rw [whereTail, if_neg hne, String.toList_append, hmark, String.toList_intercalate, hsql]
      exact congrArg _ (Template.render_sepBy _ _ _).symm
    · rw [hparams, hparts]
      have hslots := Template.slots_sepBy " AND ".toList ((cond :: conds).map (Condition.parts dialect))
      rw [List.flatMap_map] at hslots
      exact congrArg _ hslots.symm
    · rw [hcolumns, hparts]
      have hslots := Template.slots_sepBy " AND ".toList ((cond :: conds).map (Condition.parts dialect))
      rw [List.flatMap_map] at hslots
      exact congrArg _ hslots.symm
    · rw [hparts]
      have happend : literal " WHERE " :: Template.sepBy " AND ".toList
          ((cond :: conds).map (Condition.parts dialect)) = [literal " WHERE "] ++
            Template.sepBy " AND ".toList ((cond :: conds).map (Condition.parts dialect)) := rfl
      rw [happend, Template.clear_append]
      exact ⟨clear_literal hword, Template.clear_sepBy (by decide) hclear⟩

/-- The lowered WHERE port is the text of its conditions. -/
theorem lowerWherePort_ok {ports : Ports} {ctx : String} {dialect : Dialect} {f : WhereFragment}
    (h : lowerWherePort ports ctx dialect = .ok f)
    (hplain : ∀ ctx members, whereMembers ports ctx = .ok members → ∀ m ∈ members, PlainMember m) :
    ∃ members conds, whereMembers ports ctx = .ok members ∧ List.Forall₂ Condition.Of members conds ∧
      (whereTail f.sql).toList = Template.marked '?' (whereParts dialect conds) ∧
      f.params = (Template.slots (whereParts dialect conds)).map Slot.value ∧
      f.columns = (Template.slots (whereParts dialect conds)).map Slot.column ∧
      Template.Clear '?' (whereParts dialect conds) := by
  obtain ⟨members, hmembers, h⟩ := Exit.bind_ok_iff.mp h
  obtain ⟨fs, hfs, h⟩ := Exit.bind_ok_iff.mp h
  obtain rfl := Except.ok.inj h
  obtain ⟨conds, hof, hlowers⟩ := members_lower (fun i => ctx ++ ".where[" ++ countText i ++ "]")
    (Exit.mapM_ok_iff.mp hfs) (hplain ctx members hmembers)
  exact ⟨members, conds, hmembers, hof, whereTail_lowers hlowers⟩

/-! ## The texts of the ports -/

theorem stringPort_some {ports : Ports} {name s : String}
    (h : stringPort ports name = .ok (some s)) : ports.lookup name = some (.str s) := by
  unfold stringPort at h
  split at h
  next => exact nomatch Except.ok.inj h
  next => exact nomatch Except.ok.inj h
  next s' heq =>
    obtain rfl := Option.some_inj.mp (Except.ok.inj h)
    exact heq
  next => exact nomatch h

theorem mem_of_mem_intercalate {c : Char} {sep l : List Char} {ls : List (List Char)} (hl : l ∈ ls)
    (hc : c ∈ l) : c ∈ sep.intercalate ls := by
  induction ls with
  | nil => exact nomatch hl
  | cons m ls ih =>
    rcases ls with _ | ⟨n, ls⟩
    · rw [List.intercalate_singleton, ← List.mem_singleton.mp hl]
      exact hc
    · rw [List.intercalate_cons_cons]
      rcases List.mem_cons.mp hl with rfl | hl
      · exact List.mem_append_left _ (List.mem_append_left _ hc)
      · exact List.mem_append_right _ (ih hl)

theorem holes_names {s : String} (h : holes s = 0) : ∀ n ∈ names s, holes n = 0 := by
  intro n hn
  obtain ⟨cs, hcs, rfl⟩ := List.mem_map.mp hn
  obtain ⟨ds, hds, rfl⟩ := List.mem_map.mp (List.mem_filter.mp hcs).1
  rw [holes_eq_zero, String.toList_ofList]
  intro hmem
  apply holes_eq_zero.mp h
  obtain ⟨b, b', -, -, -, heq⟩ := Scan.exists_trim ds
  have hds' : '?' ∈ ds := by
    rw [heq]
    exact List.mem_append_right _ (List.mem_append_left _ hmem)
  have hsplit : [','].intercalate (s.toList.splitOn ',') = s.toList := List.intercalate_splitOn ','
  rw [← hsplit]
  exact mem_of_mem_intercalate hds hds'

section Ports
variable {node : WriteNodeLike} (hplain : node.Plain)
include hplain

theorem holes_port {name s : String}
    (hname : name ∈ ["table", "returning", "onConflict", "pk", "autoInc"])
    (h : stringPort node.ports name = .ok (some s)) : holes s = 0 :=
  hplain.texts name hname s (stringPort_some h)

theorem holes_returningTail {tail : String} (h : returningTail node.ports = .ok tail) :
    holes tail = 0 := by
  obtain ⟨r, hr, rfl⟩ := map_ok_iff.mp h
  cases r with
  | none => decide
  | some r =>
    have hword : holes " RETURNING " = 0 := by decide
    exact (holes_append _ _).trans (by rw [hword, holes_port hplain (by simp) hr])

theorem holes_returningClause {r : Option String} (h : stringPort node.ports "returning" = .ok r) :
    holes (returningClause r) = 0 := by
  cases r with
  | none => decide
  | some r =>
    have hword : holes " RETURNING " = 0 := by decide
    by_cases hempty : r = ""
    · rw [returningClause, if_pos hempty]
      decide
    · rw [returningClause, if_neg hempty, holes_append, hword, holes_port hplain (by simp) h]

/-- The columns of a conflict. -/
def OnConflict.columns : OnConflict → List String
  | .none => []
  | .ignore columns | .update columns => columns

theorem holes_onConflict {conflict : OnConflict} (h : onConflictOpts node.ports = .ok conflict) :
    ∀ c ∈ conflict.columns, holes c = 0 := by
  obtain ⟨port, hport, h⟩ := Exit.bind_ok_iff.mp h
  cases port with
  | none =>
    obtain rfl := Except.ok.inj h
    exact fun c hc => nomatch hc
  | some s =>
    obtain ⟨action, -, h⟩ := Exit.bind_ok_iff.mp h
    have hnames := holes_names (holes_port hplain (by simp) hport)
    obtain rfl := Except.ok.inj h
    split
    next => exact hnames
    next => exact hnames

theorem holes_pk {pk : Option PrimaryKey} (h : pkPort node.ports = .ok pk) :
    ∀ d ∈ pk, (∀ n ∈ d.columns, holes n = 0) ∧ ∀ a ∈ d.autoInc, holes a = 0 := by
  obtain ⟨port, hport, h⟩ := Exit.bind_ok_iff.mp h
  cases port with
  | none =>
    obtain rfl := Except.ok.inj h
    exact fun d hd => nomatch hd
  | some s =>
    simp only at h
    split at h
    next =>
      obtain rfl := Except.ok.inj h
      exact fun d hd => nomatch hd
    next =>
      obtain ⟨autoInc, hai, h⟩ := Exit.bind_ok_iff.mp h
      obtain rfl := Except.ok.inj h
      intro d hd
      obtain rfl := Option.some_inj.mp hd
      refine ⟨holes_names (holes_port hplain (by simp) hport), ?_⟩
      intro a ha
      cases ha
      exact holes_port hplain (by simp) hai

theorem holes_sqlCast {sqlCastMap : List (String × String)}
    (h : collectSqlCast node.ports = .ok sqlCastMap) : ∀ p ∈ sqlCastMap, holes p.2 = 0 := by
  have hcasts := hplain.casts
  have hall := Exit.mapM_ok_iff.mp h
  clear h
  generalize collectFamily node.ports "sqlCast" = family at hcasts hall
  induction hall with
  | nil => exact fun p hp => nomatch hp
  | @cons q read family reads hread _ ih =>
    have hrest := ih fun r hr => hcasts r (List.mem_cons_of_mem q hr)
    intro r hr
    rcases List.mem_cons.mp hr with rfl | hr
    · split at hread
      next s hs =>
        obtain rfl := Except.ok.inj hread
        exact hcasts q List.mem_cons_self s hs
      next => exact nomatch hread
    · exact hrest r hr

theorem holes_castSuffix {sqlCastMap : List (String × String)}
    (h : collectSqlCast node.ports = .ok sqlCastMap) (dialect : Dialect) (c : String) :
    holes (castSuffix dialect sqlCastMap c) = 0 := by
  unfold castSuffix
  split
  next => decide
  next sqlCast hlookup =>
    split
    next => decide
    next =>
      have hword : holes "::" = 0 := by decide
      obtain ⟨l, r, hmap, -⟩ := List.lookup_eq_some_iff.mp hlookup
      have hmem : (c, sqlCast) ∈ sqlCastMap := by
        rw [hmap]
        simp
      exact (holes_append _ _).trans (by rw [hword, holes_sqlCast hplain h _ hmem])

theorem holes_family {family : String} (hfamily : family ∈ ["values", "set", "key"]) :
    ∀ c ∈ (collectFamily node.ports family).map Prod.fst, holes c = 0 := by
  intro c hc
  obtain ⟨p, hp, rfl⟩ := List.mem_map.mp hc
  exact hplain.columns family hfamily p hp

theorem holes_sorted {family : String} (hfamily : family ∈ ["values", "set", "key"]) :
    ∀ c ∈ sorted (collectFamily node.ports family), holes c = 0 := by
  intro c hc
  exact holes_family hplain hfamily c (List.mem_mergeSort.mp hc)

end Ports

/-! ## The MySQL hint -/

/-- The hint that may be added has no question marks. -/
structure TxOp.HintPlain (op : TxOp) : Prop where
  pk : ∀ d ∈ op.pk, (∀ n ∈ d.columns, holes n = 0) ∧ ∀ a ∈ d.autoInc, holes a = 0
  conflict : ∀ c ∈ op.writeMeta.bind WriteMeta.onConflict, holes c = 0

theorem holes_hint {d : PrimaryKey} {conflict : Option String} (hcolumns : ∀ n ∈ d.columns, holes n = 0)
    (hai : ∀ a ∈ d.autoInc, holes a = 0) (hconflict : ∀ c ∈ conflict, holes c = 0) :
    '?' ∉ MysqlReturning.pkHint d conflict := by
  have hfields : '?' ∉ MysqlReturning.hintFields d conflict := by
    intro hmem
    have hparts : '?' ∈ MysqlReturning.commas d.columns ∨ '?' ∈ ";ai=".toList ∨
        '?' ∈ (d.autoInc.getD "").toList ∨ ∃ c ∈ conflict, '?' ∈ ";conflict=".toList ++ c.toList := by
      unfold MysqlReturning.hintFields at hmem
      simp only [List.mem_append] at hmem
      rcases hmem with h | h | h | h
      · exact Or.inl h
      · exact Or.inr (Or.inl h)
      · exact Or.inr (Or.inr (Or.inl h))
      · right; right; right
        cases conflict with
        | none => exact nomatch h
        | some c =>
          simp only at h
          split at h
          next => exact nomatch h
          next => exact ⟨c, rfl, h⟩
    rcases hparts with h | h | h | ⟨c, hc, h⟩
    · rcases MysqlReturning.mem_commas h with h | ⟨n, hn, h⟩
      · exact absurd h (by decide)
      · exact holes_eq_zero.mp (hcolumns n hn) h
    · exact absurd h (by decide)
    · cases hd : d.autoInc with
      | none =>
        rw [hd] at h
        exact nomatch h
      | some a =>
        rw [hd] at h
        exact holes_eq_zero.mp (hai a hd) h
    · rcases List.mem_append.mp h with h | h
      · exact absurd h (by decide)
      · exact holes_eq_zero.mp (hconflict c hc) h
  intro hmem
  rcases List.mem_append.mp hmem with h | h
  · exact absurd h (by decide)
  · rcases List.mem_append.mp h with h | h
    · exact hfields h
    · exact absurd h (by decide)

def TxOp.followedBy (op : TxOp) (extra : String) : TxOp := { op with sql := op.sql ++ extra }

theorem followedBy_empty (op : TxOp) : op.followedBy "" = op := by
  rw [TxOp.followedBy, String.append_empty]

theorem withPkHint_eq {op : TxOp} (h : op.HintPlain) :
    ∃ extra, holes extra = 0 ∧ withPkHint op = op.followedBy extra := by
  have hsame : mysqlPkHint op.sql.toList op.pk (op.writeMeta.bind WriteMeta.onConflict) =
      op.sql.toList → withPkHint op = op.followedBy "" := by
    intro heq
    rw [withPkHint, heq, String.ofList_toList, followedBy_empty]
  cases hpk : op.pk with
  | none => exact ⟨"", by decide, hsame (by rw [hpk]; rfl)⟩
  | some d =>
    cases hret : MysqlReturning.hasReturning false op.sql.toList with
    | false => exact ⟨"", by decide, hsame (MysqlReturning.mysqlPkHint_plain hret _ _)⟩
    | true =>
      cases hhint : MysqlReturning.hasHint op.sql.toList with
      | true => exact ⟨"", by decide, hsame (MysqlReturning.mysqlPkHint_hinted hhint _ _)⟩
      | false =>
        refine ⟨String.ofList (MysqlReturning.pkHint d (op.writeMeta.bind WriteMeta.onConflict)), ?_, ?_⟩
        · rw [holes_eq_zero, String.toList_ofList]
          exact holes_hint (h.pk d hpk).1 (h.pk d hpk).2 h.conflict
        · have hadded := MysqlReturning.mysqlPkHint_added hret hhint d
            (op.writeMeta.bind WriteMeta.onConflict)
          rw [withPkHint, TxOp.followedBy, hpk, hadded, String.ofList_append, String.ofList_toList]

/-! ## Statements as texts -/

theorem binds_of_clear {op : TxOp} {parts : Parts} {param : Slot → TxParam}
    (hsql : op.sql.toList = Template.marked '?' parts)
    (hparams : op.params = (Template.slots parts).map param) (hclear : Template.Clear '?' parts) :
    op.Binds parts param := by
  refine ⟨hsql, hparams, ?_⟩
  intro write
  rw [hsql, hparams, List.map_map]
  exact Template.fill_marked '?' (fun slot => write (param slot)) hclear

theorem marked_literal (s : String) (ps : Parts) :
    Template.marked '?' (literal s :: ps) = s.toList ++ Template.marked '?' ps := rfl

theorem marked_append (ps qs : Parts) :
    Template.marked '?' (ps ++ qs) = Template.marked '?' ps ++ Template.marked '?' qs :=
  Template.render_append _ ps qs

theorem clear_cons {s : String} {ps : Parts} (h : holes s = 0) (hps : Template.Clear '?' ps) :
    Template.Clear '?' (literal s :: ps) := by
  intro t ht
  rcases List.mem_cons.mp ht with ht | ht
  · obtain rfl : t = s.toList := by simpa [literal] using ht
    exact holes_eq_zero.mp h
  · exact hps t ht

def Assignment.slot (a : Assignment) : Slot := ⟨a.column, a.value⟩

section Places
variable (as : List Assignment)

/-- A list of values, each behind its own text. -/
def placesBehind (lead : Assignment → String) : Parts :=
  Template.sepBy ", ".toList (as.map fun a => literal (lead a) :: a.place)

theorem marked_places : Template.marked '?' (Template.sepBy ", ".toList (as.map Assignment.place)) =
    (commas (as.map fun a => "?" ++ a.cast)).toList := by
  have hplace : ∀ a : Assignment, Template.marked '?' a.place = ("?" ++ a.cast).toList := by
    intro a
    have hmark : Template.marked '?' a.place = '?' :: (a.cast.toList ++ []) := rfl
    rw [hmark, List.append_nil, String.toList_append]
    rfl
  rw [toList_commas, List.map_map, Template.marked, Template.render_sepBy, List.map_map]
  exact congrArg _ (List.map_congr_left fun a _ => hplace a)

theorem marked_sets (lead : Assignment → String) :
    Template.marked '?' (placesBehind as lead) =
      (commas (as.map fun a => lead a ++ ("?" ++ a.cast))).toList := by
  have hplace : ∀ a : Assignment, Template.marked '?' (literal (lead a) :: a.place) =
      (lead a ++ ("?" ++ a.cast)).toList := by
    intro a
    have hmark : Template.marked '?' (literal (lead a) :: a.place) =
        (lead a).toList ++ '?' :: (a.cast.toList ++ []) := rfl
    rw [hmark, List.append_nil, String.toList_append, String.toList_append]
    rfl
  rw [toList_commas, List.map_map, placesBehind, Template.marked, Template.render_sepBy, List.map_map]
  exact congrArg _ (List.map_congr_left fun a _ => hplace a)

theorem slots_places : Template.slots (Template.sepBy ", ".toList (as.map Assignment.place)) =
    as.map Assignment.slot := by
  rw [Template.slots_sepBy, List.flatMap_map]
  exact (List.map_eq_flatMap).symm

theorem slots_sets (lead : Assignment → String) :
    Template.slots (placesBehind as lead) = as.map Assignment.slot := by
  rw [placesBehind, Template.slots_sepBy, List.flatMap_map]
  exact (List.map_eq_flatMap).symm

variable {as}

theorem clear_places (h : ∀ a ∈ as, holes a.cast = 0) :
    Template.Clear '?' (Template.sepBy ", ".toList (as.map Assignment.place)) := by
  apply Template.clear_sepBy (by decide)
  intro t ht
  obtain ⟨a, ha, rfl⟩ := List.mem_map.mp ht
  intro s hs
  obtain rfl : s = a.cast.toList := by simpa [Assignment.place, literal] using hs
  exact holes_eq_zero.mp (h a ha)

theorem clear_sets {lead : Assignment → String} (h : ∀ a ∈ as, holes a.cast = 0)
    (hlead : ∀ a ∈ as, holes (lead a) = 0) : Template.Clear '?' (placesBehind as lead) := by
  apply Template.clear_sepBy (by decide)
  intro t ht
  obtain ⟨a, ha, rfl⟩ := List.mem_map.mp ht
  apply clear_cons (hlead a ha)
  intro s hs
  obtain rfl : s = a.cast.toList := by simpa [Assignment.place, literal] using hs
  exact holes_eq_zero.mp (h a ha)

end Places

theorem insert_marked (dialect : Dialect) (table : String) (as : List Assignment) (tail : String) :
    Template.marked '?' ((Statement.insert table as tail).parts dialect) =
      ("INSERT INTO " ++ table ++ " (" ++ commas (as.map Assignment.column) ++ ") VALUES (" ++
        commas (as.map fun a => "?" ++ a.cast) ++ ")" ++ tail).toList := by
  have hlast : Template.marked '?' [literal (")" ++ tail)] = (")" ++ tail).toList :=
    List.append_nil _
  rw [Statement.parts, marked_literal, marked_append, marked_places, hlast, ← String.toList_append,
    ← String.toList_append, ← String.append_assoc, ← String.append_assoc]

theorem update_marked (dialect : Dialect) (table : String) (as : List Assignment)
    (conds : List Condition) (tail : String) :
    Template.marked '?' ((Statement.update table as conds tail).parts dialect) =
      ("UPDATE " ++ table ++ " SET " ++
        commas (as.map fun a => a.column ++ " = " ++ ("?" ++ a.cast))).toList ++
          (Template.marked '?' (whereParts dialect conds) ++ tail.toList) := by
  have hlast : Template.marked '?' [literal tail] = tail.toList := List.append_nil _
  have hsets := marked_sets as fun a => a.column ++ " = "
  rw [placesBehind] at hsets
  rw [Statement.parts, marked_literal, marked_append, marked_append, hsets, hlast,
    ← List.append_assoc, ← String.toList_append]

theorem delete_marked (dialect : Dialect) (table : String) (conds : List Condition) (tail : String) :
    Template.marked '?' ((Statement.delete table conds tail).parts dialect) =
      ("DELETE FROM " ++ table).toList ++
        (Template.marked '?' (whereParts dialect conds) ++ tail.toList) := by
  have hlast : Template.marked '?' [literal tail] = tail.toList := List.append_nil _
  rw [Statement.parts, marked_literal, marked_append, hlast]

theorem unnest_marked (dialect : Dialect) (head : String) (as : List Assignment) (tail : String) :
    Template.marked '?' ((Statement.unnest head as tail).parts dialect) =
      (head ++ " FROM UNNEST(" ++ commas (as.map fun a => "?" ++ a.cast) ++ ") AS v(" ++
        commas (as.map Assignment.column) ++ ")" ++ tail).toList := by
  have hlast : Template.marked '?'
      [literal (") AS v(" ++ commas (as.map Assignment.column) ++ ")" ++ tail)] =
        (") AS v(" ++ commas (as.map Assignment.column) ++ ")" ++ tail).toList := List.append_nil _
  rw [Statement.parts, marked_literal, marked_append, marked_places, hlast, ← String.toList_append,
    ← String.toList_append, ← String.append_assoc, ← String.append_assoc, ← String.append_assoc,
    ← String.append_assoc]

/-! ## Each kind of write -/

/-- The operation corresponds to the node, also with a text without question marks behind it. -/
structure TxOp.Compiled (op : TxOp) (node : WriteNodeLike) (dialect : Dialect) : Prop where
  hint : op.HintPlain
  corresponds : ∀ extra, holes extra = 0 → (op.followedBy extra).Corresponds node dialect

theorem holes_assignments {cols : List String} (h : ∀ c ∈ cols, holes c = 0) {value : String → String}
    (hvalue : ∀ c ∈ cols, holes (value c) = 0) : holes (assignments cols value) = 0 := by
  have hword : holes " = " = 0 := by decide
  apply holes_commas_map
  intro c hc
  rw [holes_append, holes_append, h c hc, hword, hvalue c hc]

theorem holes_onConflictTail {dialect : Dialect} {cols : List String} {conflict : OnConflict}
    (hcols : ∀ c ∈ cols, holes c = 0) (hconflict : ∀ c ∈ conflict.columns, holes c = 0) :
    holes (onConflictTail dialect cols conflict) = 0 := by
  have hwords : holes " ON DUPLICATE KEY UPDATE " = 0 ∧ holes " = " = 0 ∧ holes " ON CONFLICT (" = 0 ∧
      holes ") DO NOTHING" = 0 ∧ holes ") DO UPDATE SET " = 0 ∧ holes "VALUES(" = 0 ∧
      holes ")" = 0 ∧ holes "excluded." = 0 ∧ holes "undefined" = 0 := by decide
  obtain ⟨h₁, h₂, h₃, h₄, h₅, h₆, h₇, h₈, h₉⟩ := hwords
  have hvalues : ∀ c ∈ cols, holes ("VALUES(" ++ c ++ ")") = 0 := by
    intro c hc
    rw [holes_append, holes_append, h₆, hcols c hc, h₇]
  have hexcluded : ∀ c ∈ cols, holes ("excluded." ++ c) = 0 := by
    intro c hc
    rw [holes_append, h₈, hcols c hc]
  cases conflict with
  | none => exact (by decide : holes "" = 0)
  | ignore columns =>
    change ∀ c ∈ columns, holes c = 0 at hconflict
    have hfirst : holes (columns.head?.getD "undefined") = 0 := by
      cases columns with
      | nil => exact h₉
      | cons c columns => exact hconflict c List.mem_cons_self
    rw [onConflictTail]
    split
    next => rw [holes_append, holes_append, holes_append, h₁, hfirst, h₂]
    next => rw [holes_append, holes_append, h₃, holes_commas hconflict, h₄]
  | update columns =>
    change ∀ c ∈ columns, holes c = 0 at hconflict
    rw [onConflictTail]
    split
    next => rw [holes_append, h₁, holes_assignments hcols hvalues]
    next =>
      rw [holes_append, holes_append, holes_append, h₃, holes_commas hconflict, h₅,
        holes_assignments hcols hexcluded]

/-- The values of the fields, each with its cast. -/
def assignmentsOf (family : Ports) (cols : List String) (cast : String → String) : List Assignment :=
  cols.map fun c => ⟨c, valueOf family c, cast c⟩

section Assignments
variable (family : Ports) (cols : List String) (cast : String → String)

theorem map_assignmentsOf {β : Type} (g : Assignment → β) :
    (assignmentsOf family cols cast).map g = cols.map fun c => g ⟨c, valueOf family c, cast c⟩ := by
  rw [assignmentsOf, List.map_map]
  rfl

theorem columns_assignmentsOf : (assignmentsOf family cols cast).map Assignment.column = cols := by
  rw [map_assignmentsOf]
  exact List.map_id cols

theorem fields_assignmentsOf :
    columnsAndValues (assignmentsOf family cols cast) = fieldsOf family cols :=
  map_assignmentsOf family cols cast _

theorem slots_assignmentsOf : (assignmentsOf family cols cast).map Assignment.slot =
    cols.map fun c => ⟨c, valueOf family c⟩ := map_assignmentsOf family cols cast _

variable {cast}

theorem cast_assignmentsOf (h : ∀ c ∈ cols, holes (cast c) = 0) :
    ∀ a ∈ assignmentsOf family cols cast, holes a.cast = 0 := by
  intro a ha
  obtain ⟨c, hc, rfl⟩ := List.mem_map.mp ha
  exact h c hc

end Assignments

theorem exprs_eq (cols : List String) (value : String → JsVal) :
    (cols.map value).map TxParam.expr =
      (cols.map fun c => (⟨c, value c⟩ : Slot)).map fun slot => .expr slot.value := by
  rw [List.map_map, List.map_map]
  rfl

section Compile
variable {node : WriteNodeLike} (hplain : node.Plain) {dialect : Dialect} {table : String}
  (htable : node.ports.lookup "table" = some (.str table)) {sqlCastMap : List (String × String)}
  (hcast : collectSqlCast node.ports = .ok sqlCastMap)
include hplain htable

theorem holes_table : holes table = 0 := hplain.texts "table" (by simp) table htable

include hcast

theorem compileInsert_ok {op : TxOp} (hcomponent : node.component = .insert) (hbatch : ¬ node.Batch)
    (h : compileInsert node.ports table sqlCastMap (collectFamily node.ports "values") dialect = .ok op) :
    op.Compiled node dialect := by
  obtain ⟨conflict, hconflict, h⟩ := Exit.bind_ok_iff.mp h
  obtain ⟨tail, htail, h⟩ := Exit.bind_ok_iff.mp h
  obtain ⟨pk, hpk, h⟩ := Exit.bind_ok_iff.mp h
  obtain ⟨onConflict, hport, h⟩ := Exit.bind_ok_iff.mp h
  obtain ⟨returned, -, h⟩ := Exit.bind_ok_iff.mp h
  obtain rfl := Except.ok.inj h
  have hvalues : "values" ∈ ["values", "set", "key"] := by simp
  have hcols := holes_sorted hplain hvalues
  refine ⟨⟨holes_pk hplain hpk, ?_⟩, ?_⟩
  · intro c hc
    cases hc
    exact holes_port hplain (by simp) hport
  intro extra hextra
  refine ⟨fun _ => ?_, fun hb => absurd hb hbatch, fun hb => absurd hb hbatch⟩
  generalize hfamily : collectFamily node.ports "values" = values at hcols
  let cols := sorted values
  let as := assignmentsOf values cols (castSuffix dialect sqlCastMap)
  let rest := onConflictTail dialect cols conflict ++ tail ++ extra
  have hrest : holes (")" ++ rest) = 0 := by
    have hword : holes ")" = 0 := by decide
    rw [holes_append, holes_append, holes_append, hword,
      holes_onConflictTail hcols (holes_onConflict hplain hconflict),
      holes_returningTail hplain htail, hextra]
  have hlead : holes ("INSERT INTO " ++ table ++ " (" ++ commas cols ++ ") VALUES (") = 0 := by
    have hwords : holes "INSERT INTO " = 0 ∧ holes " (" = 0 ∧ holes ") VALUES (" = 0 := by decide
    rw [holes_append, holes_append, holes_append, holes_append, hwords.1, hwords.2.1, hwords.2.2,
      holes_table hplain htable, holes_commas hcols]
  have hslots : Template.slots ((Statement.insert table as rest).parts dialect) =
      cols.map fun c => ⟨c, valueOf values c⟩ := by
    have hsplit : Template.slots ((Statement.insert table as rest).parts dialect) =
        Template.slots (Template.sepBy ", ".toList (as.map Assignment.place) ++
          [literal (")" ++ rest)]) := rfl
    rw [hsplit, Template.slots_append, slots_places, slots_assignmentsOf]
    exact List.append_nil _
  refine ⟨Statement.insert table as rest, _, ⟨hcomponent, hbatch, htable, ?_⟩, rfl, rfl, ?_, ?_⟩
  · rw [hfamily]
    exact fields_assignmentsOf values cols _
  · apply binds_of_clear
    · have hplaces : (as.map fun a => "?" ++ a.cast) =
          cols.map (castPlaceholder dialect sqlCastMap) := map_assignmentsOf values cols _ _
      rw [insert_marked, columns_assignmentsOf, hplaces]
      apply congrArg String.toList
      change _ ++ extra = _ ++ (onConflictTail dialect cols conflict ++ tail ++ extra)
      rw [← String.append_assoc, ← String.append_assoc]
    · rw [hslots, List.map_map]
      rfl
    · rw [Statement.parts, columns_assignmentsOf]
      apply clear_cons hlead
      rw [Template.clear_append]
      exact ⟨clear_places (cast_assignmentsOf values cols fun c _ =>
        holes_castSuffix hplain hcast dialect c), clear_literal hrest⟩
  · rw [hslots, List.map_map]
    exact (List.map_id _).symm

theorem compileUpdate_ok {op : TxOp} (hcomponent : node.component = .update) (hbatch : ¬ node.Batch)
    (h : compileUpdate node.ports table sqlCastMap (collectFamily node.ports "set") dialect = .ok op) :
    op.Compiled node dialect := by
  obtain ⟨cond, hcond, h⟩ := Exit.bind_ok_iff.mp h
  obtain ⟨tail, htail, h⟩ := Exit.bind_ok_iff.mp h
  obtain ⟨returned, -, h⟩ := Exit.bind_ok_iff.mp h
  obtain ⟨pk, hpk, h⟩ := Exit.bind_ok_iff.mp h
  obtain rfl := Except.ok.inj h
  have hset : "set" ∈ ["values", "set", "key"] := by simp
  have hcols := holes_family hplain hset
  obtain ⟨members, conds, hmembers, hof, hwhere, hparams, hcolumns, hclear⟩ :=
    lowerWherePort_ok hcond hplain.members
  refine ⟨⟨holes_pk hplain hpk, fun c hc => nomatch hc⟩, ?_⟩
  intro extra hextra
  refine ⟨fun _ => ?_, fun hb => absurd hb hbatch, fun hb => absurd hb hbatch⟩
  generalize hfamily : collectFamily node.ports "set" = set at hcols
  let cols := set.map Prod.fst
  let as := assignmentsOf set cols (castSuffix dialect sqlCastMap)
  let rest := tail ++ extra
  have hrest : holes rest = 0 := by rw [holes_append, holes_returningTail hplain htail, hextra]
  have hhead : holes ("UPDATE " ++ table ++ " SET ") = 0 := by
    have hwords : holes "UPDATE " = 0 ∧ holes " SET " = 0 := by decide
    rw [holes_append, holes_append, hwords.1, hwords.2, holes_table hplain htable]
  have hlead : ∀ a ∈ as, holes (a.column ++ " = ") = 0 := by
    intro a ha
    obtain ⟨c, hc, rfl⟩ := List.mem_map.mp ha
    have hword : holes " = " = 0 := by decide
    exact (holes_append _ _).trans (by rw [hcols c hc, hword])
  let s := Statement.update table as conds rest
  have hslots : Template.slots (s.parts dialect) =
      (cols.map fun c => ⟨c, valueOf set c⟩) ++ Template.slots (whereParts dialect conds) := by
    have hsplit : Template.slots (s.parts dialect) =
        Template.slots (placesBehind as (fun a => a.column ++ " = ") ++
          (whereParts dialect conds ++ [literal rest])) := rfl
    have hlast : Template.slots [literal rest] = ([] : List Slot) := rfl
    rw [hsplit, Template.slots_append, Template.slots_append, slots_sets, slots_assignmentsOf, hlast,
      List.append_nil]
  refine ⟨s, _, ⟨hcomponent, hbatch, htable, ?_, members, hmembers, hof⟩, rfl, rfl, ?_, ?_⟩
  · rw [hfamily]
    exact fields_assignmentsOf set cols _
  · apply binds_of_clear
    · have hsets : (as.map fun a => a.column ++ " = " ++ ("?" ++ a.cast)) =
          cols.map (fun c => c ++ " = " ++ castPlaceholder dialect sqlCastMap c) :=
        map_assignmentsOf set cols _ _
      rw [update_marked, hsets, ← hwhere, ← String.toList_append, ← String.toList_append]
      apply congrArg String.toList
      change _ ++ extra = _ ++ (_ ++ (tail ++ extra))
      rw [← String.append_assoc, ← String.append_assoc]
    · change (cols.map (valueOf set) ++ cond.params).map TxParam.expr = _
      rw [hslots, hparams, List.map_append, List.map_append, exprs_eq]
      exact congrArg _ List.map_map
    · have hparts : s.parts dialect = literal ("UPDATE " ++ table ++ " SET ") ::
          (placesBehind as (fun a => a.column ++ " = ") ++
            (whereParts dialect conds ++ [literal rest])) := rfl
      rw [hparts]
      apply clear_cons hhead
      rw [Template.clear_append, Template.clear_append]
      exact ⟨clear_sets (cast_assignmentsOf set cols fun c _ =>
        holes_castSuffix hplain hcast dialect c) hlead, hclear, clear_literal hrest⟩
  · rw [hslots, List.map_append, List.map_map, ← hcolumns]
    exact congrArg (· ++ cond.columns) (List.map_id cols).symm

omit hcast in
theorem compileDelete_ok {op : TxOp} (hcomponent : node.component = .delete)
    (h : compileDelete node.ports table dialect = .ok op) : op.Compiled node dialect := by
  obtain ⟨cond, hcond, h⟩ := Exit.bind_ok_iff.mp h
  obtain ⟨tail, htail, h⟩ := Exit.bind_ok_iff.mp h
  obtain ⟨returned, -, h⟩ := Exit.bind_ok_iff.mp h
  obtain ⟨pk, hpk, h⟩ := Exit.bind_ok_iff.mp h
  obtain rfl := Except.ok.inj h
  have hbatch : ¬ node.Batch := fun hb => hb.1 hcomponent
  obtain ⟨members, conds, hmembers, hof, hwhere, hparams, hcolumns, hclear⟩ :=
    lowerWherePort_ok hcond hplain.members
  refine ⟨⟨holes_pk hplain hpk, fun c hc => nomatch hc⟩, ?_⟩
  intro extra hextra
  refine ⟨fun _ => ?_, fun hb => absurd hb hbatch, fun hb => absurd hb hbatch⟩
  let rest := tail ++ extra
  have hrest : holes rest = 0 := by rw [holes_append, holes_returningTail hplain htail, hextra]
  have hhead : holes ("DELETE FROM " ++ table) = 0 := by
    have hword : holes "DELETE FROM " = 0 := by decide
    rw [holes_append, hword, holes_table hplain htable]
  let s := Statement.delete table conds rest
  have hslots : Template.slots (s.parts dialect) = Template.slots (whereParts dialect conds) := by
    have hsplit : Template.slots (s.parts dialect) =
        Template.slots (whereParts dialect conds ++ [literal rest]) := rfl
    rw [hsplit, Template.slots_append]
    exact List.append_nil _
  refine ⟨s, _, ⟨hcomponent, htable, members, hmembers, hof⟩, rfl, rfl, ?_, ?_⟩
  · apply binds_of_clear
    · rw [delete_marked, ← hwhere, ← String.toList_append, ← String.toList_append]
      apply congrArg String.toList
      change _ ++ extra = _ ++ (_ ++ (tail ++ extra))
      rw [← String.append_assoc, ← String.append_assoc]
    · rw [hslots]
      change cond.params.map TxParam.expr = _
      rw [hparams, List.map_map]
      rfl
    · have hparts : s.parts dialect = literal ("DELETE FROM " ++ table) ::
          (whereParts dialect conds ++ [literal rest]) := rfl
      rw [hparts]
      apply clear_cons hhead
      rw [Template.clear_append]
      exact ⟨hclear, clear_literal hrest⟩
  · rw [hslots]
    exact hcolumns

end Compile

/-! ## Batches -/

theorem holes_inferPgType (v : JsVal) : holes (inferPgType v) = 0 := by
  have hall : ∀ t ∈ ["text", "int", "numeric", "bigint", "boolean", "timestamp", "text[]", "jsonb",
      "int[]", "numeric[]", "boolean[]", "timestamp[]"], holes t = 0 := by decide
  apply hall
  cases v with
  | num n =>
    rw [inferPgType]
    split <;> simp
  | arr xs =>
    rw [inferPgType]
    split
    next => simp
    next x _ =>
      cases x with
      | num n =>
        rw [inferPgArrayType]
        split <;> simp
      | _ => simp [inferPgArrayType]
  | _ => simp [inferPgType]

theorem typedColumns_ok {resolve : ColumnTypeResolver} {table : String} {cols : List String}
    {typed : List TypedColumn} (h : typedColumns resolve table cols = .ok typed) :
    typed.map Prod.fst = cols ∧ ∀ c ∈ typed, holes c.2 = 0 := by
  have hall := Exit.mapM_ok_iff.mp h
  clear h
  induction hall with
  | nil => exact ⟨rfl, fun c hc => nomatch hc⟩
  | @cons c t cols typed hread _ ih =>
    obtain ⟨sqlType, -, hread⟩ := Exit.bind_ok_iff.mp hread
    obtain ⟨specimen, -, hread⟩ := Exit.bind_ok_iff.mp hread
    obtain rfl := Except.ok.inj hread
    refine ⟨by rw [List.map_cons, ih.1], ?_⟩
    intro d hd
    rcases List.mem_cons.mp hd with rfl | hd
    · exact holes_inferPgType specimen
    · exact ih.2 d hd

/-- The arrays of typed columns. -/
def arraysOf (typed : List TypedColumn) (value : String → JsVal) (cast : String → String) :
    List Assignment := typed.map fun c => ⟨c.1, value c.1, "::" ++ cast c.2 ++ "[]"⟩

theorem unnest_compiled {node : WriteNodeLike} {op : TxOp} {head tail : String}
    {typed : List TypedColumn} {value : String → JsVal} {cast : String → String}
    (hbatch : node.Batch)
    (hmeans : ∀ tail, node.Means (.unnest head (arraysOf typed value cast) tail))
    (hsql : op.sql = head ++ " FROM UNNEST(" ++ commas (typed.map fun c => "?::" ++ cast c.2 ++ "[]") ++
      ") AS v(" ++ commas (typed.map Prod.fst) ++ ")" ++ tail)
    (hparams : op.params = pgBatchArrayParams (typed.map Prod.fst) value .postgres)
    (hmeta : op.writeMeta = none) (hpk : op.pk = none) (hhead : holes head = 0)
    (htail : holes tail = 0) (hcols : ∀ c ∈ typed.map Prod.fst, holes c = 0)
    (hcasts : ∀ c ∈ typed, holes (cast c.2) = 0) : op.Compiled node .postgres := by
  refine ⟨⟨fun d hd => ?_, fun c hc => ?_⟩, ?_⟩
  · rw [hpk] at hd
    exact nomatch hd
  · rw [hmeta] at hc
    exact nomatch hc
  intro extra hextra
  refine ⟨fun hb => absurd hbatch hb, fun _ _ => ?_, fun _ hd => absurd rfl hd⟩
  let as := arraysOf typed value cast
  let s := Statement.unnest head as (tail ++ extra)
  have hcolumns : as.map Assignment.column = typed.map Prod.fst := by
    change (typed.map _).map _ = _
    rw [List.map_map]
    rfl
  have hslots : Template.slots (s.parts .postgres) = as.map Assignment.slot := by
    have hsplit : Template.slots (s.parts .postgres) =
        Template.slots (Template.sepBy ", ".toList (as.map Assignment.place) ++
          [literal (") AS v(" ++ commas (as.map Assignment.column) ++ ")" ++ (tail ++ extra))]) := rfl
    rw [hsplit, Template.slots_append, slots_places]
    exact List.append_nil _
  refine ⟨s, hmeans _, hmeta, ?_⟩
  apply binds_of_clear
  · have hplaces : (as.map fun a => "?" ++ a.cast) =
        typed.map fun c => "?::" ++ cast c.2 ++ "[]" := by
      change (typed.map _).map _ = _
      rw [List.map_map]
      apply List.map_congr_left
      intro c _
      change "?" ++ ("::" ++ cast c.2 ++ "[]") = "?::" ++ cast c.2 ++ "[]"
      rw [← String.append_assoc, ← String.append_assoc]
      rfl
    rw [unnest_marked, hplaces, hcolumns, ← String.append_assoc, ← hsql]
    rfl
  · change op.params = _
    rw [hslots, hparams]
    change (typed.map Prod.fst).map _ = ((typed.map _).map _).map _
    rw [List.map_map, List.map_map, List.map_map]
    rfl
  · have hfrom : holes (head ++ " FROM UNNEST(") = 0 := by
      have hword : holes " FROM UNNEST(" = 0 := by decide
      rw [holes_append, hhead, hword]
    have hlast : holes (") AS v(" ++ commas (as.map Assignment.column) ++ ")" ++ (tail ++ extra)) = 0 := by
      have hwords : holes ") AS v(" = 0 ∧ holes ")" = 0 := by decide
      rw [hcolumns, holes_append, holes_append, holes_append, holes_append, hwords.1, hwords.2,
        holes_commas hcols, htail, hextra]
    have hcast : ∀ a ∈ as, holes a.cast = 0 := by
      intro a ha
      obtain ⟨c, hc, rfl⟩ := List.mem_map.mp ha
      have hwords : holes "::" = 0 ∧ holes "[]" = 0 := by decide
      change holes ("::" ++ cast c.2 ++ "[]") = 0
      rw [holes_append, holes_append, hwords.1, hwords.2, hcasts c hc]
    apply clear_cons hfrom
    rw [Template.clear_append]
    exact ⟨clear_places hcast, clear_literal hlast⟩

/-- The rows of a batch: every question mark is bound to the one document of the rows. -/
theorem rows_compiled {node : WriteNodeLike} {op : TxOp} {dialect : Dialect} {m : WriteMeta}
    (hplain : node.Plain) (hbatch : node.Batch) (hdialect : dialect ≠ .postgres)
    (hmeta : op.writeMeta = some m) (hrows : m.batch = true)
    (hcolumns : m.bindColumns = node.rowFields.map Prod.fst)
    (hparams : op.params = List.replicate (holes op.sql)
      (.batchRows m.bindColumns (node.rowFields.map Prod.snd) dialect))
    (hpk : pkPort node.ports = .ok op.pk)
    (hconflict : ∀ c ∈ m.onConflict, holes c = 0) : op.Compiled node dialect := by
  refine ⟨⟨holes_pk hplain hpk, ?_⟩, ?_⟩
  · intro c hc
    rw [hmeta] at hc
    exact hconflict c hc
  intro extra hextra
  refine ⟨fun hb => absurd hbatch hb, fun _ hd => absurd hd hdialect, fun _ _ => ?_⟩
  refine ⟨m, hmeta, hrows, hcolumns, ?_⟩
  change op.params = List.replicate (holes (op.sql ++ extra)) _
  rw [holes_append, hextra, Nat.add_zero]
  exact hparams

theorem fields_arraysOf (typed : List TypedColumn) (value : String → JsVal) (cast : String → String) :
    columnsAndValues (arraysOf typed value cast) =
      (typed.map Prod.fst).map fun c => (c, value c) := by
  rw [columnsAndValues, arraysOf, List.map_map, List.map_map]
  rfl

theorem holes_qualified {pre : String} (hpre : holes pre = 0) {cols : List String}
    (h : ∀ c ∈ cols, holes c = 0) : holes (commas (cols.map fun c => pre ++ c)) = 0 := by
  apply holes_commas_map
  intro c hc
  rw [holes_append, hpre, h c hc]

/-- The clause of a PostgreSQL batch insert behind its rows. -/
def pgConflictClause (cols : List String) : OnConflict → String
  | .none => ""
  | .ignore conflictCols => " ON CONFLICT (" ++ commas conflictCols ++ ") DO NOTHING"
  | .update conflictCols => " ON CONFLICT (" ++ commas conflictCols ++ ") DO UPDATE SET " ++
      assignments cols fun c => "EXCLUDED." ++ c

theorem holes_pgConflictClause {cols : List String} (h : ∀ c ∈ cols, holes c = 0)
    {conflict : OnConflict} (hconflict : ∀ c ∈ conflict.columns, holes c = 0) :
    holes (pgConflictClause cols conflict) = 0 := by
  have hwords : holes " ON CONFLICT (" = 0 ∧ holes ") DO NOTHING" = 0 ∧
      holes ") DO UPDATE SET " = 0 ∧ holes "EXCLUDED." = 0 := by decide
  obtain ⟨hon, hnothing, hset, hexcluded⟩ := hwords
  cases conflict with
  | none => exact (by decide : holes "" = 0)
  | ignore columns =>
    change ∀ c ∈ columns, holes c = 0 at hconflict
    change holes (" ON CONFLICT (" ++ commas columns ++ ") DO NOTHING") = 0
    rw [holes_append, holes_append, hon, hnothing, holes_commas hconflict]
  | update columns =>
    change ∀ c ∈ columns, holes c = 0 at hconflict
    have hvalue : ∀ c ∈ cols, holes ("EXCLUDED." ++ c) = 0 := by
      intro c hc
      rw [holes_append, hexcluded, h c hc]
    change holes (" ON CONFLICT (" ++ commas columns ++ ") DO UPDATE SET " ++
      assignments cols fun c => "EXCLUDED." ++ c) = 0
    rw [holes_append, holes_append, holes_append, hon, hset, holes_commas hconflict,
      holes_assignments h hvalue]

theorem pgInsertSql_eq (table : String) (cols : List TypedColumn) (conflict : OnConflict)
    (returning : Option String) : pgInsertSql table cols conflict returning =
      ("INSERT INTO " ++ table ++ " (" ++ commas (cols.map Prod.fst) ++ ") SELECT " ++
        commas ((cols.map Prod.fst).map fun c => "v." ++ c)) ++ " FROM UNNEST(" ++
        commas (cols.map fun c => "?::" ++ id c.2 ++ "[]") ++ ") AS v(" ++
        commas (cols.map Prod.fst) ++ ")" ++
        (pgConflictClause (cols.map Prod.fst) conflict ++ returningClause returning) := by
  rw [List.map_map, ← String.append_assoc]
  cases conflict <;> rfl

/-- `timestamp` arrays of an update are cast to `timestamptz`. -/
def elemCast (t : String) : String := if t = "timestamp" then "timestamptz" else t

theorem holes_elemCast {t : String} (h : holes t = 0) : holes (elemCast t) = 0 := by
  rw [elemCast]
  split
  next => decide
  next => exact h

theorem pgUpdateSql_eq (table : String) (keyCols updateCols : List TypedColumn)
    (returning : Option String) : pgUpdateSql table keyCols updateCols returning =
      ("UPDATE " ++ table ++ " AS t SET " ++
        assignments (updateCols.map Prod.fst) (fun c => "v." ++ c)) ++ " FROM UNNEST(" ++
        commas ((keyCols ++ updateCols).map fun c => "?::" ++ elemCast c.2 ++ "[]") ++ ") AS v(" ++
        commas ((keyCols ++ updateCols).map Prod.fst) ++ ")" ++
        (" WHERE " ++ " AND ".intercalate (keyCols.map fun k => "t." ++ k.1 ++ " = v." ++ k.1) ++
          returningClause returning) := by
  have hword : ") WHERE " = ")" ++ " WHERE " := rfl
  have htext : pgUpdateSql table keyCols updateCols returning =
      "UPDATE " ++ table ++ " AS t SET " ++
        assignments (updateCols.map Prod.fst) (fun c => "v." ++ c) ++ " FROM UNNEST(" ++
        commas ((keyCols ++ updateCols).map fun c => "?::" ++ elemCast c.2 ++ "[]") ++ ") AS v(" ++
        commas ((keyCols ++ updateCols).map Prod.fst) ++ ") WHERE " ++
        " AND ".intercalate (keyCols.map fun k => "t." ++ k.1 ++ " = v." ++ k.1) ++
        returningClause returning := rfl
  rw [htext, hword, ← String.append_assoc, ← String.append_assoc, ← String.append_assoc]

theorem holes_json_insert (dialect : Dialect) {table : String}
    (htable : holes table = 0) {cols : List String} (hcols : ∀ c ∈ cols, holes c = 0)
    {conflict : OnConflict} (hconflict : ∀ c ∈ conflict.columns, holes c = 0)
    {returning : Option String} (hreturning : holes (returningClause returning) = 0) :
    holes (if dialect = .mysql then mysqlInsertJson table cols conflict returning
      else sqliteInsertJson table cols conflict returning) = 1 := by
  have hmysql : holes "INSERT" = 0 ∧ holes "INSERT IGNORE" = 0 ∧ holes " INTO " = 0 ∧
      holes " (" = 0 ∧ holes ") " = 0 ∧ holes "SELECT " = 0 ∧ holes "JSON_UNQUOTE(jt." = 0 ∧
      holes ")" = 0 ∧ holes " FROM JSON_TABLE(?, '$[*]' COLUMNS(" = 1 ∧ holes " JSON PATH '$." = 0 ∧
      holes "'" = 0 ∧ holes ")) jt" = 0 ∧ holes " ON DUPLICATE KEY UPDATE " = 0 ∧
      holes "VALUES(" = 0 := by decide
  have hsqlite : holes "json_extract(value, '$." = 0 ∧ holes "')" = 0 ∧
      holes " FROM json_each(?)" = 1 ∧ holes "INSERT OR IGNORE" = 0 ∧
      holes " WHERE true ON CONFLICT (" = 0 ∧ holes ") DO UPDATE SET " = 0 ∧
      holes "excluded." = 0 := by decide
  obtain ⟨hinsert, hignore, hinto, hopen, hclose, hselect, hunquote, hparen, htableFn, hpath, hquote,
    hjt, hdup, hvalues⟩ := hmysql
  obtain ⟨hextract, hend, heach, hor, hwhere, hset, hexcluded⟩ := hsqlite
  split
  next =>
    have hread : holes (commas (cols.map fun c => "JSON_UNQUOTE(jt." ++ c ++ ")")) = 0 := by
      apply holes_commas_map
      intro c hc
      rw [holes_append, holes_append, hunquote, hcols c hc, hparen]
    have hpaths : holes (commas (cols.map fun c => c ++ " JSON PATH '$." ++ c ++ "'")) = 0 := by
      apply holes_commas_map
      intro c hc
      rw [holes_append, holes_append, holes_append, hcols c hc, hpath, hquote]
    have hassigned : holes (assignments cols fun c => "VALUES(" ++ c ++ ")") = 0 := by
      apply holes_assignments hcols
      intro c hc
      rw [holes_append, holes_append, hvalues, hcols c hc, hparen]
    unfold mysqlInsertJson
    cases conflict <;>
      simp only [holes_append, hinsert, hignore, hinto, hopen, hclose, hselect,
        htableFn, hjt, hdup, htable, hread, hpaths, hassigned, hreturning, holes_commas hcols]
  next =>
    have hread : holes (commas (cols.map fun c => "json_extract(value, '$." ++ c ++ "')")) = 0 := by
      apply holes_commas_map
      intro c hc
      rw [holes_append, holes_append, hextract, hcols c hc, hend]
    have hassigned : holes (assignments cols fun c => "excluded." ++ c) = 0 := by
      apply holes_assignments hcols
      intro c hc
      rw [holes_append, hexcluded, hcols c hc]
    unfold sqliteInsertJson
    cases conflict with
    | none =>
      simp only [holes_append, hinsert, hinto, hopen, hclose, hselect, heach, htable,
        hread, hreturning, holes_commas hcols]
    | ignore columns =>
      simp only [holes_append, hor, hinto, hopen, hclose, hselect, heach, htable,
        hread, hreturning, holes_commas hcols]
    | update columns =>
      change ∀ c ∈ columns, holes c = 0 at hconflict
      simp only [holes_append, hinsert, hinto, hopen, hclose, hselect, heach, htable,
        hread, hreturning, hwhere, hset, hassigned, holes_commas hcols, holes_commas hconflict]

theorem holes_qualifiedReturning {node : WriteNodeLike} (hplain : node.Plain) {r : Option String}
    (h : stringPort node.ports "returning" = .ok r) :
    holes (returningClause (r.map fun r => commas ((names r).map fun c => "t." ++ c))) = 0 := by
  cases r with
  | none => decide
  | some r =>
    have hwords : holes " RETURNING " = 0 ∧ holes "t." = 0 := by decide
    have hlist : holes (commas ((names r).map fun c => "t." ++ c)) = 0 :=
      holes_qualified hwords.2 (holes_names (holes_port hplain (by simp) h))
    rw [Option.map_some, returningClause]
    split
    next => decide
    next => rw [holes_append, hwords.1, hlist]

section Batches
variable {node : WriteNodeLike} (hplain : node.Plain) {dialect : Dialect} {table : String}
  (htable : node.ports.lookup "table" = some (.str table)) {resolve : Option ColumnTypeResolver}
include hplain htable

theorem compileInsertBatch_ok {op : TxOp} (hcomponent : node.component = .insert) (hbatch : node.Batch)
    (h : compileInsertBatch node.ports table (collectFamily node.ports "values") dialect resolve =
      .ok op) : op.Compiled node dialect := by
  have hvalues : "values" ∈ ["values", "set", "key"] := by simp
  have hcols := holes_sorted hplain hvalues
  have hname := holes_table hplain htable
  unfold compileInsertBatch at h
  simp only at h
  split at h
  next => exact nomatch h
  next resolve =>
    obtain ⟨typed, htyped, h⟩ := Exit.bind_ok_iff.mp h
    obtain ⟨conflict, hconflict, h⟩ := Exit.bind_ok_iff.mp h
    obtain ⟨returning, hreturning, h⟩ := Exit.bind_ok_iff.mp h
    obtain rfl := Except.ok.inj h
    obtain ⟨hfst, hcasts⟩ := typedColumns_ok htyped
    rw [← hfst] at hcols
    have hwords : holes "INSERT INTO " = 0 ∧ holes " (" = 0 ∧ holes ") SELECT " = 0 ∧
        holes "v." = 0 := by decide
    obtain ⟨hinto, hopen, hselect, hv⟩ := hwords
    have hclause := holes_pgConflictClause hcols (holes_onConflict hplain hconflict)
    refine unnest_compiled hbatch (fun tail => ⟨hbatch, Or.inl ⟨hcomponent, ?_⟩⟩)
      (pgInsertSql_eq table typed conflict returning) (by rw [hfst]) rfl rfl ?_ ?_ hcols hcasts
    · rw [fields_arraysOf, hfst]
      rfl
    · rw [holes_append, holes_append, holes_append, holes_append, holes_append, holes_qualified hv hcols,
        holes_commas hcols, hinto, hname, hopen, hselect]
    · rw [holes_append, hclause, holes_returningClause hplain hreturning]
  next hnone hsome =>
    obtain ⟨conflict, hconflict, h⟩ := Exit.bind_ok_iff.mp h
    obtain ⟨returning, hreturning, h⟩ := Exit.bind_ok_iff.mp h
    obtain ⟨pk, hpk, h⟩ := Exit.bind_ok_iff.mp h
    obtain ⟨onConflict, hport, h⟩ := Exit.bind_ok_iff.mp h
    obtain ⟨returned, -, h⟩ := Exit.bind_ok_iff.mp h
    obtain rfl := Except.ok.inj h
    have hdialect : dialect ≠ .postgres := by
      rintro rfl
      cases resolve with
      | none => exact hnone rfl rfl
      | some r => exact hsome r rfl rfl
    have hone := holes_json_insert dialect hname hcols (holes_onConflict hplain hconflict)
      (holes_returningClause hplain hreturning)
    have hfields : node.rowFields = fieldsOf (collectFamily node.ports "values")
        (sorted (collectFamily node.ports "values")) := if_pos hcomponent
    refine rows_compiled hplain hbatch hdialect rfl rfl ?_ ?_ hpk ?_
    · rw [hfields, fieldsOf, List.map_map]
      exact (List.map_id _).symm
    · change _ = List.replicate (holes (if _ then _ else _)) _
      rw [hone, hfields, fieldsOf, List.map_map]
      rfl
    · intro c hc
      cases hc
      exact holes_port hplain (by simp) hport

theorem compileUpdateBatch_ok {op : TxOp} (hcomponent : node.component = .update) (hbatch : node.Batch)
    (h : compileUpdateBatch node.ports table (collectFamily node.ports "set") dialect resolve =
      .ok op) : op.Compiled node dialect := by
  have hset : "set" ∈ ["values", "set", "key"] := by simp
  have hkey : "key" ∈ ["values", "set", "key"] := by simp
  have hsetCols := holes_sorted hplain hset
  have hkeyCols := holes_sorted hplain hkey
  have hname := holes_table hplain htable
  have hapart := hplain.apart
  unfold compileUpdateBatch at h
  simp only at h
  generalize hkeys : collectFamily node.ports "key" = key at h hkeyCols hapart
  generalize hsets : collectFamily node.ports "set" = set at h hsetCols hapart
  split at h
  next => exact nomatch h
  next =>
    split at h
    next => exact nomatch h
    next resolve =>
      obtain ⟨typedKeys, htypedKeys, h⟩ := Exit.bind_ok_iff.mp h
      obtain ⟨typedUpdates, htypedUpdates, h⟩ := Exit.bind_ok_iff.mp h
      obtain ⟨returning, hreturning, h⟩ := Exit.bind_ok_iff.mp h
      obtain rfl := Except.ok.inj h
      obtain ⟨hkeyFst, hkeyCasts⟩ := typedColumns_ok htypedKeys
      obtain ⟨hsetFst, hsetCasts⟩ := typedColumns_ok htypedUpdates
      have hfst : (typedKeys ++ typedUpdates).map Prod.fst = sorted key ++ sorted set := by
        rw [List.map_append, hkeyFst, hsetFst]
      have hcols : ∀ c ∈ sorted key ++ sorted set, holes c = 0 := by
        intro c hc
        rcases List.mem_append.mp hc with hc | hc
        · exact hkeyCols c hc
        · exact hsetCols c hc
      have hcasts : ∀ c ∈ typedKeys ++ typedUpdates, holes (elemCast c.2) = 0 := by
        intro c hc
        apply holes_elemCast
        rcases List.mem_append.mp hc with hc | hc
        · exact hkeyCasts c hc
        · exact hsetCasts c hc
      have hwords : holes "UPDATE " = 0 ∧ holes " AS t SET " = 0 ∧ holes " WHERE " = 0 ∧
          holes " AND " = 0 ∧ holes "t." = 0 ∧ holes " = v." = 0 ∧ holes "v." = 0 := by decide
      obtain ⟨hupdate, has, hwhere, hand, ht, heq, hv⟩ := hwords
      have hassigned : holes (assignments (typedUpdates.map Prod.fst) fun c => "v." ++ c) = 0 := by
        rw [hsetFst]
        apply holes_assignments hsetCols
        intro c hc
        rw [holes_append, hv, hsetCols c hc]
      have hmatch : holes (" AND ".intercalate
          (typedKeys.map fun k => "t." ++ k.1 ++ " = v." ++ k.1)) = 0 := by
        apply holes_intercalate hand
        intro s hs
        obtain ⟨k, hk, rfl⟩ := List.mem_map.mp hs
        have hk : holes k.1 = 0 := hkeyCols k.1 (hkeyFst ▸ List.mem_map_of_mem hk)
        rw [holes_append, holes_append, holes_append, ht, hk, heq]
      have hclause := holes_qualifiedReturning hplain hreturning
      refine unnest_compiled hbatch (fun tail => ⟨hbatch, Or.inr ⟨hcomponent, ?_⟩⟩)
        (pgUpdateSql_eq table typedKeys typedUpdates _) (by rw [hfst]) rfl rfl ?_ ?_
        (by rw [hfst]; exact hcols) hcasts
      · rw [hkeys, hsets, fields_arraysOf, hfst, List.map_append]
        congr 1
        · apply List.map_congr_left
          intro c hc
          exact congrArg (Prod.mk c) (if_pos hc)
        · apply List.map_congr_left
          intro c hc
          apply congrArg (Prod.mk c)
          apply if_neg
          intro hmem
          exact hapart c (List.mem_mergeSort.mp hc) (List.mem_mergeSort.mp hmem)
      · rw [holes_append, holes_append, holes_append, hassigned, hupdate, hname, has]
      · rw [holes_append, holes_append, hmatch, hwhere, hclause]
    next hnone hsome =>
      obtain ⟨returning, hreturning, h⟩ := Exit.bind_ok_iff.mp h
      obtain ⟨pk, hpk, h⟩ := Exit.bind_ok_iff.mp h
      obtain ⟨returned, -, h⟩ := Exit.bind_ok_iff.mp h
      obtain rfl := Except.ok.inj h
      have hdialect : dialect ≠ .postgres := by
        rintro rfl
        cases resolve with
        | none => exact hnone rfl rfl
        | some r => exact hsome r rfl rfl
      have hfields : node.rowFields = fieldsOf key (sorted key) ++ fieldsOf set (sorted set) := by
        have hnot : node.component ≠ .insert := by
          rw [hcomponent]
          exact nofun
        rw [← hkeys, ← hsets]
        exact if_neg hnot
      have hcols : sorted key ++ sorted set = node.rowFields.map Prod.fst := by
        rw [hfields, fieldsOf, fieldsOf, List.map_append, List.map_map, List.map_map]
        exact congrArg₂ _ (List.map_id _).symm (List.map_id _).symm
      have hrefs : (sorted key).map (valueOf key) ++ (sorted set).map (valueOf set) =
          node.rowFields.map Prod.snd := by
        rw [hfields, fieldsOf, fieldsOf, List.map_append, List.map_map, List.map_map]
        rfl
      refine rows_compiled hplain hbatch hdialect rfl rfl hcols ?_ hpk fun c hc => nomatch hc
      rw [← hrefs]
      rfl

end Batches

/-- The port `batch` of a node that is no batch. -/
theorem not_batch {node : WriteNodeLike} {port : Option String}
    (hport : stringPort node.ports "batch" = .ok port) (h : port ≠ some "true") : ¬ node.Batch := by
  rintro ⟨-, hlookup⟩
  apply h
  have hread : stringPort node.ports "batch" = .ok (some "true") := by
    rw [stringPort, hlookup]
  rw [hread] at hport
  exact (Except.ok.inj hport).symm

theorem compileWriteNodeSql_ok {node : WriteNodeLike} {dialect : Dialect}
    {resolve : Option ColumnTypeResolver} {op : TxOp} (hplain : node.Plain)
    (h : compileWriteNodeSql node dialect resolve = .ok op) : op.Compiled node dialect := by
  obtain ⟨port, htable, h⟩ := Exit.bind_ok_iff.mp h
  cases port with
  | none => exact nomatch h
  | some table =>
    have htable := stringPort_some htable
    obtain ⟨sqlCastMap, hcast, h⟩ := Exit.bind_ok_iff.mp h
    cases hcomponent : node.component with
    | insert =>
      simp only [hcomponent] at h
      split at h
      next => exact nomatch h
      next =>
        obtain ⟨batch, hbatch, h⟩ := Exit.bind_ok_iff.mp h
        split at h
        next htrue =>
          rw [htrue] at hbatch
          have hrows : node.Batch := ⟨by rw [hcomponent]; exact nofun, stringPort_some hbatch⟩
          exact compileInsertBatch_ok hplain htable hcomponent hrows h
        next hsingle =>
          exact compileInsert_ok hplain htable hcast hcomponent (not_batch hbatch hsingle) h
    | update =>
      simp only [hcomponent] at h
      split at h
      next => exact nomatch h
      next =>
        obtain ⟨batch, hbatch, h⟩ := Exit.bind_ok_iff.mp h
        split at h
        next htrue =>
          rw [htrue] at hbatch
          have hrows : node.Batch := ⟨by rw [hcomponent]; exact nofun, stringPort_some hbatch⟩
          exact compileUpdateBatch_ok hplain htable hcomponent hrows h
        next hsingle =>
          exact compileUpdate_ok hplain htable hcast hcomponent (not_batch hbatch hsingle) h
    | delete =>
      simp only [hcomponent] at h
      exact compileDelete_ok hplain htable hcomponent h
    | select =>
      simp only [hcomponent] at h
      exact nomatch h

/-- What the compiler emits for a node: the parameters are the values of the node's statement. -/
theorem compileWriteNode_corresponds (node : WriteNodeLike) (dialect : Dialect)
    (resolve : Option ColumnTypeResolver) (op : TxOp)
    (h : compileWriteNode node dialect resolve = .ok op) (hplain : node.Plain) :
    op.Corresponds node dialect := by
  obtain ⟨op, hop, rfl⟩ := map_ok_iff.mp h
  obtain ⟨hhint, hcorresponds⟩ := compileWriteNodeSql_ok hplain hop
  split
  next =>
    obtain ⟨extra, hextra, hwith⟩ := withPkHint_eq hhint
    rw [hwith]
    exact hcorresponds extra hextra
  next =>
    rw [← followedBy_empty op]
    exact hcorresponds "" (by decide)

/-- `$.<port>` -/
def inputPort (port : String) : JsVal := .obj [("ref", .arr [.str "$", .str port])]

def columnRef (column : String) : JsVal := .obj [("ref", .arr [.str column])]

theorem column_columnRef {c column : String} (h : ColumnOf (columnRef c) column) : column = c := by
  generalize hnode : columnRef c = node at h
  cases h with
  | ref path =>
    have hpath : [JsVal.str c] = path ++ [.str column] := by
      rw [columnRef] at hnode
      injection hnode with hentries
      injection hentries with hentry
      exact JsVal.arr.inj (Prod.mk.inj hentry).2
    have hlast := congrArg List.getLast? hpath
    rw [List.getLast?_concat] at hlast
    exact (JsVal.str.inj (Option.some_inj.mp hlast)).symm
  | refOpt path =>
    rw [columnRef] at hnode
    injection hnode with hentries
    injection hentries with hentry
    exact absurd (Prod.mk.inj hentry).1 (by decide)

theorem plain_eqMember {c : String} (hreserved : reserved c = false) (hholes : holes c = 0)
    (v : JsVal) : PlainMember (.obj [("eq", .arr [columnRef c, v])]) := by
  intro op col value column heq hcol
  have hparts : columnRef c = col := by
    injection heq with heq
    injection heq with heq
    injection heq with hop hargs
    injection hargs with hargs
    injection hargs with hcol
  obtain rfl := column_columnRef (hparts ▸ hcol)
  exact ⟨hreserved, Or.inl hholes⟩

/-- Retitle the unpublished posts of an author. -/
def retitle : WriteNodeLike :=
  ⟨.update, [("table", .str "posts"), ("set.title", inputPort "title"), ("sqlCast.title", .str "citext"),
    ("where", .obj [("arr", .arr [
      .obj [("eq", .arr [columnRef "author_id", inputPort "author"])],
      .obj [("eq", .arr [columnRef "published_at", .null])]])])]⟩

theorem retitle_plain : retitle.Plain := by
  refine ⟨?_, ?_, ?_, ?_, ?_⟩
  · intro name hname s hs
    fin_cases hname
    · obtain rfl := JsVal.str.inj (Option.some_inj.mp hs)
      decide
    all_goals exact nomatch hs
  · decide
  · intro p hp s hs
    obtain rfl := List.mem_singleton.mp hp
    obtain rfl := JsVal.str.inj hs
    decide
  · intro ctx members hmembers m hm
    obtain rfl := Except.ok.inj hmembers
    rcases List.mem_pair.mp hm with rfl | rfl
    · exact plain_eqMember (by decide) (by decide) _
    · exact plain_eqMember (by decide) (by decide) _
  · decide

def retitled : TxOp :=
  ⟨"UPDATE posts SET title = ?::citext WHERE author_id = ? AND published_at IS NULL",
    [.expr (inputPort "title"), .expr (inputPort "author")], none,
    some ⟨"posts", ["title", "author_id"], [], none, false⟩⟩

theorem compileWriteNode_retitle :
    compileWriteNode retitle .postgres none = .ok retitled ∧ retitled.Corresponds retitle .postgres :=
  ⟨rfl, compileWriteNode_corresponds retitle .postgres none retitled rfl retitle_plain⟩

/-- A batch of rows. -/
def importPosts : WriteNodeLike :=
  ⟨.insert, [("table", .str "posts"), ("batch", .str "true"), ("values.title", inputPort "titles"),
    ("values.author_id", inputPort "authors")]⟩

/-- A returned text with a question mark. -/
def flagPosts : WriteNodeLike :=
  ⟨.update, [("table", .str "posts"), ("set.title", inputPort "title"),
    ("returning", .str "meta ? 'draft' AS draft")]⟩

/-- The one parameter of a batch belongs to two columns, and a returned text has a question mark of
its own. -/
theorem parameters_shared :
    (∃ op m, compileWriteNode importPosts .sqlite none = .ok op ∧ op.writeMeta = some m ∧
      op.params.length = 1 ∧ m.bindColumns.length = 2) ∧
    ∃ op, compileWriteNode flagPosts .postgres none = .ok op ∧ op.params.length = 1 ∧
      op.sql.toList.count '?' = 2 :=
  ⟨⟨_, _, rfl, rfl, rfl, List.length_mergeSort _⟩,
    ⟨⟨"UPDATE posts SET title = ? RETURNING meta ? 'draft' AS draft",
      [.expr (inputPort "title")], none,
      some ⟨"posts", ["title"], ["meta ? 'draft' AS draft"], none, false⟩⟩, rfl, rfl, by decide⟩⟩

end LiteDb.WriteNode
