import LiteDbModel.Values

/-!
# Conditions and value tokens

A condition object maps keys to values; what a key contributes to the WHERE
clause depends on the kind of its value. `Piece` is a text together with the
parameters pushed while it was built, in the order of the pushes.
-/

namespace LiteDb
set_option autoImplicit false

/-- Neither an array nor a plain object. -/
def JsVal.isAtom : JsVal → Bool
  | .arr _ | .obj _ => false
  | _ => true

theorem isAtom_undefined : JsVal.undefined.isAtom = true := rfl

theorem isAtom_null : JsVal.null.isAtom = true := rfl

theorem isAtom_true : (JsVal.bool true).isAtom = true := rfl

theorem isAtom_str (s : String) : (JsVal.str s).isAtom = true := rfl

structure ColumnRef where
  tableName : String
  columnName : String
deriving DecidableEq

inductive Operator
  | and
  | or
deriving DecidableEq

def Operator.text : Operator → String
  | and => "AND"
  | or => "OR"

mutual
/-- A value of a condition object, or a value bound by a token. -/
inductive CondVal
  | js (v : JsVal) (atom : v.isAtom = true)
  /-- The `SKIP` symbol. -/
  | skip
  | arr (xs : List CondVal)
  | obj (ps : List (String × CondVal))
  | token (t : DBToken)
  | nested (c : DBConditions)

inductive DBToken
  | value (v : CondVal) (operator : String)
  | immediate (text operator : String)
  | nullValue
  | notNullValue
  | array (values : List CondVal)
  | dynamic (func : String) (values : List CondVal)
  | raw (sql : String)
  | tupleIn (columns : List String) (tuples : List (List CondVal))
  | cast (v : CondVal) (sqlType operator : String)
  | castArray (values : List CondVal) (sqlType : String)
  | parentRef (column : ColumnRef)
  | subquery (parentColumns : List ColumnRef) (tableName : String)
      (selectColumns : List ColumnRef) (conditions : List (ColumnRef × CondVal)) (notIn : Bool)
  | existsIn (tableName : String) (conditions : List (ColumnRef × CondVal)) (notExists : Bool)

inductive DBConditions
  | mk (conditions : List (String × CondVal)) (operator : Operator) (nested : List DBConditions)
end

/-- A text and the parameters pushed while it was built. -/
structure Piece where
  sql : String
  params : List CondVal

/-- `Array.prototype.join`. -/
def join (sep : String) : List String → String
  | [] => ""
  | [s] => s
  | s :: t :: ss => s ++ sep ++ join sep (t :: ss)

/-- The source's `if (sql) parts.push(sql)`, joined; every piece has pushed its parameters. -/
def joinPieces (sep : String) (ps : List Piece) : Piece :=
  ⟨join sep ((ps.map Piece.sql).filter (· ≠ "")), ps.flatMap Piece.params⟩

def Piece.wrap (p : Piece) : Piece := ⟨"(" ++ p.sql ++ ")", p.params⟩

/-- In parentheses unless it is empty. -/
def Piece.group (p : Piece) : Piece := if p.sql = "" then p else p.wrap

/-! ## Tokens -/

/-- A driver's `SqlCastFormatter`; `none` is the default of the cast tokens. -/
abbrev Formatter := Option (String → String → String)

def Formatter.format (fmt : Formatter) (placeholder sqlType : String) : String :=
  match fmt with
  | some f => f placeholder sqlType
  | none => placeholder ++ "::" ++ sqlType

/-- `getSqlCastFormatter` -/
def getSqlCastFormatter : Dialect → Formatter
  | .postgres => some fun placeholder sqlType => placeholder ++ "::" ++ sqlType
  | _ => some fun placeholder _ => placeholder

/-- One placeholder for each value. -/
def placeholders (placeholder : String) (values : List CondVal) : String :=
  join ", " (values.map fun _ => placeholder)

/-- `key + rest` when there is a key, and the keyless text otherwise. -/
def keyed (key rest keyless : String) : String := if key ≠ "" then key ++ rest else keyless

def inList (key placeholder : String) (values : List CondVal) : Piece :=
  if values = [] then ⟨"1 = 0", []⟩
  else
    let list := "(" ++ placeholders placeholder values ++ ")"
    ⟨keyed key (" IN " ++ list) list, values⟩

def formatColumn (col : ColumnRef) : String := col.tableName ++ "." ++ col.columnName

def whereClause (ps : List Piece) : Piece :=
  if ps = [] then ⟨"", []⟩
  else ⟨" WHERE " ++ join " AND " (ps.map Piece.sql), ps.flatMap Piece.params⟩

def columnList (cols : List ColumnRef) : String := join ", " (cols.map formatColumn)

/-- The single parent column, or the composite key in parentheses. -/
def parentList : List ColumnRef → String
  | [c] => formatColumn c
  | cs => "(" ++ columnList cs ++ ")"

mutual
/-- `compile` of each token class; an empty key is no key. -/
def DBToken.compile (fmt : Formatter) (key : String) : DBToken → Piece
  | .value v operator => ⟨keyed key (" " ++ operator ++ " ?") "?", [v]⟩
  | .immediate text operator => ⟨keyed key (" " ++ operator ++ " " ++ text) text, []⟩
  | .nullValue => ⟨keyed key " IS NULL" "NULL", []⟩
  | .notNullValue => ⟨keyed key " IS NOT NULL" "NOT NULL", []⟩
  | .array values => inList key "?" values
  | .dynamic func values => ⟨keyed key (" = " ++ func) func, values⟩
  | .raw sql => ⟨keyed key (" = " ++ sql) sql, []⟩
  | .tupleIn columns tuples =>
    if tuples = [] then ⟨"1 = 0", []⟩
    else
      ⟨"(" ++ join ", " columns ++ ") IN (" ++
        join ", " (tuples.map fun t => "(" ++ placeholders "?" t ++ ")") ++ ")", tuples.flatten⟩
  | .cast v sqlType operator =>
    let placeholder := fmt.format "?" sqlType
    ⟨keyed key (" " ++ operator ++ " " ++ placeholder) placeholder, [v]⟩
  | .castArray values sqlType => inList key (fmt.format "?" sqlType) values
  | .parentRef column => ⟨formatColumn column, []⟩
  | .subquery parentColumns tableName selectColumns conditions notIn =>
    let w := whereClause (subqueryConditions conditions)
    let subquery := "SELECT " ++ columnList selectColumns ++ " FROM " ++ tableName ++ w.sql
    ⟨parentList parentColumns ++ (if notIn then " NOT IN (" else " IN (") ++ subquery ++ ")", w.params⟩
  | .existsIn tableName conditions notExists =>
    let w := whereClause (subqueryConditions conditions)
    ⟨(if notExists then "NOT EXISTS" else "EXISTS") ++ " (SELECT 1 FROM " ++ tableName ++ w.sql ++ ")",
      w.params⟩

/-- The loop over a subquery's conditions. -/
def subqueryConditions : List (ColumnRef × CondVal) → List Piece
  | [] => []
  | (col, v) :: conds => subqueryCondition (formatColumn col) v :: subqueryConditions conds

def subqueryCondition (colRef : String) : CondVal → Piece
  | .token (.parentRef column) => ⟨colRef ++ " = " ++ formatColumn column, []⟩
  | .token t => t.compile none colRef
  | .js .null _ => ⟨colRef ++ " IS NULL", []⟩
  | .arr xs =>
    if xs = [] then ⟨"1 = 0", []⟩ else ⟨colRef ++ " IN (" ++ placeholders "?" xs ++ ")", xs⟩
  | v => ⟨colRef ++ " = ?", [v]⟩
end

/-! ## Conditions -/

/-- `key.startsWith('__')` -/
def reserved (key : String) : Bool := ['_', '_'].isPrefixOf key.toList

def hasHole (key : String) : Bool := key.toList.contains '?'

/-- `key.replace('?', text)`: the first question mark. -/
def replaceHole (text : List Char) : List Char → List Char
  | [] => []
  | c :: cs => if c = '?' then text ++ cs else c :: replaceHole text cs

/-- `compileCustomOperator` on an array. -/
def compileCustomArray (key : String) (values : List CondVal) : Piece :=
  let placeholderCount := key.toList.count '?'
  if placeholderCount = 1 ∧ values = [] then
    ⟨String.ofList (replaceHole "NULL".toList key.toList), []⟩
  else if placeholderCount = 1 ∧ values.length ≠ 1 then
    ⟨String.ofList (replaceHole (placeholders "?" values).toList key.toList), values⟩
  else ⟨key, values⟩

def compileArray (key : String) (values : List CondVal) : Piece :=
  if hasHole key then compileCustomArray key values
  else if values = [] then ⟨"1 = 0", []⟩
  else ⟨key ++ " IN (" ++ placeholders "?" values ++ ")", values⟩

/-- `compileCustomOperator` on one value, and the default equality. -/
def compileScalar (key : String) (v : CondVal) : Piece :=
  if hasHole key then ⟨key, [v]⟩ else ⟨key ++ " = ?", [v]⟩

def compileBool (key : String) (b : Bool) : Piece :=
  if b ∧ ' ' ∈ key.toList then ⟨key, []⟩
  else ⟨key ++ " = " ++ (if b then "TRUE" else "FALSE"), []⟩

def compileJs (key : String) : (v : JsVal) → v.isAtom = true → Piece
  | .null, _ => ⟨key ++ " IS NULL", []⟩
  | .bool b, _ => compileBool key b
  | v, h => compileScalar key (.js v h)

def texts (xs : List CondVal) : List String :=
  xs.filterMap fun x =>
    match x with
    | .js (.str s) _ => some s
    | _ => none

/-- The value of `__raw__`: a text, a `[text, params]` pair, or several texts. -/
def compileRaw : CondVal → Piece
  | .js (.str s) _ => ⟨s, []⟩
  | .arr [.js (.str s) _, .arr params] => ⟨s, params⟩
  | .arr xs => ⟨join " AND " (texts xs), []⟩
  | _ => ⟨"", []⟩

/-- What `compileCondition` makes of an array under the key `__or__`. -/
def compileOr (groups : List Piece) : Piece :=
  (joinPieces " OR " (groups.map Piece.group)).group

mutual
/-- One entry of a condition object: the first test that the value and the key pass decides. -/
def compileCondition (fmt : Formatter) (key : String) : CondVal → Piece
  | .arr xs =>
    if key = "__or__" then compileOr (compileGroups fmt xs)
    else if key = "__raw__" then compileRaw (.arr xs)
    else if reserved key then ⟨"", []⟩
    else compileArray key xs
  | .token t => if key = "__raw__" then ⟨"", []⟩ else t.compile fmt key
  | .nested c => if key = "__raw__" then ⟨"", []⟩ else (compile fmt c).wrap
  | .js v h =>
    if key = "__raw__" then compileRaw (.js v h)
    else if reserved key then ⟨"", []⟩
    else compileJs key v h
  | .skip => if reserved key then ⟨"", []⟩ else compileScalar key .skip
  | .obj ps => if reserved key then ⟨"", []⟩ else compileScalar key (.obj ps)

/-- `new DBConditions(group, 'AND').compile` of each group. -/
def compileGroups (fmt : Formatter) : List CondVal → List Piece
  | [] => []
  | .obj ps :: xs => joinPieces " AND " (compileEntries fmt ps) :: compileGroups fmt xs
  | _ :: xs => joinPieces " AND " [] :: compileGroups fmt xs

def compileEntries (fmt : Formatter) : List (String × CondVal) → List Piece
  | [] => []
  | (k, v) :: ps => compileCondition fmt k v :: compileEntries fmt ps

/-- `DBConditions.compile` -/
def compile (fmt : Formatter) : DBConditions → Piece
  | .mk conditions operator nested =>
    joinPieces (" " ++ operator.text ++ " ")
      (compileEntries fmt conditions ++ compileNested fmt nested)

def compileNested (fmt : Formatter) : List DBConditions → List Piece
  | [] => []
  | c :: cs => (compile fmt c).group :: compileNested fmt cs
end

theorem compileEntries_eq (fmt : Formatter) (ps : List (String × CondVal)) :
    compileEntries fmt ps = ps.map fun p => compileCondition fmt p.1 p.2 := by
  induction ps with
  | nil => rfl
  | cons p ps ih => rw [compileEntries, ih, List.map_cons]

theorem compile_and (fmt : Formatter) (ps : List (String × CondVal)) :
    compile fmt (.mk ps .and []) =
      joinPieces " AND " (ps.map fun p => compileCondition fmt p.1 p.2) := by
  have hsep : " " ++ Operator.and.text ++ " " = " AND " := by decide
  simp only [compile, compileNested, List.append_nil, hsep, compileEntries_eq]

/-! ## Which entries are empty -/

/-- A key with a blank after the name is reserved when the name is. -/
theorem reserved_append {name : String} (rest : List Char) :
    reserved (name ++ String.ofList (' ' :: rest)) = reserved name := by
  rw [reserved, reserved, String.toList_append, String.toList_ofList]
  rcases name.toList with _ | ⟨a, _ | ⟨b, cs⟩⟩
  · rfl
  · simp [List.isPrefixOf]
  · simp [List.isPrefixOf]

theorem join_ne_empty {sep : String} {s : String} {ss : List String} (h : s ≠ "") :
    join sep (s :: ss) ≠ "" := by
  intro he
  have hl := congrArg String.length he
  cases ss with
  | nil => exact h he
  | cons t ss =>
    simp only [join, String.length_append, String.length_empty] at hl
    have : s.length = 0 := by omega
    exact h (String.length_eq_zero_iff.mp this)

theorem joinPieces_sql_eq_empty {sep : String} {ps : List Piece} :
    (joinPieces sep ps).sql = "" ↔ ∀ p ∈ ps, p.sql = "" := by
  have hfil : (ps.map Piece.sql).filter (· ≠ "") = [] ↔ ∀ p ∈ ps, p.sql = "" := by
    simp [List.filter_eq_nil_iff]
  rw [← hfil]
  simp only [joinPieces]
  constructor
  · intro h
    rcases hss : (ps.map Piece.sql).filter (· ≠ "") with _ | ⟨s, ss⟩
    · rfl
    · have hs : s ∈ (ps.map Piece.sql).filter (· ≠ "") := by rw [hss]; exact List.mem_cons_self
      rw [hss] at h
      exact absurd h (join_ne_empty (by simpa using (List.mem_filter.mp hs).2))
  · intro h
    rw [h, join]

theorem joinPieces_single (sep : String) (p : Piece) : joinPieces sep [p] = p := by
  by_cases h : p.sql = ""
  · simp [joinPieces, h, join]
    rw [← h]
  · simp [joinPieces, h, join]

theorem append_ne_empty {s t : String} (h : t ≠ "") : s ++ t ≠ "" := by
  intro he
  have hl := congrArg String.length he
  simp only [String.length_append, String.length_empty] at hl
  exact h (String.length_eq_zero_iff.mp (by omega))

theorem Piece.group_sql_eq_empty {p : Piece} : p.group.sql = "" ↔ p.sql = "" := by
  unfold Piece.group
  split
  · exact Iff.rfl
  · rename_i h
    constructor
    · intro hw
      exact absurd hw (append_ne_empty (by decide))
    · intro hp
      exact absurd hp h

theorem compileOr_sql_eq_empty {gs : List Piece} :
    (compileOr gs).sql = "" ↔ ∀ g ∈ gs, g.sql = "" := by
  rw [compileOr, Piece.group_sql_eq_empty, joinPieces_sql_eq_empty]
  simp [Piece.group_sql_eq_empty]

/-- A token whose text is empty. -/
def DBToken.silent (fmt : Formatter) (key : String) : DBToken → Prop
  | .immediate text _ => key = "" ∧ text = ""
  | .dynamic func _ => key = "" ∧ func = ""
  | .raw sql => key = "" ∧ sql = ""
  | .cast _ sqlType _ => key = "" ∧ fmt.format "?" sqlType = ""
  | _ => False

def silentRaw : CondVal → Prop
  | .js (.str s) _ => s = ""
  | .arr [.js (.str s) _, .arr _] => s = ""
  | .arr xs => texts xs = [] ∨ texts xs = [""]
  | _ => True

mutual
/-- An entry that `DBConditions` leaves out: it adds no text. -/
def silent (fmt : Formatter) (key : String) : CondVal → Prop
  | .arr xs =>
    if key = "__or__" then silentGroups fmt xs
    else if key = "__raw__" then silentRaw (.arr xs)
    else reserved key
  | .token t => key = "__raw__" ∨ t.silent fmt key
  | .nested _ => key = "__raw__"
  | .js v h => if key = "__raw__" then silentRaw (.js v h) else reserved key
  | .skip => reserved key
  | .obj _ => reserved key

def silentGroups (fmt : Formatter) : List CondVal → Prop
  | [] => True
  | .obj ps :: xs => silentEntries fmt ps ∧ silentGroups fmt xs
  | _ :: xs => silentGroups fmt xs

def silentEntries (fmt : Formatter) : List (String × CondVal) → Prop
  | [] => True
  | (k, v) :: ps => silent fmt k v ∧ silentEntries fmt ps
end

theorem keyed_eq_empty {key rest keyless : String} (h : rest ≠ "") :
    keyed key rest keyless = "" ↔ key = "" ∧ keyless = "" := by
  unfold keyed
  split
  · rename_i hk
    constructor
    · intro he
      exact absurd he (append_ne_empty h)
    · intro he
      exact absurd he.1 hk
  · rename_i hk
    constructor
    · intro he
      exact ⟨not_not.mp hk, he⟩
    · exact And.right

theorem append_ne_empty_left {s t : String} (h : s ≠ "") : s ++ t ≠ "" := by
  intro he
  have hl := congrArg String.length he
  simp only [String.length_append, String.length_empty] at hl
  exact h (String.length_eq_zero_iff.mp (by omega))

theorem append_append_ne_empty {s t u : String} (h : t ≠ "") : s ++ t ++ u ≠ "" :=
  append_ne_empty_left (append_ne_empty h)

theorem inList_sql_ne_empty (key placeholder : String) (values : List CondVal) :
    (inList key placeholder values).sql ≠ "" := by
  unfold inList
  split
  · decide
  · simp only [ne_eq]
    rw [keyed_eq_empty]
    · intro h
      exact append_ne_empty (by decide) h.2
    · intro h
      rw [← String.append_assoc, ← String.append_assoc] at h
      exact append_ne_empty (by decide) h

theorem DBToken.compile_sql_eq_empty (fmt : Formatter) (key : String) (t : DBToken) :
    (t.compile fmt key).sql = "" ↔ t.silent fmt key := by
  cases t with
  | value v operator =>
    simp only [DBToken.compile, DBToken.silent, String.append_assoc]
    rw [keyed_eq_empty (append_ne_empty_left (by decide))]
    simp
  | immediate text operator =>
    simp only [DBToken.compile, DBToken.silent, String.append_assoc]
    exact keyed_eq_empty (append_ne_empty_left (by decide))
  | nullValue =>
    simp only [DBToken.compile, DBToken.silent]
    rw [keyed_eq_empty (by decide)]
    simp
  | notNullValue =>
    simp only [DBToken.compile, DBToken.silent]
    rw [keyed_eq_empty (by decide)]
    simp
  | array values =>
    simp only [DBToken.compile, DBToken.silent, iff_false]
    exact inList_sql_ne_empty key "?" values
  | dynamic func values =>
    simp only [DBToken.compile, DBToken.silent]
    exact keyed_eq_empty (append_ne_empty_left (by decide))
  | raw sql =>
    simp only [DBToken.compile, DBToken.silent]
    exact keyed_eq_empty (append_ne_empty_left (by decide))
  | tupleIn columns tuples =>
    simp only [DBToken.compile, DBToken.silent, iff_false]
    split
    · decide
    · exact append_ne_empty (by decide)
  | cast v sqlType operator =>
    simp only [DBToken.compile, DBToken.silent, String.append_assoc]
    exact keyed_eq_empty (append_ne_empty_left (by decide))
  | castArray values sqlType =>
    simp only [DBToken.compile, DBToken.silent, iff_false]
    exact inList_sql_ne_empty key _ values
  | parentRef column =>
    simp only [DBToken.compile, DBToken.silent, iff_false, formatColumn]
    exact append_append_ne_empty (by decide)
  | subquery parentColumns tableName selectColumns conditions notIn =>
    simp only [DBToken.compile, DBToken.silent, iff_false]
    exact append_ne_empty (by decide)
  | existsIn tableName conditions notExists =>
    simp only [DBToken.compile, DBToken.silent, iff_false]
    exact append_ne_empty (by decide)

theorem join_eq_empty {ss : List String} : join " AND " ss = "" ↔ ss = [] ∨ ss = [""] := by
  rcases ss with _ | ⟨s, _ | ⟨t, ss⟩⟩
  · simp [join]
  · simp [join]
  · simp only [join]
    constructor
    · intro h
      exact absurd h (append_append_ne_empty (by decide))
    · intro h
      rcases h with h | h <;> cases h

theorem compileRaw_sql_eq_empty (v : CondVal) : (compileRaw v).sql = "" ↔ silentRaw v := by
  unfold compileRaw silentRaw
  split
  · exact Iff.rfl
  · exact Iff.rfl
  · exact join_eq_empty
  · simp

theorem ne_empty_of_mem {c : Char} {s : String} (h : c ∈ s.toList) : s ≠ "" := by
  rintro rfl
  simp at h

theorem replaceHole_ne_nil {text : List Char} (ht : text ≠ []) (cs : List Char) (hc : '?' ∈ cs) :
    replaceHole text cs ≠ [] := by
  cases cs with
  | nil => cases hc
  | cons c cs =>
    simp only [replaceHole]
    split
    · simp [ht]
    · simp

theorem placeholders_ne_empty {placeholder : String} (h : placeholder ≠ "")
    {values : List CondVal} (hv : values ≠ []) : placeholders placeholder values ≠ "" := by
  rcases values with _ | ⟨v, values⟩
  · exact absurd rfl hv
  · exact join_ne_empty h

theorem ofList_ne_empty {cs : List Char} (h : cs ≠ []) : String.ofList cs ≠ "" := by
  intro he
  have := congrArg String.toList he
  simp at this
  exact h this

theorem compileArray_sql_ne_empty (key : String) (values : List CondVal) :
    (compileArray key values).sql ≠ "" := by
  unfold compileArray
  split
  · rename_i hh
    have hmem : '?' ∈ key.toList := by simpa [hasHole] using hh
    unfold compileCustomArray
    dsimp only
    split
    · exact ofList_ne_empty (replaceHole_ne_nil (by decide) _ hmem)
    · split
      · rename_i hempty hmany
        have hv : values ≠ [] := fun h => hempty ⟨hmany.1, h⟩
        have hp : placeholders "?" values ≠ "" := placeholders_ne_empty (by decide) hv
        exact ofList_ne_empty (replaceHole_ne_nil (by simpa using hp) _ hmem)
      · exact ne_empty_of_mem hmem
  · split
    · decide
    · exact append_ne_empty (by decide)

theorem compileScalar_sql_ne_empty (key : String) (v : CondVal) :
    (compileScalar key v).sql ≠ "" := by
  unfold compileScalar
  split
  · rename_i hh
    have hmem : '?' ∈ key.toList := by simpa [hasHole] using hh
    exact ne_empty_of_mem hmem
  · exact append_ne_empty (by decide)

theorem compileBool_sql_ne_empty (key : String) (b : Bool) : (compileBool key b).sql ≠ "" := by
  unfold compileBool
  split
  · rename_i hh
    exact ne_empty_of_mem hh.2
  · exact append_append_ne_empty (by decide)

theorem compileJs_sql_ne_empty (key : String) (v : JsVal) (h : v.isAtom = true) :
    (compileJs key v h).sql ≠ "" := by
  unfold compileJs
  split
  · exact append_ne_empty (by decide)
  · exact compileBool_sql_ne_empty key _
  · exact compileScalar_sql_ne_empty key _

mutual
/-- The silent entries are the ones that compile to the empty text. -/
theorem compileCondition_sql_eq_empty (fmt : Formatter) (key : String) (v : CondVal) :
    (compileCondition fmt key v).sql = "" ↔ silent fmt key v := by
  cases v with
  | js v h =>
    simp only [compileCondition, silent]
    split
    · exact compileRaw_sql_eq_empty (.js v h)
    · split
      · rename_i hr
        exact iff_of_true rfl hr
      · rename_i hr
        exact iff_of_false (compileJs_sql_ne_empty key v h) hr
  | skip =>
    simp only [compileCondition, silent]
    split
    · rename_i hr
      exact iff_of_true rfl hr
    · rename_i hr
      exact iff_of_false (compileScalar_sql_ne_empty key .skip) hr
  | obj ps =>
    simp only [compileCondition, silent]
    split
    · rename_i hr
      exact iff_of_true rfl hr
    · rename_i hr
      exact iff_of_false (compileScalar_sql_ne_empty key (.obj ps)) hr
  | token t =>
    simp only [compileCondition, silent]
    split
    · rename_i hr
      exact iff_of_true rfl (Or.inl hr)
    · rename_i hr
      rw [DBToken.compile_sql_eq_empty]
      exact (or_iff_right hr).symm
  | nested c =>
    simp only [compileCondition, silent]
    split
    · rename_i hr
      exact iff_of_true rfl hr
    · rename_i hr
      exact iff_of_false (append_ne_empty (by decide)) hr
  | arr xs =>
    simp only [compileCondition, silent]
    split
    · rw [compileOr_sql_eq_empty]
      exact compileGroups_silent fmt xs
    · split
      · exact compileRaw_sql_eq_empty (.arr xs)
      · split
        · rename_i hr
          exact iff_of_true rfl hr
        · rename_i hr
          exact iff_of_false (compileArray_sql_ne_empty key xs) hr

theorem compileGroups_silent (fmt : Formatter) (xs : List CondVal) :
    (∀ g ∈ compileGroups fmt xs, g.sql = "") ↔ silentGroups fmt xs := by
  cases xs with
  | nil => simp [compileGroups, silentGroups]
  | cons x xs =>
    have ih := compileGroups_silent fmt xs
    cases x with
    | obj ps =>
      simp only [compileGroups, silentGroups, List.forall_mem_cons]
      rw [ih, joinPieces_sql_eq_empty, compileEntries_silent fmt ps]
    | _ => simpa [compileGroups, silentGroups, joinPieces, join] using ih

theorem compileEntries_silent (fmt : Formatter) (ps : List (String × CondVal)) :
    (∀ p ∈ compileEntries fmt ps, p.sql = "") ↔ silentEntries fmt ps := by
  cases ps with
  | nil => simp [compileEntries, silentEntries]
  | cons p ps =>
    obtain ⟨k, v⟩ := p
    simp only [compileEntries, silentEntries, List.forall_mem_cons]
    rw [compileCondition_sql_eq_empty fmt k v, compileEntries_silent fmt ps]
end

end LiteDb
