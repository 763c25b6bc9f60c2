import LiteDbModel.CastSyntax

/-!
# The dynamic WHERE

A declared read compiles its bounded predicates into the statement, and keeps a
fragment for each optional one. The leaf assembles the statement at run time from
the head, the fragments whose argument is not null, and the tail.
-/

namespace LiteDb
set_option autoImplicit false

/-! ## Declared reads -/

/-- A column, named by neither a number nor a text with blanks. -/
structure ColumnName where
  text : String
  named : Props.index text = none
  unbroken : ' ' ∉ text.toList

inductive ComparisonOp
  | eq
  | ne
  | lt
  | le
  | gt
  | ge
  | like

def SQL_OPS : ComparisonOp → String
  | .eq => "="
  | .ne => "!="
  | .lt => "<"
  | .le => "<="
  | .gt => ">"
  | .ge => ">="
  | .like => "LIKE"

inductive CorrelationTerm
  | parent (column parentColumn : String)
  | param (column param : String)

/-- `optional` is a flag of the predicates that bind a parameter of their own. -/
inductive Predicate
  | isNull (column : ColumnName)
  | isNotNull (column : ColumnName)
  | existsIn (tableName : String) (terms : List CorrelationTerm) (negated : Bool)
  | subquery (columns : List String) (tableName : String) (select : List String)
      (terms : List CorrelationTerm) (negated : Bool)
  | inList (column : ColumnName) (param : String) (optional : Bool)
  | tupleIn (columns : List String) (param : String) (composite : 2 ≤ columns.length)
  | compare (column : ColumnName) (op : ComparisonOp) (param : String) (optional : Bool)

def Predicate.isOptional : Predicate → Bool
  | .inList _ _ optional | .compare _ _ _ optional => optional
  | _ => false

/-- The parameter that decides whether an optional predicate is skipped. -/
def Predicate.param : Predicate → String
  | .inList _ param _ | .compare _ _ param _ => param
  | _ => ""

inductive PageBound
  | count (n : Nat)
  | param (name : String)

inductive RowLock
  | update
  | share

structure Cte where
  name : String
  sql : String
  params : List CondVal

/-- A read over a model; `pgTypes` are the array types of its columns. -/
structure ReadEndpoint where
  dialect : Dialect
  baseTable : String
  pgTypes : String → String
  view : Option Cte
  select : List String
  predicates : List Predicate
  order : String
  limit : Option PageBound
  offset : Option PageBound
  lock : Option RowLock
  findHardLimit : Option Nat

/-! ## Lowering -/

/-- `new ParamRef(name)` -/
def paramRef (name : String) : CondVal := .obj [("expr", .js (.str name) rfl)]

section Lowering
variable (encode : List CondVal → CondVal) (e : ReadEndpoint)

def correlation (tableName : String) : CorrelationTerm → ColumnRef × CondVal
  | .parent column parentColumn =>
    (⟨tableName, column⟩, .token (.parentRef ⟨e.baseTable, parentColumn⟩))
  | .param column param => (⟨tableName, column⟩, paramRef param)

/-- `tupleInPredicate` with the declared types of its columns. -/
def typedTupleIn (columns : List String) : String :=
  match e.dialect with
  | .postgres => "(" ++ commas (columns.map fun k => e.baseTable ++ "." ++ k) ++
      ") IN (SELECT * FROM UNNEST(" ++ commas (columns.map fun c => "?::" ++ e.pgTypes c) ++ "))"
  | _ => tupleInPredicate e.dialect e.baseTable columns

def tupleInParams (columns : List String) (param : String) : List String :=
  match e.dialect with
  | .postgres => columns.map fun c => param ++ "_" ++ c
  | _ => [param]

theorem bool_isAtom (b : Bool) : (JsVal.bool b).isAtom = true := rfl

/-- The key and the value that a predicate puts into the condition object. -/
def Predicate.entry : Predicate → String × CondVal
  | .isNull column => (column.text, .js .null rfl)
  | .isNotNull column => (column.text ++ " IS NOT NULL", .js (.bool true) (bool_isAtom true))
  | .existsIn tableName terms negated =>
    ("__exists__", .token (.existsIn tableName (terms.map (correlation e tableName)) negated))
  | .subquery columns tableName select terms negated =>
    ("__subquery__", .token (.subquery (columns.map fun c => ⟨e.baseTable, c⟩) tableName
      (select.map fun c => ⟨tableName, c⟩) (terms.map (correlation e tableName)) negated))
  | .inList column param _ => (inListPredicate e.dialect column.text, paramRef param)
  | .tupleIn columns param _ =>
    (typedTupleIn e columns, .arr ((tupleInParams e columns param).map paramRef))
  | .compare column .eq param _ => (column.text, paramRef param)
  | .compare column op param _ => (column.text ++ " " ++ SQL_OPS op ++ " ?", paramRef param)

/-- The names that every object has from its prototype. -/
def objectPrototype : List String :=
  ["constructor", "__defineGetter__", "__defineSetter__", "hasOwnProperty", "__lookupGetter__",
    "__lookupSetter__", "isPrototypeOf", "propertyIsEnumerable", "toString", "valueOf", "__proto__",
    "toLocaleString"]

/-- `k in out` -/
def isIn (k : String) (out : List (String × CondVal)) : Bool :=
  k ∈ Props.keys out ++ objectPrototype

def blanks (n : Nat) : String := String.ofList (List.replicate n ' ')

/-- The loop of `put`: the number of blanks that make the key a new one, counted on from `n`. -/
def freshBlanks (key : String) (out : List (String × CondVal)) : Nat → Nat → Nat
  | 0, n => n
  | fuel + 1, n =>
    if isIn (key ++ blanks (n + 1)) out then freshBlanks key out fuel (n + 1) else n + 1

/-- The blanks after a key, and the count for the next repeat; a key can be taken no more often than
there are names. -/
def padding (key : String) (out : List (String × CondVal)) (n : Nat) : Nat × Nat :=
  if isIn key out then
    let m := freshBlanks key out ((Props.keys out ++ objectPrototype).length + 1) n
    (m, m)
  else (0, n)

/-- `put`, with the object and the count. -/
def put (acc : List (String × CondVal) × Nat) (entry : String × CondVal) :
    List (String × CondVal) × Nat :=
  let pad := padding entry.1 acc.1 acc.2
  (Props.set acc.1 (entry.1 ++ blanks pad.1) entry.2, pad.2)

/-- `conditions(model, where)` -/
def conditions (ps : List Predicate) : List (String × CondVal) :=
  ((ps.map (Predicate.entry e)).foldl put ([], 0)).1

/-- An entry under `conditionsFor(conditions, dialect)`. -/
def conditionPart (entry : String × CondVal) : Piece :=
  let fmt := getSqlCastFormatter e.dialect
  match e.dialect with
  | .postgres => compileCondition fmt entry.1 entry.2
  | .mysql => compileJsonEntry encode .mysql fmt entry.1 entry.2
  | .sqlite => compileJsonEntry encode .sqlite fmt entry.1 entry.2

/-- `conditionsFor(conditions, dialect).compile` -/
def compileConditions (entries : List (String × CondVal)) : Piece :=
  joinPieces " AND " (entries.map (conditionPart encode e))

structure SelectBundle where
  head : String
  headParams : List CondVal
  tail : String
  tailParams : List CondVal
  lead : String

def SelectBundle.statement (b : SelectBundle) : Piece := ⟨b.head ++ b.tail, b.headParams ++ b.tailParams⟩

/-- A count of the page: a literal, or a placeholder. -/
def pageCount (keyword : String) : Option PageBound → Piece
  | none => ⟨"", []⟩
  | some (.count n) => ⟨keyword ++ countText n, []⟩
  | some (.param name) => ⟨keyword ++ "?", [paramRef name]⟩

def lockTail : Option RowLock → String
  | none => ""
  | some .update => " FOR UPDATE"
  | some .share => " FOR SHARE"

/-- A read without a limit of its own is bounded by the cap and one more. -/
def ReadEndpoint.pageLimit : Option PageBound :=
  e.limit.or (e.findHardLimit.map fun cap => .count (cap + 1))

def ReadEndpoint.selectColumns : String :=
  if commas e.select = "" then "*" else commas e.select

/-- `compileSelect` on the read's description with some conditions. -/
def compileRead (entries : List (String × CondVal)) : SelectBundle :=
  let whereClause := compileConditions encode e entries
  let limit := pageCount " LIMIT " e.pageLimit
  let offset := pageCount " OFFSET " e.offset
  { head := (e.view.map fun v => "WITH " ++ v.name ++ " AS (" ++ v.sql ++ ") ").getD "" ++
      "SELECT " ++ e.selectColumns ++ " FROM " ++ (e.view.map Cte.name).getD e.baseTable ++
      clause " WHERE " whereClause.sql
    headParams := (e.view.map Cte.params).getD [] ++ whereClause.params
    tail := clause " ORDER BY " e.order ++ limit.sql ++ offset.sql ++ lockTail e.lock
    tailParams := limit.params ++ offset.params
    lead := if whereClause.sql = "" then "WHERE" else "AND" }

def ReadEndpoint.bounded : List Predicate := e.predicates.filter fun p => !p.isOptional

def ReadEndpoint.optional : List Predicate := e.predicates.filter Predicate.isOptional

/-! ## The leaf -/

/-- The values of the parameters. -/
abbrev Args := String → CondVal

/-- The value of a slot. -/
def renderSlot (args : Args) : CondVal → CondVal
  | .obj [("expr", .js (.str name) _)] => args name
  | v => v

/-- `param === null` -/
def isNullArg : CondVal → Bool
  | .js .null _ => true
  | _ => false

structure DynamicWhereFrag where
  skipped : Bool
  piece : Piece

structure DynamicWherePlan where
  frags : List DynamicWhereFrag
  lead : String
  tail : String
  tailParams : List CondVal

def dynamicWherePlan (args : Args) (compiled : SelectBundle) : DynamicWherePlan where
  frags := e.optional.map fun p =>
    ⟨isNullArg (args p.param), compileConditions encode e (conditions e [p])⟩
  lead := compiled.lead
  tail := compiled.tail
  tailParams := compiled.tailParams

def assembleDynamicWhere (sql : String) (params : List CondVal) (plan : DynamicWherePlan) : Piece :=
  let frags := (plan.frags.filter fun f => !f.skipped).map DynamicWhereFrag.piece
  ⟨sql ++ (if frags = [] then "" else " " ++ plan.lead ++ " " ++ join " AND " (frags.map Piece.sql)) ++
      plan.tail,
    params ++ frags.flatMap Piece.params ++ plan.tailParams⟩

/-- The statement that the `executeSQL` leaf runs for the emitted read. -/
def leafStatement (args : Args) : Piece :=
  let compiled := compileRead encode e (conditions e e.bounded)
  let slots :=
    if e.optional = [] then compiled.statement
    else
      assembleDynamicWhere compiled.head compiled.headParams (dynamicWherePlan encode e args compiled)
  ⟨slots.sql, slots.params.map (renderSlot args)⟩

/-- The optional predicates that are left. -/
def ReadEndpoint.survivors (args : Args) : List Predicate :=
  e.optional.filter fun p => !isNullArg (args p.param)

/-- `compileSelect` over the bounded predicates and the survivors. -/
def selectStatement (args : Args) : Piece :=
  let slots := (compileRead encode e (conditions e (e.bounded ++ e.survivors args))).statement
  ⟨slots.sql, slots.params.map (renderSlot args)⟩

/-! ## Blanks -/

/-- The text of the survivors' fragments with so many blanks after the key of each. -/
def paddedStatement (args : Args) (pads : List Nat) : String :=
  let compiled := compileRead encode e (conditions e e.bounded)
  let frags := List.zipWith (fun p n =>
    conditionPart encode e ((p.entry e).1 ++ blanks n, (p.entry e).2)) (e.survivors args) pads
  compiled.head ++
    (if frags = [] then "" else " " ++ compiled.lead ++ " " ++ join " AND " (frags.map Piece.sql)) ++
    compiled.tail

/-- A survivor repeats the fragment of an earlier predicate, or is named as a property that every
object has. -/
def ReadEndpoint.Repeats (args : Args) : Prop :=
  ∃ before p after, e.survivors args = before ++ p :: after ∧
    (p.entry e).1 ∈ (e.bounded ++ before).map (fun q => (q.entry e).1) ++ objectPrototype

end Lowering

/-! ## Keys -/

theorem toList_blanks (n : Nat) : (blanks n).toList = List.replicate n ' ' := by
  rw [blanks, String.toList_ofList]

theorem append_blanks_zero (key : String) : key ++ blanks 0 = key := by
  apply String.toList_injective
  rw [String.toList_append, toList_blanks, List.replicate_zero, List.append_nil]

theorem append_blanks_inj {key : String} {m n : Nat} (h : key ++ blanks m = key ++ blanks n) :
    m = n := by
  have hlists := congrArg String.toList h
  rw [String.toList_append, String.toList_append, toList_blanks, toList_blanks,
    List.append_cancel_left_eq] at hlists
  simpa using congrArg List.length hlists

theorem reserved_blanks (key : String) (n : Nat) : reserved (key ++ blanks n) = reserved key := by
  cases n with
  | zero => rw [append_blanks_zero]
  | succ n => exact reserved_append (List.replicate n ' ')

theorem index_of_blank {k : String} (h : ' ' ∈ k.toList) : Props.index k = none := by
  rw [Props.index]
  split
  · rfl
  · rw [if_neg]
    intro hall
    have hdigit := List.all_eq_true.mp hall.1 ' ' h
    cases hdigit

theorem index_blanks {key : String} (h : Props.index key = none) (n : Nat) :
    Props.index (key ++ blanks n) = none := by
  cases n with
  | zero => rwa [append_blanks_zero]
  | succ n =>
    apply index_of_blank
    rw [String.toList_append, toList_blanks]
    exact List.mem_append_right _ (List.mem_replicate.mpr ⟨Nat.succ_ne_zero n, rfl⟩)

theorem isIn_eq_false {k : String} {out : List (String × CondVal)} :
    isIn k out = false ↔ k ∉ Props.keys out ∧ k ∉ objectPrototype := by
  rw [isIn, decide_eq_false_iff_not, List.mem_append, not_or]

/-- Among enough padded keys one is new. -/
theorem freshBlanks_fresh (key : String) (out : List (String × CondVal)) :
    ∀ fuel n, isIn (key ++ blanks (freshBlanks key out fuel n)) out = true →
      ∀ i < fuel, isIn (key ++ blanks (n + 1 + i)) out = true := by
  intro fuel
  induction fuel with
  | zero =>
    intro n _ i hi
    exact absurd hi (Nat.not_lt_zero i)
  | succ fuel ih =>
    intro n h i hi
    rw [freshBlanks] at h
    split at h
    · next htaken =>
      cases i with
      | zero => exact htaken
      | succ i =>
        have hrest := ih (n + 1) h i (by omega)
        have hsum : n + 1 + (i + 1) = n + 1 + 1 + i := by omega
        rw [hsum]
        exact hrest
    · next hfree => exact absurd h hfree

theorem padding_fresh (key : String) (out : List (String × CondVal)) (n : Nat) :
    isIn (key ++ blanks (padding key out n).1) out = false := by
  rw [padding]
  split
  · rw [Bool.eq_false_iff]
    intro h
    have hall := freshBlanks_fresh key out _ n h
    let names := Props.keys out ++ objectPrototype
    let padded := (List.range (names.length + 1)).map fun i => key ++ blanks (n + 1 + i)
    have hnodup : padded.Nodup := by
      apply List.Nodup.map
      · intro i j hij
        have := append_blanks_inj hij
        omega
      · exact List.nodup_range
    have hsubset : padded ⊆ names := by
      intro k hk
      obtain ⟨i, hi, rfl⟩ := List.mem_map.mp hk
      have htaken := hall i (List.mem_range.mp hi)
      rw [isIn, decide_eq_true_iff] at htaken
      exact htaken
    have hle := (hnodup.subperm hsubset).length_le
    simp only [padded, List.length_map, List.length_range] at hle
    omega
  · next hfree =>
    rw [append_blanks_zero]
    exact Bool.eq_false_iff.mpr hfree

/-! ## The condition object -/

/-- No key is a number. -/
def Unindexed (entries : List (String × CondVal)) : Prop := ∀ k ∈ Props.keys entries, Props.index k = none

theorem Unindexed.append {xs ys : List (String × CondVal)} (hx : Unindexed xs) (hy : Unindexed ys) :
    Unindexed (xs ++ ys) := by
  intro k hk
  rw [Props.keys, List.map_append, List.mem_append] at hk
  rcases hk with hk | hk
  · exact hx k hk
  · exact hy k hk

theorem set_fresh {out : List (String × CondVal)} {k : String} (v : CondVal)
    (hk : Props.index k = none) (hfresh : isIn k out = false) :
    Props.set out k v = out ++ [(k, v)] := by
  obtain ⟨hkeys, hproto⟩ := isIn_eq_false.mp hfresh
  have hne : k ≠ "__proto__" := by
    rintro rfl
    exact hproto (by simp [objectPrototype])
  rw [Props.set, if_neg hne, if_neg (show k ∉ out.map (·.1) from hkeys)]
  apply Props.insert_last
  intro k' _
  rw [Props.before, hk]

/-- An entry with blanks after its key. -/
def padEntry (entry : String × CondVal) (n : Nat) : String × CondVal := (entry.1 ++ blanks n, entry.2)

/-- `put` adds its entry at the end. -/
theorem put_eq {out : List (String × CondVal)} {n : Nat} {entry : String × CondVal}
    (h : Props.index entry.1 = none) :
    (put (out, n) entry).1 = out ++ [padEntry entry (padding entry.1 out n).1] :=
  set_fresh entry.2 (index_blanks h _) (padding_fresh entry.1 out n)

theorem put_fresh {out : List (String × CondVal)} {n : Nat} {entry : String × CondVal}
    (h : Props.index entry.1 = none) (hfresh : isIn entry.1 out = false) :
    (put (out, n) entry).1 = out ++ [entry] := by
  rw [put_eq h, padEntry, padding, if_neg (Bool.eq_false_iff.mp hfresh), append_blanks_zero]

theorem foldl_put (entries out : List (String × CondVal)) (n : Nat) (h : Unindexed entries) :
    ∃ pads : List Nat, pads.length = entries.length ∧
      (entries.foldl put (out, n)).1 = out ++ List.zipWith padEntry entries pads := by
  induction entries generalizing out n with
  | nil => exact ⟨[], rfl, (List.append_nil out).symm⟩
  | cons entry entries ih =>
    obtain ⟨hentry, hrest⟩ := List.forall_mem_cons.mp h
    obtain ⟨pads, hlen, hfold⟩ := ih (put (out, n) entry).1 (put (out, n) entry).2 hrest
    refine ⟨(padding entry.1 out n).1 :: pads, by rw [List.length_cons, List.length_cons, hlen], ?_⟩
    rw [List.foldl_cons, hfold, put_eq hentry, List.append_assoc]
    rfl

/-- New keys are written as they are. -/
theorem foldl_put_fresh (entries out : List (String × CondVal)) (n : Nat) (h : Unindexed entries)
    (hfresh : ∀ before entry after, entries = before ++ entry :: after →
      isIn entry.1 (out ++ before) = false) : (entries.foldl put (out, n)).1 = out ++ entries := by
  induction entries generalizing out n with
  | nil => exact (List.append_nil out).symm
  | cons entry entries ih =>
    obtain ⟨hentry, hrest⟩ := List.forall_mem_cons.mp h
    have hfirst : isIn entry.1 out = false := by
      have hnil := hfresh [] entry entries rfl
      rwa [List.append_nil] at hnil
    have hout : (put (out, n) entry).1 = out ++ [entry] := put_fresh hentry hfirst
    have hfold := ih (out ++ [entry]) (put (out, n) entry).2 hrest (by
      intro before entry' after heq
      rw [List.append_assoc]
      exact hfresh (entry :: before) entry' after (by rw [heq, List.cons_append]))
    have hput : put (out, n) entry = (out ++ [entry], (put (out, n) entry).2) := Prod.ext hout rfl
    rw [List.foldl_cons, hput, hfold, List.append_assoc]
    rfl

/-! ## The entries of predicates -/

section Entries
variable (encode : List CondVal → CondVal) (e : ReadEndpoint) (args : Args)

theorem index_entry (p : Predicate) : Props.index (p.entry e).1 = none := by
  have hin : ∀ (dialect : Dialect) (col : String), ' ' ∈ (inListPredicate dialect col).toList := by
    intro dialect col
    cases dialect <;> simp [inListPredicate, String.toList_append]
  have htuple : ∀ columns : List String, ' ' ∈ (typedTupleIn e columns).toList := by
    intro columns
    rw [typedTupleIn]
    cases e.dialect <;> simp [tupleInPredicate, String.toList_append]
  cases p with
  | isNull column => exact column.named
  | isNotNull column => exact index_of_blank (by simp [Predicate.entry, String.toList_append])
  | existsIn tableName terms negated => exact (by decide : Props.index "__exists__" = none)
  | subquery columns tableName select terms negated =>
    exact (by decide : Props.index "__subquery__" = none)
  | inList column param optional => exact index_of_blank (hin e.dialect column.text)
  | tupleIn columns param composite => exact index_of_blank (htuple columns)
  | compare column op param optional =>
    cases op with
    | eq => exact column.named
    | _ => exact index_of_blank (by simp [Predicate.entry, String.toList_append])

theorem unindexed_entries (ps : List Predicate) : Unindexed (ps.map (Predicate.entry e)) := by
  intro k hk
  rw [Props.keys, List.map_map] at hk
  obtain ⟨p, _, rfl⟩ := List.mem_map.mp hk
  exact index_entry e p

/-- An optional predicate binds its own parameter. -/
theorem entry_value {p : Predicate} (h : p.isOptional = true) :
    (p.entry e).2 = paramRef p.param := by
  cases p with
  | inList column param optional => rfl
  | compare column op param optional => cases op <;> rfl
  | _ => cases h

/-- The key of an optional predicate does not end in a blank. -/
theorem entry_last {p : Predicate} (h : p.isOptional = true) :
    (p.entry e).1.toList.getLast? ≠ some ' ' := by
  cases p with
  | inList column param optional =>
    cases hd : e.dialect <;>
      simp [Predicate.entry, hd, inListPredicate, String.toList_append]
  | compare column op param optional =>
    cases op with
    | eq =>
      intro hlast
      exact column.unbroken (List.mem_of_getLast? hlast)
    | _ => simp [Predicate.entry, SQL_OPS, String.toList_append]
  | _ => cases h

/-- What an optional predicate adds to a WHERE clause, with blanks after its key. -/
def fragment (p : Predicate) (n : Nat) : Piece := conditionPart encode e (padEntry (p.entry e) n)

theorem fragment_eq {p : Predicate} (h : p.isOptional = true) (n : Nat) :
    fragment encode e p n = compileCondition (getSqlCastFormatter e.dialect)
      ((p.entry e).1 ++ blanks n) (paramRef p.param) := by
  rw [fragment, conditionPart, padEntry, entry_value e h]
  cases e.dialect <;> rfl

theorem fragment_params {p : Predicate} (h : p.isOptional = true)
    (hkey : reserved (p.entry e).1 = false) (n : Nat) :
    (fragment encode e p n).params = [paramRef p.param] ∧ (fragment encode e p n).sql ≠ "" := by
  have hpiece : fragment encode e p n =
      compileScalar ((p.entry e).1 ++ blanks n) (paramRef p.param) := by
    rw [fragment_eq encode e h]
    change (if reserved ((p.entry e).1 ++ blanks n) then _ else _) = _
    rw [reserved_blanks, hkey]
    rfl
  rw [hpiece, compileScalar]
  split
  · next hhole =>
    refine ⟨rfl, ?_⟩
    intro hempty
    change (p.entry e).1 ++ blanks n = "" at hempty
    rw [hempty] at hhole
    cases hhole
  · exact ⟨rfl, append_ne_empty (by decide)⟩

end Entries

/-! ## Joining -/

/-- The text of further parts, each with a text, after those that are there. -/
theorem joinPieces_append (sep : String) (ps qs : List Piece) (h : ∀ q ∈ qs, q.sql ≠ "") :
    (joinPieces sep (ps ++ qs)).sql = (joinPieces sep ps).sql ++
      (if qs = [] then "" else (if (joinPieces sep ps).sql = "" then "" else sep) ++
        join sep (qs.map Piece.sql)) := by
  have hqs : (qs.map Piece.sql).filter (· ≠ "") = qs.map Piece.sql := by
    rw [List.filter_eq_self]
    intro s hs
    obtain ⟨q, hq, rfl⟩ := List.mem_map.mp hs
    exact decide_eq_true (h q hq)
  have hjoin : ∀ (ss : List String) (t : String) (ts : List String), (∀ s ∈ ss, s ≠ "") →
      join sep (ss ++ t :: ts) = join sep ss ++ ((if join sep ss = "" then "" else sep) ++
        join sep (t :: ts)) := by
    intro ss t ts hss
    induction ss with
    | nil => simp [join]
    | cons s ss ih =>
      obtain ⟨hs, hss⟩ := List.forall_mem_cons.mp hss
      rw [if_neg (join_ne_empty hs)]
      cases ss with
      | nil => simp [join, String.append_assoc]
      | cons s' ss =>
        have hrest := ih hss
        rw [if_neg (join_ne_empty (hss s' List.mem_cons_self))] at hrest
        simp only [List.cons_append, join] at hrest ⊢
        rw [hrest]
        simp only [String.append_assoc]
  cases qs with
  | nil => simp [joinPieces]
  | cons q qs =>
    rw [if_neg (List.cons_ne_nil q qs)]
    simp only [joinPieces, List.map_append, List.filter_append, hqs]
    rw [List.map_cons]
    apply hjoin
    intro s hs
    simpa using (List.mem_filter.mp hs).2

/-! ## The two statements -/

section Statements
variable (encode : List CondVal → CondVal) (e : ReadEndpoint) (args : Args)

theorem mem_survivors {p : Predicate} (h : p ∈ e.survivors args) : p.isOptional = true := by
  rw [ReadEndpoint.survivors, List.mem_filter, ReadEndpoint.optional, List.mem_filter] at h
  exact h.1.2

/-- The fragments of some predicates with so many blanks after the key of each. -/
def fragments (ps : List Predicate) (pads : List Nat) : List Piece :=
  List.zipWith (fragment encode e) ps pads

/-- Each fragment has a text, and binds the parameter of its predicate. -/
theorem fragments_params {ps : List Predicate} {pads : List Nat} (hlen : pads.length = ps.length)
    (hps : ∀ p ∈ ps, p.isOptional = true ∧ reserved (p.entry e).1 = false) :
    (fragments encode e ps pads).flatMap Piece.params = ps.map (fun p => paramRef p.param) ∧
      ∀ q ∈ fragments encode e ps pads, q.sql ≠ "" := by
  induction ps generalizing pads with
  | nil =>
    refine ⟨rfl, ?_⟩
    intro q hq
    cases hq
  | cons p ps ih =>
    cases pads with
    | nil => cases hlen
    | cons n pads =>
      obtain ⟨⟨hopt, hkey⟩, hrest⟩ := List.forall_mem_cons.mp hps
      obtain ⟨hparams, htexts⟩ := ih (Nat.succ.inj hlen) hrest
      obtain ⟨hone, htext⟩ := fragment_params encode e hopt hkey n
      refine ⟨?_, ?_⟩
      · change (fragment encode e p n).params ++ (fragments encode e ps pads).flatMap Piece.params = _
        rw [hone, hparams]
        rfl
      · intro q hq
        rcases List.mem_cons.mp hq with rfl | hq
        · exact htext
        · exact htexts q hq

/-- The conditions of further predicates follow those that are there. -/
theorem conditions_append (ps qs : List Predicate) :
    ∃ pads : List Nat, pads.length = qs.length ∧
      conditions e (ps ++ qs) =
        conditions e ps ++ List.zipWith padEntry (qs.map (Predicate.entry e)) pads := by
  obtain ⟨pads, hlen, hfold⟩ := foldl_put (qs.map (Predicate.entry e)) (conditions e ps)
    ((ps.map (Predicate.entry e)).foldl put ([], 0)).2 (unindexed_entries e qs)
  rw [List.length_map] at hlen
  refine ⟨pads, hlen, ?_⟩
  rw [← hfold, conditions, List.map_append, List.foldl_append]
  rfl

theorem map_conditionPart (ps : List Predicate) (pads : List Nat) :
    (List.zipWith padEntry (ps.map (Predicate.entry e)) pads).map (conditionPart encode e) =
      fragments encode e ps pads := by
  rw [List.map_zipWith, List.zipWith_map_left]
  rfl

/-- The blanks after the key of a predicate that stands alone. -/
def ownPad (p : Predicate) : Nat := (padding (p.entry e).1 [] 0).1

theorem compile_alone (p : Predicate) :
    compileConditions encode e (conditions e [p]) = fragment encode e p (ownPad e p) := by
  have hput : conditions e [p] = [padEntry (p.entry e) (ownPad e p)] :=
    put_eq (index_entry e p)
  rw [hput, compileConditions, List.map_singleton, joinPieces_single]
  rfl

theorem plan_fragments (compiled : SelectBundle) :
    ((dynamicWherePlan encode e args compiled).frags.filter fun f => !f.skipped).map
        DynamicWhereFrag.piece =
      fragments encode e (e.survivors args) ((e.survivors args).map (ownPad e)) := by
  have hmap : ∀ ps : List Predicate, fragments encode e ps (ps.map (ownPad e)) =
      ps.map fun p => compileConditions encode e (conditions e [p]) := by
    intro ps
    induction ps with
    | nil => rfl
    | cons p ps ih =>
      rw [List.map_cons, List.map_cons, compile_alone, ← ih]
      rfl
  rw [hmap, dynamicWherePlan, List.filter_map, List.map_map]
  rfl

/-- The leaf's statement, with the blanks of predicates that stand alone. -/
theorem leafStatement_sql : (leafStatement encode e args).sql =
    paddedStatement encode e args ((e.survivors args).map (ownPad e)) := by
  simp only [leafStatement]
  split
  · next hnone =>
    have hsurvivors : e.survivors args = [] := by rw [ReadEndpoint.survivors, hnone]; rfl
    simp only [paddedStatement, hsurvivors, SelectBundle.statement]
    simp
  · simp only [assembleDynamicWhere]
    rw [plan_fragments]
    rfl

theorem leafStatement_params
    (hkeys : ∀ p ∈ e.survivors args, reserved (p.entry e).1 = false) :
    (leafStatement encode e args).params =
      ((compileRead encode e (conditions e e.bounded)).headParams ++
        (e.survivors args).map (fun p => paramRef p.param) ++
        (compileRead encode e (conditions e e.bounded)).tailParams).map (renderSlot args) := by
  simp only [leafStatement]
  split
  · next hnone =>
    have hsurvivors : e.survivors args = [] := by rw [ReadEndpoint.survivors, hnone]; rfl
    rw [hsurvivors, List.map_nil, List.append_nil]
    rfl
  · simp only [assembleDynamicWhere]
    rw [plan_fragments]
    have hparams := (fragments_params encode e (List.length_map (ownPad e))
      (fun p hp => ⟨mem_survivors e args hp, hkeys p hp⟩)).1
    rw [hparams]
    rfl

/-- A WHERE clause goes on with the lead. -/
theorem clause_append {w f : String} (hf : f ≠ "") :
    clause " WHERE " (w ++ ((if w = "" then "" else " AND ") ++ f)) =
      clause " WHERE " w ++ (" " ++ (if w = "" then "WHERE" else "AND") ++ " " ++ f) := by
  by_cases hw : w = ""
  · subst hw
    rw [if_pos rfl, if_pos rfl, String.empty_append, String.empty_append, clause, if_neg hf, clause,
      if_pos rfl, String.empty_append]
    rfl
  · rw [if_neg hw, if_neg hw, clause, if_neg (append_ne_empty_left hw), clause, if_neg hw]
    apply String.toList_injective
    simp [String.toList_append]

/-- A read with further fragments after its conditions. -/
theorem compileRead_append {entries more : List (String × CondVal)} {frags : List Piece}
    (hfrags : more.map (conditionPart encode e) = frags) (htexts : ∀ q ∈ frags, q.sql ≠ "") :
    (compileRead encode e (entries ++ more)).head = (compileRead encode e entries).head ++
      (if frags = [] then "" else " " ++ (compileRead encode e entries).lead ++ " " ++
        join " AND " (frags.map Piece.sql)) := by
  have hsql : (compileConditions encode e (entries ++ more)).sql =
      (compileConditions encode e entries).sql ++ (if frags = [] then "" else
        (if (compileConditions encode e entries).sql = "" then "" else " AND ") ++
          join " AND " (frags.map Piece.sql)) := by
    rw [compileConditions, List.map_append, hfrags]
    exact joinPieces_append " AND " _ frags htexts
  by_cases hnone : frags = []
  · rw [if_pos hnone, String.append_empty] at hsql ⊢
    simp only [compileRead, hsql]
  · rw [if_neg hnone] at hsql ⊢
    have hjoin : join " AND " (frags.map Piece.sql) ≠ "" := by
      cases frags with
      | nil => exact absurd rfl hnone
      | cons q qs => exact join_ne_empty (htexts q List.mem_cons_self)
    simp only [compileRead, hsql, clause_append hjoin, String.append_assoc]

theorem compileRead_headParams {entries more : List (String × CondVal)} {frags : List Piece}
    (hfrags : more.map (conditionPart encode e) = frags) :
    (compileRead encode e (entries ++ more)).headParams =
      (compileRead encode e entries).headParams ++ frags.flatMap Piece.params := by
  simp only [compileRead, compileConditions, List.map_append, hfrags, joinPieces,
    List.flatMap_append, List.append_assoc]

/-- The statement over all predicates, with the blanks that the joint condition object gives. -/
theorem selectStatement_eq (hkeys : ∀ p ∈ e.survivors args, reserved (p.entry e).1 = false)
    {pads : List Nat} (hlen : pads.length = (e.survivors args).length)
    (hpads : conditions e (e.bounded ++ e.survivors args) = conditions e e.bounded ++
      List.zipWith padEntry ((e.survivors args).map (Predicate.entry e)) pads) :
    (selectStatement encode e args).sql = paddedStatement encode e args pads ∧
      (selectStatement encode e args).params = (leafStatement encode e args).params := by
  obtain ⟨hparams, htexts⟩ := fragments_params encode e hlen
    (fun p hp => ⟨mem_survivors e args hp, hkeys p hp⟩)
  have hfrags := map_conditionPart encode e (e.survivors args) pads
  refine ⟨?_, ?_⟩
  · simp only [selectStatement, SelectBundle.statement]
    rw [hpads, compileRead_append encode e hfrags htexts]
    rfl
  · rw [leafStatement_params encode e args hkeys]
    simp only [selectStatement, SelectBundle.statement]
    rw [hpads, compileRead_headParams encode e hfrags, hparams]
    rfl

theorem mem_conditions {ps : List Predicate} {k : String} (h : k ∈ Props.keys (conditions e ps)) :
    ∃ p ∈ ps, ∃ n, k = (p.entry e).1 ++ blanks n := by
  obtain ⟨pads, hlen, hall⟩ := conditions_append e [] ps
  rw [List.nil_append] at hall
  rw [hall, Props.keys, show conditions e [] = [] from rfl, List.nil_append] at h
  clear hall
  induction ps generalizing pads with
  | nil => cases h
  | cons p ps ih =>
    cases pads with
    | nil => cases hlen
    | cons n pads =>
      rcases List.mem_cons.mp h with rfl | h
      · exact ⟨p, List.mem_cons_self, n, rfl⟩
      · obtain ⟨q, hq, m, hk⟩ := ih pads h (Nat.succ.inj hlen)
        exact ⟨q, List.mem_cons_of_mem p hq, m, hk⟩

/-- A survivor that repeats no predicate has a new key. -/
theorem survivor_fresh (hrepeats : ¬ e.Repeats args) {before : List Predicate} {p : Predicate}
    {after : List Predicate} (hsplit : e.survivors args = before ++ p :: after) :
    isIn (p.entry e).1 (conditions e e.bounded ++ before.map (Predicate.entry e)) = false := by
  have hnew : (p.entry e).1 ∉ (e.bounded ++ before).map (fun q => (q.entry e).1) ++ objectPrototype :=
    fun hmem => hrepeats ⟨before, p, after, hsplit, hmem⟩
  rw [List.mem_append, not_or] at hnew
  obtain ⟨hkeys, hproto⟩ := hnew
  apply isIn_eq_false.mpr
  refine ⟨?_, hproto⟩
  intro hmem
  rw [Props.keys, List.map_append, List.mem_append, List.map_map] at hmem
  rcases hmem with hmem | hmem
  · obtain ⟨q, hq, n, hk⟩ := mem_conditions e hmem
    cases n with
    | zero =>
      rw [append_blanks_zero] at hk
      apply hkeys
      rw [hk]
      exact List.mem_map_of_mem (List.mem_append_left _ hq)
    | succ n =>
      -- only the keys of repeats end in a blank
      have hp : p.isOptional = true := by
        apply mem_survivors e args
        rw [hsplit]
        exact List.mem_append_right _ List.mem_cons_self
      apply entry_last e hp
      rw [hk, String.toList_append, toList_blanks, List.replicate_succ', ← List.append_assoc,
        List.getLast?_append_cons]
      rfl
  · apply hkeys
    rw [List.map_append]
    exact List.mem_append_right _ hmem

theorem ownPad_eq_zero (hrepeats : ¬ e.Repeats args) {p : Predicate} (h : p ∈ e.survivors args) :
    ownPad e p = 0 := by
  obtain ⟨before, after, hsplit⟩ := List.append_of_mem h
  have hfresh := (isIn_eq_false.mp (survivor_fresh e args hrepeats hsplit)).2
  rw [ownPad, padding, if_neg]
  rw [Bool.not_eq_true]
  exact isIn_eq_false.mpr ⟨List.not_mem_nil, hfresh⟩

/-- Without repeats the joint condition object has the keys of predicates that stand alone. -/
theorem conditions_distinct (hrepeats : ¬ e.Repeats args) :
    conditions e (e.bounded ++ e.survivors args) = conditions e e.bounded ++
      List.zipWith padEntry ((e.survivors args).map (Predicate.entry e))
        ((e.survivors args).map (ownPad e)) := by
  have hown : (e.survivors args).map (ownPad e) = (e.survivors args).map fun _ => 0 :=
    List.map_congr_left fun p hp => ownPad_eq_zero e args hrepeats hp
  have hpad : List.zipWith padEntry ((e.survivors args).map (Predicate.entry e))
      ((e.survivors args).map (ownPad e)) = (e.survivors args).map (Predicate.entry e) := by
    rw [hown]
    generalize e.survivors args = ps
    induction ps with
    | nil => rfl
    | cons p ps ih =>
      rw [List.map_cons, List.map_cons, List.zipWith_cons_cons, ih, padEntry, append_blanks_zero]
  rw [hpad]
  have hfold := foldl_put_fresh ((e.survivors args).map (Predicate.entry e)) (conditions e e.bounded)
    ((e.bounded.map (Predicate.entry e)).foldl put ([], 0)).2 (unindexed_entries e _) (by
      intro before entry after hsplit
      obtain ⟨front, rest, hps, hfront, hrest⟩ := List.map_eq_append_iff.mp hsplit
      obtain ⟨p, back, hcons, hp, _⟩ := List.map_eq_cons_iff.mp hrest
      rw [hcons] at hps
      rw [← hp, ← hfront]
      exact survivor_fresh e args hrepeats hps)
  rw [← hfold, conditions, List.map_append, List.foldl_append]
  rfl

/-- The leaf binds the parameters of the joint statement, in its order, and runs its text, except for
the blanks after the keys of repeated fragments. -/
theorem leafStatement_eq (hkeys : ∀ p ∈ e.survivors args, reserved (p.entry e).1 = false) :
    (leafStatement encode e args).params = (selectStatement encode e args).params ∧
      (∃ own joint : List Nat, own.length = (e.survivors args).length ∧
        joint.length = (e.survivors args).length ∧
        (leafStatement encode e args).sql = paddedStatement encode e args own ∧
        (selectStatement encode e args).sql = paddedStatement encode e args joint) ∧
      (¬ e.Repeats args →
        (leafStatement encode e args).sql = (selectStatement encode e args).sql) := by
  obtain ⟨joint, hlen, hjoint⟩ := conditions_append e e.bounded (e.survivors args)
  obtain ⟨hsql, hparams⟩ := selectStatement_eq encode e args hkeys hlen hjoint
  refine ⟨hparams.symm, ?_, ?_⟩
  · exact ⟨_, joint, List.length_map (ownPad e), hlen, leafStatement_sql encode e args, hsql⟩
  · intro hrepeats
    have hdistinct := (selectStatement_eq encode e args hkeys (List.length_map (ownPad e))
      (conditions_distinct e args hrepeats)).1
    rw [leafStatement_sql, hdistinct]

end Statements

/-! ## A repeated fragment -/

def age : ColumnName := ⟨"age", by decide +kernel, by decide +kernel⟩

/-- The adults, whose age may also be bounded by an argument. -/
def adults : ReadEndpoint where
  dialect := .sqlite
  baseTable := "users"
  pgTypes := fun _ => "text[]"
  view := none
  select := ["users.id", "users.name"]
  predicates := [.compare age .ge "min" false, .compare age .ge "low" true]
  order := "id ASC"
  limit := some (.param "limit")
  offset := none
  lock := none
  findHardLimit := none

def adultArgs : Args := fun _ => .js (.num (.ofInt 18)) rfl

theorem adults_keys : ∀ p ∈ adults.survivors adultArgs, reserved (p.entry adults).1 = false := by
  decide +kernel

/-- The leaf's second fragment lacks the blank of the joint statement's. -/
theorem adults_blank : (leafStatement CondVal.arr adults adultArgs).sql ≠
    (selectStatement CondVal.arr adults adultArgs).sql := by
  decide +kernel

theorem adults_leafStatement :
    (leafStatement CondVal.arr adults adultArgs).params =
      (selectStatement CondVal.arr adults adultArgs).params ∧
    (∃ own joint : List Nat, own.length = (adults.survivors adultArgs).length ∧
      joint.length = (adults.survivors adultArgs).length ∧
      (leafStatement CondVal.arr adults adultArgs).sql =
        paddedStatement CondVal.arr adults adultArgs own ∧
      (selectStatement CondVal.arr adults adultArgs).sql =
        paddedStatement CondVal.arr adults adultArgs joint) ∧
    (¬ adults.Repeats adultArgs → (leafStatement CondVal.arr adults adultArgs).sql =
      (selectStatement CondVal.arr adults adultArgs).sql) :=
  leafStatement_eq CondVal.arr adults adultArgs adults_keys

end LiteDb
