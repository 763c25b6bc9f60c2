import LiteDbModel.Conds
import LiteDbModel.Lib.Membership

/-!
# `Column.in` and `Column.notIn`

Both build a condition object of one entry. The negation glues its `NOT` onto the
column and leaves the list to the condition classes, whose special cases for the
empty list were written for the plain form.
-/

namespace LiteDb
set_option autoImplicit false
open SqlCond Membership

/-! ## The condition objects -/

/-- A column with a name that is no key of its own in a condition object. -/
structure NamedColumn where
  column : Column
  named : column.columnName ∉ ["", "__or__", "__raw__"]
  unmarked : hasHole column.columnName = false

/-- A cast that is not empty. -/
def Column.cast (c : Column) : Option String := c.sqlCast.filter (· ≠ "")

def Column.inValues (c : Column) (values : List CondVal) : List (String × CondVal) :=
  match c.cast with
  | some sqlCast => [(c.columnName, .token (.castArray values sqlCast))]
  | none => [(c.columnName, .arr values)]

def Column.notIn (c : Column) (values : List CondVal) : List (String × CondVal) :=
  match c.cast with
  | some sqlCast => [(c.columnName ++ " NOT", .token (.castArray values sqlCast))]
  | none => [(c.columnName ++ " NOT IN (?)", .arr values)]

def compileRecordOf (dialect : Dialect) (conditions : List (String × CondVal)) : Piece :=
  compile (getSqlCastFormatter dialect) (.mk conditions .and [])

/-! ## What the texts say -/

def CondVal.isNull : CondVal → Bool
  | .js v _ => v.nullish
  | _ => false

def CondVal.nonNull (v : CondVal) : Option CondVal := if v.isNull then none else some v

/-- A condition on one column. -/
inductive ListTest
  /-- No text, and no WHERE clause. -/
  | all
  /-- `1 = 0` -/
  | never
  | among (negated : Bool) (values : List (Option CondVal))

/-- The test that a text states of the column, its placeholders written with the column's cast. -/
def readListTest (name placeholder : String) (p : Piece) : Option ListTest :=
  if p.params.isEmpty then
    if p.sql = "" then some .all
    else if p.sql = "1 = 0" then some .never
    else if p.sql = name ++ " NOT IN (NULL)" then some (.among true [none])
    else none
  else
    let list := "(" ++ placeholders placeholder p.params ++ ")"
    if p.sql = name ++ " IN " ++ list then some (.among false (p.params.map CondVal.nonNull))
    else if p.sql = name ++ " NOT IN " ++ list then some (.among true (p.params.map CondVal.nonNull))
    else none

section Tests
variable {ρ : Type} (equals : ρ → CondVal → Bool) (x : ρ)

/-- The test on a row whose column is not null. -/
def ListTest.truth : ListTest → Option Bool
  | .all => some true
  | .never => some false
  | .among false values => member3 equals x values
  | .among true values => not3 (member3 equals x values)

def NamedColumn.placeholder (dialect : Dialect) (c : NamedColumn) : String :=
  match c.column.cast with
  | some sqlCast => (getSqlCastFormatter dialect).format "?" sqlCast
  | none => "?"

def NamedColumn.reads (dialect : Dialect) (c : NamedColumn) (conditions : List (String × CondVal)) :
    Option ListTest :=
  readListTest c.column.columnName (c.placeholder dialect) (compileRecordOf dialect conditions)

/-- `notIn` accepts the row exactly when `in` rejects it. -/
def Complementary (dialect : Dialect) (c : NamedColumn) (values : List CondVal) : Prop :=
  ∃ within outside, c.reads dialect (c.column.inValues values) = some within ∧
    c.reads dialect (c.column.notIn values) = some outside ∧
    (outside.truth equals x = some true ↔ ¬within.truth equals x = some true)

/-- There are values, a null only where one of the others is the column's, and the key of a column
without a cast does not start with two underscores. -/
def ComplementSafe (c : NamedColumn) (values : List CondVal) : Prop :=
  values ≠ [] ∧ (c.column.cast = none → reserved c.column.columnName = false) ∧
    ((∃ v ∈ values, v.isNull = true) → ∃ v ∈ values, v.isNull = false ∧ equals x v = true)

end Tests

/-! ## The texts -/

section Texts
variable {c : NamedColumn} {dialect : Dialect} {values : List CondVal}

theorem compileRecordOf_single (dialect : Dialect) (key : String) (v : CondVal) :
    compileRecordOf dialect [(key, v)] =
      joinPieces " AND " [compileCondition (getSqlCastFormatter dialect) key v] := by
  rw [compileRecordOf, compile_and]
  rfl

theorem ne_of_blank {name key : String} (rest : List Char) (h : ' ' ∉ key.toList) :
    name ++ String.ofList (' ' :: rest) ≠ key := by
  rintro rfl
  apply h
  rw [String.toList_append, String.toList_ofList]
  exact List.mem_append_right _ List.mem_cons_self

theorem replaceHole_append {l : List Char} (h : '?' ∉ l) (text rest : List Char) :
    replaceHole text (l ++ '?' :: rest) = l ++ (text ++ rest) := by
  induction l with
  | nil => rw [List.nil_append, replaceHole, if_pos rfl, List.nil_append]
  | cons c l ih =>
    obtain ⟨hc, hl⟩ := not_or.mp (fun hmem => h (List.mem_cons.mpr hmem))
    rw [List.cons_append, replaceHole, if_neg (Ne.symm hc), ih hl, List.cons_append]

theorem compile_in_cast {sqlCast : String} (hcast : c.column.cast = some sqlCast) :
    compileRecordOf dialect (c.column.inValues values) =
      inList c.column.columnName (c.placeholder dialect) values := by
  have hraw : c.column.columnName ≠ "__raw__" := fun h => c.named (by rw [h]; simp)
  simp only [Column.inValues, NamedColumn.placeholder, hcast, compileRecordOf_single,
    joinPieces_single, compileCondition, if_neg hraw, DBToken.compile]

theorem compile_notIn_cast {sqlCast : String} (hcast : c.column.cast = some sqlCast) :
    compileRecordOf dialect (c.column.notIn values) =
      inList (c.column.columnName ++ " NOT") (c.placeholder dialect) values := by
  have hraw : c.column.columnName ++ " NOT" ≠ "__raw__" :=
    ne_of_blank "NOT".toList (by simp)
  simp only [Column.notIn, NamedColumn.placeholder, hcast, compileRecordOf_single,
    joinPieces_single, compileCondition, if_neg hraw, DBToken.compile]

theorem compile_in_plain (hcast : c.column.cast = none) :
    compileRecordOf dialect (c.column.inValues values) =
      if reserved c.column.columnName then ⟨"", []⟩
      else if values = [] then ⟨"1 = 0", []⟩
      else ⟨c.column.columnName ++ " IN (" ++ placeholders "?" values ++ ")", values⟩ := by
  have hraw : c.column.columnName ≠ "__raw__" := fun h => c.named (by rw [h]; simp)
  have hor : c.column.columnName ≠ "__or__" := fun h => c.named (by rw [h]; simp)
  simp only [Column.inValues, hcast, compileRecordOf_single, joinPieces_single, compileCondition,
    if_neg hraw, if_neg hor, compileArray, c.unmarked, Bool.false_eq_true, if_false]

/-- The one placeholder of the key takes the whole list, and a null for none. -/
theorem compile_notIn_plain (hcast : c.column.cast = none) :
    compileRecordOf dialect (c.column.notIn values) =
      if reserved c.column.columnName then ⟨"", []⟩
      else if values = [] then ⟨c.column.columnName ++ " NOT IN (NULL)", []⟩
      else ⟨c.column.columnName ++ " NOT IN (" ++ placeholders "?" values ++ ")", values⟩ := by
  have hraw : c.column.columnName ++ " NOT IN (?)" ≠ "__raw__" :=
    ne_of_blank "NOT IN (?)".toList (by simp)
  have hor : c.column.columnName ++ " NOT IN (?)" ≠ "__or__" :=
    ne_of_blank "NOT IN (?)".toList (by simp)
  have hres : reserved (c.column.columnName ++ " NOT IN (?)") = reserved c.column.columnName :=
    reserved_append "NOT IN (?)".toList
  have hname : '?' ∉ c.column.columnName.toList := by
    have h := c.unmarked
    rw [hasHole] at h
    simpa using h
  have hkey : (c.column.columnName ++ " NOT IN (?)").toList =
      (c.column.columnName.toList ++ " NOT IN (".toList) ++ '?' :: [')'] := by
    simp [String.toList_append]
  have hbefore : '?' ∉ c.column.columnName.toList ++ " NOT IN (".toList := by
    simp [hname]
  have hhole : hasHole (c.column.columnName ++ " NOT IN (?)") = true := by
    rw [hasHole, hkey]
    simp
  have hcount : (c.column.columnName ++ " NOT IN (?)").toList.count '?' = 1 := by
    rw [hkey, List.count_append, List.count_eq_zero.mpr hbefore]
    simp
  have hreplace : ∀ text : String,
      String.ofList (replaceHole text.toList (c.column.columnName ++ " NOT IN (?)").toList) =
        c.column.columnName ++ " NOT IN (" ++ text ++ ")" := by
    intro text
    rw [hkey, replaceHole_append hbefore]
    apply String.toList_injective
    simp [String.toList_append]
  simp only [Column.notIn, hcast, compileRecordOf_single, joinPieces_single, compileCondition,
    if_neg hraw, if_neg hor, hres, compileArray, hhole, if_true, compileCustomArray, hcount,
    true_and, hreplace]
  split
  · rfl
  · by_cases hnil : values = []
    · rw [if_pos hnil, if_pos hnil]
      apply congrArg (Piece.mk · [])
      apply String.toList_injective
      simp [String.toList_append]
    · rw [if_neg hnil, if_neg hnil]
      split
      · rfl
      · next hlen =>
        have hone : values.length = 1 := not_not.mp hlen
        obtain ⟨v, rfl⟩ := List.length_eq_one_iff.mp hone
        apply congrArg (Piece.mk · [v])
        apply String.toList_injective
        simp [String.toList_append, placeholders, join]

/-! ## The tests -/

theorem placeholder_plain (hcast : c.column.cast = none) : c.placeholder dialect = "?" := by
  rw [NamedColumn.placeholder, hcast]

theorem name_ne_empty (c : NamedColumn) : c.column.columnName ≠ "" :=
  fun h => c.named (by rw [h]; simp)

theorem read_all (name placeholder : String) : readListTest name placeholder ⟨"", []⟩ = some .all :=
  rfl

theorem read_never (name placeholder : String) :
    readListTest name placeholder ⟨"1 = 0", []⟩ = some .never := rfl

theorem read_null (name placeholder : String) :
    readListTest name placeholder ⟨name ++ " NOT IN (NULL)", []⟩ = some (.among true [none]) := by
  have hempty : name ++ " NOT IN (NULL)" ≠ "" := append_ne_empty (by simp)
  have hnever : name ++ " NOT IN (NULL)" ≠ "1 = 0" := by
    intro h
    have hmem : '(' ∈ (name ++ " NOT IN (NULL)").toList := by simp [String.toList_append]
    rw [h] at hmem
    simp at hmem
  simp only [readListTest, List.isEmpty_nil, if_true, if_neg hempty, if_neg hnever]

theorem read_within (name placeholder : String) (hne : values ≠ []) :
    readListTest name placeholder ⟨name ++ " IN (" ++ placeholders placeholder values ++ ")", values⟩ =
      some (.among false (values.map CondVal.nonNull)) := by
  have htext : name ++ " IN (" ++ placeholders placeholder values ++ ")" =
      name ++ " IN " ++ ("(" ++ placeholders placeholder values ++ ")") := by
    apply String.toList_injective
    simp [String.toList_append]
  have hnil : values.isEmpty = false := List.isEmpty_eq_false_iff.mpr hne
  simp only [readListTest, hnil, Bool.false_eq_true, if_false, htext, if_true]

theorem read_outside (name placeholder : String) (hne : values ≠ []) :
    readListTest name placeholder
        ⟨name ++ " NOT IN (" ++ placeholders placeholder values ++ ")", values⟩ =
      some (.among true (values.map CondVal.nonNull)) := by
  have htext : name ++ " NOT IN (" ++ placeholders placeholder values ++ ")" =
      name ++ " NOT IN " ++ ("(" ++ placeholders placeholder values ++ ")") := by
    apply String.toList_injective
    simp [String.toList_append]
  have hother : name ++ " NOT IN " ++ ("(" ++ placeholders placeholder values ++ ")") ≠
      name ++ " IN " ++ ("(" ++ placeholders placeholder values ++ ")") := by
    intro h
    have hlists := congrArg String.toList h
    simp [String.toList_append] at hlists
  have hnil : values.isEmpty = false := List.isEmpty_eq_false_iff.mpr hne
  simp only [readListTest, hnil, Bool.false_eq_true, if_false, htext, if_neg hother, if_true]

theorem reads_empty (dialect : Dialect) (c : NamedColumn) (hne : values = []) : ∃ outside,
    (c.column.cast = none → reserved c.column.columnName = false) →
      c.reads dialect (c.column.inValues values) = some .never ∧
      c.reads dialect (c.column.notIn values) = some outside ∧
      (outside = .never ∨ outside = .among true [none]) := by
  subst hne
  rw [NamedColumn.reads, NamedColumn.reads]
  cases hcast : c.column.cast with
  | some sqlCast =>
    refine ⟨.never, fun _ => ⟨?_, ?_, Or.inl rfl⟩⟩
    · rw [compile_in_cast hcast]
      exact read_never _ _
    · rw [compile_notIn_cast hcast]
      exact read_never _ _
  | none =>
    refine ⟨.among true [none], fun hres => ⟨?_, ?_, Or.inr rfl⟩⟩
    · rw [compile_in_plain hcast, hres rfl]
      exact read_never _ _
    · rw [compile_notIn_plain hcast, hres rfl]
      exact read_null _ _

theorem reads_reserved (dialect : Dialect) (values : List CondVal) (hcast : c.column.cast = none) (hres : reserved c.column.columnName = true) :
    c.reads dialect (c.column.inValues values) = some .all ∧
      c.reads dialect (c.column.notIn values) = some .all := by
  rw [NamedColumn.reads, NamedColumn.reads, compile_in_plain hcast, compile_notIn_plain hcast, hres]
  exact ⟨read_all _ _, read_all _ _⟩

theorem reads_values (dialect : Dialect) (hne : values ≠ [])
    (hres : c.column.cast = none → reserved c.column.columnName = false) :
    c.reads dialect (c.column.inValues values) = some (.among false (values.map CondVal.nonNull)) ∧
      c.reads dialect (c.column.notIn values) = some (.among true (values.map CondVal.nonNull)) := by
  have hname := name_ne_empty c
  rw [NamedColumn.reads, NamedColumn.reads]
  cases hcast : c.column.cast with
  | some sqlCast =>
    have hblank : c.column.columnName ++ " NOT" ≠ "" := append_ne_empty (by simp)
    constructor
    · rw [compile_in_cast hcast, ← read_within c.column.columnName (c.placeholder dialect) hne]
      apply congrArg
      simp only [inList, if_neg hne, keyed, if_pos hname]
      apply congrArg (Piece.mk · values)
      apply String.toList_injective
      simp [String.toList_append]
    · rw [compile_notIn_cast hcast, ← read_outside c.column.columnName (c.placeholder dialect) hne]
      apply congrArg
      simp only [inList, if_neg hne, keyed, if_pos hblank]
      apply congrArg (Piece.mk · values)
      apply String.toList_injective
      simp [String.toList_append]
  | none =>
    rw [placeholder_plain hcast, compile_in_plain hcast, compile_notIn_plain hcast, hres hcast,
      if_neg Bool.false_ne_true, if_neg hne, if_neg Bool.false_ne_true, if_neg hne]
    exact ⟨read_within _ _ hne, read_outside _ _ hne⟩

end Texts

section Complement
variable {ρ : Type} {equals : ρ → CondVal → Bool} {x : ρ}

theorem some_mem_nonNull {values : List CondVal} {v : CondVal} :
    some v ∈ values.map CondVal.nonNull ↔ v ∈ values ∧ v.isNull = false := by
  rw [List.mem_map]
  constructor
  · intro h
    obtain ⟨w, hw, hv⟩ := h
    rw [CondVal.nonNull] at hv
    split at hv
    · cases hv
    · next hnull =>
      cases hv
      exact ⟨hw, Bool.eq_false_iff.mpr hnull⟩
  · intro h
    exact ⟨v, h.1, by rw [CondVal.nonNull, h.2]; rfl⟩

theorem none_mem_nonNull {values : List CondVal} :
    none ∈ values.map CondVal.nonNull ↔ ∃ v ∈ values, v.isNull = true := by
  rw [List.mem_map]
  refine exists_congr fun v => and_congr_right fun _ => ?_
  rw [CondVal.nonNull]
  cases v.isNull <;> simp

/-- The negated list accepts what the list rejects, unless a null keeps it from accepting. -/
theorem among_complement {values : List CondVal} :
    (not3 (member3 equals x (values.map CondVal.nonNull)) = some true ↔
        ¬member3 equals x (values.map CondVal.nonNull) = some true) ↔
      ((∃ v ∈ values, v.isNull = true) → ∃ v ∈ values, v.isNull = false ∧ equals x v = true) := by
  have hmember : member3 equals x (values.map CondVal.nonNull) = some true ↔
      ∃ v ∈ values, v.isNull = false ∧ equals x v = true := by
    rw [member3_true]
    refine exists_congr fun v => ?_
    rw [some_mem_nonNull, and_assoc]
  have hnot : not3 (member3 equals x (values.map CondVal.nonNull)) = some true ↔
      ¬(∃ v ∈ values, v.isNull = true) ∧
        ¬∃ v ∈ values, v.isNull = false ∧ equals x v = true := by
    rw [not_member3_true, none_mem_nonNull]
    refine and_congr_right fun _ => ?_
    constructor
    · intro h hmatch
      obtain ⟨v, hv, hnull, heq⟩ := hmatch
      rw [h v (some_mem_nonNull.mpr ⟨hv, hnull⟩)] at heq
      cases heq
    · intro h v hv
      obtain ⟨hmem, hnull⟩ := some_mem_nonNull.mp hv
      rw [Bool.eq_false_iff]
      intro heq
      exact h ⟨v, hmem, hnull, heq⟩
  rw [hmember, hnot, and_iff_right_iff_imp, not_imp_not]

theorem complementSafe_of_complementary {dialect : Dialect} {c : NamedColumn}
    {values : List CondVal} (h : Complementary equals x dialect c values) :
    ComplementSafe equals x c values := by
  obtain ⟨within, outside, hin, hout, hiff⟩ := h
  have hres : c.column.cast = none → reserved c.column.columnName = false := by
    intro hcast
    rw [Bool.eq_false_iff]
    intro hname
    obtain ⟨hin', hout'⟩ := reads_reserved dialect values hcast hname
    rw [hin'] at hin
    rw [hout'] at hout
    cases hin
    cases hout
    simp [ListTest.truth] at hiff
  have hne : values ≠ [] := by
    intro hnil
    obtain ⟨outside', hreads⟩ := reads_empty dialect c hnil
    obtain ⟨hin', hout', hoff⟩ := hreads hres
    rw [hin'] at hin
    rw [hout'] at hout
    cases hin
    cases hout
    have hfalse : outside.truth equals x ≠ some true := by
      rcases hoff with rfl | rfl <;> simp [ListTest.truth, member3, or3, not3]
    exact absurd (hiff.mpr (by simp [ListTest.truth])) hfalse
  obtain ⟨hin', hout'⟩ := reads_values dialect hne hres
  rw [hin'] at hin
  rw [hout'] at hout
  cases hin
  cases hout
  exact ⟨hne, hres, among_complement.mp hiff⟩

/-- `notIn` is the complement of `in` exactly on the lists it can negate. -/
theorem complementary_iff (dialect : Dialect) (c : NamedColumn) (values : List CondVal)
    (equals : ρ → CondVal → Bool) (x : ρ) :
    Complementary equals x dialect c values ↔ ComplementSafe equals x c values := by
  constructor
  · exact complementSafe_of_complementary
  · intro hsafe
    obtain ⟨hne, hres, hnull⟩ := hsafe
    obtain ⟨hin, hout⟩ := reads_values dialect hne hres
    exact ⟨_, _, hin, hout, among_complement.mpr hnull⟩

end Complement

/-! ## Statuses -/

def statusColumn : NamedColumn := ⟨⟨"status", none, none⟩, by decide, by decide⟩

def sameText (x : String) : CondVal → Bool
  | .js (.str s) _ => s = x
  | _ => false

/-- Neither the empty list nor one with a null is negated: `active` is in neither, and outside of
neither. -/
theorem active_not_outside :
    (¬Complementary sameText "active" .postgres statusColumn [] ∧
      ¬Complementary sameText "active" .postgres ⟨⟨"id", some "uuid", none⟩, by decide, by decide⟩ []) ∧
      ¬Complementary sameText "active" .postgres statusColumn
        [.js (.str "deleted") rfl, .js .null rfl] := by
  refine ⟨⟨?_, ?_⟩, ?_⟩
  · intro h
    exact (complementSafe_of_complementary h).1 rfl
  · intro h
    exact (complementSafe_of_complementary h).1 rfl
  · intro h
    obtain ⟨v, hv, _, heq⟩ := (complementSafe_of_complementary h).2.2
      ⟨.js .null rfl, by simp, rfl⟩
    rcases List.mem_cons.mp hv with rfl | hv
    · simp [sameText] at heq
    · rw [List.mem_singleton.mp hv] at heq
      cases heq

end LiteDb
