import LiteDbModel.Lib.Binary64
import LiteDbModel.Lib.Scan
import LiteDbModel.RelationSurfaces

/-!
# Declared column types and read cells

The type that a column is declared with decides the type that its cells are read as. The
driver's forms of a cell are brought to it; what is returned is compared with the value
that the form stands for.
-/

namespace LiteDb.CellTypes
set_option autoImplicit false
open Decimal (Dec)
open Scan (trim isWordChar)

/-! ## Normalizing a declared type -/

/-- What `.` does not match. -/
def isLineEnd (c : Char) : Bool := c = '\n' || c = '\r' || c = '\u2028' || c = '\u2029'

/-- What follows the last `)` of the line, if it has one. -/
def afterLastParen (cs : List Char) : Option (List Char) :=
  let line := cs.takeWhile fun c => !isLineEnd c
  if ')' ∈ line then
    some ((line.reverse.takeWhile fun c => c ≠ ')').reverse ++ cs.dropWhile fun c => !isLineEnd c)
  else none

/-- `replace(/\(.*\)/, '')`. -/
def dropParens : List Char → List Char
  | [] => []
  | c :: cs =>
    if c = '(' then
      match afterLastParen cs with
      | some rest => rest
      | none => c :: dropParens cs
    else c :: dropParens cs

/-- The length of a match of `UNSIGNED|ZEROFILL|PRECISION|NOT\s+NULL|NULL` and `\b` at the head. -/
def keyword? (cs : List Char) : Option Nat :=
  let word := cs.takeWhile isWordChar
  if ["UNSIGNED".toList, "ZEROFILL".toList, "PRECISION".toList, "NULL".toList].contains word then
    some word.length
  else if word = "NOT".toList then
    let space := (cs.drop 3).takeWhile Text.isSpace
    if space ≠ [] ∧ ((cs.drop 3).drop space.length).takeWhile isWordChar = "NULL".toList then
      some (7 + space.length)
    else none
  else none

/-- The keywords replaced by nothing; the count is what is left of the current one. -/
def dropKeywords : Nat → Bool → List Char → List Char
  | _, _, [] => []
  | k + 1, _, c :: cs => dropKeywords k (isWordChar c) cs
  | 0, inWord, c :: cs =>
    match (if inWord then none else keyword? (c :: cs)) with
    | some n => dropKeywords (n - 1) (isWordChar c) cs
    | none => c :: dropKeywords 0 (isWordChar c) cs

/-- `replace(/\s+/g, ' ')`. -/
def collapse : Bool → List Char → List Char
  | _, [] => []
  | inSpace, c :: cs =>
    if Text.isSpace c then if inSpace then collapse true cs else ' ' :: collapse true cs
    else c :: collapse false cs

def normalizeSqlTypeToken (sqlType : List Char) : List Char :=
  trim (collapse false (dropKeywords 0 false (dropParens ((trim sqlType).map Char.toUpper))))

/-- The match of `/^(.+?)\s*\[\s*\]$/` on a normalized type. -/
def arrayElementType (sqlType : List Char) : Option (List Char) :=
  match (normalizeSqlTypeToken sqlType).reverse with
  | ']' :: r =>
    match r.dropWhile Text.isSpace with
    | '[' :: p =>
      let element := (p.dropWhile Text.isSpace).reverse
      if element = [] then none else some (trim element)
    | _ => none
  | _ => none

/-! ## The types of cells -/

inductive BcScalar
  | string
  | int
  | float
  | bool
deriving DecidableEq

def intNames : List String :=
  ["INTEGER", "INT", "BIGINT", "SMALLINT", "TINYINT", "MEDIUMINT", "INT2", "INT4", "INT8", "SERIAL",
    "SERIAL4", "BIGSERIAL", "SERIAL8", "SMALLSERIAL", "SERIAL2"]

def floatNames : List String := ["REAL", "FLOAT", "DOUBLE", "FLOAT4", "FLOAT8"]

def decimalNames : List String := ["DECIMAL", "NUMERIC", "MONEY"]

def textNames : List String :=
  ["TEXT", "VARCHAR", "CHAR", "CHARACTER", "CHARACTER VARYING", "CLOB", "UUID"]

def boolNames : List String := ["BOOLEAN", "BOOL"]

def dateNames : List String := ["DATE", "TIMESTAMP", "TIMESTAMPTZ", "DATETIME", "TIME"]

def jsonNames : List String := ["JSON", "JSONB"]

def unknownType (what : String) (sqlType t : List Char) : String :=
  "litedbmodel type system (spec §4.1): no " ++ what ++ " for SQL type '" ++ String.ofList sqlType ++
    "' (normalized '" ++ String.ofList t ++ "'). Add it to the §4.1 table or fix the column — " ++
    "ambiguous/unknown types are a hard error (no-assume, no-fallback), never defaulted."

def sqlTypeToBcScalar (sqlType : List Char) : Except String BcScalar :=
  let t := normalizeSqlTypeToken sqlType
  let name := String.ofList t
  if name ∈ intNames then .ok .int
  else if name ∈ floatNames then .ok .float
  else if name ∈ decimalNames then .ok .string
  else if name ∈ textNames then .ok .string
  else if name ∈ boolNames then .ok .bool
  else if name ∈ dateNames then .ok .string
  else if name ∈ jsonNames then .ok .string
  else .error (unknownType "bc outType mapping" sqlType t)

/-- The names of `sqlTypeToMaterializeClass`; no class is `passthrough`. -/
def classOfName (sqlType t : List Char) : Except String (Option MaterializeClass) :=
  let name := String.ofList t
  if name ∈ intNames then .ok (some .int)
  else if name ∈ boolNames then .ok (some .bool)
  else if name ∈ dateNames then .ok (some .date)
  else if name ∈ floatNames ++ decimalNames ++ textNames ++ jsonNames then .ok none
  else .error (unknownType "materialization class" sqlType t)

theorem length_trim (cs : List Char) : (trim cs).length ≤ cs.length := by
  rw [trim, List.length_reverse]
  refine (List.length_dropWhile_le _ _).trans ?_
  rw [List.length_reverse]
  exact List.length_dropWhile_le _ _

theorem length_dropParens (cs : List Char) : (dropParens cs).length ≤ cs.length := by
  induction cs with
  | nil => exact Nat.le_refl 0
  | cons c cs ih =>
    have hafter : ∀ rest, afterLastParen cs = some rest → rest.length ≤ cs.length := by
      intro rest h
      rw [afterLastParen] at h
      split at h
      · obtain rfl := Option.some.inj h
        have hline := List.takeWhile_append_dropWhile (p := fun c => !isLineEnd c) (l := cs)
        have hlen := congrArg List.length hline
        have htake := (List.takeWhile_prefix (fun c => decide (c ≠ ')'))
          (l := (cs.takeWhile fun c => !isLineEnd c).reverse)).length_le
        simp only [List.length_append, List.length_reverse] at hlen htake ⊢
        omega
      · exact nomatch h
    rw [dropParens]
    split
    · split
      next rest h =>
        have := hafter rest h
        simp only [List.length_cons]
        omega
      next =>
        simp only [List.length_cons]
        omega
    · simp only [List.length_cons]
      omega

theorem length_dropKeywords (k : Nat) (inWord : Bool) (cs : List Char) :
    (dropKeywords k inWord cs).length ≤ cs.length := by
  induction cs generalizing k inWord with
  | nil => simp [dropKeywords]
  | cons c cs ih =>
    cases k with
    | succ k =>
      have := ih k (isWordChar c)
      simp only [dropKeywords, List.length_cons]
      omega
    | zero =>
      simp only [dropKeywords]
      split
      next n _ =>
        have := ih (n - 1) (isWordChar c)
        simp only [List.length_cons]
        omega
      next =>
        have := ih 0 (isWordChar c)
        simp only [List.length_cons]
        omega

theorem length_collapse (inSpace : Bool) (cs : List Char) :
    (collapse inSpace cs).length ≤ cs.length := by
  induction cs generalizing inSpace with
  | nil => simp [collapse]
  | cons c cs ih =>
    have htrue := ih true
    have hfalse := ih false
    rw [collapse]
    split
    · split <;> simp only [List.length_cons] <;> omega
    · simp only [List.length_cons]
      omega

theorem length_normalize (sqlType : List Char) :
    (normalizeSqlTypeToken sqlType).length ≤ sqlType.length := by
  rw [normalizeSqlTypeToken]
  refine (length_trim _).trans ((length_collapse _ _).trans ((length_dropKeywords _ _ _).trans
    ((length_dropParens _).trans ?_)))
  rw [List.length_map]
  exact length_trim sqlType

theorem length_arrayElementType {sqlType element : List Char}
    (h : arrayElementType sqlType = some element) :
    element.length < (normalizeSqlTypeToken sqlType).length := by
  rw [arrayElementType] at h
  split at h
  next r hr =>
    split at h
    next p hp =>
      simp only at h
      split at h
      next => exact absurd h.symm (Option.some_ne_none _)
      next =>
        obtain rfl := Option.some.inj h
        have hlen := congrArg List.length hr
        have hp' := congrArg List.length hp
        have hdrop := List.length_dropWhile_le Text.isSpace r
        have hdrop' := List.length_dropWhile_le Text.isSpace p
        have htrim := length_trim (p.dropWhile Text.isSpace).reverse
        simp only [List.length_reverse, List.length_cons] at hlen hp' htrim
        omega
    next => exact absurd h.symm (Option.some_ne_none _)
  next => exact absurd h.symm (Option.some_ne_none _)

/-- An array column is `passthrough` once its element type is known. -/
def sqlTypeToMaterializeClass (sqlType : List Char) : Except String (Option MaterializeClass) :=
  match _h : arrayElementType sqlType with
  | some element =>
    match sqlTypeToMaterializeClass element with
    | .ok _ => .ok none
    | .error e => .error e
  | none => classOfName sqlType (normalizeSqlTypeToken sqlType)
termination_by (normalizeSqlTypeToken sqlType).length
decreasing_by
  have h1 := length_arrayElementType _h
  have h2 := length_normalize element
  omega

/-- The type of a read cell that is bound as a key. -/
def keyArrayElemScalar (sqlType : List Char) : Except String BcScalar :=
  match sqlTypeToMaterializeClass sqlType with
  | .error e => .error e
  | .ok (some .int) => .ok .int
  | .ok (some .date) => .ok .string
  | .ok (some .bool) => .ok .bool
  | .ok none =>
    match sqlTypeToBcScalar sqlType with
    | .error e => .error e
    | .ok scalar => .ok (if scalar = .float then .float else .string)

/-- The type that a column's cells are declared to be read as. -/
inductive OutType
  | scalar (s : BcScalar)
  | list (s : BcScalar)
deriving DecidableEq

def outType (sqlType : List Char) : Except String OutType :=
  match arrayElementType sqlType with
  | some element => (keyArrayElemScalar element).map .list
  | none => (keyArrayElemScalar sqlType).map .scalar

def IsI64 (i : Int) : Prop := I64_MIN ≤ i ∧ i ≤ I64_MAX

def BcScalar.Holds : BcScalar → JsVal → Prop
  | .string, .str _ => True
  | .int, .bigint i => IsI64 i
  | .float, .num _ => True
  | .bool, .bool _ => True
  | _, _ => False

/-- The cell has the declared type; every cell may be null. -/
def OutType.Holds : OutType → JsVal → Prop
  | .scalar s, v => v.nullish = true ∨ s.Holds v
  | .list s, .arr xs => ∀ x ∈ xs, x.nullish = true ∨ s.Holds x
  | .list _, v => v.nullish = true

/-! ## Reading a cell -/

variable (H : Host)

/-- `materializeCell`, with its class `passthrough`. -/
def materialize (value : JsVal) : Option MaterializeClass → Except String JsVal
  | some klass => materializeCell H value klass
  | none => .ok value

/-- What a class makes of a driver's form of a value. -/
inductive Exact : Option MaterializeClass → JsVal → JsVal → Prop
  | nullish {klass : Option MaterializeClass} {v : JsVal} (h : v.nullish = true) : Exact klass v v
  | passthrough (v : JsVal) : Exact none v v
  | bigint {i : Int} (h : IsI64 i) : Exact (some .int) (.bigint i) (.bigint i)
  | text {s : String} {i : Int} (hs : parseIntText s = some i) (h : IsI64 i) :
      Exact (some .int) (.str s) (.bigint i)
  /-- A number that no other integer rounds to. -/
  | number {d : Dec} {i : Int} (hd : d.value = i) (h : |i| < 2 ^ 53) :
      Exact (some .int) (.num (.fin d)) (.bigint i)
  | dateText (s : String) : Exact (some .date) (.str s) (.str s)
  | date (iso : String) : Exact (some .date) (.date iso) (.str iso)
  | bool (b : Bool) : Exact (some .bool) (.bool b) (.bool b)
  | boolNumber (n : JsNum) : Exact (some .bool) (.num n) (.bool (n ≠ JsNum.ofInt 0))
  | boolBigint (i : Int) : Exact (some .bool) (.bigint i) (.bool (i ≠ 0))
  | boolTrue {s : String} (h : trimLower s ∈ ["t", "true", "1"]) :
      Exact (some .bool) (.str s) (.bool true)
  | boolFalse {s : String} (h : trimLower s ∈ ["f", "false", "0"]) :
      Exact (some .bool) (.str s) (.bool false)

theorem checkI64_ok_iff {i : Int} {v : JsVal} :
    checkI64 i = .ok v ↔ IsI64 i ∧ v = .bigint i := by
  rw [checkI64, IsI64]
  split
  next h =>
    refine iff_of_false (fun heq => nomatch heq) ?_
    rintro ⟨hi, -⟩
    omega
  next h =>
    constructor
    · intro heq
      exact ⟨by omega, (Except.ok.inj heq).symm⟩
    · rintro ⟨-, rfl⟩
      rfl

/-- A decimal with a fraction is no integer. -/
theorem value_eq_int_iff {d : Dec} {i : Int} :
    d.value = i ↔ 0 ≤ d.exp ∧ i = d.mant * 10 ^ d.exp.toNat := by
  constructor
  · intro h
    have hexp : 0 ≤ d.exp := by
      by_contra hneg
      obtain ⟨k, hk⟩ : ∃ k : Nat, d.exp = -((k : Int) + 1) := ⟨(-d.exp - 1).toNat, by omega⟩
      have hmant : d.mant = i * 10 ^ (k + 1) := by
        rw [Dec.value, hk, zpow_neg, ← div_eq_mul_inv, div_eq_iff (by positivity)] at h
        have hpow : (10 : ℚ) ^ ((k : Int) + 1) = ((10 ^ (k + 1) : Int) : ℚ) := by
          push_cast
          exact_mod_cast zpow_natCast (10 : ℚ) (k + 1)
        rw [hpow] at h
        exact_mod_cast h
      have hdvd : (10 : Int) ∣ d.mant := ⟨i * 10 ^ k, by rw [hmant, pow_succ]; ring⟩
      by_cases hzero : d.mant = 0
      · have := d.normal.1 hzero
        omega
      · exact d.normal.2 hzero hdvd
    refine ⟨hexp, ?_⟩
    obtain ⟨k, hk⟩ := Int.eq_ofNat_of_zero_le hexp
    rw [Dec.value, hk, zpow_natCast] at h
    rw [hk, Int.toNat_natCast]
    exact_mod_cast h.symm
  · rintro ⟨hexp, rfl⟩
    obtain ⟨k, hk⟩ := Int.eq_ofNat_of_zero_le hexp
    rw [Dec.value, hk, zpow_natCast, Int.toNat_natCast]
    push_cast
    rfl

theorem materializeInt_ok_iff {raw v : JsVal} (hraw : raw.nullish = false) :
    materializeInt raw = .ok v ↔ Exact (some .int) raw v := by
  cases raw with
  | bigint i =>
    rw [materializeInt, checkI64_ok_iff]
    constructor
    · rintro ⟨hi, rfl⟩
      exact .bigint hi
    · intro hexact
      cases hexact with
      | nullish h => exact nomatch h
      | bigint h => exact ⟨h, rfl⟩
  | str s =>
    simp only [materializeInt]
    cases hs : parseIntText s with
    | none =>
      refine iff_of_false (fun heq => nomatch heq) ?_
      intro hexact
      cases hexact with
      | nullish h => exact nomatch h
      | text hs' _ => exact nomatch hs.symm.trans hs'
    | some i =>
      simp only [checkI64_ok_iff]
      constructor
      · rintro ⟨hi, rfl⟩
        exact .text hs hi
      · intro hexact
        cases hexact with
        | nullish h => exact nomatch h
        | text hs' hi =>
          obtain rfl := Option.some.inj (hs.symm.trans hs')
          exact ⟨hi, rfl⟩
  | num n =>
    cases n with
    | fin d =>
      simp only [materializeInt]
      split
      next hexp =>
        refine iff_of_false (fun heq => nomatch heq) ?_
        intro hexact
        cases hexact with
        | nullish h => exact nomatch h
        | number hd _ =>
          have := (value_eq_int_iff.mp hd).1
          omega
      next hexp =>
        have hvalue : d.value = (d.mant * 10 ^ d.exp.toNat : Int) :=
          value_eq_int_iff.mpr ⟨by omega, rfl⟩
        split
        next hsafe =>
          constructor
          · intro heq
            obtain rfl := Except.ok.inj heq
            exact .number hvalue (by rw [Int.abs_eq_natAbs]; omega)
          · intro hexact
            cases hexact with
            | nullish h => exact nomatch h
            | number hd _ => rw [(value_eq_int_iff.mp hd).2]
        next hunsafe =>
          refine iff_of_false (fun heq => nomatch heq) ?_
          intro hexact
          cases hexact with
          | nullish h => exact nomatch h
          | number hd hi =>
            rw [(value_eq_int_iff.mp hd).2, Int.abs_eq_natAbs] at hi
            omega
    | _ =>
      refine iff_of_false (fun heq => nomatch heq) ?_
      intro hexact
      cases hexact with
      | nullish h => exact nomatch h
  | undefined | null => exact nomatch hraw
  | _ =>
    refine iff_of_false (fun heq => nomatch heq) ?_
    intro hexact
    cases hexact with
    | nullish h => exact nomatch h

theorem materializeDate_ok_iff {raw v : JsVal} (hraw : raw.nullish = false) :
    materializeDate raw = .ok v ↔ Exact (some .date) raw v := by
  cases raw with
  | str s =>
    constructor
    · intro heq
      obtain rfl := Except.ok.inj heq
      exact .dateText s
    · intro hexact
      cases hexact with
      | nullish h => exact nomatch h
      | dateText => rfl
  | date iso =>
    constructor
    · intro heq
      obtain rfl := Except.ok.inj heq
      exact .date iso
    · intro hexact
      cases hexact with
      | nullish h => exact nomatch h
      | date => rfl
  | undefined | null => exact nomatch hraw
  | _ =>
    refine iff_of_false (fun heq => nomatch heq) ?_
    intro hexact
    cases hexact with
    | nullish h => exact nomatch h

theorem materializeBool_ok_iff {raw v : JsVal} (hraw : raw.nullish = false) :
    materializeBool H raw = .ok v ↔ Exact (some .bool) raw v := by
  cases raw with
  | bool b =>
    constructor
    · intro heq
      obtain rfl := Except.ok.inj heq
      exact .bool b
    · intro hexact
      cases hexact with
      | nullish h => exact nomatch h
      | bool => rfl
  | num n =>
    constructor
    · intro heq
      obtain rfl := Except.ok.inj heq
      exact .boolNumber n
    · intro hexact
      cases hexact with
      | nullish h => exact nomatch h
      | boolNumber => rfl
  | bigint i =>
    constructor
    · intro heq
      obtain rfl := Except.ok.inj heq
      exact .boolBigint i
    · intro hexact
      cases hexact with
      | nullish h => exact nomatch h
      | boolBigint => rfl
  | str s =>
    simp only [materializeBool]
    split
    next htrue =>
      constructor
      · intro heq
        obtain rfl := Except.ok.inj heq
        exact .boolTrue htrue
      · intro hexact
        cases hexact with
        | nullish h => exact nomatch h
        | boolTrue => rfl
        | boolFalse hfalse =>
          simp only [List.mem_cons, List.not_mem_nil, or_false] at htrue
          rcases htrue with h | h | h <;> rw [h] at hfalse <;> exact absurd hfalse (by decide)
    next htrue =>
      split
      next hfalse =>
        constructor
        · intro heq
          obtain rfl := Except.ok.inj heq
          exact .boolFalse hfalse
        · intro hexact
          cases hexact with
          | nullish h => exact nomatch h
          | boolTrue h => exact (htrue h).elim
          | boolFalse => rfl
      next hfalse =>
        refine iff_of_false (fun heq => nomatch heq) ?_
        intro hexact
        cases hexact with
        | nullish h => exact nomatch h
        | boolTrue h => exact htrue h
        | boolFalse h => exact hfalse h
  | undefined | null => exact nomatch hraw
  | _ =>
    refine iff_of_false (fun heq => nomatch heq) ?_
    intro hexact
    cases hexact with
    | nullish h => exact nomatch h

theorem materialize_ok_iff {raw v : JsVal} {klass : Option MaterializeClass} :
    materialize H raw klass = .ok v ↔ Exact klass raw v := by
  cases klass with
  | none =>
    constructor
    · intro heq
      obtain rfl := Except.ok.inj heq
      exact .passthrough raw
    · intro hexact
      cases hexact <;> rfl
  | some klass =>
    rw [materialize, materializeCell.eq_def]
    split
    next hnull =>
      constructor
      · intro heq
        obtain rfl := Except.ok.inj heq
        exact .nullish hnull
      · intro hexact
        cases hexact with
        | nullish => rfl
        | _ => exact nomatch hnull
    next hnull =>
      have hraw : raw.nullish = false := Bool.eq_false_iff.mpr hnull
      cases klass with
      | int => exact materializeInt_ok_iff hraw
      | date => exact materializeDate_ok_iff hraw
      | bool => exact materializeBool_ok_iff H hraw

/-- What is returned is returned again. -/
theorem Exact.again {raw v : JsVal} {klass : Option MaterializeClass} (h : Exact klass raw v) :
    Exact klass v v := by
  cases h with
  | nullish hnull => exact .nullish hnull
  | passthrough => exact .passthrough _
  | bigint hi | text _ hi => exact .bigint hi
  | number hd hi =>
    have hsmall := abs_lt.mp hi
    exact .bigint ⟨by rw [I64_MIN]; omega, by rw [I64_MAX]; omega⟩
  | dateText s => exact .dateText s
  | date iso => exact .dateText iso
  | bool | boolNumber | boolBigint | boolTrue | boolFalse => exact .bool _

/-! ## Declared and read types -/

theorem class_of_array {sqlType element : List Char} {klass : Option MaterializeClass}
    (he : arrayElementType sqlType = some element)
    (hclass : sqlTypeToMaterializeClass sqlType = .ok klass) : klass = none := by
  rw [sqlTypeToMaterializeClass.eq_def] at hclass
  split at hclass
  next =>
    split at hclass
    · exact (Except.ok.inj hclass).symm
    · exact nomatch hclass
  next hnone => exact nomatch he.symm.trans hnone

theorem outType_scalar {sqlType : List Char} {ty : OutType} {klass : MaterializeClass}
    (hclass : sqlTypeToMaterializeClass sqlType = .ok (some klass))
    (hty : outType sqlType = .ok ty) :
    ty = .scalar (match klass with
      | .int => .int
      | .date => .string
      | .bool => .bool) := by
  cases he : arrayElementType sqlType with
  | some element => exact nomatch class_of_array he hclass
  | none =>
    simp only [outType, he, keyArrayElemScalar, hclass] at hty
    cases klass <;> exact (Except.ok.inj hty).symm

/-- A cell that a class has made is of the column's declared type. -/
theorem Exact.declared {sqlType : List Char} {ty : OutType} {klass : MaterializeClass}
    {raw v : JsVal} (hclass : sqlTypeToMaterializeClass sqlType = .ok (some klass))
    (hty : outType sqlType = .ok ty) (h : Exact (some klass) raw v) : ty.Holds v := by
  obtain rfl := outType_scalar hclass hty
  cases h with
  | nullish hnull => exact .inl hnull
  | bigint hi | text _ hi => exact .inr hi
  | number hd hi =>
    have hsmall := abs_lt.mp hi
    exact .inr ⟨by rw [I64_MIN]; omega, by rw [I64_MAX]; omega⟩
  | dateText | date | bool | boolNumber | boolBigint | boolTrue | boolFalse => exact .inr trivial

theorem parseIntText_intText (i : Int) :
    parseIntText (String.ofList (Decimal.intText i)) = some i := by
  have hdigits : ∀ d ∈ Nat.toDigits 10 i.natAbs, d.isDigit = true := fun d hd =>
    Decimal.isDigit_of_mem hd
  obtain ⟨c, cs, hc, hdigit⟩ := Decimal.toDigits_cons i.natAbs
  have hread := Nat.ofDigitChars_ten_toDigits (n := i.natAbs)
  have htoken : intToken (Decimal.intText i) = some (Decimal.intText i, []) := by
    have hint : IsIntText (Decimal.intText i) := by
      rw [Decimal.intText]
      split
      · refine ⟨by simp, by simp [Nat.toDigits_ne_nil], '-', _, rfl, .inl rfl, hdigits⟩
      · rw [List.nil_append, hc]
        refine ⟨by simp, ?_, c, cs, rfl, .inr hdigit, ?_⟩
        · intro heq
          rw [(List.cons.inj heq).1] at hdigit
          exact absurd hdigit (by decide)
        · intro d hd
          exact hdigits d (by rw [hc]; exact List.mem_cons_of_mem c hd)
    simpa using intToken_append hint Decimal.NoDigit.nil
  rw [parseIntText, String.toList_ofList, htoken, Decimal.intText]
  split
  next hneg heq =>
    split at heq
    next hlt =>
      simp only [List.singleton_append, Option.some.injEq, Prod.mk.injEq, List.cons.injEq, true_and,
        and_true] at heq
      subst heq
      rw [hread]
      congr 1
      omega
    next hlt =>
      rw [List.nil_append, hc] at heq
      simp only [Option.some.injEq, Prod.mk.injEq, List.cons.injEq, and_true] at heq
      rw [heq.1] at hdigit
      exact absurd hdigit (by decide)
  next hne heq =>
    simp only [Option.some.injEq, Prod.mk.injEq, and_true] at heq
    split at heq
    next hlt =>
      subst heq
      exact (hne _ rfl).elim
    next hlt =>
      subst heq
      rw [List.nil_append, hread]
      congr 1
      omega
  next hno =>
    exact (hno _ rfl).elim

/-- A 64-bit integer is read exactly from a bigint, from its decimal text and from a number that no
other integer rounds to; a larger number is refused. Whatever a column's class returns is what the
driver's form stands for, of the declared type unless the class is `passthrough`, which returns the
form itself; and it is returned again. -/
theorem materialize_exact :
    (∀ i, IsI64 i → materialize H (.bigint i) (some .int) = .ok (.bigint i) ∧
      materialize H (.str (String.ofList (Decimal.intText i))) (some .int) = .ok (.bigint i) ∧
      ∀ d : Dec, d.value = Binary64.ofRat i →
        (|i| < 2 ^ 53 → materialize H (.num (.fin d)) (some .int) = .ok (.bigint i)) ∧
        (2 ^ 53 ≤ |i| → ∃ e, materialize H (.num (.fin d)) (some .int) = .error e)) ∧
    ∀ sqlType klass ty raw, sqlTypeToMaterializeClass sqlType = .ok klass →
      outType sqlType = .ok ty → ∀ v,
        (materialize H raw klass = .ok v ↔ Exact klass raw v) ∧
        (materialize H raw klass = .ok v →
          (klass ≠ none → ty.Holds v) ∧ (klass = none → v = raw) ∧
            materialize H v klass = .ok v) := by
  constructor
  · intro i hi
    refine ⟨(materialize_ok_iff H).mpr (.bigint hi),
      (materialize_ok_iff H).mpr (.text (parseIntText_intText i) hi), ?_⟩
    intro d hd
    constructor
    · intro hsmall
      rw [Binary64.ofRat_intCast hsmall] at hd
      exact (materialize_ok_iff H).mpr (.number hd hsmall)
    · intro hlarge
      cases hres : materialize H (.num (.fin d)) (some .int) with
      | error e => exact ⟨e, rfl⟩
      | ok v =>
        have hexact := (materialize_ok_iff H).mp hres
        cases hexact with
        | nullish hnull => exact nomatch hnull
        | @number d j hj hsmall =>
          have hround : (2 : ℚ) ^ 53 ≤ |d.value| := by
            rw [hd]
            exact Binary64.le_abs_ofRat (by exact_mod_cast hlarge)
          rw [hj] at hround
          have hint : (2 : Int) ^ 53 ≤ |j| := by exact_mod_cast hround
          omega
  · intro sqlType klass ty raw hclass hty v
    refine ⟨materialize_ok_iff H, ?_⟩
    intro hv
    have hexact := (materialize_ok_iff H).mp hv
    refine ⟨?_, ?_, (materialize_ok_iff H).mpr hexact.again⟩
    · intro hne
      cases klass with
      | none => exact (hne rfl).elim
      | some klass => exact hexact.declared hclass hty
    · rintro rfl
      exact (Except.ok.inj hv).symm

/-- A number is refused from `2 ^ 53` on, which is a double itself; a number of a `DECIMAL` column
stays a number, although the column is declared to be read as a text. -/
theorem number_forms :
    let H : Host := ⟨fun iso => iso, fun _ => ""⟩
    (∀ v, materialize H (.num (JsNum.ofInt (2 ^ 53))) (some .int) ≠ .ok v) ∧
      sqlTypeToMaterializeClass "DECIMAL(10,2)".toList = .ok none ∧
      outType "DECIMAL(10,2)".toList = .ok (.scalar .string) ∧
      materialize H (.num (JsNum.ofInt 1)) none = .ok (.num (JsNum.ofInt 1)) ∧
      ¬ (OutType.scalar .string).Holds (.num (JsNum.ofInt 1)) := by
  intro H
  have harray : arrayElementType "DECIMAL(10,2)".toList = none := by decide +kernel
  have hname : normalizeSqlTypeToken "DECIMAL(10,2)".toList = "DECIMAL".toList := by decide +kernel
  have hclass : sqlTypeToMaterializeClass "DECIMAL(10,2)".toList = .ok none := by
    rw [sqlTypeToMaterializeClass.eq_def]
    split
    next h => exact nomatch harray.symm.trans h
    next => rw [hname, classOfName]; simp [intNames, boolNames, dateNames, decimalNames]
  refine ⟨?_, hclass, ?_, rfl, ?_⟩
  · intro v hv
    have hexact := (materialize_ok_iff H).mp hv
    cases hexact with
    | nullish hnull => exact nomatch hnull
    | @number d i hi hsmall =>
      rw [Dec.value_ofInt] at hi
      have hval : i = 2 ^ 53 := by exact_mod_cast hi.symm
      rw [hval] at hsmall
      exact absurd hsmall (by decide)
  · simp only [outType, harray, keyArrayElemScalar, hclass, sqlTypeToBcScalar, hname]
    simp [intNames, floatNames, decimalNames, Except.map]
  · rintro (h | h)
    · exact nomatch h
    · exact h

end LiteDb.CellTypes
