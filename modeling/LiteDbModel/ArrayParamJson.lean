import LiteDbModel.JsonParam
import LiteDbModel.KeyIdentity

/-!
# Array parameters as JSON texts

Rust writes an array parameter with its own compact writer, TypeScript with `encodeJsonParam`.
-/

namespace LiteDb
set_option autoImplicit false

/-- A value of the runtimes. -/
inductive BcValue
  | Null
  | Bool (b : Bool)
  | Int (n : Int) (fits : IsI64 n)
  | Float (w : Binary64.Word)
  | Str (s : String)
  | Arr (a : List BcValue)
  | Obj (pairs : List (String × BcValue))

namespace ArrayParamJson
open Binary64 (Word)
open Decimal (Dec intText)
open Json (Doc Scalar)

/-! ## The writer -/

/-- `f as i64` of a whole number: beyond the range the nearest bound. -/
def asI64 (n : Int) : Int := max (-2 ^ 63) (min n (2 ^ 63 - 1))

/-- `{f}`: the shortest digits that are read back, without an exponent. -/
def displayFloat (w : Word) : List Char :=
  if Binary64.isNaN w then "NaN".toList
  else if Binary64.isFinite w then (Binary64.shortest w).plain
  else if Binary64.negative w then "-inf".toList
  else "inf".toList

def writeFloat (w : Word) : List Char :=
  match Binary64.whole w with
  | some n => intText (asI64 n)
  | none => displayFloat w

def writeJsonChar (c : Char) : List Char :=
  if c = '"' then ['\\', '"']
  else if c = '\\' then ['\\', '\\']
  else if c = '\n' then ['\\', 'n']
  else if c = '\r' then ['\\', 'r']
  else if c = '\t' then ['\\', 't']
  else if c = '\x08' then ['\\', 'b']
  else if c = '\x0c' then ['\\', 'f']
  else if c.toNat < 0x20 then
    ['\\', 'u', '0', '0', Json.hexDigit (c.toNat / 16), Json.hexDigit (c.toNat % 16)]
  else [c]

def writeJsonString (s : String) : List Char := '"' :: (s.toList.flatMap writeJsonChar ++ ['"'])

mutual
def writeCompact : BcValue → List Char
  | .Null => "null".toList
  | .Bool b => if b then "true".toList else "false".toList
  | .Int n _ => intText n
  | .Float w => writeFloat w
  | .Str s => writeJsonString s
  | .Arr a => '[' :: (writeElems 0 a ++ [']'])
  | .Obj pairs => '\x7b' :: (writePairs 0 pairs ++ ['\x7d'])

/-- The elements from the `i`-th on, a comma before each but the first. -/
def writeElems (i : Nat) : List BcValue → List Char
  | [] => []
  | e :: a => (if 0 < i then [','] else []) ++ (writeCompact e ++ writeElems (i + 1) a)

def writePairs (i : Nat) : List (String × BcValue) → List Char
  | [] => []
  | (k, val) :: pairs => (if 0 < i then [','] else []) ++
      (writeJsonString k ++ ':' :: (writeCompact val ++ writePairs (i + 1) pairs))
end

theorem isI64_ofBool (b : Bool) : IsI64 (if b then 1 else 0) := by
  cases b <;> decide

/-- A Boolean as the integer it is sent as. -/
def asMysql : BcValue → BcValue
  | .Bool b => .Int (if b then 1 else 0) (isI64_ofBool b)
  | other => other

def isArr : BcValue → Bool
  | .Arr _ => true
  | _ => false

def isBool : BcValue → Bool
  | .Bool _ => true
  | _ => false

def arrayParamJson (elems : List BcValue) (mysqlBool : Bool) : List Char :=
  if mysqlBool then writeCompact (.Arr (elems.map asMysql)) else writeCompact (.Arr elems)

/-- The text that is bound for an array: by `execute_sql` for a list of tuples, else by the driver.
PostgreSQL binds a list of scalars without a text. -/
def boundText (dialect : Dialect) (items : List BcValue) : Option (List Char) :=
  if items.head?.any isArr then some (arrayParamJson items false)
  else
    match dialect with
    | .mysql => some (arrayParamJson items true)
    | .sqlite => some (arrayParamJson items false)
    | .postgres => none

/-! ## The same values in TypeScript -/

mutual
def toJs : BcValue → JsVal
  | .Null => .null
  | .Bool b => .bool b
  | .Int n _ => .bigint n
  | .Float w => .num (TypeScript.number w)
  | .Str s => .str s
  | .Arr a => .arr (toJsElems a)
  | .Obj pairs => .obj (toJsPairs pairs)

def toJsElems : List BcValue → List JsVal
  | [] => []
  | e :: a => toJs e :: toJsElems a

def toJsPairs : List (String × BcValue) → List (String × JsVal)
  | [] => []
  | (k, val) :: pairs => (k, toJs val) :: toJsPairs pairs
end

mutual
/-- Arrays, at any nesting, of strings, integers, finite floats, Booleans and null. -/
def scalars : BcValue → Bool
  | .Float w => Binary64.isFinite w
  | .Arr a => scalarsAll a
  | .Obj _ => false
  | _ => true

def scalarsAll : List BcValue → Bool
  | [] => true
  | e :: a => scalars e && scalarsAll a
end

/-- A whole float that `JSON.stringify` writes with its own digits, inside the 64-bit integers. -/
def OwnDigits (w : Word) : Prop :=
  ∀ n, Binary64.whole w = some n → IsI64 n ∧ Binary64.shortest w = Dec.ofInt n

mutual
/-- No string of the value forges a bigint, its whole floats have their own digits, and on MySQL it
holds no Boolean. -/
def Alike (dialect : Dialect) : BcValue → Prop
  | .Bool _ => dialect ≠ .mysql
  | .Float w => OwnDigits w
  | .Str s => forgesBigint s = false
  | .Arr a => AlikeAll dialect a
  | _ => True

def AlikeAll (dialect : Dialect) : List BcValue → Prop
  | [] => True
  | e :: a => Alike dialect e ∧ AlikeAll dialect a
end

/-- The items of a bound array: in a list of scalars they may be Booleans. -/
def ItemsAlike (dialect : Dialect) (items : List BcValue) : Prop :=
  ∀ e ∈ items, Alike dialect e ∨ (isBool e = true ∧ items.head?.any isArr = false)

/-! ## What the written text reads as -/

/-- What the writer writes at once. -/
inductive Atom
  | null
  | bool (b : Bool)
  | int (n : Int)
  | decimal (d : Dec)
  | str (s : String)

def Atom.text : Atom → List Char
  | .null => "null".toList
  | .bool b => if b then "true".toList else "false".toList
  | .int n => intText n
  | .decimal d => d.plain
  | .str s => writeJsonString s

def Atom.read : Atom → Scalar
  | .null => .null
  | .bool b => .bool b
  | .int n => .num (Dec.ofInt n)
  | .decimal d => .num d
  | .str s => .str s

def floatAtom (w : Word) : Atom :=
  match Binary64.whole w with
  | some n => .int (asI64 n)
  | none => .decimal (Binary64.shortest w)

mutual
def tree : BcValue → Doc Atom
  | .Null => .leaf .null
  | .Bool b => .leaf (.bool b)
  | .Int n _ => .leaf (.int n)
  | .Float w => .leaf (floatAtom w)
  | .Str s => .leaf (.str s)
  | .Arr a => .arr (treeElems a)
  | .Obj pairs => .obj (treePairs pairs)

def treeElems : List BcValue → List (Doc Atom)
  | [] => []
  | e :: a => tree e :: treeElems a

def treePairs : List (String × BcValue) → List (String × Doc Atom)
  | [] => []
  | (k, val) :: pairs => (k, tree val) :: treePairs pairs
end

theorem writeFloat_text {w : Word} (h : Binary64.isFinite w = true) :
    writeFloat w = (floatAtom w).text := by
  have hnan : Binary64.isNaN w = false := by
    simp only [Binary64.isFinite, decide_eq_true_eq] at h
    simp [Binary64.isNaN, h]
  unfold writeFloat floatAtom
  cases Binary64.whole w with
  | some n => rfl
  | none => simp [displayFloat, hnan, h, Atom.text]

mutual
theorem writeCompact_text : (v : BcValue) → scalars v = true →
    writeCompact v = (tree v).text Atom.text writeJsonString
  | .Null, _ => rfl
  | .Bool _, _ => rfl
  | .Int _ _, _ => rfl
  | .Float _, h => writeFloat_text h
  | .Str _, _ => rfl
  | .Arr [], _ => rfl
  | .Arr (e :: a), h => by
    simp only [scalars, scalarsAll, Bool.and_eq_true] at h
    have he := writeCompact_text e h.1
    have ha := writeElems_text 0 a h.2
    simp only [writeCompact, writeElems, tree, treeElems, Doc.text]
    rw [he, ← ha]
    simp
  | .Obj _, h => by cases h

theorem writeElems_text (i : Nat) : (a : List BcValue) → scalarsAll a = true →
    writeElems (i + 1) a ++ [']'] = Doc.textElems Atom.text writeJsonString (treeElems a)
  | [], _ => rfl
  | e :: a, h => by
    simp only [scalarsAll, Bool.and_eq_true] at h
    have he := writeCompact_text e h.1
    have ha := writeElems_text (i + 1) a h.2
    simp only [writeElems, treeElems, Doc.textElems]
    rw [he, ← ha]
    simp
end

theorem writeJsonChar_eq (c : Char) : writeJsonChar c = Json.escape c := by
  unfold writeJsonChar Json.escape
  split_ifs <;> first | rfl | simp_all

theorem writeJsonString_eq (s : String) : writeJsonString s = Json.quote s := by
  rw [writeJsonString, Json.quote, funext writeJsonChar_eq]

theorem tokens_atom : Doc.Tokens Atom.text writeJsonString (fun a => some a.read) some where
  leafStarts := by
    intro a
    cases a with
    | null => exact ⟨'n', _, rfl, rfl, by decide, by decide⟩
    | bool b => cases b <;> exact ⟨_, _, rfl, rfl, by decide, by decide⟩
    | int n =>
      obtain ⟨c, cs, htext, hc⟩ := intText_head n
      rw [Atom.text, htext]
      exact starts_intChar cs hc
    | decimal d =>
      obtain ⟨c, cs, htext, hc⟩ := Decimal.plain_head d
      rw [Atom.text, htext]
      exact starts_intChar cs hc
    | str s => exact ⟨'"', _, rfl, rfl, by decide, by decide⟩
  keyStarts := fun k => ⟨'"', _, rfl, rfl, by decide, by decide⟩
  leaf := by
    intro a n rest hr
    cases a with
    | null => rfl
    | bool b => cases b <;> rfl
    | int i => exact parseValue_number n (intText_head i) (Decimal.parseNumber_intText i hr.numEnd)
    | decimal d =>
      exact parseValue_number n (Decimal.plain_head d) (Decimal.parseNumber_plain d hr.numEnd)
    | str s =>
      rw [Atom.text, writeJsonString_eq]
      exact parseValue_quote n s rest
  key := by
    intro k rest
    have hread := Json.parseChars_quoted k.toList (':' :: rest)
    rw [writeJsonString_eq]
    simp [Json.parseKey, Json.quote, Json.skipWs, Json.isWs, hread]

/-- The value that the text of a value reads as. -/
def written (v : BcValue) : Doc Scalar := (tree v).map Atom.read

theorem parse_writeCompact {v : BcValue} (h : scalars v = true) :
    Json.parse (writeCompact v) = some (written v) := by
  rw [writeCompact_text v h, Doc.parse_text tokens_atom, Doc.read_some, written]

/-! ## What TypeScript's text reads as -/

theorem natAbs_bound {n : Int} (w : Word) (h : Binary64.shortest w = Dec.ofInt n) :
    (Dec.ofInt n).mant.natAbs ≤ 10 ^ 17 := h ▸ Binary64.shortest_natAbs_le w

/-- The bounds of the range have more digits than a float is written with. -/
theorem ownDigits_iff {w : Word} {n : Int} (hwhole : Binary64.whole w = some n) :
    Binary64.shortest w = Dec.ofInt (asI64 n) ↔ OwnDigits w := by
  constructor
  · intro h m hm
    obtain rfl : n = m := Option.some.inj (hwhole.symm.trans hm)
    have hbound := natAbs_bound w h
    have hin : IsI64 n := by
      by_contra hout
      rcases lt_or_ge n (-2 ^ 63) with hlow | hlow
      · rw [show asI64 n = -2 ^ 63 by unfold asI64; omega] at hbound
        exact absurd hbound (by decide)
      · rw [show asI64 n = 2 ^ 63 - 1 by unfold IsI64 at hout; unfold asI64; omega] at hbound
        exact absurd hbound (by decide)
    rw [show asI64 n = n by unfold IsI64 at hin; unfold asI64; omega] at h
    exact ⟨hin, h⟩
  · intro h
    obtain ⟨hin, hdigits⟩ := h n hwhole
    rw [show asI64 n = n by unfold IsI64 at hin; unfold asI64; omega]
    exact hdigits

theorem number_finite {w : Word} (h : Binary64.isFinite w = true) :
    TypeScript.number w = .fin (Binary64.shortest w) := by
  have hnan : Binary64.isNaN w = false := by
    simp only [Binary64.isFinite, decide_eq_true_eq] at h
    simp [Binary64.isNaN, h]
  simp [TypeScript.number, hnan, h]

/-- What the value of a TypeScript payload reads as. -/
def readBack (dialect : Dialect) (v : BcValue) : Option (Doc Scalar) :=
  (jsonTree (toJs v)).bind fun t => t.read (leafRead dialect) keyRead

def readBackElems (dialect : Dialect) (a : List BcValue) : Option (List (Doc Scalar)) :=
  Doc.readElems (leafRead dialect) keyRead (jsonElems (toJsElems a))

theorem readBack_float (dialect : Dialect) {w : Word} (h : Binary64.isFinite w = true) :
    readBack dialect (.Float w) = some (written (.Float w)) ↔ OwnDigits w := by
  rw [readBack, toJs, number_finite h, written, tree, floatAtom]
  simp only [jsonTree, Option.bind_some, Doc.read, leafRead, documentedLeaf, Option.map_some,
    Doc.map]
  cases hwhole : Binary64.whole w with
  | some n =>
    simp only [Atom.read, Option.some.injEq, Doc.leaf.injEq, Scalar.num.injEq]
    exact ownDigits_iff hwhole
  | none =>
    simp only [Atom.read, true_iff]
    intro n hn
    rw [hwhole] at hn
    cases hn

theorem readBack_bool (dialect : Dialect) (b : Bool) :
    readBack dialect (.Bool b) = some (written (.Bool b)) ↔ dialect ≠ .mysql := by
  simp only [readBack, toJs, jsonTree, Option.bind_some, Doc.read, leafRead, documentedLeaf,
    Option.map_some, written, tree, Doc.map, Atom.read, Option.some.injEq, Doc.leaf.injEq]
  split
  · next hmysql => simp [hmysql]
  · next hmysql => simp [hmysql]

theorem readBack_str (dialect : Dialect) (s : String) :
    readBack dialect (.Str s) = some (written (.Str s)) ↔ forgesBigint s = false := by
  rw [← stringRead_eq_iff]
  simp only [readBack, toJs, jsonTree, Option.bind_some, Doc.read, leafRead, written, tree, Doc.map,
    Atom.read, Option.map_eq_some_iff, Doc.leaf.injEq, exists_eq_right]

theorem jsonTree_scalars : (v : BcValue) → scalars v = true → ∃ t, jsonTree (toJs v) = some t
  | .Null, _ => ⟨_, rfl⟩
  | .Bool _, _ => ⟨_, rfl⟩
  | .Int _ _, _ => ⟨_, rfl⟩
  | .Float _, h => ⟨_, by rw [toJs, number_finite h]; rfl⟩
  | .Str _, _ => ⟨_, rfl⟩
  | .Arr _, _ => ⟨_, rfl⟩
  | .Obj _, h => by cases h

theorem readBackElems_cons (dialect : Dialect) {e : BcValue} (a : List BcValue)
    (h : scalars e = true) :
    readBackElems dialect (e :: a) =
      (readBack dialect e).bind fun d => (readBackElems dialect a).map (d :: ·) := by
  obtain ⟨t, ht⟩ := jsonTree_scalars e h
  simp only [readBackElems, readBack, toJsElems, jsonElems, ht, Option.getD_some, Doc.readElems,
    Option.bind_some]

theorem bind_cons_iff {α : Type} {x : Option α} {xs : Option (List α)} {y : α} {ys : List α} :
    (x.bind fun d => xs.map (d :: ·)) = some (y :: ys) ↔ x = some y ∧ xs = some ys := by
  cases x <;> cases xs <;> simp

mutual
theorem readBack_iff (dialect : Dialect) : (v : BcValue) → scalars v = true →
    (readBack dialect v = some (written v) ↔ Alike dialect v)
  | .Null, _ => iff_of_true rfl trivial
  | .Bool b, _ => readBack_bool dialect b
  | .Int _ _, _ => iff_of_true rfl trivial
  | .Float _, h => readBack_float dialect h
  | .Str s, _ => readBack_str dialect s
  | .Arr a, h => by
    have ha := readBackElems_iff dialect a h
    rw [Alike, ← ha]
    simp only [readBack, readBackElems, toJs, jsonTree, Option.bind_some, Doc.read, written, tree,
      Doc.map, Option.map_eq_some_iff, Doc.arr.injEq, exists_eq_right]
  | .Obj _, h => by cases h

theorem readBackElems_iff (dialect : Dialect) : (a : List BcValue) → scalarsAll a = true →
    (readBackElems dialect a = some (Doc.mapElems Atom.read (treeElems a)) ↔ AlikeAll dialect a)
  | [], _ => iff_of_true rfl trivial
  | e :: a, h => by
    simp only [scalarsAll, Bool.and_eq_true] at h
    rw [readBackElems_cons dialect a h.1, treeElems, Doc.mapElems, bind_cons_iff, AlikeAll,
      ← readBack_iff dialect e h.1, ← readBackElems_iff dialect a h.2]
    rfl
end

/-! ## Bound arrays -/

section Bound
variable {dialect : Dialect} {items : List BcValue}

/-- A list of elements, each written as `f` makes it. -/
theorem readBackElems_map {f : BcValue → BcValue} {P : BcValue → Prop}
    (hs : scalarsAll items = true)
    (hf : ∀ e ∈ items, scalars e = true →
      (readBack dialect e = some (written (f e)) ↔ P e)) :
    readBackElems dialect items = some (Doc.mapElems Atom.read (treeElems (items.map f))) ↔
      ∀ e ∈ items, P e := by
  induction items with
  | nil => exact iff_of_true rfl (by simp)
  | cons e a ih =>
    simp only [scalarsAll, Bool.and_eq_true] at hs
    have he := hf e List.mem_cons_self hs.1
    have ha := ih hs.2 fun e he => hf e (List.mem_cons_of_mem _ he)
    rw [readBackElems_cons dialect a hs.1, List.map_cons, treeElems, Doc.mapElems, bind_cons_iff, ha,
      List.forall_mem_cons, ← he]
    rfl

/-- On MySQL a Boolean reads back as the integer. -/
theorem readBack_asMysql {e : BcValue} (h : scalars e = true) :
    readBack .mysql e = some (written (asMysql e)) ↔ Alike .mysql e ∨ isBool e = true := by
  cases e with
  | Bool b => exact iff_of_true rfl (Or.inr rfl)
  | _ => simp only [asMysql, readBack_iff .mysql _ h, isBool, or_false, Bool.false_eq_true]

theorem scalarsAll_asMysql : (items : List BcValue) → scalarsAll items = true →
    scalarsAll (items.map asMysql) = true
  | [], _ => rfl
  | e :: a, h => by
    simp only [scalarsAll, List.map_cons, Bool.and_eq_true] at h ⊢
    refine ⟨?_, scalarsAll_asMysql a h.2⟩
    cases e with
    | Bool b => rfl
    | _ => exact h.1

/-- The items as they are written, with Booleans made integers or left. -/
theorem boundText_written {text : List Char} (h : boundText dialect items = some text) :
    ∃ f, text = writeCompact (.Arr (items.map f)) ∧
      (f = id ∧ (dialect = .mysql → items.head?.any isArr = true) ∨
        f = asMysql ∧ dialect = .mysql ∧ items.head?.any isArr = false) := by
  unfold boundText at h
  split at h
  · next htuples =>
    cases h
    exact ⟨id, by rw [List.map_id]; rfl, Or.inl ⟨rfl, fun _ => htuples⟩⟩
  · next hlist =>
    cases dialect with
    | postgres => cases h
    | mysql =>
      cases h
      exact ⟨asMysql, rfl, Or.inr ⟨rfl, rfl, by simpa using hlist⟩⟩
    | sqlite =>
      cases h
      exact ⟨id, by rw [List.map_id]; rfl, Or.inl ⟨rfl, by simp⟩⟩

theorem parse_arr {a : List BcValue} (h : scalarsAll a = true) :
    Json.parse (writeCompact (.Arr a)) = some (.arr (Doc.mapElems Atom.read (treeElems a))) :=
  parse_writeCompact (v := .Arr a) h

/-- The texts of Rust and TypeScript are read as the same array exactly when no string forges a
bigint, whole floats have their own digits, and MySQL's Booleans stand in a list of scalars. -/
theorem bound_alike_iff (dialect : Dialect) (items : List BcValue) (text : List Char)
    (hs : scalarsAll items = true) (hbound : boundText dialect items = some text) :
    (∃ ts array, encodeJsonParam dialect (toJs (.Arr items)) = some ts ∧
        Json.parse text = some array ∧ Json.parse ts = some array) ↔
      ItemsAlike dialect items := by
  obtain ⟨ts, hts, hread⟩ := parse_encodeJsonParam dialect (toJs (.Arr items)) rfl
  obtain ⟨f, rfl, hf⟩ := boundText_written hbound
  have hparse : Json.parse (writeCompact (.Arr (items.map f))) =
      some (.arr (Doc.mapElems Atom.read (treeElems (items.map f)))) := by
    rcases hf with ⟨rfl, _⟩ | ⟨rfl, _⟩
    · rw [List.map_id]
      exact parse_arr hs
    · exact parse_arr (scalarsAll_asMysql items hs)
  have hsame : (∃ ts array, encodeJsonParam dialect (toJs (.Arr items)) = some ts ∧
      Json.parse (writeCompact (.Arr (items.map f))) = some array ∧ Json.parse ts = some array) ↔
      readBackElems dialect items = some (Doc.mapElems Atom.read (treeElems (items.map f))) := by
    rw [hparse, hts, readBackElems]
    simp only [Doc.read] at hread
    constructor
    · rintro ⟨_, _, htext, harray, hsame⟩
      rw [← Option.some.inj htext, ← Option.some.inj harray, hread] at hsame
      simpa using hsame
    · intro h
      refine ⟨ts, _, rfl, rfl, ?_⟩
      rw [hread, h]
      rfl
  rw [hsame]
  rcases hf with ⟨rfl, hmysql⟩ | ⟨rfl, rfl, hlist⟩
  · rw [readBackElems_map (f := id) hs fun e _ he => readBack_iff dialect e he]
    apply forall₂_congr
    intro e _
    constructor
    · exact Or.inl
    · rintro (h | ⟨hbool, hlist⟩)
      · exact h
      · -- a Boolean is written as it is, but on MySQL only behind a tuple
        cases e with
        | Bool b =>
          intro hd
          rw [hmysql hd] at hlist
          cases hlist
        | _ => cases hbool
  · rw [readBackElems_map hs fun e _ he => readBack_asMysql he]
    apply forall₂_congr
    intro e _
    rw [hlist]
    simp

end Bound

/-- A set of tuples that hold a Boolean. -/
def flagTuples : List BcValue := [.Arr [.Bool true]]

theorem bound_alike_keys :
    scalarsAll [.Int 3 (by decide), .Bool true, .Str "a"] = true ∧
      boundText .mysql [.Int 3 (by decide), .Bool true, .Str "a"] =
        some (arrayParamJson [.Int 3 (by decide), .Bool true, .Str "a"] true) ∧
      ∃ ts array, encodeJsonParam .mysql (toJs (.Arr [.Int 3 (by decide), .Bool true, .Str "a"])) =
          some ts ∧
        Json.parse (arrayParamJson [.Int 3 (by decide), .Bool true, .Str "a"] true) = some array ∧
        Json.parse ts = some array := by
  refine ⟨rfl, rfl, (bound_alike_iff .mysql _ _ rfl rfl).mpr ?_⟩
  simp only [ItemsAlike, List.forall_mem_cons, Alike, isBool, List.head?_cons, Option.any_some,
    isArr, true_or, or_true, true_and, List.not_mem_nil, false_imp_iff, implies_true, and_true]
  decide

/-- MySQL compares with `true` in Rust and with 1 in TypeScript. -/
theorem flags_differ :
    ¬ ∀ dialect items text, scalarsAll items = true → boundText dialect items = some text →
      ∃ ts array, encodeJsonParam dialect (toJs (.Arr items)) = some ts ∧
        Json.parse text = some array ∧ Json.parse ts = some array := by
  intro h
  obtain ⟨ts, array, hts, hrust, htypescript⟩ := 
    h .mysql flagTuples ['[', '[', 't', 'r', 'u', 'e', ']', ']'] rfl (by decide)
  have henc : encodeJsonParam .mysql (toJs (.Arr flagTuples)) = some ['[', '[', '1', ']', ']'] := by
    decide
  rw [henc] at hts
  obtain rfl := Option.some.inj hts
  have hread : Json.parse ['[', '[', 't', 'r', 'u', 'e', ']', ']'] =
      some (.arr [.arr [.leaf (.bool true)]]) := rfl
  have hreadTs : Json.parse ['[', '[', '1', ']', ']'] =
      some (.arr [.arr [.leaf (.num (Dec.ofInt 1))]]) := rfl
  rw [hread] at hrust
  rw [hreadTs, ← hrust] at htypescript
  simp at htypescript

end ArrayParamJson
end LiteDb
