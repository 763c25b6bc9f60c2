import LiteDbModel.Grouping
import LiteDbModel.Lib.Binary64

/-!
# Key identity in five runtimes

Every runtime groups relation rows under an identity of their key tuples. Rust,
Go and Python keep the cells themselves, PHP and TypeScript join their texts.
-/

namespace LiteDb
set_option autoImplicit false
open Binary64 (Word)

/-! ## Cells -/

def IsI64 (n : Int) : Prop := -2 ^ 63 ≤ n ∧ n < 2 ^ 63

instance (n : Int) : Decidable (IsI64 n) := inferInstanceAs (Decidable (_ ∧ _))

/-- A key cell of a wire row that is not null. -/
inductive WireCell
  | bool (b : Bool)
  | str (s : String)
  | int (n : Int) (fits : IsI64 n)
  | float (w : Word)
deriving DecidableEq

/-- Decimal digits, and nothing else. -/
def digitsValue (cs : List Char) : Option Nat :=
  if cs ≠ [] ∧ cs.all Char.isDigit then some (Nat.ofDigitChars 10 cs 0) else none

/-- An integer with an optional sign. -/
def parseInt (s : String) : Option Int :=
  match s.toList with
  | '-' :: cs => (digitsValue cs).map fun (n : Nat) => -(n : Int)
  | '+' :: cs => (digitsValue cs).map Int.ofNat
  | cs => (digitsValue cs).map Int.ofNat

def formatInt (n : Int) : String := String.ofList (Decimal.intText n)

def parseI64 (s : String) : Option Int := (parseInt s).filter fun n => IsI64 n

/-- The whole value of a float inside the 64-bit range. -/
def wholeI64 (w : Word) : Option Int := (Binary64.whole w).filter fun n => IsI64 n

def boolText (b : Bool) : String := if b then "true" else "false"

/-! ## The runtimes -/

namespace Rust

inductive KeyCell
  | Str (s : String)
  | Int (n : Int)
  | FloatBits (bits : Word)
  | Bool (b : Bool)
deriving DecidableEq

def keyCell : WireCell → KeyCell
  | .bool b => .Bool b
  | .str s =>
    match parseI64 s with
    | some n => if formatInt n = s then .Int n else .Str s
    | none => .Str s
  | .int n _ => .Int n
  | .float w =>
    match wholeI64 w with
    | some n => .Int n
    | none => .FloatBits w

inductive KeyIdentity
  | One (a : KeyCell)
  | Two (a b : KeyCell)
  | Many (cells : List KeyCell)
deriving DecidableEq

def keyIdentity : List WireCell → KeyIdentity
  | [a] => .One (keyCell a)
  | [a, b] => .Two (keyCell a) (keyCell b)
  | values => .Many (values.map keyCell)

end Rust

namespace Go

/-- `kind` is 1 for an integer, 2 for the bits of a float, 3 for a text, 4 for a boolean. -/
structure KeyCell where
  kind : Nat
  num : Int
  s : String
deriving DecidableEq

def KeyCell.zero : KeyCell := ⟨0, 0, ""⟩

structure KeyID where
  a : KeyCell
  b : KeyCell
  more : String
deriving DecidableEq

def stringKeyCell (t : String) : KeyCell :=
  match t.toList with
  | [] => ⟨3, 0, t⟩
  | c :: _ =>
    if c = '-' ∨ c.isDigit then
      match parseI64 t with
      | some n => if formatInt n = t then ⟨1, n, ""⟩ else ⟨3, 0, t⟩
      | none => ⟨3, 0, t⟩
    else ⟨3, 0, t⟩

def wireKeyCell : WireCell → KeyCell
  | .int n _ => ⟨1, n, ""⟩
  | .float w =>
    match wholeI64 w with
    | some n => ⟨1, n, ""⟩
    | none => ⟨2, w.toInt, ""⟩
  | .str s => stringKeyCell s
  | .bool b => ⟨4, if b then 1 else 0, ""⟩

/-- The three texts by which a cell of a wide key is written. -/
def keyParts (c : KeyCell) : List String := [formatInt c.kind, formatInt c.num, c.s]

def keyIdentityG : List WireCell → KeyID
  | [a] => ⟨wireKeyCell a, .zero, ""⟩
  | [a, b] => ⟨wireKeyCell a, wireKeyCell b, ""⟩
  | cells => ⟨.zero, .zero, (String.singleton KEY_SEP).intercalate
      (cells.flatMap fun c => keyParts (wireKeyCell c))⟩

end Go

namespace Python

/-- A value that serves as a dict key. -/
inductive Key
  | str (s : String)
  | int (n : Int)
  | float (w : Word)

def keyCell : WireCell → Key
  | .bool b => .str (boolText b)
  | .float w =>
    match Binary64.whole w with
    | some n => .int n
    | none => .float w
  | .str s =>
    match s.toList with
    | [] => .str s
    | c :: _ =>
      if c.isDigit ∨ c = '-' then
        match parseInt s with
        | some n => if formatInt n = s then .int n else .str s
        | none => .str s
      else .str s
  | .int n _ => .int n

/-- `==`; the floats that are left as keys are not whole, and NaN equals nothing. -/
def Key.Equal : Key → Key → Prop
  | .str s, .str t => s = t
  | .int m, .int n => m = n
  | .float v, .float w => v = w ∧ Binary64.isNaN v = false
  | _, _ => False

inductive Identity
  | cell (k : Key)
  | tuple (ks : List Key)

def keyIdentity : List WireCell → Identity
  | [v] => .cell (keyCell v)
  | values => .tuple (values.map keyCell)

def Identity.Equal : Identity → Identity → Prop
  | .cell k, .cell l => k.Equal l
  | .tuple ks, .tuple ls => List.Forall₂ Key.Equal ks ls
  | _, _ => False

end Python

namespace Php

/-- The ini setting `precision`, by default. -/
def PRECISION : Nat := 14

/-- `zend_gcvt`: the digits `ds` with the point after `decpt` of them. -/
def gcvt (ds : List Char) (decpt : Int) : List Char :=
  if (if decpt < 0 then decpt < -3 else (PRECISION : Int) < decpt) then
    ds.take 1 ++ '.' :: (if ds.length = 1 then ['0'] else ds.drop 1) ++
      'E' :: (if decpt - 1 < 0 then '-' else '+') :: Nat.toDigits 10 (decpt - 1).natAbs
  else if decpt < 0 then '0' :: '.' :: (List.replicate (-decpt).toNat '0' ++ ds)
  else
    let before := ds.take decpt.toNat ++ List.replicate (decpt.toNat - ds.length) '0'
    if ds.length ≤ decpt.toNat then before
    else (if decpt = 0 then ['0'] else before) ++ '.' :: ds.drop decpt.toNat

/-- `(string) $v` of a float. -/
def floatText (w : Word) : String :=
  if Binary64.isNaN w then "NAN"
  else if Binary64.isFinite w then
    let d := Binary64.toDigits w PRECISION
    let ds := Nat.toDigits 10 d.mant.natAbs
    String.ofList ((if d.mant < 0 then ['-'] else []) ++ gcvt ds (ds.length + d.exp))
  else if Binary64.negative w then "-INF"
  else "INF"

def stringifyKey : WireCell → String
  | .bool b => boolText b
  | .float w =>
    match wholeI64 w with
    | some n => formatInt n
    | none => floatText w
  | .str s => s
  | .int n _ => formatInt n

/-- A key of a PHP array. -/
inductive ArrayKey
  | int (n : Int)
  | str (s : String)
deriving DecidableEq

/-- An array casts the decimal text of an integer to the integer. -/
def arrayKey (s : String) : ArrayKey :=
  match parseI64 s with
  | some n => if formatInt n = s then .int n else .str s
  | none => .str s

/-- `keyIdentity`, as the array key that it serves for. -/
def keyIdentity : List WireCell → ArrayKey
  | [.int n _] => .int n
  | [v] => arrayKey (stringifyKey v)
  | [v, w] => arrayKey (stringifyKey v ++ String.singleton KEY_SEP ++ stringifyKey w)
  | values => arrayKey ((String.singleton KEY_SEP).intercalate (values.map stringifyKey))

end Php

namespace TypeScript

def number (w : Word) : JsNum :=
  if Binary64.isNaN w then .nan
  else if Binary64.isFinite w then .fin (Binary64.shortest w)
  else .inf (Binary64.negative w)

/-- A cell as a value; an integer column is read as a `bigint`. -/
def value : WireCell → JsVal
  | .bool b => .bool b
  | .str s => .str s
  | .int n _ => .bigint n
  | .float w => .num (number w)

def keyIdentity (H : Host) (values : List WireCell) : String := LiteDb.keyIdentity H (values.map value)

end TypeScript

/-- The runtimes agree on whether two key tuples are one. -/
structure RuntimesAgree (H : Host) (ts us : List WireCell) : Prop where
  go : Rust.keyIdentity ts = Rust.keyIdentity us ↔ Go.keyIdentityG ts = Go.keyIdentityG us
  python : Rust.keyIdentity ts = Rust.keyIdentity us ↔
    (Python.keyIdentity ts).Equal (Python.keyIdentity us)
  php : Rust.keyIdentity ts = Rust.keyIdentity us ↔ Php.keyIdentity ts = Php.keyIdentity us
  typeScript : Rust.keyIdentity ts = Rust.keyIdentity us ↔
    TypeScript.keyIdentity H ts = TypeScript.keyIdentity H us

/-! ## One key -/

/-- The integer whose decimal text this is. -/
def numeral (s : String) : Option Int := (parseInt s).filter fun n => formatInt n = s

/-- The 64-bit integer that a cell stands for. -/
def WireCell.integer : WireCell → Option Int
  | .bool _ => none
  | .str s => (numeral s).filter fun n => IsI64 n
  | .int n _ => some n
  | .float w => wholeI64 w

/-- An integer, the float equal to it and its decimal text are one key; any other cell is its own. -/
def SameCell (a b : WireCell) : Prop := a = b ∨ (a.integer = b.integer ∧ a.integer ≠ none)

def WireCell.isNaN : WireCell → Bool
  | .float w => Binary64.isNaN w
  | _ => false

/-- Cells that Python takes for one: it writes a boolean as its text, and reads every whole float as
an integer, whatever its size. -/
inductive Python.Alike : WireCell → WireCell → Prop
  | same {a b : WireCell} : SameCell a b → a.isNaN = false → Alike a b
  | boolText (b : Bool) : Alike (.bool b) (.str (boolText b))
  | textBool (b : Bool) : Alike (.str (boolText b)) (.bool b)
  | floatDigits {w : Word} {n : Int} : Binary64.whole w = some n →
      Alike (.float w) (.str (formatInt n))
  | digitsFloat {w : Word} {n : Int} : Binary64.whole w = some n →
      Alike (.str (formatInt n)) (.float w)
  | sameWhole {v w : Word} {n : Int} : Binary64.whole v = some n → Binary64.whole w = some n →
      Alike (.float v) (.float w)

/-- The texts of a key tuple in PHP, each cut at its NULs. -/
def Php.cutTexts (t : List WireCell) : List (List Char) :=
  t.flatMap fun c => (stringifyKey c).toList.splitOn KEY_SEP

/-- Kind, number and text of each cell in Go, the text cut at its NULs. -/
def Go.cutParts (t : List WireCell) : List (List Char) :=
  (t.flatMap fun c => keyParts (wireKeyCell c)).flatMap fun s => s.toList.splitOn KEY_SEP

/-- Either the cells are the same, none is NaN, and JavaScript prints them alike, or the cells differ
even as Python takes them, as texts cut at NULs in JavaScript and PHP, and as parts of a wide key in Go. -/
def KeysAgree (H : Host) (ts us : List WireCell) : Prop :=
  (List.Forall₂ SameCell ts us ∧ (∀ c ∈ ts, c.isNaN = false) ∧
    List.Forall₂ (fun a b => (TypeScript.value a).text H = (TypeScript.value b).text H) ts us) ∨
  (¬ List.Forall₂ SameCell ts us ∧ ¬ List.Forall₂ Python.Alike ts us ∧
    LiteDb.cutTexts H (ts.map TypeScript.value) ≠ LiteDb.cutTexts H (us.map TypeScript.value) ∧
    Php.cutTexts ts ≠ Php.cutTexts us ∧ (3 ≤ ts.length → Go.cutParts ts ≠ Go.cutParts us))

/-! ## Decimal texts -/

theorem digitsValue_toDigits (n : Nat) : digitsValue (Nat.toDigits 10 n) = some n := by
  rw [digitsValue, if_pos, Nat.ofDigitChars_ten_toDigits]
  refine ⟨?_, ?_⟩
  · obtain ⟨c, cs, hcs, _⟩ := Decimal.toDigits_cons n
    rw [hcs]
    exact List.cons_ne_nil c cs
  · rw [List.all_eq_true]
    intro c hc
    exact Decimal.isDigit_of_mem hc

theorem parseInt_formatInt (n : Int) : parseInt (formatInt n) = some n := by
  rw [parseInt, formatInt, String.toList_ofList, Decimal.intText]
  by_cases hn : n < 0
  · rw [if_pos hn, List.singleton_append]
    have hvalue := digitsValue_toDigits n.natAbs
    change (digitsValue (Nat.toDigits 10 n.natAbs)).map (fun (n : Nat) => -(n : Int)) = some n
    rw [hvalue, Option.map_some, Option.some_inj]
    omega
  · rw [if_neg hn, List.nil_append]
    obtain ⟨c, cs, hcs, hdigit⟩ := Decimal.toDigits_cons n.natAbs
    have hvalue := digitsValue_toDigits n.natAbs
    rw [hcs] at hvalue ⊢
    have hread : (digitsValue (c :: cs)).map Int.ofNat = some n := by
      rw [hvalue, Option.map_some, Option.some_inj, Int.ofNat_eq_natCast]
      omega
    split
    · next heq =>
      rw [(List.cons.inj heq).1] at hdigit
      cases hdigit
    · next heq =>
      rw [(List.cons.inj heq).1] at hdigit
      cases hdigit
    · exact hread

theorem numeral_eq_some {s : String} {n : Int} : numeral s = some n ↔ s = formatInt n := by
  rw [numeral, Option.filter_eq_some_iff, decide_eq_true_eq]
  constructor
  · rintro ⟨_, htext⟩
    exact htext.symm
  · rintro rfl
    exact ⟨parseInt_formatInt n, rfl⟩

theorem integer_str {s : String} {n : Int} :
    (WireCell.str s).integer = some n ↔ s = formatInt n ∧ IsI64 n := by
  rw [WireCell.integer, Option.filter_eq_some_iff, numeral_eq_some, decide_eq_true_eq]

theorem parseI64_integer {s : String} {n : Int} :
    (WireCell.str s).integer = some n ↔ parseI64 s = some n ∧ formatInt n = s := by
  rw [integer_str, parseI64, Option.filter_eq_some_iff, decide_eq_true_eq]
  constructor
  · rintro ⟨rfl, hfits⟩
    exact ⟨⟨parseInt_formatInt n, hfits⟩, rfl⟩
  · rintro ⟨⟨_, hfits⟩, htext⟩
    exact ⟨htext.symm, hfits⟩

/-! ## Typed cells -/

/-- An encoding that keeps integers apart from other cells, and those apart from each other. -/
theorem encode_eq_iff {κ : Type} {encode : WireCell → κ} {int : Int → κ}
    (hint : ∀ c n, c.integer = some n → encode c = int n) (hinj : Function.Injective int)
    (hother : ∀ c d, c.integer = none → d.integer = none → encode c = encode d → c = d)
    (hapart : ∀ c n, c.integer = none → encode c ≠ int n) (a b : WireCell) :
    encode a = encode b ↔ SameCell a b := by
  constructor
  · intro h
    cases ha : a.integer with
    | some m =>
      cases hb : b.integer with
      | some n =>
        rw [hint a m ha, hint b n hb] at h
        right
        rw [ha, hb, hinj h]
        exact ⟨rfl, Option.some_ne_none n⟩
      | none =>
        rw [hint a m ha] at h
        exact absurd h.symm (hapart b m hb)
    | none =>
      cases hb : b.integer with
      | some n =>
        rw [hint b n hb] at h
        exact absurd h (hapart a n ha)
      | none => exact Or.inl (hother a b ha hb h)
  · rintro (rfl | ⟨hsame, hsome⟩)
    · rfl
    · obtain ⟨n, hn⟩ := Option.ne_none_iff_exists'.mp hsome
      rw [hint a n hn, hint b n (hsame ▸ hn)]

theorem Rust.keyCell_integer {c : WireCell} {n : Int} (h : c.integer = some n) :
    keyCell c = .Int n := by
  cases c with
  | bool b => cases h
  | str s =>
    obtain ⟨hparse, htext⟩ := parseI64_integer.mp h
    rw [keyCell, hparse]
    exact if_pos htext
  | int m fits =>
    cases h
    rfl
  | float w =>
    rw [WireCell.integer] at h
    rw [keyCell, h]

theorem Rust.keyCell_other {c : WireCell} (h : c.integer = none) :
    (∃ b, c = .bool b ∧ keyCell c = .Bool b) ∨ (∃ s, c = .str s ∧ keyCell c = .Str s) ∨
      ∃ w, c = .float w ∧ keyCell c = .FloatBits w := by
  cases c with
  | bool b => exact Or.inl ⟨b, rfl, rfl⟩
  | str s =>
    refine Or.inr (Or.inl ⟨s, rfl, ?_⟩)
    rw [keyCell]
    split
    · next n hparse =>
      rw [if_neg]
      intro htext
      rw [parseI64_integer.mpr ⟨hparse, htext⟩] at h
      cases h
    · rfl
  | int n fits => cases h
  | float w =>
    rw [WireCell.integer] at h
    refine Or.inr (Or.inr ⟨w, rfl, ?_⟩)
    rw [keyCell, h]

theorem Rust.keyCell_eq_iff (a b : WireCell) : keyCell a = keyCell b ↔ SameCell a b := by
  refine encode_eq_iff (fun _ _ h => keyCell_integer h) (fun _ _ h => KeyCell.Int.inj h) ?_ ?_ a b
  · intro c d hc hd h
    rcases keyCell_other hc with ⟨x, rfl, hx⟩ | ⟨x, rfl, hx⟩ | ⟨x, rfl, hx⟩ <;>
      rcases keyCell_other hd with ⟨y, rfl, hy⟩ | ⟨y, rfl, hy⟩ | ⟨y, rfl, hy⟩ <;>
      rw [hx, hy] at h <;> cases h <;> rfl
  · intro c n hc h
    rcases keyCell_other hc with ⟨x, _, hx⟩ | ⟨x, _, hx⟩ | ⟨x, _, hx⟩ <;> rw [hx] at h <;> cases h

/-- The text of an integer starts with a sign or a digit. -/
theorem formatInt_head (n : Int) :
    ∃ c cs, (formatInt n).toList = c :: cs ∧ (c = '-' ∨ c.isDigit = true) := by
  rw [formatInt, String.toList_ofList, Decimal.intText]
  split
  · exact ⟨'-', _, rfl, Or.inl rfl⟩
  · obtain ⟨c, cs, hcs, hdigit⟩ := Decimal.toDigits_cons n.natAbs
    exact ⟨c, cs, hcs, Or.inr hdigit⟩

theorem Go.stringKeyCell_integer {t : String} {n : Int} (h : (WireCell.str t).integer = some n) :
    stringKeyCell t = ⟨1, n, ""⟩ := by
  obtain ⟨hparse, htext⟩ := parseI64_integer.mp h
  obtain ⟨c, cs, hcs, hhead⟩ := formatInt_head n
  rw [htext] at hcs
  rw [stringKeyCell, hcs, hparse]
  exact (if_pos hhead).trans (if_pos htext)

theorem Go.stringKeyCell_other {t : String} (h : (WireCell.str t).integer = none) :
    stringKeyCell t = ⟨3, 0, t⟩ := by
  have hread : (match parseI64 t with
      | some n => if formatInt n = t then (⟨1, n, ""⟩ : KeyCell) else ⟨3, 0, t⟩
      | none => ⟨3, 0, t⟩) = ⟨3, 0, t⟩ := by
    split
    · next n hparse =>
      rw [if_neg]
      intro htext
      rw [parseI64_integer.mpr ⟨hparse, htext⟩] at h
      cases h
    · rfl
  rw [stringKeyCell]
  split
  · rfl
  · split
    · exact hread
    · rfl

theorem Go.wireKeyCell_integer {c : WireCell} {n : Int} (h : c.integer = some n) :
    wireKeyCell c = ⟨1, n, ""⟩ := by
  cases c with
  | bool b => cases h
  | str s => exact stringKeyCell_integer h
  | int m fits =>
    cases h
    rfl
  | float w =>
    rw [WireCell.integer] at h
    rw [wireKeyCell, h]

theorem Go.wireKeyCell_other {c : WireCell} (h : c.integer = none) :
    (∃ b, c = .bool b ∧ wireKeyCell c = ⟨4, if b then 1 else 0, ""⟩) ∨
      (∃ s, c = .str s ∧ wireKeyCell c = ⟨3, 0, s⟩) ∨
      ∃ w, c = .float w ∧ wireKeyCell c = ⟨2, w.toInt, ""⟩ := by
  cases c with
  | bool b => exact Or.inl ⟨b, rfl, rfl⟩
  | str s => exact Or.inr (Or.inl ⟨s, rfl, stringKeyCell_other h⟩)
  | int n fits => cases h
  | float w =>
    rw [WireCell.integer] at h
    refine Or.inr (Or.inr ⟨w, rfl, ?_⟩)
    rw [wireKeyCell, h]

theorem Go.wireKeyCell_eq_iff (a b : WireCell) :
    wireKeyCell a = wireKeyCell b ↔ SameCell a b := by
  refine encode_eq_iff (fun _ _ h => wireKeyCell_integer h) (fun _ _ h => (KeyCell.mk.inj h).2.1)
    ?_ ?_ a b
  · intro c d hc hd h
    rcases wireKeyCell_other hc with ⟨x, rfl, hx⟩ | ⟨x, rfl, hx⟩ | ⟨x, rfl, hx⟩ <;>
      rcases wireKeyCell_other hd with ⟨y, rfl, hy⟩ | ⟨y, rfl, hy⟩ | ⟨y, rfl, hy⟩ <;>
      rw [hx, hy] at h <;> obtain ⟨hkind, hnum, htext⟩ := KeyCell.mk.inj h <;> try cases hkind
    · cases x <;> cases y <;> first | rfl | cases hnum
    · rw [htext]
    · rw [BitVec.eq_of_toInt_eq hnum]
  · intro c n hc h
    rcases wireKeyCell_other hc with ⟨x, _, hx⟩ | ⟨x, _, hx⟩ | ⟨x, _, hx⟩ <;> rw [hx] at h <;> cases h

/-! ## Python -/

theorem Python.keyCell_str_of_text {s : String} (h : numeral s = none) : keyCell (.str s) = .str s := by
  have hread : (match parseInt s with
      | some n => if formatInt n = s then Key.int n else .str s
      | none => .str s) = .str s := by
    split
    · next n hparse =>
      rw [if_neg]
      intro htext
      rw [numeral_eq_some.mpr htext.symm] at h
      cases h
    · rfl
  rw [keyCell]
  split
  · rfl
  · split
    · exact hread
    · rfl

theorem Python.keyCell_formatInt (n : Int) : keyCell (.str (formatInt n)) = .int n := by
  obtain ⟨c, cs, hcs, hhead⟩ := formatInt_head n
  rw [keyCell, hcs, parseInt_formatInt]
  exact (if_pos hhead.symm).trans (if_pos rfl)

/-- Python's key of a cell: the integer it stands for whatever its size, or its text. -/
theorem Python.keyCell_cases (c : WireCell) :
    (∃ n, keyCell c = .int n ∧ ((∃ fits, c = .int n fits) ∨ c = .str (formatInt n) ∨
      ∃ w, c = .float w ∧ Binary64.whole w = some n)) ∨
    (∃ s, keyCell c = .str s ∧ ((∃ b, c = .bool b ∧ s = boolText b) ∨ (c = .str s ∧ numeral s = none))) ∨
    ∃ w, keyCell c = .float w ∧ c = .float w ∧ Binary64.whole w = none := by
  cases c with
  | bool b => exact Or.inr (Or.inl ⟨_, rfl, Or.inl ⟨b, rfl, rfl⟩⟩)
  | str s =>
    cases hs : numeral s with
    | some n =>
      obtain rfl := numeral_eq_some.mp hs
      exact Or.inl ⟨n, keyCell_formatInt n, Or.inr (Or.inl rfl)⟩
    | none => exact Or.inr (Or.inl ⟨s, keyCell_str_of_text hs, Or.inr ⟨rfl, hs⟩⟩)
  | int n fits => exact Or.inl ⟨n, rfl, Or.inl ⟨fits, rfl⟩⟩
  | float w =>
    cases hw : Binary64.whole w with
    | some n =>
      refine Or.inl ⟨n, ?_, Or.inr (Or.inr ⟨w, rfl, hw⟩)⟩
      rw [keyCell, hw]
    | none =>
      refine Or.inr (Or.inr ⟨w, ?_, rfl, hw⟩)
      rw [keyCell, hw]

theorem isNaN_of_whole {w : Word} {n : Int} (h : Binary64.whole w = some n) :
    Binary64.isNaN w = false := by
  rw [Binary64.whole] at h
  split at h
  · next hwhole =>
    have hfinite : Binary64.field w ≠ 2047 := of_decide_eq_true hwhole.1
    rw [Binary64.isNaN, decide_eq_false hfinite, Bool.false_and]
  · cases h

theorem integer_float {w : Word} {n : Int} :
    (WireCell.float w).integer = some n ↔ Binary64.whole w = some n ∧ IsI64 n := by
  rw [WireCell.integer, wholeI64, Option.filter_eq_some_iff, decide_eq_true_eq]

theorem SameCell.of_integer {a b : WireCell} {n : Int} (ha : a.integer = some n)
    (hb : b.integer = some n) : SameCell a b := by
  right
  rw [ha, hb]
  exact ⟨rfl, Option.some_ne_none n⟩

theorem numeral_boolText (b : Bool) : numeral (boolText b) = none := by
  cases b <;> decide +kernel

theorem boolText_inj {b c : Bool} (h : boolText b = boolText c) : b = c := by
  cases b <;> cases c
  · rfl
  · exact absurd h (by decide)
  · exact absurd h (by decide)
  · rfl

theorem Python.keyCell_integer {c : WireCell} {n : Int} (h : c.integer = some n) :
    keyCell c = .int n := by
  cases c with
  | bool b => cases h
  | str s =>
    obtain ⟨rfl, _⟩ := integer_str.mp h
    exact keyCell_formatInt n
  | int m fits =>
    cases h
    rfl
  | float w =>
    rw [keyCell, (integer_float.mp h).1]

theorem Python.equal_self {c : WireCell} (h : c.isNaN = false) : (keyCell c).Equal (keyCell c) := by
  rcases keyCell_cases c with ⟨n, hn, _⟩ | ⟨s, hs, _⟩ | ⟨w, hw, rfl, _⟩
  · rw [hn]
    exact rfl
  · rw [hs]
    exact rfl
  · rw [hw]
    exact ⟨rfl, h⟩

theorem Python.equal_of_alike {a b : WireCell} (h : Alike a b) :
    (keyCell a).Equal (keyCell b) := by
  cases h with
  | same hsame hnan =>
    rcases hsame with rfl | ⟨heq, hsome⟩
    · exact equal_self hnan
    · obtain ⟨n, hn⟩ := Option.ne_none_iff_exists'.mp hsome
      rw [keyCell_integer hn, keyCell_integer (heq ▸ hn)]
      exact rfl
  | boolText b =>
    rw [keyCell_str_of_text (numeral_boolText b)]
    exact rfl
  | textBool b =>
    rw [keyCell_str_of_text (numeral_boolText b)]
    exact rfl
  | floatDigits hw =>
    rw [keyCell_formatInt, keyCell, hw]
    exact rfl
  | digitsFloat hw =>
    rw [keyCell_formatInt, keyCell, hw]
    exact rfl
  | sameWhole hv hw =>
    rw [keyCell, hv, keyCell, hw]
    exact rfl

/-- Cells that Python reads as one integer. -/
theorem Python.alike_of_int {a b : WireCell} {n : Int}
    (ha : (∃ fits, a = .int n fits) ∨ a = .str (formatInt n) ∨ ∃ w, a = .float w ∧ Binary64.whole w = some n)
    (hb : (∃ fits, b = .int n fits) ∨ b = .str (formatInt n) ∨ ∃ w, b = .float w ∧ Binary64.whole w = some n) :
    Alike a b := by
  rcases ha with ⟨fits, rfl⟩ | rfl | ⟨v, rfl, hv⟩
  · rcases hb with ⟨_, rfl⟩ | rfl | ⟨w, rfl, hw⟩
    · exact .same (Or.inl rfl) rfl
    · exact .same (.of_integer rfl (integer_str.mpr ⟨rfl, fits⟩)) rfl
    · exact .same (.of_integer rfl (integer_float.mpr ⟨hw, fits⟩)) rfl
  · rcases hb with ⟨fits, rfl⟩ | rfl | ⟨w, rfl, hw⟩
    · exact .same (.of_integer (integer_str.mpr ⟨rfl, fits⟩) rfl) rfl
    · exact .same (Or.inl rfl) rfl
    · exact .digitsFloat hw
  · rcases hb with ⟨fits, rfl⟩ | rfl | ⟨w, rfl, hw⟩
    · exact .same (.of_integer (integer_float.mpr ⟨hv, fits⟩) rfl) (isNaN_of_whole hv)
    · exact .floatDigits hv
    · exact .sameWhole hv hw

theorem Python.alike_of_equal {a b : WireCell} (h : (keyCell a).Equal (keyCell b)) : Alike a b := by
  rcases keyCell_cases a with ⟨m, hm, ha⟩ | ⟨s, hs, ha⟩ | ⟨v, hv, rfl, ha⟩
  · rcases keyCell_cases b with ⟨n, hn, hb⟩ | ⟨t, ht, hb⟩ | ⟨w, hw, rfl, hb⟩
    · rw [hm, hn] at h
      obtain rfl : m = n := h
      exact alike_of_int ha hb
    · rw [hm, ht] at h
      exact h.elim
    · rw [hm, hw] at h
      exact h.elim
  · rcases keyCell_cases b with ⟨n, hn, hb⟩ | ⟨t, ht, hb⟩ | ⟨w, hw, rfl, hb⟩
    · rw [hs, hn] at h
      exact h.elim
    · rw [hs, ht] at h
      obtain rfl : s = t := h
      rcases ha with ⟨x, rfl, rfl⟩ | ⟨rfl, _⟩
      · rcases hb with ⟨y, rfl, hxy⟩ | ⟨rfl, _⟩
        · rw [boolText_inj hxy]
          exact .same (Or.inl rfl) rfl
        · exact .boolText x
      · rcases hb with ⟨y, rfl, rfl⟩ | ⟨rfl, _⟩
        · exact .textBool y
        · exact .same (Or.inl rfl) rfl
    · rw [hs, hw] at h
      exact h.elim
  · rcases keyCell_cases b with ⟨n, hn, hb⟩ | ⟨t, ht, hb⟩ | ⟨w, hw, rfl, hb⟩
    · rw [hv, hn] at h
      exact h.elim
    · rw [hv, ht] at h
      exact h.elim
    · rw [hv, hw] at h
      obtain ⟨rfl, hnan⟩ := h
      exact .same (Or.inl rfl) hnan

theorem Python.equal_iff_alike (a b : WireCell) : (keyCell a).Equal (keyCell b) ↔ Alike a b :=
  ⟨alike_of_equal, equal_of_alike⟩

/-! ## Tuples -/

theorem forall₂_singleton {α β : Type} {R : α → β → Prop} {a : α} {b : β} :
    List.Forall₂ R [a] [b] ↔ R a b := by
  simp

theorem Rust.keyIdentity_eq_iff {ts us : List WireCell} (h : ts.length = us.length) :
    keyIdentity ts = keyIdentity us ↔ List.Forall₂ SameCell ts us := by
  have hcells : ∀ ts us : List WireCell,
      ts.map keyCell = us.map keyCell ↔ List.Forall₂ SameCell ts us := by
    intro ts us
    rw [← List.forall₂_eq_eq_eq, List.forall₂_map_left_iff, List.forall₂_map_right_iff]
    simp only [keyCell_eq_iff]
  rw [← hcells]
  rcases ts with _ | ⟨a, _ | ⟨b, _ | ⟨c, ts⟩⟩⟩ <;> rcases us with _ | ⟨x, _ | ⟨y, _ | ⟨z, us⟩⟩⟩ <;>
    simp [keyIdentity] at h ⊢

theorem Go.keyIdentityG_narrow {ts us : List WireCell} (h : ts.length = us.length)
    (hnarrow : ts.length < 3) (hne : ts ≠ []) :
    keyIdentityG ts = keyIdentityG us ↔ List.Forall₂ SameCell ts us := by
  rcases ts with _ | ⟨a, _ | ⟨b, _ | ⟨c, ts⟩⟩⟩
  · exact absurd rfl hne
  · obtain ⟨x, rfl⟩ := List.length_eq_one_iff.mp h.symm
    rw [forall₂_singleton, ← wireKeyCell_eq_iff]
    simp [keyIdentityG]
  · obtain ⟨x, y, rfl⟩ := List.length_eq_two.mp h.symm
    rw [List.forall₂_cons, forall₂_singleton, ← wireKeyCell_eq_iff, ← wireKeyCell_eq_iff]
    simp [keyIdentityG]
  · rw [List.length_cons, List.length_cons, List.length_cons] at hnarrow
    omega

theorem Go.keyIdentityG_wide {ts us : List WireCell} (h : ts.length = us.length)
    (hwide : 3 ≤ ts.length) :
    keyIdentityG ts = keyIdentityG us ↔ cutParts ts = cutParts us := by
  have hjoin : ∀ vs : List WireCell, 3 ≤ vs.length → keyIdentityG vs = ⟨.zero, .zero,
      (String.singleton KEY_SEP).intercalate (vs.flatMap fun c => keyParts (wireKeyCell c))⟩ := by
    intro vs hvs
    rcases vs with _ | ⟨a, _ | ⟨b, _ | ⟨c, vs⟩⟩⟩
    · cases hvs
    · simp at hvs
    · simp at hvs
    · rfl
  have hparts : ∀ vs : List WireCell, 3 ≤ vs.length →
      (vs.flatMap fun c => keyParts (wireKeyCell c)).map String.toList ≠ [] := by
    intro vs hvs hnil
    cases vs with
    | nil => cases hvs
    | cons a vs => cases hnil
  rw [hjoin ts hwide, hjoin us (h ▸ hwide), KeyID.mk.injEq, ← String.toList_inj,
    String.toList_intercalate, String.toList_intercalate, String.toList_singleton,
    Text.intercalate_eq_iff _ (hparts ts hwide) (hparts us (h ▸ hwide)), List.flatMap_map,
    List.flatMap_map]
  exact ⟨fun hall => hall.2.2, fun hcut => ⟨rfl, rfl, hcut⟩⟩

theorem Go.cutParts_of_same {ts us : List WireCell} (h : List.Forall₂ SameCell ts us) :
    cutParts ts = cutParts us := by
  have hcells : ts.map wireKeyCell = us.map wireKeyCell := by
    rw [← List.forall₂_eq_eq_eq, List.forall₂_map_left_iff, List.forall₂_map_right_iff]
    exact h.imp fun a b hab => (wireKeyCell_eq_iff a b).mpr hab
  have hparts : ∀ vs : List WireCell, (vs.flatMap fun c => keyParts (wireKeyCell c)) =
      (vs.map wireKeyCell).flatMap keyParts := fun vs => by rw [List.flatMap_map]
  rw [cutParts, cutParts, hparts, hparts, hcells]

/-- Go tells tuples apart as Rust does, but for texts with NUL in wide keys. -/
theorem Go.keyIdentityG_eq_iff {ts us : List WireCell} (h : ts.length = us.length) :
    keyIdentityG ts = keyIdentityG us ↔
      List.Forall₂ SameCell ts us ∨ (3 ≤ ts.length ∧ cutParts ts = cutParts us) := by
  by_cases hwide : 3 ≤ ts.length
  · rw [keyIdentityG_wide h hwide]
    constructor
    · intro hcut
      exact Or.inr ⟨hwide, hcut⟩
    · rintro (hsame | ⟨_, hcut⟩)
      · exact cutParts_of_same hsame
      · exact hcut
  · have hnone : ¬ (3 ≤ ts.length ∧ cutParts ts = cutParts us) := fun hall => hwide hall.1
    rw [or_iff_left hnone]
    by_cases hne : ts = []
    · subst hne
      obtain rfl := List.length_eq_zero_iff.mp h.symm
      exact iff_of_true rfl .nil
    · exact keyIdentityG_narrow h (Nat.lt_of_not_le hwide) hne

theorem Python.keyIdentity_iff {ts us : List WireCell} (h : ts.length = us.length) :
    (keyIdentity ts).Equal (keyIdentity us) ↔ List.Forall₂ Alike ts us := by
  have hcells : List.Forall₂ Key.Equal (ts.map keyCell) (us.map keyCell) ↔
      List.Forall₂ Alike ts us := by
    rw [List.forall₂_map_left_iff, List.forall₂_map_right_iff]
    simp only [equal_iff_alike]
  rw [← hcells]
  rcases ts with _ | ⟨a, _ | ⟨b, ts⟩⟩ <;> rcases us with _ | ⟨x, _ | ⟨y, us⟩⟩
  · exact Iff.rfl
  · cases h
  · cases h
  · cases h
  · exact (forall₂_singleton (R := Key.Equal)).symm
  · cases h
  · cases h
  · cases h
  · exact Iff.rfl

theorem Python.isNaN_of_alike {a b : WireCell} (h : Alike a b) : a.isNaN = false := by
  cases h with
  | same _ hnan => exact hnan
  | boolText b => rfl
  | textBool b => rfl
  | floatDigits hw => exact isNaN_of_whole hw
  | digitsFloat hw => rfl
  | sameWhole hv _ => exact isNaN_of_whole hv

theorem Php.arrayKey_inj {s t : String} (h : arrayKey s = arrayKey t) : s = t := by
  have hread : ∀ s, (∃ n, arrayKey s = .int n ∧ s = formatInt n) ∨ arrayKey s = .str s := by
    intro s
    rw [arrayKey]
    split
    · next n _ =>
      by_cases htext : formatInt n = s
      · exact Or.inl ⟨n, if_pos htext, htext.symm⟩
      · exact Or.inr (if_neg htext)
    · exact Or.inr rfl
  rcases hread s with ⟨m, hm, rfl⟩ | hs
  · rcases hread t with ⟨n, hn, rfl⟩ | ht
    · rw [hm, hn] at h
      rw [ArrayKey.int.inj h]
    · rw [hm, ht] at h
      cases h
  · rcases hread t with ⟨n, hn, rfl⟩ | ht
    · rw [hs, hn] at h
      cases h
    · rw [hs, ht] at h
      exact ArrayKey.str.inj h

theorem Php.arrayKey_formatInt {n : Int} (fits : IsI64 n) : arrayKey (formatInt n) = .int n := by
  have hparse : parseI64 (formatInt n) = some n :=
    (parseI64_integer.mp (integer_str.mpr ⟨rfl, fits⟩)).1
  rw [arrayKey, hparse]
  exact if_pos rfl

theorem Php.keyIdentity_eq (ts : List WireCell) :
    keyIdentity ts = arrayKey ((String.singleton KEY_SEP).intercalate (ts.map stringifyKey)) := by
  rcases ts with _ | ⟨a, _ | ⟨b, _ | ⟨c, ts⟩⟩⟩
  · rfl
  · rw [List.map_singleton, String.intercalate_singleton]
    cases a with
    | int n fits => exact (arrayKey_formatInt fits).symm
    | _ => rfl
  · simp [keyIdentity]
  · cases a <;> rfl

theorem Php.keyIdentity_eq_iff {ts us : List WireCell} (h : ts.length = us.length) :
    keyIdentity ts = keyIdentity us ↔ cutTexts ts = cutTexts us := by
  rcases ts with _ | ⟨a, ts⟩
  · obtain rfl := List.length_eq_zero_iff.mp h.symm
    exact iff_of_true rfl rfl
  rcases us with _ | ⟨b, us⟩
  · cases h
  have hkeys : ∀ vs ws : List WireCell, keyIdentity vs = keyIdentity ws ↔
      (String.singleton KEY_SEP).intercalate (vs.map stringifyKey) =
        (String.singleton KEY_SEP).intercalate (ws.map stringifyKey) := by
    intro vs ws
    rw [keyIdentity_eq, keyIdentity_eq]
    constructor
    · exact arrayKey_inj
    · intro heq
      rw [heq]
  rw [hkeys, ← String.toList_inj, String.toList_intercalate, String.toList_intercalate,
    String.toList_singleton, Text.intercalate_eq_iff _ (by simp) (by simp), cutTexts, cutTexts]
  simp only [List.flatMap_map]

theorem Php.stringifyKey_same {a b : WireCell} (h : SameCell a b) : stringifyKey a = stringifyKey b := by
  have hint : ∀ (c : WireCell) (n : Int), c.integer = some n → stringifyKey c = formatInt n := by
    intro c n hc
    cases c with
    | bool b => cases hc
    | str s => exact (integer_str.mp hc).1
    | int m fits =>
      cases hc
      rfl
    | float w =>
      rw [WireCell.integer] at hc
      rw [stringifyKey, hc]
  rcases h with rfl | ⟨heq, hsome⟩
  · rfl
  · obtain ⟨n, hn⟩ := Option.ne_none_iff_exists'.mp hsome
    rw [hint a n hn, hint b n (heq ▸ hn)]

theorem Php.cutTexts_of_same {ts us : List WireCell} (h : List.Forall₂ SameCell ts us) :
    cutTexts ts = cutTexts us := by
  induction h with
  | nil => rfl
  | cons hab _ ih =>
    rw [cutTexts, List.flatMap_cons, stringifyKey_same hab]
    exact congrArg _ ih

/-! ## Agreement -/

section Agreement
variable {H : Host}

theorem formatInt_plain (n : Int) : KEY_SEP ∉ (formatInt n).toList := by
  rw [formatInt, String.toList_ofList, Decimal.intText, List.mem_append]
  rintro (hsign | hdigit)
  · split at hsign
    · cases List.mem_singleton.mp hsign
    · cases hsign
  · cases Decimal.isDigit_of_mem hdigit

theorem TypeScript.number_plain (w : Word) : KEY_SEP ∉ (number w).text.toList := by
  rw [number]
  split
  · decide +kernel
  · split
    · rw [JsNum.text, String.toList_ofList]
      intro hmem
      exact absurd (Decimal.print_chars _ _ hmem) (by decide : ¬ Decimal.NumChar KEY_SEP)
    · cases Binary64.negative w <;> decide +kernel

/-- The text of a cell that stands for an integer has no NUL. -/
theorem TypeScript.text_plain {c : WireCell} {n : Int} (h : c.integer = some n) :
    KEY_SEP ∉ ((value c).text H).toList := by
  cases c with
  | bool b => cases h
  | str s =>
    obtain ⟨rfl, _⟩ := integer_str.mp h
    rw [value, JsVal.text]
    exact formatInt_plain n
  | int m fits =>
    rw [value, JsVal.text]
    exact formatInt_plain m
  | float w =>
    rw [value, JsVal.text]
    exact number_plain w

/-- The texts of same cells are cut into as many pieces. -/
theorem TypeScript.cut_same {a b : WireCell} (h : SameCell a b) :
    (((value a).text H).toList.splitOn KEY_SEP).length =
        (((value b).text H).toList.splitOn KEY_SEP).length := by
  rcases h with rfl | ⟨heq, hsome⟩
  · rfl
  · obtain ⟨n, hn⟩ := Option.ne_none_iff_exists'.mp hsome
    rw [List.splitOn_eq_singleton (text_plain hn), List.splitOn_eq_singleton (text_plain (heq ▸ hn))]
    rfl

theorem splitOn_inj {s t : String} (h : s.toList.splitOn KEY_SEP = t.toList.splitOn KEY_SEP) :
    s = t := by
  have hback : ∀ l : List Char, [KEY_SEP].intercalate (l.splitOn KEY_SEP) = l := by
    intro l
    exact List.intercalate_splitOn KEY_SEP
  apply String.toList_injective
  rw [← hback s.toList, h, hback]

/-- Tuples of the same cells are one key in TypeScript when their texts are the same. -/
theorem TypeScript.cutTexts_of_same {ts us : List WireCell} (h : List.Forall₂ SameCell ts us) :
    LiteDb.cutTexts H (ts.map value) = LiteDb.cutTexts H (us.map value) ↔
      List.Forall₂ (fun a b => (value a).text H = (value b).text H) ts us := by
  induction h with
  | nil => exact iff_of_true rfl .nil
  | @cons a b ts us hab _ ih =>
    have hcut : ∀ (c : WireCell) (vs : List WireCell), LiteDb.cutTexts H ((c :: vs).map value) =
        ((value c).text H).toList.splitOn KEY_SEP ++ LiteDb.cutTexts H (vs.map value) := by
      intro c vs
      rw [LiteDb.cutTexts, List.map_cons, List.map_cons, List.flatMap_cons]
      rfl
    rw [hcut, hcut, List.append_eq_append_iff_of_size_eq_left (cut_same hab), ih, List.forall₂_cons]
    constructor
    · rintro ⟨hpieces, hrest⟩
      exact ⟨splitOn_inj hpieces, hrest⟩
    · rintro ⟨htext, hrest⟩
      rw [htext]
      exact ⟨rfl, hrest⟩

/-- For the same cells, Python asks for no NaN. -/
theorem Python.alike_of_same {ts us : List WireCell} (h : List.Forall₂ SameCell ts us) :
    List.Forall₂ Alike ts us ↔ ∀ c ∈ ts, c.isNaN = false := by
  induction h with
  | nil => exact iff_of_true .nil (by simp)
  | cons hab _ ih =>
    rw [List.forall₂_cons, List.forall_mem_cons, ih]
    constructor
    · rintro ⟨halike, hrest⟩
      exact ⟨isNaN_of_alike halike, hrest⟩
    · rintro ⟨hnan, hrest⟩
      exact ⟨.same hab hnan, hrest⟩

theorem TypeScript.keyIdentity_eq_iff {ts us : List WireCell} (h : ts.length = us.length) :
    keyIdentity H ts = keyIdentity H us ↔
      LiteDb.cutTexts H (ts.map value) = LiteDb.cutTexts H (us.map value) := by
  rw [keyIdentity, keyIdentity]
  apply LiteDb.keyIdentity_eq_iff
  rw [List.length_map, List.length_map, h]

/-- The runtimes agree exactly on the key tuples that each of them takes for one, or each for two. -/
theorem runtimesAgree_iff (H : Host) (ts us : List WireCell) (h : ts.length = us.length) :
    RuntimesAgree H ts us ↔ KeysAgree H ts us := by
  have hrust := Rust.keyIdentity_eq_iff h
  have hgo := Go.keyIdentityG_eq_iff h
  have hpython := Python.keyIdentity_iff h
  have hphp := Php.keyIdentity_eq_iff h
  have hts : TypeScript.keyIdentity H ts = TypeScript.keyIdentity H us ↔ _ :=
    TypeScript.keyIdentity_eq_iff h
  by_cases hsame : List.Forall₂ SameCell ts us
  · have hrust : Rust.keyIdentity ts = Rust.keyIdentity us := hrust.mpr hsame
    constructor
    · intro hagree
      refine Or.inl ⟨hsame, ?_, ?_⟩
      · exact (Python.alike_of_same hsame).mp (hpython.mp (hagree.python.mp hrust))
      · exact (TypeScript.cutTexts_of_same hsame).mp (hts.mp (hagree.typeScript.mp hrust))
    · rintro (⟨_, hnan, htexts⟩ | ⟨hdiffer, _⟩)
      · refine ⟨iff_of_true hrust ?_, iff_of_true hrust ?_, iff_of_true hrust ?_,
          iff_of_true hrust ?_⟩
        · exact hgo.mpr (Or.inl hsame)
        · exact hpython.mpr ((Python.alike_of_same hsame).mpr hnan)
        · exact hphp.mpr (Php.cutTexts_of_same hsame)
        · exact hts.mpr ((TypeScript.cutTexts_of_same hsame).mpr htexts)
      · exact absurd hsame hdiffer
  · have hrust : ¬ Rust.keyIdentity ts = Rust.keyIdentity us := fun heq => hsame (hrust.mp heq)
    constructor
    · intro hagree
      refine Or.inr ⟨hsame, ?_, ?_, ?_, ?_⟩
      · intro halike
        exact hrust (hagree.python.mpr (hpython.mpr halike))
      · intro hcut
        exact hrust (hagree.typeScript.mpr (hts.mpr hcut))
      · intro hcut
        exact hrust (hagree.php.mpr (hphp.mpr hcut))
      · intro hwide hcut
        exact hrust (hagree.go.mpr (hgo.mpr (Or.inr ⟨hwide, hcut⟩)))
    · rintro (⟨hall, _⟩ | ⟨_, hpy, hjs, hph, hwide⟩)
      · exact absurd hall hsame
      · refine ⟨iff_of_false hrust ?_, iff_of_false hrust ?_, iff_of_false hrust ?_,
          iff_of_false hrust ?_⟩
        · intro heq
          rcases hgo.mp heq with hall | ⟨hlong, hcut⟩
          · exact hsame hall
          · exact hwide hlong hcut
        · exact fun heq => hpy (hpython.mp heq)
        · exact fun heq => hph (hphp.mp heq)
        · exact fun heq => hjs (hts.mp heq)

end Agreement

/-- A boolean and its text are one key in TypeScript, Python and PHP, and two in Rust and Go. -/
theorem boolText_disputed : ¬ ∀ (H : Host) (ts us : List WireCell), ts.length = us.length →
    RuntimesAgree H ts us := by
  intro h
  have hagree := (h ⟨id, fun _ => ""⟩ [.bool true] [.str "true"] rfl).php
  exact absurd hagree (by decide +kernel)

theorem runtimesAgree_integer_text :
    RuntimesAgree ⟨id, fun _ => ""⟩ [.int 7 (by decide), .str "a"] [.str "7", .str "a"] ↔
      KeysAgree ⟨id, fun _ => ""⟩ [.int 7 (by decide), .str "a"] [.str "7", .str "a"] :=
  runtimesAgree_iff ⟨id, fun _ => ""⟩ [.int 7 (by decide), .str "a"] [.str "7", .str "a"] rfl

end LiteDb
