import LiteDbModel.Grouping
import LiteDbModel.Lib.Text

/-!
# Numbers read from texts

`parseInt` and `parseFloat` read the number that a text starts with. A number's own
text is read back by the second, and by the first when it is whole and written
without an exponent.
-/

namespace LiteDb
set_option autoImplicit false
open Decimal

def signed : List Char → Bool × List Char
  | '-' :: cs => (true, cs)
  | '+' :: cs => (false, cs)
  | cs => (false, cs)

def withSign (neg : Bool) (n : Nat) : Int := if neg then -n else n

/-- The digits from here on, where there are some. -/
def intFrom (neg : Bool) (cs : List Char) : Option Int :=
  let ds := cs.takeWhile Char.isDigit
  if ds = [] then none else some (withSign neg (Nat.ofDigitChars 10 ds 0))

/-- `parseInt(text, 10)`; `none` is NaN. -/
def jsParseInt (text : String) : Option Int :=
  let (neg, cs) := signed (text.toList.dropWhile Text.isSpace)
  intFrom neg cs

def fraction : List Char → List Char × List Char
  | '.' :: cs => spanDigits cs
  | cs => ([], cs)

/-- Digits with a point among them and an exponent; one that is not well formed is left alone. -/
def floatFrom (neg : Bool) (cs : List Char) : Option JsNum :=
  let (ds, rest) := spanDigits cs
  let (fs, rest) := fraction rest
  let e := (parseExp rest).elim 0 Prod.fst
  if ds ++ fs = [] then none
  else some (.fin (Dec.ofParts (withSign neg (Nat.ofDigitChars 10 (ds ++ fs) 0)) (e - fs.length)))

/-- `parseFloat(text)`; `none` is NaN. -/
def jsParseFloat (text : String) : Option JsNum :=
  let (neg, cs) := signed (text.toList.dropWhile Text.isSpace)
  if "Infinity".toList.isPrefixOf cs then some (.inf neg) else floatFrom neg cs

/-- A whole number of at most 21 digits. -/
def JsNum.short : JsNum → Bool
  | .fin d => 0 ≤ d.exp ∧ (Nat.toDigits 10 d.mant.natAbs).length + d.exp ≤ 21
  | _ => false

/-! ## The first character of a number's text -/

theorem digit_not_space {c : Char} (h : c.isDigit = true) : Text.isSpace c = false := by
  have hlow : c.toNat < 58 ∧ 48 ≤ c.toNat := by
    simp only [Char.isDigit, Bool.and_eq_true, decide_eq_true_eq] at h
    constructor
    · exact Nat.lt_succ_of_le h.2
    · exact h.1
  have hne : ∀ d : Char, d.toNat < 48 ∨ 58 ≤ d.toNat → c ≠ d := by
    rintro d hd rfl
    omega
  have hle : ∀ d : Char, 58 ≤ d.toNat → ¬ d ≤ c := by
    intro d hd hdc
    have : d.toNat ≤ c.toNat := hdc
    omega
  simp [Text.isSpace, hne, hle]

theorem trim_number {c : Char} (cs : List Char) (h : c = '-' ∨ c.isDigit = true) :
    (c :: cs).dropWhile Text.isSpace = c :: cs := by
  apply List.dropWhile_cons_of_neg
  rcases h with rfl | h
  · decide
  · simp [digit_not_space h]

theorem signed_digit {c : Char} (cs : List Char) (h : c.isDigit = true) :
    signed (c :: cs) = (false, c :: cs) := by
  unfold signed
  split
  next heq => rw [(List.cons.inj heq).1] at h; exact absurd h (by decide)
  next heq => rw [(List.cons.inj heq).1] at h; exact absurd h (by decide)
  next => rfl

/-! ## `parseFloat` -/

theorem fraction_of_parseFrac {cs fs rest : List Char} (h : parseFrac cs = some (fs, rest)) :
    fraction cs = (fs, rest) := by
  unfold parseFrac at h
  split at h
  next r =>
    change (if (spanDigits r).1 = [] then none else some ((spanDigits r).1, (spanDigits r).2)) = _ at h
    by_cases hempty : (spanDigits r).1 = []
    · rw [if_pos hempty] at h
      cases h
    · rw [if_neg hempty] at h
      rw [fraction]
      exact Option.some.inj h
  next hdot =>
    have hf : fraction cs = ([], cs) := by
      unfold fraction
      split
      next r => exact absurd rfl (hdot r)
      next => rfl
    rw [hf]
    exact Option.some.inj h

theorem floatFrom_of_parseUnsigned {neg : Bool} {cs : List Char} {d : Dec}
    (h : parseUnsigned neg cs = some (d, [])) : floatFrom neg cs = some (.fin d) := by
  unfold parseUnsigned at h
  simp only [Option.bind_eq_bind] at h
  by_cases hgood : goodInt (spanDigits cs).1 = true
  · rw [if_pos hgood] at h
    obtain ⟨⟨fs, rest⟩, hfrac, h⟩ := Option.bind_eq_some_iff.mp h
    obtain ⟨⟨e, rest'⟩, hexp, h⟩ := Option.bind_eq_some_iff.mp h
    have hne : (spanDigits cs).1 ++ fs ≠ [] := by
      intro hnil
      rw [(List.append_eq_nil_iff.mp hnil).1] at hgood
      cases hgood
    simp only [floatFrom, fraction_of_parseFrac hfrac, hexp, if_neg hne, Option.elim_some]
    rw [Option.some.injEq, JsNum.fin.injEq]
    exact (Prod.mk.inj (Option.some.inj h)).1
  · rw [if_neg hgood] at h
    cases h

theorem digit_of_parseUnsigned {neg : Bool} {cs : List Char} {p : Dec × List Char}
    (h : parseUnsigned neg cs = some p) : ∃ c r, cs = c :: r ∧ c.isDigit = true := by
  cases cs with
  | nil => cases h
  | cons c r =>
    refine ⟨c, r, rfl, ?_⟩
    by_contra hc
    have hspan : (spanDigits (c :: r)).1 = [] := List.takeWhile_cons_of_neg hc
    unfold parseUnsigned at h
    rw [show spanDigits (c :: r) = ([], (spanDigits (c :: r)).2) from Prod.ext hspan rfl] at h
    cases h

theorem not_infinity {c : Char} (cs : List Char) (h : c.isDigit = true) :
    "Infinity".toList.isPrefixOf (c :: cs) = false := by
  have hI : ('I' == c) = false := by
    rw [beq_eq_false_iff_ne]
    rintro rfl
    exact absurd h (by decide)
  have hlist : "Infinity".toList = 'I' :: "nfinity".toList := by decide +kernel
  rw [hlist, List.isPrefixOf, hI]
  rfl

/-- A number's text is the number again. -/
theorem jsParseFloat_text {n : JsNum} (h : n ≠ .nan) : jsParseFloat n.text = some n := by
  cases n with
  | nan => exact absurd rfl h
  | inf neg => cases neg <;> decide +kernel
  | fin d =>
    obtain ⟨c, cs, hprint, hc⟩ := print_head d
    have hparse := parseNumber_print d NumEnd.nil
    rw [List.append_nil, hprint] at hparse
    rw [JsNum.text, jsParseFloat, String.toList_ofList, hprint, trim_number cs hc]
    rcases hc with rfl | hc
    · rw [parseNumber_minus] at hparse
      -- a minus is followed by a digit, never by `Infinity`
      obtain ⟨e, r, rfl, he⟩ := digit_of_parseUnsigned hparse
      simp only [signed, not_infinity r he]
      exact floatFrom_of_parseUnsigned hparse
    · rw [parseNumber_digit hc] at hparse
      simp only [signed_digit cs hc, not_infinity cs hc]
      exact floatFrom_of_parseUnsigned hparse

theorem jsParseFloat_nan : jsParseFloat JsNum.nan.text = none := by decide +kernel

/-! ## `parseInt` -/

theorem strip_exp_le (f : Nat) (m e : Int) : e ≤ (strip f m e).2 := by
  induction f generalizing m e with
  | zero => exact le_refl e
  | succ f ih =>
    rw [strip]
    split
    · have := ih (m / 10) (e + 1)
      omega
    · exact le_refl e

theorem ofInt_exp_nonneg (i : Int) : 0 ≤ (Dec.ofInt i).exp := by
  unfold Dec.ofInt Dec.ofParts
  split
  · exact le_refl 0
  · exact strip_exp_le i.natAbs i 0

theorem intFrom_digits {ds rest : List Char} (neg : Bool) (hne : ds ≠ [])
    (hd : ∀ c ∈ ds, c.isDigit = true) (hr : NoDigit rest) :
    intFrom neg (ds ++ rest) = some (withSign neg (Nat.ofDigitChars 10 ds 0)) := by
  have hspan : (ds ++ rest).takeWhile Char.isDigit = ds := congrArg Prod.fst (spanDigits_append hd hr)
  simp only [intFrom, hspan, if_neg hne]

theorem intFrom_exponent {ds : List Char} (neg : Bool) (hd : ∀ c ∈ ds, c.isDigit = true) (hne : ds ≠ [])
    {n : Int} (hn : 21 < n) : ∃ i : Nat, i ≤ 9 ∧ intFrom neg (Dec.layout ds n) = some (withSign neg i) := by
  obtain ⟨c, r, rfl⟩ := List.exists_cons_of_ne_nil hne
  have hc : c.isDigit = true := hd c List.mem_cons_self
  have hsmall : Nat.ofDigitChars 10 [c] 0 ≤ 9 := by
    simp only [Char.isDigit, Bool.and_eq_true, decide_eq_true_eq] at hc
    have hle : c.toNat ≤ 57 := hc.2
    simp only [Nat.ofDigitChars, List.foldl]
    have : '0'.toNat = 48 := rfl
    omega
  obtain ⟨rest, hlayout, hrest⟩ : ∃ rest, Dec.layout (c :: r) n = [c] ++ rest ∧ NoDigit rest := by
    unfold Dec.layout
    rw [if_neg (by omega), if_neg (by omega), if_neg (by omega), if_neg (by omega)]
    cases r with
    | nil => exact ⟨_, rfl, NoDigit.cons (by decide) _⟩
    | cons d r => exact ⟨_, rfl, NoDigit.cons (by decide) _⟩
  refine ⟨Nat.ofDigitChars 10 [c] 0, hsmall, ?_⟩
  rw [hlayout, intFrom_digits neg (List.cons_ne_nil c []) _ hrest]
  intro e he
  rw [List.mem_singleton.mp he]
  exact hc

theorem jsParseInt_print {d : Dec} (h : d.mant ≠ 0) :
    jsParseInt (String.ofList d.print) = intFrom (d.mant < 0)
      (Dec.layout (Nat.toDigits 10 d.mant.natAbs) ((Nat.toDigits 10 d.mant.natAbs).length + d.exp)) := by
  obtain ⟨c, cs, _, hl, hc, _⟩ := written_layout false (s := d.mant.natAbs) (by omega) d.exp NumEnd.nil
  rw [List.append_nil] at hl
  rw [jsParseInt, String.toList_ofList, Dec.print, if_neg h]
  simp only [hl]
  by_cases hneg : d.mant < 0
  · rw [if_pos hneg, List.singleton_append, trim_number (c :: cs) (.inl rfl)]
    simp [signed, hneg]
  · rw [if_neg hneg, List.nil_append, trim_number cs (.inr hc), signed_digit cs hc]
    simp [hneg]

theorem ofInt_eq {d : Dec} {i : Int} (h : Dec.ofInt i = d) : d.mant * 10 ^ d.exp.toNat = i := by
  subst h
  have hexp : ((Dec.ofInt i).exp.toNat : Int) = (Dec.ofInt i).exp := Int.toNat_of_nonneg (ofInt_exp_nonneg i)
  have hv := Dec.value_ofInt i
  rw [Dec.value, ← hexp, zpow_natCast] at hv
  exact_mod_cast hv

theorem withSign_mant (d : Dec) :
    withSign (d.mant < 0) (d.mant.natAbs * 10 ^ d.exp.toNat) = d.mant * 10 ^ d.exp.toNat := by
  rw [withSign]
  push_cast
  by_cases hneg : d.mant < 0
  · simp only [hneg, decide_true, if_true, abs_of_neg hneg]
    ring
  · simp only [hneg, decide_false, Bool.false_eq_true, if_false, abs_of_nonneg (not_lt.mp hneg)]

theorem mant_digits (d : Dec) : (∀ c ∈ Nat.toDigits 10 d.mant.natAbs, c.isDigit = true) ∧
    Nat.toDigits 10 d.mant.natAbs ≠ [] := by
  obtain ⟨e, r, hcons, _⟩ := toDigits_cons d.mant.natAbs
  refine ⟨fun c hc => isDigit_of_mem hc, ?_⟩
  rw [hcons]
  exact List.cons_ne_nil e r

/-- A single digit that is read from a longer number is another number. -/
theorem one_digit {d : Dec} {i : Int} (hm : d.mant ≠ 0) (hd : Dec.ofInt i = d) (hi : i.natAbs ≤ 9) :
    (Nat.toDigits 10 d.mant.natAbs).length + d.exp = 1 := by
  have hexp : 0 ≤ d.exp := hd ▸ ofInt_exp_nonneg i
  have hval := ofInt_eq hd
  have hzero : d.exp.toNat = 0 := by
    by_contra hpos
    obtain ⟨j, hj⟩ := Nat.exists_eq_succ_of_ne_zero hpos
    rw [hj, Nat.succ_eq_add_one, pow_succ] at hval
    have hdvd : (10 : Int) ∣ i := ⟨d.mant * 10 ^ j, by rw [← hval]; ring⟩
    have hi0 : i = 0 := by omega
    rw [hi0] at hval
    have hpow : (10 : Int) ^ j * 10 ≠ 0 := by positivity
    exact (mul_ne_zero hm hpow) hval
  rw [hzero, pow_zero, mul_one] at hval
  have hone : (Nat.toDigits 10 d.mant.natAbs).length = 1 := by
    rw [Nat.toDigits_of_lt_base (by omega : d.mant.natAbs < 10)]
    rfl
  omega

theorem short_of_parseInt {d : Dec} {i : Int} (hm : d.mant ≠ 0) (hd : Dec.ofInt i = d)
    (h : jsParseInt (String.ofList d.print) = some i) : (JsNum.fin d).short = true := by
  obtain ⟨hdigits, hne⟩ := mant_digits d
  rw [JsNum.short, decide_eq_true_iff]
  refine ⟨hd ▸ ofInt_exp_nonneg i, ?_⟩
  by_contra hlong
  -- in the exponent form only one digit stands before the point
  obtain ⟨k, hk, hfrom⟩ := intFrom_exponent (d.mant < 0) hdigits hne (not_le.mp hlong)
  rw [jsParseInt_print hm, hfrom] at h
  have hi : i.natAbs ≤ 9 := by
    rw [← Option.some.inj h, withSign]
    split <;> omega
  have := one_digit hm hd hi
  omega

theorem jsParseInt_short {d : Dec} (hm : d.mant ≠ 0) (h : (JsNum.fin d).short = true) :
    jsParseInt (String.ofList d.print) = some (d.mant * 10 ^ d.exp.toNat) := by
  obtain ⟨hdigits, hne⟩ := mant_digits d
  rw [JsNum.short, decide_eq_true_iff] at h
  have hlay : Dec.layout (Nat.toDigits 10 d.mant.natAbs)
      ((Nat.toDigits 10 d.mant.natAbs).length + d.exp) =
      Nat.toDigits 10 d.mant.natAbs ++ List.replicate d.exp.toNat '0' ++ [] := by
    unfold Dec.layout
    rw [if_pos ⟨by omega, h.2⟩, List.append_nil]
    congr 2
    omega
  have hall : ∀ c ∈ Nat.toDigits 10 d.mant.natAbs ++ List.replicate d.exp.toNat '0',
      c.isDigit = true := by
    intro c hc
    rcases List.mem_append.mp hc with hc | hc
    · exact hdigits c hc
    · exact isDigit_of_mem_zeros hc
  rw [jsParseInt_print hm, hlay, intFrom_digits _ (by simp [hne]) hall NoDigit.nil, ofDigitChars_zeros,
    withSign_mant]

/-- `parseInt` reads a number back from its text when the number is whole and short. -/
theorem jsParseInt_text (n : JsNum) : (jsParseInt n.text).map JsNum.ofInt = some n ↔ n.short = true := by
  cases n with
  | nan =>
    have h : jsParseInt JsNum.nan.text = none := by decide +kernel
    rw [h]
    exact iff_of_false nofun nofun
  | inf neg =>
    have h : jsParseInt (JsNum.inf neg).text = none := by cases neg <;> decide +kernel
    rw [h]
    exact iff_of_false nofun nofun
  | fin d =>
    by_cases hm : d.mant = 0
    · have hzero : d = Dec.ofInt 0 := by
        ext
        · exact hm
        · exact d.normal.1 hm
      subst hzero
      have hparse : jsParseInt (JsNum.fin (Dec.ofInt 0)).text = some 0 := by decide +kernel
      rw [hparse]
      exact iff_of_true rfl (by decide)
    · constructor
      · intro h
        obtain ⟨i, hi, hofInt⟩ := Option.map_eq_some_iff.mp h
        exact short_of_parseInt hm (JsNum.fin.inj hofInt) hi
      · intro h
        have hexp : 0 ≤ d.exp := (of_decide_eq_true h).1
        rw [JsNum.text, jsParseInt_short hm h, Option.map_some, JsNum.ofInt, Dec.ofInt,
          Dec.ofParts_mul_pow d hm d.exp.toNat 0 (by omega)]
end LiteDb
