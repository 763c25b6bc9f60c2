import Mathlib

/-!
# Exact decimal numbers and the texts that denote them

`Dec` is a number `mant * 10 ^ exp` in the one normal form without a trailing
zero. `Dec.print` writes it the way ECMAScript's `Number::toString` does, and
`parseNumber` reads the JSON number grammar. Naturals are written by
`Nat.toDigits` and read back by `Nat.ofDigitChars`.
-/

namespace Decimal
set_option autoImplicit false

/-- The normal form: zero has exponent zero, any other mantissa ends in a nonzero digit. -/
def Normal (m e : Int) : Prop := (m = 0 → e = 0) ∧ (m ≠ 0 → ¬ (10 : Int) ∣ m)

instance (m e : Int) : Decidable (Normal m e) := inferInstanceAs (Decidable (_ ∧ _))

@[ext] structure Dec where
  mant : Int
  exp : Int
  normal : Normal mant exp
deriving DecidableEq

/-- Drop the trailing zeros of a mantissa, counting them into the exponent. -/
def strip : Nat → Int → Int → Int × Int
  | 0, m, e => (m, e)
  | f + 1, m, e => if (10 : Int) ∣ m then strip f (m / 10) (e + 1) else (m, e)

theorem strip_mul_pow (a e : Int) (ha : ¬ (10 : Int) ∣ a) (k f : Nat) (hf : k < f) :
    strip f (a * 10 ^ k) e = (a, e + k) := by
  induction k generalizing f e with
  | zero =>
    cases f with
    | zero => omega
    | succ f => simp [strip, ha]
  | succ k ih =>
    cases f with
    | zero => omega
    | succ f =>
      have hm : a * 10 ^ (k + 1) = 10 * (a * 10 ^ k) := by ring
      rw [strip, hm, if_pos (Int.dvd_mul_right 10 _), Int.mul_ediv_cancel_left _ (by decide),
        ih (e + 1) f (by omega)]
      simp only [Prod.mk.injEq, true_and]
      omega

/-- Every nonzero mantissa is a stripped one times a power of ten its size bounds. -/
theorem exists_strip (m : Int) (hm : m ≠ 0) :
    ∃ (a : Int) (k : Nat), m = a * 10 ^ k ∧ ¬ (10 : Int) ∣ a ∧ k < m.natAbs := by
  induction hn : m.natAbs using Nat.strongRecOn generalizing m with
  | _ n ih =>
    by_cases h : (10 : Int) ∣ m
    · obtain ⟨q, rfl⟩ := h
      have hq : q ≠ 0 := by rintro rfl; simp at hm
      obtain ⟨a, k, hk, ha, hlt⟩ := ih q.natAbs (by omega) q hq rfl
      refine ⟨a, k + 1, ?_, ha, by omega⟩
      rw [hk]
      ring
    · exact ⟨m, 0, by simp, h, by omega⟩

theorem strip_normal (m e : Int) (hm : m ≠ 0) :
    Normal (strip m.natAbs m e).1 (strip m.natAbs m e).2 := by
  obtain ⟨a, k, hk, ha, hlt⟩ := exists_strip m hm
  have hs : strip m.natAbs m e = (a, e + k) := by
    have := strip_mul_pow a e ha k m.natAbs hlt
    rwa [← hk] at this
  have ha0 : a ≠ 0 := by
    rintro rfl
    exact ha (Int.dvd_zero 10)
  rw [hs]
  exact ⟨fun h => absurd h ha0, fun _ => ha⟩

theorem strip_natAbs_le (f : Nat) (m e : Int) : (strip f m e).1.natAbs ≤ m.natAbs := by
  induction f generalizing m e with
  | zero => exact le_refl _
  | succ f ih =>
    rw [strip]
    split
    · exact (ih (m / 10) (e + 1)).trans (by omega)
    · exact le_refl _

namespace Dec

/-- The number `m * 10 ^ e`. -/
def ofParts (m e : Int) : Dec :=
  if hm : m = 0 then ⟨0, 0, by decide⟩
  else ⟨(strip m.natAbs m e).1, (strip m.natAbs m e).2, strip_normal m e hm⟩

def ofInt (i : Int) : Dec := ofParts i 0

theorem ofParts_mul_pow (d : Dec) (hd : d.mant ≠ 0) (k : Nat) (e : Int) (he : e + k = d.exp) :
    ofParts (d.mant * 10 ^ k) e = d := by
  have hpow : (10 : Int) ^ k ≠ 0 := pow_ne_zero k (by decide)
  have hm : d.mant * 10 ^ k ≠ 0 := mul_ne_zero hd hpow
  have hk : k < (d.mant * 10 ^ k).natAbs := by
    have h1 : 1 ≤ d.mant.natAbs := Int.natAbs_pos.mpr hd
    have h2 : k < 10 ^ k := Nat.lt_pow_self (by decide)
    rw [Int.natAbs_mul, Int.natAbs_pow]
    calc k < 10 ^ k := h2
      _ = 1 * 10 ^ k := (Nat.one_mul _).symm
      _ ≤ d.mant.natAbs * 10 ^ k := Nat.mul_le_mul_right _ h1
  have hs := strip_mul_pow d.mant e (d.normal.2 hd) k _ hk
  unfold ofParts
  rw [dif_neg hm]
  ext <;> simp [hs, he]

theorem ofParts_natAbs_le (m e : Int) : (ofParts m e).mant.natAbs ≤ m.natAbs := by
  unfold ofParts
  split
  · exact Nat.zero_le _
  · exact strip_natAbs_le m.natAbs m e

def value (d : Dec) : ℚ := d.mant * (10 : ℚ) ^ d.exp

theorem value_ofParts (m e : Int) : (ofParts m e).value = m * (10 : ℚ) ^ e := by
  by_cases hm : m = 0
  · simp [ofParts, value, hm]
  · obtain ⟨a, k, hk, ha, hlt⟩ := exists_strip m hm
    have hs : strip m.natAbs m e = (a, e + k) := by
      have := strip_mul_pow a e ha k m.natAbs hlt
      rwa [← hk] at this
    have hten : (10 : ℚ) ≠ 0 := by norm_num
    simp only [ofParts, hm, dif_neg, not_false_eq_true, value, hs]
    rw [zpow_add₀ hten, zpow_natCast, hk]
    push_cast
    ring

theorem value_ofInt (i : Int) : (ofInt i).value = i := by
  rw [ofInt, value_ofParts, zpow_zero, mul_one]
end Dec

/-! ## Digits -/

theorem toDigits_head (n : Nat) (hn : 0 < n) : ∃ c cs, Nat.toDigits 10 n = c :: cs ∧ c ≠ '0' := by
  induction n using Nat.strongRecOn with
  | _ n ih =>
    by_cases h : n < 10
    · refine ⟨n.digitChar, [], Nat.toDigits_of_lt_base h, ?_⟩
      interval_cases n <;> decide
    · obtain ⟨c, cs, hc, hne⟩ := ih (n / 10) (by omega) (by omega)
      refine ⟨c, cs ++ [(n % 10).digitChar], ?_, hne⟩
      rw [Nat.toDigits_of_base_le (by decide) (by omega), hc]
      rfl

theorem isDigit_of_mem {n : Nat} {c : Char} (h : c ∈ Nat.toDigits 10 n) : c.isDigit = true :=
  Nat.isDigit_of_mem_toDigits (by decide) (by decide) h

/-- The text after a number token never continues its digits. -/
def NoDigit (cs : List Char) : Prop := ∀ c rest, cs = c :: rest → c.isDigit = false

theorem NoDigit.nil : NoDigit [] := by
  intro c rest h
  cases h

theorem NoDigit.cons {c : Char} (h : c.isDigit = false) (cs : List Char) : NoDigit (c :: cs) := by
  intro d rest hd
  cases hd
  exact h

def spanDigits (cs : List Char) : List Char × List Char :=
  (cs.takeWhile Char.isDigit, cs.dropWhile Char.isDigit)

theorem spanDigits_append {ds rest : List Char} (hd : ∀ c ∈ ds, c.isDigit = true)
    (hr : NoDigit rest) : spanDigits (ds ++ rest) = (ds, rest) := by
  have hrest : rest.takeWhile Char.isDigit = [] ∧ rest.dropWhile Char.isDigit = rest := by
    cases rest with
    | nil => exact ⟨rfl, rfl⟩
    | cons c cs => simp [List.takeWhile, List.dropWhile, hr c cs rfl]
  unfold spanDigits
  rw [List.takeWhile_append_of_pos hd, List.dropWhile_append_of_pos hd, hrest.1, hrest.2,
    List.append_nil]

theorem spanDigits_spec (cs : List Char) :
    cs = (spanDigits cs).1 ++ (spanDigits cs).2 ∧ (∀ c ∈ (spanDigits cs).1, c.isDigit = true) ∧
      NoDigit (spanDigits cs).2 := by
  induction cs with
  | nil => exact ⟨rfl, by simp [spanDigits], NoDigit.nil⟩
  | cons c cs ih =>
    obtain ⟨happ, hall, hnd⟩ := ih
    cases hc : c.isDigit with
    | true =>
      have h1 : spanDigits (c :: cs) = (c :: (spanDigits cs).1, (spanDigits cs).2) := by
        simp [spanDigits, hc]
      rw [h1]
      refine ⟨by rw [List.cons_append, ← happ], ?_, hnd⟩
      intro d hd
      rcases List.mem_cons.mp hd with rfl | hd
      · exact hc
      · exact hall d hd
    | false =>
      have h1 : spanDigits (c :: cs) = ([], c :: cs) := by simp [spanDigits, hc]
      rw [h1]
      exact ⟨rfl, by simp, NoDigit.cons hc cs⟩

/-! ## Reading the JSON number grammar -/

/-- An integer part has at least one digit and no leading zero. -/
def goodInt : List Char → Bool
  | [] => false
  | [_] => true
  | c :: _ => c ≠ '0'

def parseFrac : List Char → Option (List Char × List Char)
  | '.' :: cs =>
    let (fs, rest) := spanDigits cs
    if fs = [] then none else some (fs, rest)
  | cs => some ([], cs)

def parseExpDigits (neg : Bool) (cs : List Char) : Option (Int × List Char) :=
  let (es, rest) := spanDigits cs
  let n : Int := Nat.ofDigitChars 10 es 0
  if es = [] then none else some (if neg then -n else n, rest)

def parseExp : List Char → Option (Int × List Char)
  | 'e' :: '-' :: cs | 'E' :: '-' :: cs => parseExpDigits true cs
  | 'e' :: '+' :: cs | 'E' :: '+' :: cs => parseExpDigits false cs
  | 'e' :: cs | 'E' :: cs => parseExpDigits false cs
  | cs => some (0, cs)

def parseUnsigned (neg : Bool) (cs : List Char) : Option (Dec × List Char) := do
  let (ds, rest) := spanDigits cs
  if goodInt ds then
    let (fs, rest) ← parseFrac rest
    let (e, rest) ← parseExp rest
    let n : Int := Nat.ofDigitChars 10 (ds ++ fs) 0
    some (Dec.ofParts (if neg then -n else n) (e - fs.length), rest)
  else none

def parseNumber : List Char → Option (Dec × List Char)
  | '-' :: cs => parseUnsigned true cs
  | cs => parseUnsigned false cs

/-! ## Writing numbers -/

def intText (i : Int) : List Char :=
  (if i < 0 then ['-'] else []) ++ Nat.toDigits 10 i.natAbs

namespace Dec

/-- ECMAScript `Number::toString` of a nonzero mantissa with digits `ds`, point after `n` of them. -/
def layout (ds : List Char) (n : Int) : List Char :=
  let k : Int := ds.length
  if k ≤ n ∧ n ≤ 21 then ds ++ List.replicate (n - k).toNat '0'
  else if 0 < n ∧ n ≤ 21 then ds.take n.toNat ++ '.' :: ds.drop n.toNat
  else if -6 < n ∧ n ≤ 0 then '0' :: '.' :: (List.replicate (-n).toNat '0' ++ ds)
  else
    let e := (if n - 1 < 0 then ['e', '-'] else ['e', '+']) ++ Nat.toDigits 10 (n - 1).natAbs
    match ds with
    | [] => e
    | [d] => d :: e
    | d :: rest => d :: '.' :: (rest ++ e)

/-- ECMAScript `Number::toString`, on the number's shortest decimal `d`. -/
def print (d : Dec) : List Char :=
  if d.mant = 0 then ['0']
  else
    let ds := Nat.toDigits 10 d.mant.natAbs
    (if d.mant < 0 then ['-'] else []) ++ layout ds (ds.length + d.exp)

/-- Digits with the point after `n` of them, and no exponent. -/
def positional (ds : List Char) (n : Int) : List Char :=
  if ds.length ≤ n then ds ++ List.replicate (n - ds.length).toNat '0'
  else if 0 < n then ds.take n.toNat ++ '.' :: ds.drop n.toNat
  else '0' :: '.' :: (List.replicate (-n).toNat '0' ++ ds)

/-- The number without an exponent. -/
def plain (d : Dec) : List Char :=
  if d.mant = 0 then ['0']
  else
    let ds := Nat.toDigits 10 d.mant.natAbs
    (if d.mant < 0 then ['-'] else []) ++ positional ds (ds.length + d.exp)

end Dec

/-! ## Reading back what was written -/

/-- The text after a number token does not continue the number. -/
def NumEnd (cs : List Char) : Prop :=
  ∀ c rest, cs = c :: rest → c.isDigit = false ∧ c ≠ '.' ∧ c ≠ 'e' ∧ c ≠ 'E'

theorem NumEnd.nil : NumEnd [] := by
  intro c rest h
  cases h

theorem NumEnd.cons {c : Char} (h : c.isDigit = false ∧ c ≠ '.' ∧ c ≠ 'e' ∧ c ≠ 'E')
    (cs : List Char) : NumEnd (c :: cs) := by
  intro d rest hd
  cases hd
  exact h

theorem NumEnd.noDigit {cs : List Char} (h : NumEnd cs) : NoDigit cs := fun c rest hc => (h c rest hc).1

theorem goodInt_of_digits (n : Nat) : goodInt (Nat.toDigits 10 n) = true := by
  by_cases hn : n = 0
  · subst n
    decide
  · obtain ⟨c, cs, hc, hne⟩ := toDigits_head n (by omega)
    rw [hc]
    cases cs <;> simp [goodInt, hne]

theorem parseFrac_end {rest : List Char} (h : NumEnd rest) : parseFrac rest = some ([], rest) := by
  cases rest with
  | nil => rfl
  | cons c cs =>
    have hc := (h c cs rfl).2.1
    unfold parseFrac
    split
    · rename_i heq
      exact absurd (List.cons.inj heq).1 hc
    · rfl

theorem parseFrac_exp (cs : List Char) : parseFrac ('e' :: cs) = some ([], 'e' :: cs) := rfl

theorem parseFrac_digits {fs rest : List Char} (hne : fs ≠ []) (hd : ∀ c ∈ fs, c.isDigit = true)
    (hr : NoDigit rest) : parseFrac ('.' :: (fs ++ rest)) = some (fs, rest) := by
  simp [parseFrac, spanDigits_append hd hr, hne]

theorem parseExp_end {rest : List Char} (h : NumEnd rest) : parseExp rest = some (0, rest) := by
  cases rest with
  | nil => rfl
  | cons c cs =>
    obtain ⟨_, _, he, hE⟩ := h c cs rfl
    unfold parseExp
    split <;> simp_all

theorem parseExpDigits_digits (neg : Bool) (n : Nat) {rest : List Char} (hr : NoDigit rest) :
    parseExpDigits neg (Nat.toDigits 10 n ++ rest) = some (if neg then -(n : Int) else n, rest) := by
  unfold parseExpDigits
  rw [spanDigits_append (fun c hc => isDigit_of_mem hc) hr]
  simp [Nat.ofDigitChars_ten_toDigits]

theorem parseExp_written (n : Int) {rest : List Char} (hr : NoDigit rest) :
    parseExp ((if n < 0 then ['e', '-'] else ['e', '+']) ++ Nat.toDigits 10 n.natAbs ++ rest) =
      some (n, rest) := by
  by_cases hn : n < 0
  · have hv : -|n| = n := by rw [abs_of_neg hn, neg_neg]
    simp [hn, parseExp, parseExpDigits_digits true n.natAbs hr, hv]
  · have hv : |n| = n := abs_of_nonneg (by omega)
    simp [hn, parseExp, parseExpDigits_digits false n.natAbs hr, hv]

/-- An unsigned number reads as its digits, once its three parts are known to read. -/
theorem parseUnsigned_parts (neg : Bool) (ds tail : List Char) {fs tail' rest : List Char} {e : Int}
    (hd : ∀ c ∈ ds, c.isDigit = true) (hg : goodInt ds = true) (ht : NoDigit tail)
    (hf : parseFrac tail = some (fs, tail')) (he : parseExp tail' = some (e, rest)) :
    parseUnsigned neg (ds ++ tail) =
      some (Dec.ofParts (if neg then -(Nat.ofDigitChars 10 (ds ++ fs) 0 : Int)
        else (Nat.ofDigitChars 10 (ds ++ fs) 0 : Int)) (e - fs.length), rest) := by
  simp [parseUnsigned, spanDigits_append hd ht, hg, hf, he]

theorem parseUnsigned_int (neg : Bool) {ds rest : List Char} (hd : ∀ c ∈ ds, c.isDigit = true)
    (hr : NumEnd rest) :
    parseUnsigned neg (ds ++ rest) =
      if goodInt ds then some (Dec.ofParts (if neg then -(Nat.ofDigitChars 10 ds 0 : Int)
        else (Nat.ofDigitChars 10 ds 0 : Int)) 0, rest) else none := by
  cases hg : goodInt ds with
  | true =>
    have := parseUnsigned_parts neg ds rest hd hg hr.noDigit (parseFrac_end hr) (parseExp_end hr)
    simpa using this
  | false => simp [parseUnsigned, spanDigits_append hd hr.noDigit, hg]

theorem parseNumber_minus (cs : List Char) : parseNumber ('-' :: cs) = parseUnsigned true cs := rfl

theorem parseNumber_digit {c : Char} {cs : List Char} (h : c.isDigit = true) :
    parseNumber (c :: cs) = parseUnsigned false (c :: cs) := by
  unfold parseNumber
  split
  · rename_i heq
    rw [(List.cons.inj heq).1] at h
    simp at h
  · rfl

/-- Signed texts: a minus in front negates, and a digit in front is unsigned. -/
theorem parseNumber_signed (neg : Bool) (body : List Char) {c : Char} {cs : List Char}
    (hb : body = c :: cs) (hc : c.isDigit = true) :
    parseNumber ((if neg then ['-'] else []) ++ body) = parseUnsigned neg body := by
  cases neg
  · simp only [Bool.false_eq_true, if_false, List.nil_append, hb]
    exact parseNumber_digit hc
  · exact parseNumber_minus body

theorem signed_natAbs (m : Int) :
    (if decide (m < 0) = true then -(m.natAbs : Int) else (m.natAbs : Int)) = m := by
  by_cases h : m < 0
  · simp only [h, decide_true, if_true]
    omega
  · simp only [h, decide_false, Bool.false_eq_true, if_false]
    omega

theorem toDigits_cons (n : Nat) : ∃ c cs, Nat.toDigits 10 n = c :: cs ∧ c.isDigit = true := by
  cases h : Nat.toDigits 10 n with
  | nil => exact absurd h Nat.toDigits_ne_nil
  | cons c cs => exact ⟨c, cs, rfl, isDigit_of_mem (n := n) (by rw [h]; exact List.mem_cons_self)⟩

/-- Integer texts read back exactly, whatever their size. -/
theorem parseNumber_intText (i : Int) {rest : List Char} (hr : NumEnd rest) :
    parseNumber (intText i ++ rest) = some (Dec.ofInt i, rest) := by
  obtain ⟨c, cs, hc, hdig⟩ := toDigits_cons i.natAbs
  have hp := parseUnsigned_parts (decide (i < 0)) (Nat.toDigits 10 i.natAbs) rest
    (fun c hc => isDigit_of_mem hc) (goodInt_of_digits _) hr.noDigit (parseFrac_end hr)
    (parseExp_end hr)
  have hs := parseNumber_signed (decide (i < 0)) (Nat.toDigits 10 i.natAbs ++ rest)
    (by rw [hc]; rfl) hdig
  simp only [List.append_nil, Nat.ofDigitChars_ten_toDigits, signed_natAbs, List.length_nil,
    Int.natCast_zero, Int.sub_zero] at hp
  simp only [decide_eq_true_eq] at hs
  rw [intText, List.append_assoc, hs, hp]
  rfl

/-! ### The layouts of `Number::toString` -/

theorem ofDigitChars_zeros (s j : Nat) :
    Nat.ofDigitChars 10 (Nat.toDigits 10 s ++ List.replicate j '0') 0 = s * 10 ^ j := by
  rw [Nat.ofDigitChars_append, Nat.ofDigitChars_ten_toDigits, Nat.ofDigitChars_replicate_zero,
    Nat.mul_comm]

theorem ofDigitChars_leading_zeros (s j : Nat) :
    Nat.ofDigitChars 10 ('0' :: (List.replicate j '0' ++ Nat.toDigits 10 s)) 0 = s := by
  have hz : '0' :: (List.replicate j '0' ++ Nat.toDigits 10 s) =
      List.replicate (j + 1) '0' ++ Nat.toDigits 10 s := by
    rw [List.replicate_succ, List.cons_append]
  rw [hz, Nat.ofDigitChars_append, Nat.ofDigitChars_replicate_zero, Nat.mul_zero,
    Nat.ofDigitChars_ten_toDigits]

theorem isDigit_of_mem_zeros {j : Nat} {c : Char} (h : c ∈ List.replicate j '0') :
    c.isDigit = true := by
  rw [List.eq_of_mem_replicate h]
  rfl

/-- A text of digits `s` at the exponent `e`: it starts with a digit and is read as the number. -/
def Written (neg : Bool) (s : Nat) (e : Int) (text rest : List Char) : Prop :=
  ∃ (c : Char) (cs : List Char) (j : Nat), text = c :: cs ∧ c.isDigit = true ∧
    parseUnsigned neg (c :: cs) =
      some (Dec.ofParts (if neg then -((s : Int) * 10 ^ j) else (s : Int) * 10 ^ j) (e - j), rest)

section Written
variable (neg : Bool) {s : Nat} {rest : List Char}

/-- An integer: the digits and their trailing zeros. -/
theorem written_zeros (hs : 0 < s) (j : Nat) (hr : NumEnd rest) :
    Written neg s j (Nat.toDigits 10 s ++ List.replicate j '0' ++ rest) rest := by
  obtain ⟨d, tl, hd, hd0⟩ := toDigits_head s hs
  have hdig : ∀ c ∈ Nat.toDigits 10 s, c.isDigit = true := fun c hc => isDigit_of_mem hc
  have hz := ofDigitChars_zeros s j
  generalize Nat.toDigits 10 s = ds at hd hdig hz
  have hD : ∀ c ∈ ds ++ List.replicate j '0', c.isDigit = true := by
    intro c hc
    rcases List.mem_append.mp hc with hc | hc
    · exact hdig c hc
    · exact isDigit_of_mem_zeros hc
  have hg : goodInt (ds ++ List.replicate j '0') = true := by
    rw [hd, List.cons_append]
    cases tl ++ List.replicate j '0' <;> simp [goodInt, hd0]
  have hp := parseUnsigned_parts neg _ rest hD hg hr.noDigit (parseFrac_end hr) (parseExp_end hr)
  refine ⟨d, tl ++ List.replicate j '0' ++ rest, j, ?_, hdig d (by rw [hd]; exact List.mem_cons_self), ?_⟩
  · rw [hd]
    rfl
  · rw [List.append_nil, hz] at hp
    rw [hd] at hp
    simpa using hp

/-- A point inside the digits. -/
theorem written_point (hs : 0 < s) {n : Nat} (hn : 0 < n) (hlt : n < (Nat.toDigits 10 s).length)
    (hr : NumEnd rest) :
    Written neg s (n - (Nat.toDigits 10 s).length)
      ((Nat.toDigits 10 s).take n ++ '.' :: (Nat.toDigits 10 s).drop n ++ rest) rest := by
  obtain ⟨d, tl, hd, hd0⟩ := toDigits_head s hs
  have hdig : ∀ c ∈ Nat.toDigits 10 s, c.isDigit = true := fun c hc => isDigit_of_mem hc
  have hval : Nat.ofDigitChars 10 (Nat.toDigits 10 s) 0 = s := Nat.ofDigitChars_ten_toDigits
  generalize Nat.toDigits 10 s = ds at hd hdig hval hlt
  have hF : ds.drop n ≠ [] := by
    intro hnil
    have := congrArg List.length hnil
    simp at this
    omega
  obtain ⟨n, rfl⟩ : ∃ m, n = m + 1 := ⟨n - 1, by omega⟩
  have hg : goodInt (ds.take (n + 1)) = true := by
    rw [hd, List.take_succ_cons]
    cases tl.take n <;> simp [goodInt, hd0]
  have hp := parseUnsigned_parts neg (ds.take (n + 1)) ('.' :: (ds.drop (n + 1) ++ rest))
    (fun c hc => hdig c (List.mem_of_mem_take hc)) hg (NoDigit.cons (by decide) _)
    (parseFrac_digits hF (fun c hc => hdig c (List.mem_of_mem_drop hc)) hr.noDigit)
    (parseExp_end hr)
  rw [List.take_append_drop, hval, List.length_drop] at hp
  refine ⟨d, tl.take n ++ '.' :: (ds.drop (n + 1) ++ rest), 0, ?_,
    hdig d (by rw [hd]; exact List.mem_cons_self), ?_⟩
  · rw [hd]
    simp
  · have hexp : (0 : Int) - ((ds.length - (n + 1) : Nat) : Int) = ((n + 1 : Nat) : Int) - ds.length := by
      omega
    rw [hexp] at hp
    rw [hd, List.take_succ_cons] at hp
    simpa [hd] using hp

/-- Zeros between the point and the digits. -/
theorem written_fraction (hs : 0 < s) (j : Nat) (hr : NumEnd rest) :
    Written neg s (-j - (Nat.toDigits 10 s).length)
      ('0' :: '.' :: (List.replicate j '0' ++ Nat.toDigits 10 s) ++ rest) rest := by
  obtain ⟨d, tl, hd, hd0⟩ := toDigits_head s hs
  have hdig : ∀ c ∈ Nat.toDigits 10 s, c.isDigit = true := fun c hc => isDigit_of_mem hc
  have hz := ofDigitChars_leading_zeros s j
  generalize Nat.toDigits 10 s = ds at hd hdig hz
  have hF : List.replicate j '0' ++ ds ≠ [] := by
    rw [hd]
    simp
  have hp := parseUnsigned_parts neg ['0'] ('.' :: (List.replicate j '0' ++ ds ++ rest))
    (by simp) rfl (NoDigit.cons (by decide) _)
    (parseFrac_digits hF (fun c hc => (List.mem_append.mp hc).elim isDigit_of_mem_zeros (hdig c))
      hr.noDigit) (parseExp_end hr)
  refine ⟨'0', '.' :: (List.replicate j '0' ++ ds ++ rest), 0, by simp, rfl, ?_⟩
  have hexp : (0 : Int) - ((List.replicate j '0' ++ ds).length : Int) = -j - (ds.length : Int) := by
    simp only [List.length_append, List.length_replicate]
    omega
  simp only [List.singleton_append] at hp
  rw [hz, hexp] at hp
  simpa using hp

/-- A laid out number starts with a digit and reads as its digits at the laid out exponent. -/
theorem written_layout (hs : 0 < s) (e : Int) (hr : NumEnd rest) :
    Written neg s e (Dec.layout (Nat.toDigits 10 s) ((Nat.toDigits 10 s).length + e) ++ rest)
      rest := by
  unfold Dec.layout
  simp only
  split
  · rename_i h
    obtain ⟨j, rfl⟩ : ∃ j : Nat, e = j := ⟨e.toNat, by omega⟩
    have hj : (((Nat.toDigits 10 s).length : Int) + j - (Nat.toDigits 10 s).length).toNat = j := by
      omega
    rw [hj]
    exact written_zeros neg hs j hr
  split
  · rename_i h1 h2
    obtain ⟨n, hn⟩ : ∃ n : Nat, ((Nat.toDigits 10 s).length : Int) + e = n :=
      ⟨(((Nat.toDigits 10 s).length : Int) + e).toNat, by omega⟩
    have he : e = (n : Int) - (Nat.toDigits 10 s).length := by omega
    rw [hn, Int.toNat_natCast, he]
    exact written_point neg hs (by omega) (by omega) hr
  split
  · rename_i h1 h2 h3
    obtain ⟨j, hj⟩ : ∃ j : Nat, -(((Nat.toDigits 10 s).length : Int) + e) = j :=
      ⟨(-(((Nat.toDigits 10 s).length : Int) + e)).toNat, by omega⟩
    have he : e = -(j : Int) - (Nat.toDigits 10 s).length := by omega
    rw [hj, Int.toNat_natCast, he]
    exact written_fraction neg hs j hr
  · -- scientific notation
    obtain ⟨d, tl, hd, hd0⟩ := toDigits_head s hs
    have hdig : ∀ c ∈ Nat.toDigits 10 s, c.isDigit = true := fun c hc => isDigit_of_mem hc
    have hval : Nat.ofDigitChars 10 (Nat.toDigits 10 s) 0 = s := Nat.ofDigitChars_ten_toDigits
    have hddig : d.isDigit = true := hdig d (by rw [hd]; exact List.mem_cons_self)
    generalize Nat.toDigits 10 s = ds at hd hdig hval
    have he := parseExp_written ((ds.length : Int) + e - 1) hr.noDigit
    generalize hE : ((if (ds.length : Int) + e - 1 < 0 then ['e', '-'] else ['e', '+']) ++
      Nat.toDigits 10 ((ds.length : Int) + e - 1).natAbs) = E at he
    obtain ⟨E', rfl⟩ : ∃ E', E = 'e' :: E' := by
      rw [← hE]
      split <;> exact ⟨_, rfl⟩
    cases tl with
    | nil =>
      have hp := parseUnsigned_parts neg [d] ('e' :: E' ++ rest)
        (by simpa using hddig) rfl (NoDigit.cons (by decide) _) (parseFrac_exp _) he
      rw [List.append_nil, ← hd, hval] at hp
      refine ⟨d, 'e' :: E' ++ rest, 0, ?_, hddig, ?_⟩
      · rw [hd]
        rfl
      · have hexp : (ds.length : Int) + e - 1 - (([] : List Char).length : Int) = e := by
          rw [hd]
          simp only [List.length_cons, List.length_nil]
          omega
        rw [hexp] at hp
        rw [hd] at hp
        simpa using hp
    | cons d' tl =>
      have hp := parseUnsigned_parts neg [d] ('.' :: (d' :: tl ++ ('e' :: E' ++ rest)))
        (by simpa using hddig) rfl (NoDigit.cons (by decide) _)
        (parseFrac_digits (List.cons_ne_nil d' tl)
          (fun c hc => hdig c (by rw [hd]; exact List.mem_cons_of_mem d hc))
          (NoDigit.cons (by decide) _)) he
      simp only [List.singleton_append] at hp
      rw [← hd, hval] at hp
      refine ⟨d, '.' :: (d' :: tl ++ ('e' :: E' ++ rest)), 0, ?_, hddig, ?_⟩
      · rw [hd]
        simp
      · have hexp : (ds.length : Int) + e - 1 - ((d' :: tl).length : Int) = e := by
          rw [hd]
          simp only [List.length_cons]
          omega
        rw [hexp] at hp
        simpa using hp

theorem written_positional (hs : 0 < s) (e : Int) (hr : NumEnd rest) :
    Written neg s e (Dec.positional (Nat.toDigits 10 s) ((Nat.toDigits 10 s).length + e) ++ rest)
      rest := by
  unfold Dec.positional
  split
  · rename_i h
    obtain ⟨j, rfl⟩ : ∃ j : Nat, e = j := ⟨e.toNat, by omega⟩
    have hj : (((Nat.toDigits 10 s).length : Int) + j - (Nat.toDigits 10 s).length).toNat = j := by
      omega
    rw [hj]
    exact written_zeros neg hs j hr
  split
  · rename_i h1 h2
    obtain ⟨n, hn⟩ : ∃ n : Nat, ((Nat.toDigits 10 s).length : Int) + e = n :=
      ⟨(((Nat.toDigits 10 s).length : Int) + e).toNat, by omega⟩
    have he : e = (n : Int) - (Nat.toDigits 10 s).length := by omega
    rw [hn, Int.toNat_natCast, he]
    exact written_point neg hs (by omega) (by omega) hr
  · rename_i h1 h2
    obtain ⟨j, hj⟩ : ∃ j : Nat, -(((Nat.toDigits 10 s).length : Int) + e) = j :=
      ⟨(-(((Nat.toDigits 10 s).length : Int) + e)).toNat, by omega⟩
    have he : e = -(j : Int) - (Nat.toDigits 10 s).length := by omega
    rw [hj, Int.toNat_natCast, he]
    exact written_fraction neg hs j hr

end Written

/-- A number whose magnitude is written in front of `rest`, behind the sign, is read back. -/
theorem parseNumber_written {d : Dec} (h : d.mant ≠ 0) {body rest : List Char}
    (hw : ∀ neg, Written neg d.mant.natAbs d.exp (body ++ rest) rest) :
    parseNumber ((if d.mant < 0 then ['-'] else []) ++ body ++ rest) = some (d, rest) := by
  obtain ⟨c, cs, j, hl, hc, hp⟩ := hw (decide (d.mant < 0))
  have hs := parseNumber_signed (decide (d.mant < 0)) _ hl hc
  have hm : (if decide (d.mant < 0) = true then -((d.mant.natAbs : Int) * 10 ^ j)
      else (d.mant.natAbs : Int) * 10 ^ j) = d.mant * 10 ^ j := by
    by_cases hneg : d.mant < 0
    · simp [hneg, abs_of_neg hneg]
    · simp [hneg, abs_of_nonneg (not_lt.mp hneg)]
  rw [hm, Dec.ofParts_mul_pow d h j _ (by omega), ← hl] at hp
  simp only [decide_eq_true_eq] at hs
  rw [List.append_assoc, hs, hp]

theorem parseNumber_zero {d : Dec} (h : d.mant = 0) {rest : List Char} (hr : NumEnd rest) :
    parseNumber ('0' :: rest) = some (d, rest) := by
  have hp := parseUnsigned_parts false ['0'] rest (by simp) rfl hr.noDigit
    (parseFrac_end hr) (parseExp_end hr)
  have hd : Dec.ofParts 0 0 = d := by ext <;> simp [Dec.ofParts, h, d.normal.1 h]
  simpa [parseNumber_digit, Nat.ofDigitChars, hd] using hp

/-- `Number::toString` is read back as the number, whatever its size and exponent. -/
theorem parseNumber_print (d : Dec) {rest : List Char} (hr : NumEnd rest) :
    parseNumber (d.print ++ rest) = some (d, rest) := by
  unfold Dec.print
  split
  · rename_i h
    exact parseNumber_zero h hr
  · rename_i h
    exact parseNumber_written h fun neg => written_layout neg (by omega) d.exp hr

/-- Without an exponent, whatever its size, the number is read back too. -/
theorem parseNumber_plain (d : Dec) {rest : List Char} (hr : NumEnd rest) :
    parseNumber (d.plain ++ rest) = some (d, rest) := by
  unfold Dec.plain
  split
  · rename_i h
    exact parseNumber_zero h hr
  · rename_i h
    exact parseNumber_written h fun neg => written_positional neg (by omega) d.exp hr

/-- The characters of number texts. -/
def NumChar (c : Char) : Prop := c = '-' ∨ c = '+' ∨ c = '.' ∨ c = 'e' ∨ c.isDigit = true

instance (c : Char) : Decidable (NumChar c) := inferInstanceAs (Decidable (_ ∨ _))

theorem numChar_of_digit {c : Char} (h : c.isDigit = true) : NumChar c :=
  Or.inr (Or.inr (Or.inr (Or.inr h)))

theorem layout_chars {ds : List Char} (hd : ∀ c ∈ ds, c.isDigit = true) (n : Int) :
    ∀ c ∈ Dec.layout ds n, NumChar c := by
  have hdot : NumChar '.' := by decide
  have hzero : NumChar '0' := by decide
  have he : ∀ c ∈ (if n - 1 < 0 then ['e', '-'] else ['e', '+']) ++ Nat.toDigits 10 (n - 1).natAbs,
      NumChar c := by
    intro c hc
    rcases List.mem_append.mp hc with hc | hc
    · have hsign : c = 'e' ∨ c = '-' ∨ c = '+' := by
        split at hc <;> simp at hc <;> tauto
      rcases hsign with rfl | rfl | rfl <;> decide
    · exact numChar_of_digit (isDigit_of_mem hc)
  have hds : ∀ c ∈ ds, NumChar c := fun c hc => numChar_of_digit (hd c hc)
  intro c hc
  unfold Dec.layout at hc
  simp only at hc
  split at hc
  · rcases List.mem_append.mp hc with hc | hc
    · exact hds c hc
    · exact numChar_of_digit (isDigit_of_mem_zeros hc)
  split at hc
  · rcases List.mem_append.mp hc with hc | hc
    · exact hds c (List.mem_of_mem_take hc)
    · rcases List.mem_cons.mp hc with rfl | hc
      · exact hdot
      · exact hds c (List.mem_of_mem_drop hc)
  split at hc
  · rcases List.mem_cons.mp hc with rfl | hc
    · exact hzero
    rcases List.mem_cons.mp hc with rfl | hc
    · exact hdot
    rcases List.mem_append.mp hc with hc | hc
    · exact numChar_of_digit (isDigit_of_mem_zeros hc)
    · exact hds c hc
  · split at hc
    · exact he c hc
    · rcases List.mem_cons.mp hc with rfl | hc
      · exact hds c List.mem_cons_self
      · exact he c hc
    · rcases List.mem_cons.mp hc with rfl | hc
      · exact hds c List.mem_cons_self
      rcases List.mem_cons.mp hc with rfl | hc
      · exact hdot
      rcases List.mem_append.mp hc with hc | hc
      · exact hds c (List.mem_cons_of_mem _ hc)
      · exact he c hc

theorem print_chars (d : Dec) : ∀ c ∈ d.print, NumChar c := by
  intro c hc
  unfold Dec.print at hc
  split at hc
  · rw [List.mem_singleton.mp hc]
    decide
  · rcases List.mem_append.mp hc with hc | hc
    · split at hc
      · rw [List.mem_singleton.mp hc]
        decide
      · cases hc
    · exact layout_chars (fun c hc => isDigit_of_mem hc) _ c hc

theorem signed_head {m : Int} {neg : Bool} {s : Nat} {e : Int} {body : List Char}
    (hw : Written neg s e (body ++ []) []) :
    ∃ c cs, (if m < 0 then ['-'] else []) ++ body = c :: cs ∧ (c = '-' ∨ c.isDigit = true) := by
  obtain ⟨c, cs, _, hl, hc, _⟩ := hw
  rw [List.append_nil] at hl
  rw [hl]
  split
  · exact ⟨'-', _, rfl, Or.inl rfl⟩
  · exact ⟨c, cs, rfl, Or.inr hc⟩

/-- A number text starts with its sign or a digit. -/
theorem print_head (d : Dec) : ∃ c cs, d.print = c :: cs ∧ (c = '-' ∨ c.isDigit = true) := by
  unfold Dec.print
  split
  · exact ⟨'0', [], rfl, by decide⟩
  · rename_i h
    exact signed_head (written_layout false (by omega) d.exp NumEnd.nil)

theorem plain_head (d : Dec) : ∃ c cs, d.plain = c :: cs ∧ (c = '-' ∨ c.isDigit = true) := by
  unfold Dec.plain
  split
  · exact ⟨'0', [], rfl, by decide⟩
  · rename_i h
    exact signed_head (written_positional false (by omega) d.exp NumEnd.nil)

end Decimal
