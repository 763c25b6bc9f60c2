import LiteDbModel.Lib.Decimal

/-!
# Binary floating-point words

A word of 64 bits read as a double: its whole value where it has one, and the
decimals that are printed for it. `shortest` has the fewest digits among the
decimals that round to the word, `toDigits` a given number of them.
-/

namespace Binary64
set_option autoImplicit false
open Decimal (Dec)

abbrev Word := BitVec 64

def negative (w : Word) : Bool := w.msb

/-- The exponent field. -/
def field (w : Word) : Nat := w.toNat / 2 ^ 52 % 2 ^ 11

def fraction (w : Word) : Nat := w.toNat % 2 ^ 52

def isNaN (w : Word) : Bool := field w = 2047 && fraction w ≠ 0

def isFinite (w : Word) : Bool := field w ≠ 2047

/-- The magnitude of a finite word is `significand * 2 ^ scale`. -/
def significand (w : Word) : Nat := if field w = 0 then fraction w else fraction w + 2 ^ 52

def scale (w : Word) : Int := (max (field w) 1 : Nat) - 1075

def signed (w : Word) (n : Nat) : Int := if negative w then -(n : Int) else n

/-- The value, where it is finite and whole. -/
def whole (w : Word) : Option Int :=
  if isFinite w ∧ significand w * 2 ^ (scale w).toNat % 2 ^ (-scale w).toNat = 0 then
    some (signed w (significand w * 2 ^ (scale w).toNat / 2 ^ (-scale w).toNat))
  else none

/-! ## Printing -/

/-- The number of zeros between the point and the first digit of `num / den`. -/
def zerosAfterPoint (den : Nat) : Nat → Nat → Nat
  | 0, _ => 0
  | fuel + 1, num => if num * 10 < den then zerosAfterPoint den fuel (num * 10) + 1 else 0

/-- How many digits of the magnitude stand before the point. -/
def point (w : Word) : Int :=
  let num := significand w * 2 ^ (scale w).toNat
  let den := 2 ^ (-scale w).toNat
  if den ≤ num then (Nat.toDigits 10 (num / den)).length else -(zerosAfterPoint den 400 num : Nat)

/-- The magnitude over `10 ^ p`, as a quotient. -/
def overPower (w : Word) (p : Int) : Nat × Nat :=
  (significand w * 2 ^ (scale w).toNat * 10 ^ (-p).toNat, 2 ^ (-scale w).toNat * 10 ^ p.toNat)

/-- The quotient rounded to the nearest whole, a tie to the even one. -/
def nearest (q : Nat × Nat) : Nat :=
  let twice := 2 * (q.1 % q.2)
  if twice < q.2 ∨ (twice = q.2 ∧ q.1 / q.2 % 2 = 0) then q.1 / q.2 else q.1 / q.2 + 1

/-- The decimal `s * 10 ^ p` rounds to the magnitude: it is no further from it than half a gap, and
at half a gap only from an even significand. -/
def roundsTo (w : Word) (p : Int) (s : Nat) : Bool :=
  let sig := significand w
  let below := if sig = 2 ^ 52 ∧ 1 < field w then 4 * sig - 1 else 4 * sig - 2
  let side (x : Nat) : Ordering :=
    compare (s * 10 ^ p.toNat * 2 ^ (2 - scale w).toNat) (x * 2 ^ (scale w - 2).toNat * 10 ^ (-p).toNat)
  (side below = .gt || (sig % 2 = 0 && side below = .eq)) &&
    (side (4 * sig + 2) = .lt || (sig % 2 = 0 && side (4 * sig + 2) = .eq))

/-- The first `k` digits, where some decimal of that many rounds to the word: the closest one. -/
def digitsAt (w : Word) (k : Nat) : Option Nat :=
  let p := point w - k
  let q := overPower w p
  let s := nearest q
  if roundsTo w p s then some s
  else [q.1 / q.2, q.1 / q.2 + 1].find? (roundsTo w p)

/-- The fewest digits from `k` on; seventeen are enough. -/
def fewestDigits (w : Word) : Nat → Nat → Nat × Int
  | 0, k => (nearest (overPower w (point w - k)), point w - k)
  | fuel + 1, k =>
    match digitsAt w k with
    | some s => (s, point w - k)
    | none => fewestDigits w fuel (k + 1)

/-- The decimal that `Number::toString` prints. -/
def shortest (w : Word) : Dec :=
  if significand w = 0 then Dec.ofInt 0
  else Dec.ofParts (signed w (fewestDigits w 16 1).1) (fewestDigits w 16 1).2

/-- The value rounded to `k` digits. -/
def toDigits (w : Word) (k : Nat) : Dec :=
  if significand w = 0 then Dec.ofInt 0
  else Dec.ofParts (signed w (nearest (overPower w (point w - k)))) (point w - k)

/-! ## The digits of the shortest decimal -/

theorem zerosAfterPoint_lt (den : Nat) : (fuel num : Nat) → num < den →
    num * 10 ^ zerosAfterPoint den fuel num < den
  | 0, num, h => by simpa [zerosAfterPoint] using h
  | fuel + 1, num, h => by
    unfold zerosAfterPoint
    split
    · next hmore =>
      have ih := zerosAfterPoint_lt den fuel (num * 10) hmore
      calc num * 10 ^ (zerosAfterPoint den fuel (num * 10) + 1)
          = num * 10 * 10 ^ zerosAfterPoint den fuel (num * 10) := by ring
        _ < den := ih
    · simpa using h

/-- Cut after `k` digits, the magnitude has at most `k` digits before the cut. -/
theorem overPower_lt (w : Word) (k : Nat) :
    (overPower w (point w - k)).1 < 10 ^ k * (overPower w (point w - k)).2 := by
  have hden : 0 < 2 ^ (-scale w).toNat := by positivity
  simp only [overPower, point]
  generalize significand w * 2 ^ (scale w).toNat = num
  generalize 2 ^ (-scale w).toNat = den at hden
  split
  · generalize hlen : (Nat.toDigits 10 (num / den)).length = len
    have hnum : num < den * 10 ^ len := by
      have hlt : num / den < 10 ^ len := by
        rw [← Nat.length_toDigits_le_iff (by omega) (by rw [← hlen]; exact Nat.length_toDigits_pos)]
        exact hlen.le
      exact (Nat.div_lt_iff_lt_mul hden).mp hlt |>.trans_eq (Nat.mul_comm _ _)
    have hshift : len + (-((len : Int) - k)).toNat = k + ((len : Int) - k).toNat := by omega
    calc num * 10 ^ (-((len : Int) - k)).toNat
        < den * 10 ^ len * 10 ^ (-((len : Int) - k)).toNat :=
          Nat.mul_lt_mul_of_pos_right hnum (by positivity)
      _ = den * 10 ^ (len + (-((len : Int) - k)).toNat) := by rw [Nat.mul_assoc, ← Nat.pow_add]
      _ = 10 ^ k * (den * 10 ^ ((len : Int) - k).toNat) := by rw [hshift, Nat.pow_add]; ring
  · next hsmall =>
    have hz := zerosAfterPoint_lt den 400 num (by omega)
    generalize zerosAfterPoint den 400 num = z at hz
    have hneg : (-(-(z : Int) - k)).toNat = z + k := by omega
    have hpos : (-(z : Int) - k).toNat = 0 := by omega
    calc num * 10 ^ (-(-(z : Int) - k)).toNat = num * 10 ^ z * 10 ^ k := by
          rw [hneg, Nat.pow_add, Nat.mul_assoc]
      _ < den * 10 ^ k := Nat.mul_lt_mul_of_pos_right hz (by positivity)
      _ = 10 ^ k * (den * 10 ^ (-(z : Int) - k).toNat) := by rw [hpos]; ring

theorem quotient_lt (w : Word) (k : Nat) :
    (overPower w (point w - k)).1 / (overPower w (point w - k)).2 < 10 ^ k := by
  apply (Nat.div_lt_iff_lt_mul ?_).mpr (overPower_lt w k)
  simp only [overPower]
  positivity

theorem nearest_le (w : Word) (k : Nat) : nearest (overPower w (point w - k)) ≤ 10 ^ k := by
  have hq := quotient_lt w k
  rw [nearest]
  split <;> omega

theorem digitsAt_le {w : Word} {k s : Nat} (h : digitsAt w k = some s) : s ≤ 10 ^ k := by
  have hq := quotient_lt w k
  simp only [digitsAt] at h
  split at h
  · cases h
    exact nearest_le w k
  · have hmem := List.mem_of_find?_eq_some h
    simp only [List.mem_cons, List.not_mem_nil, or_false] at hmem
    omega

theorem fewestDigits_le (w : Word) : (fuel k : Nat) → (fewestDigits w fuel k).1 ≤ 10 ^ (k + fuel)
  | 0, k => nearest_le w k
  | fuel + 1, k => by
    unfold fewestDigits
    split
    · next s hs =>
      exact (digitsAt_le hs).trans (Nat.pow_le_pow_right (by omega) (by omega))
    · exact (fewestDigits_le w fuel (k + 1)).trans_eq (by rw [Nat.add_right_comm]; rfl)

/-- Seventeen digits are enough. -/
theorem shortest_natAbs_le (w : Word) : (shortest w).mant.natAbs ≤ 10 ^ 17 := by
  unfold shortest
  split
  · decide
  · have hle := fewestDigits_le w 16 1
    have hsigned : ∀ n, (signed w n).natAbs = n := by
      intro n
      unfold signed
      split <;> simp
    exact (Decimal.Dec.ofParts_natAbs_le _ _).trans ((hsigned _).trans_le hle)

/-! ## Rounding -/

/-- A tie goes to the even neighbour. -/
def roundEven (r : ℚ) : Int :=
  if r - ⌊r⌋ < 1 / 2 ∨ (r - ⌊r⌋ = 1 / 2 ∧ ⌊r⌋ % 2 = 0) then ⌊r⌋ else ⌊r⌋ + 1

/-- The exponent of the last of 53 binary digits. -/
def lastPlace (q : ℚ) : Int := Int.log 2 |q| - 52

/-- The double nearest to a number of the normal range. -/
def ofRat (q : ℚ) : ℚ := roundEven (q / 2 ^ lastPlace q) * 2 ^ lastPlace q

theorem roundEven_intCast (i : Int) : roundEven i = i := by
  simp [roundEven]

/-- Whole numbers of at most 53 binary digits are doubles. -/
theorem ofRat_intCast {i : Int} (h : |i| < 2 ^ 53) : ofRat i = i := by
  have hlog : Int.log 2 |(i : ℚ)| < 53 := by
    rcases eq_or_ne i 0 with rfl | hi
    · simp
    · have hpos : (0 : ℚ) < |(i : ℚ)| := abs_pos.mpr (by exact_mod_cast hi)
      rw [← Int.lt_zpow_iff_log_lt (by norm_num) hpos]
      exact_mod_cast h
  obtain ⟨k, hk⟩ : ∃ k : Nat, lastPlace i = -(k : Int) :=
    ⟨(-lastPlace i).toNat, by unfold lastPlace; omega⟩
  have hwhole : (i : ℚ) / 2 ^ lastPlace i = ((i * 2 ^ k : Int) : ℚ) := by
    rw [hk, zpow_neg, zpow_natCast]
    push_cast
    field_simp
  rw [ofRat, hwhole, roundEven_intCast, hk, zpow_neg, zpow_natCast]
  push_cast
  field_simp

theorem le_roundEven {m : Int} {r : ℚ} (h : m ≤ r) : m ≤ roundEven r := by
  have hf : m ≤ ⌊r⌋ := Int.le_floor.mpr h
  rw [roundEven]
  split <;> omega

theorem roundEven_le {m : Int} {r : ℚ} (h : r ≤ m) : roundEven r ≤ m := by
  have hfloor : ((⌊r⌋ : Int) : ℚ) ≤ r := Int.floor_le r
  have hle : ⌊r⌋ ≤ m := by exact_mod_cast hfloor.trans h
  rw [roundEven]
  split
  next => exact hle
  next hup =>
    -- at `m` itself there is nothing to round up
    have hne : ⌊r⌋ ≠ m := by
      intro heq
      have hr : r = ⌊r⌋ := le_antisymm (by rw [heq]; exact h) hfloor
      apply hup
      left
      rw [sub_eq_zero.mpr hr]
      norm_num
    omega

theorem lastPlace_pos {q : ℚ} (h : 2 ^ 53 ≤ |q|) : 1 ≤ lastPlace q := by
  have hpos : (0 : ℚ) < |q| := lt_of_lt_of_le (by norm_num) h
  have hlog : (53 : Int) ≤ Int.log 2 |q| := by
    rw [← Int.zpow_le_iff_le_log (by norm_num) hpos]
    exact_mod_cast h
  unfold lastPlace
  omega

/-- A number beyond the 53-bit integers does not round into them. -/
theorem le_abs_ofRat {q : ℚ} (h : 2 ^ 53 ≤ |q|) : 2 ^ 53 ≤ |ofRat q| := by
  have hpos : (0 : ℚ) < |q| := lt_of_lt_of_le (by norm_num) h
  have hscale : (0 : ℚ) < 2 ^ lastPlace q := zpow_pos (by norm_num) _
  have hlow : (2 : ℚ) ^ lastPlace q * 2 ^ 52 ≤ |q| := by
    have hlog := Int.zpow_log_le_self (b := 2) (by norm_num) hpos
    have hadd : (2 : ℚ) ^ Int.log 2 |q| = 2 ^ lastPlace q * 2 ^ 52 := by
      rw [lastPlace, zpow_sub₀ (by norm_num)]
      norm_num
    have hcast : ((2 : ℕ) : ℚ) ^ Int.log 2 |q| = (2 : ℚ) ^ Int.log 2 |q| := by norm_num
    rw [hcast, hadd] at hlog
    exact hlog
  have hratio : (2 : ℚ) ^ 52 ≤ |q / 2 ^ lastPlace q| := by
    rw [abs_div, abs_of_pos hscale, le_div_iff₀ hscale, mul_comm]
    exact hlow
  have hround : (2 : ℚ) ^ 52 ≤ |(roundEven (q / 2 ^ lastPlace q) : ℚ)| := by
    rcases le_abs.mp hratio with hr | hr
    · have := le_roundEven (m := 2 ^ 52) (by exact_mod_cast hr)
      exact le_abs.mpr (.inl (by exact_mod_cast this))
    · have := roundEven_le (m := -2 ^ 52) (r := q / 2 ^ lastPlace q) (by push_cast; linarith only [hr])
      exact le_abs.mpr (.inr (by exact_mod_cast Int.le_neg_of_le_neg this))
  have htwo : (2 : ℚ) ≤ 2 ^ lastPlace q := by
    calc (2 : ℚ) = 2 ^ (1 : Int) := (zpow_one 2).symm
      _ ≤ 2 ^ lastPlace q := zpow_le_zpow_right₀ (by norm_num) (lastPlace_pos h)
  calc (2 : ℚ) ^ 53 = 2 ^ 52 * 2 := by norm_num
    _ ≤ |(roundEven (q / 2 ^ lastPlace q) : ℚ)| * 2 ^ lastPlace q :=
      mul_le_mul hround htwo (by norm_num) (abs_nonneg _)
    _ = |ofRat q| := by rw [ofRat, abs_mul, abs_of_pos hscale]

/-- An integer of at most 53 binary digits is the double of no other integer. -/
theorem ofRat_eq_small {i v : Int} (hi : |i| < 2 ^ 53) (h : ofRat v = ofRat i) : v = i := by
  rw [ofRat_intCast hi] at h
  by_cases hv : |v| < 2 ^ 53
  · rw [ofRat_intCast hv] at h
    exact_mod_cast h
  · have hbig : (2 : ℚ) ^ 53 ≤ |(v : ℚ)| := by exact_mod_cast not_lt.mp hv
    have hround := le_abs_ofRat hbig
    rw [h] at hround
    have : (2 : Int) ^ 53 ≤ |i| := by exact_mod_cast hround
    omega

end Binary64
