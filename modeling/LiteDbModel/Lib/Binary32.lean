import LiteDbModel.Lib.Binary64

/-!
# Numbers of floating-point words

What a word of 64 or 32 bits stands for, and the 32-bit word nearest to one of 64 bits.
-/

set_option autoImplicit false

/-- What a floating-point word stands for. -/
inductive FloatNumber
  | nan
  | inf (negative : Bool)
  | fin (q : ℚ)

namespace Binary64

/-- The least positive double is `2 ^ -lowest`. -/
@[irreducible] def lowest : Nat := 1074

/-- The magnitude of a finite word, in units of `2 ^ -lowest`. -/
def magnitude (w : Word) : Nat := significand w * 2 ^ (max (field w) 1 - 1)

def toRat (w : Word) : ℚ := signed w (significand w) * 2 ^ scale w

def number (w : Word) : FloatNumber :=
  if isFinite w then .fin (toRat w) else if fraction w = 0 then .inf (negative w) else .nan

theorem toRat_eq (w : Word) : toRat w = signed w (magnitude w) / 2 ^ lowest := by
  have hscale : (2 : ℚ) ^ scale w = 2 ^ (max (field w) 1 - 1) / 2 ^ lowest := by
    have hint : scale w = ((max (field w) 1 - 1 : Nat) : Int) - lowest := by
      rw [scale, lowest]
      omega
    rw [hint, zpow_sub₀ (by norm_num), zpow_natCast, zpow_natCast]
  have hsigned : (signed w (magnitude w) : ℚ) =
      signed w (significand w) * 2 ^ (max (field w) 1 - 1) := by
    unfold signed magnitude
    split <;> push_cast <;> ring
  rw [toRat, hscale, hsigned, mul_div_assoc]

theorem natAbs_signed (w : Word) (n : Nat) : (signed w n).natAbs = n := by
  unfold signed
  split <;> simp

theorem field_lt (w : Word) : field w < 2 ^ 11 := Nat.mod_lt _ (by norm_num)

theorem fraction_lt (w : Word) : fraction w < 2 ^ 52 := Nat.mod_lt _ (by norm_num)

/-- The bits are the sign, the exponent field and the fraction. -/
theorem toInt_eq (w : Word) :
    w.toInt = field w * 2 ^ 52 + fraction w - (if negative w then 2 ^ 63 else 0) := by
  have hlt := w.isLt
  unfold negative field fraction
  rw [BitVec.toInt_eq_msb_cond]
  cases hmsb : w.msb with
  | false =>
    have hsmall := BitVec.msb_eq_false_iff_two_mul_lt.mp hmsb
    simp only [Bool.false_eq_true, if_false]
    omega
  | true =>
    have hlarge := BitVec.msb_eq_true_iff_two_mul_ge.mp hmsb
    simp only [if_true]
    omega

/-- No integer but zero has the bits of its own float. -/
theorem toRat_eq_toInt_iff {w : Word} (h : isFinite w = true) : toRat w = w.toInt ↔ w = 0 := by
  constructor
  · intro heq
    have hfield : field w < 2047 := by
      have := field_lt w
      simp only [isFinite, decide_eq_true_eq] at h
      omega
    have hfrac := fraction_lt w
    have hbits := toInt_eq w
    have hunits : signed w (magnitude w) = w.toInt * 2 ^ lowest := by
      rw [toRat_eq, div_eq_iff (by positivity)] at heq
      exact_mod_cast heq
    have habs : significand w * 2 ^ (max (field w) 1 - 1) = w.toInt.natAbs * 2 ^ lowest := by
      have hnat := congrArg Int.natAbs hunits
      rw [Int.natAbs_mul, Int.natAbs_pow] at hnat
      rwa [natAbs_signed] at hnat
    have hsig : significand w < 2 ^ 53 := by
      unfold significand
      split <;> omega
    have hzero : w.toInt = 0 := by
      rcases Nat.lt_or_ge (max (field w) 1 - 1) lowest with hlow | hhigh
      · -- the value is below every bit of the exponent field
        have hshift : (2 : Nat) ^ lowest =
            2 ^ (lowest - (max (field w) 1 - 1)) * 2 ^ (max (field w) 1 - 1) := by
          rw [← pow_add]
          congr 1
          omega
        rw [hshift, ← Nat.mul_assoc] at habs
        have hcut := Nat.eq_of_mul_eq_mul_right (by positivity) habs
        have htwo : 2 ≤ 2 ^ (lowest - (max (field w) 1 - 1)) :=
          (Nat.pow_le_pow_right (n := 2) (by norm_num) (show 1 ≤ lowest - (max (field w) 1 - 1) by omega))
        have hsmall : w.toInt.natAbs < 2 ^ 52 := by nlinarith only [hcut, htwo, hsig]
        have hf0 : field w = 0 := by
          clear hcut habs hshift hunits
          split at hbits <;> omega
        have hneg : negative w = false := by
          by_contra hneg
          rw [if_pos (by simpa using hneg)] at hbits
          omega
        have hself : significand w = w.toInt.natAbs := by
          rw [significand, if_pos hf0]
          rw [hneg, hf0] at hbits
          simp only [Bool.false_eq_true, if_false] at hbits
          omega
        rw [hself] at hcut
        by_contra hne
        have : w.toInt.natAbs * 2 ≤ w.toInt.natAbs * 2 ^ (lowest - (max (field w) 1 - 1)) :=
          Nat.mul_le_mul_left _ htwo
        omega
      · obtain ⟨k, hk⟩ : ∃ k, max (field w) 1 - 1 = lowest + k := ⟨_, (Nat.add_sub_cancel' hhigh).symm⟩
        rw [hk, pow_add, Nat.mul_comm (2 ^ lowest), ← Nat.mul_assoc] at habs
        have hcut := Nat.eq_of_mul_eq_mul_right (by positivity) habs
        have hnormal : significand w = fraction w + 2 ^ 52 :=
          if_neg (by unfold lowest at hk; omega)
        have hk11 : k < 12 := by
          by_contra hbig
          have hpow : 2 ^ 12 ≤ 2 ^ k := Nat.pow_le_pow_right (by norm_num) (by omega)
          have hle : 2 ^ 52 * 2 ^ 12 ≤ significand w * 2 ^ k := Nat.mul_le_mul (by omega) hpow
          split at hbits <;> omega
        have hfk : field w = 1075 + k := by unfold lowest at hk; omega
        rw [hnormal] at hcut
        clear habs hunits heq hk
        split at hbits <;> interval_cases k <;> omega
    exact BitVec.eq_of_toInt_eq (hzero.trans BitVec.toInt_zero.symm)
  · rintro rfl
    simp [toRat, signed, significand, field, fraction]

end Binary64

namespace Binary32

abbrev Word := BitVec 32

def negative (x : Word) : Bool := x.msb

def field (x : Word) : Nat := x.toNat / 2 ^ 23 % 2 ^ 8

def fraction (x : Word) : Nat := x.toNat % 2 ^ 23

def isFinite (x : Word) : Bool := field x ≠ 255

def significand (x : Word) : Nat := if field x = 0 then fraction x else fraction x + 2 ^ 23

def scale (x : Word) : Int := (max (field x) 1 : Nat) - 150

def signed (x : Word) (n : Nat) : Int := if negative x then -(n : Int) else n

/-- The magnitude of a finite word, in units of `2 ^ -149`. -/
def magnitude (x : Word) : Nat := significand x * 2 ^ (max (field x) 1 - 1)

def toRat (x : Word) : ℚ := signed x (significand x) * 2 ^ scale x

def number (x : Word) : FloatNumber :=
  if isFinite x then .fin (toRat x) else if fraction x = 0 then .inf (negative x) else .nan

/-- Where the last of 24 binary digits of a number stands, of which the lowest place is given. -/
def place (low n : Nat) : Nat := max low (n.size - 24)

/-- A word of a sign and the bits of a magnitude, the largest of which are infinite. -/
def ofBits (negative : Bool) (bits : Nat) : Word :=
  BitVec.ofNat 32 ((if negative then 2 ^ 31 else 0) + min bits (255 * 2 ^ 23))

/-- The least 32-bit float is `2 ^ gap` least doubles. -/
@[irreducible] def gap : Nat := 925

/-- The word nearest to one of 64 bits. -/
def ofBinary64 (w : Binary64.Word) : Word :=
  if Binary64.isFinite w then
    let e := place gap (Binary64.magnitude w)
    ofBits (Binary64.negative w)
      ((e - gap) * 2 ^ 23 + Binary64.nearest (Binary64.magnitude w, 2 ^ e))
  else if Binary64.fraction w = 0 then ofBits (Binary64.negative w) (255 * 2 ^ 23)
  else BitVec.ofNat 32 (255 * 2 ^ 23 + 2 ^ 22)

theorem lowest_eq : Binary64.lowest = gap + 149 := by
  rw [Binary64.lowest, gap]

theorem toRat_eq (x : Word) : toRat x = signed x (magnitude x) / 2 ^ 149 := by
  have hscale : (2 : ℚ) ^ scale x = 2 ^ (max (field x) 1 - 1) / 2 ^ 149 := by
    have hint : scale x = ((max (field x) 1 - 1 : Nat) : Int) - (149 : Nat) := by
      rw [scale]
      omega
    rw [hint, zpow_sub₀ (by norm_num), zpow_natCast, zpow_natCast]
  have hsigned : (signed x (magnitude x) : ℚ) =
      signed x (significand x) * 2 ^ (max (field x) 1 - 1) := by
    unfold signed magnitude
    split <;> push_cast <;> ring
  rw [toRat, hscale, hsigned, mul_div_assoc]

section ofBits
variable (negative : Bool) {bits : Nat}

theorem toNat_ofBits (h : bits ≤ 255 * 2 ^ 23) :
    (ofBits negative bits).toNat = (if negative then 2 ^ 31 else 0) + bits := by
  rw [ofBits, BitVec.toNat_ofNat, Nat.min_eq_left h]
  cases negative <;> simp only [if_true, Bool.false_eq_true, if_false] <;> omega

theorem negative_ofBits (h : bits ≤ 255 * 2 ^ 23) :
    Binary32.negative (ofBits negative bits) = negative := by
  have hnat := toNat_ofBits negative h
  unfold Binary32.negative
  cases negative with
  | true =>
    rw [BitVec.msb_eq_true_iff_two_mul_ge, hnat, if_pos rfl]
    omega
  | false =>
    rw [BitVec.msb_eq_false_iff_two_mul_lt, hnat]
    simp only [Bool.false_eq_true, if_false]
    omega

theorem field_ofBits (h : bits ≤ 255 * 2 ^ 23) : field (ofBits negative bits) = bits / 2 ^ 23 := by
  rw [field, toNat_ofBits negative h]
  cases negative <;> simp only [if_true, Bool.false_eq_true, if_false] <;> omega

theorem fraction_ofBits (h : bits ≤ 255 * 2 ^ 23) :
    fraction (ofBits negative bits) = bits % 2 ^ 23 := by
  rw [fraction, toNat_ofBits negative h]
  cases negative <;> simp only [if_true, Bool.false_eq_true, if_false] <;> omega

/-- Bits that count the units of a place have that many of them. -/
theorem magnitude_ofBits {e n : Nat} (hn : n < 2 ^ 24) (hplace : e = 0 ∨ 2 ^ 23 ≤ n)
    (he : e < 254) :
    isFinite (ofBits negative (e * 2 ^ 23 + n)) = true ∧
      magnitude (ofBits negative (e * 2 ^ 23 + n)) = n * 2 ^ e := by
  have hbits : e * 2 ^ 23 + n ≤ 255 * 2 ^ 23 := by omega
  have hfield := field_ofBits negative hbits
  have hfraction := fraction_ofBits negative hbits
  rw [isFinite, magnitude, significand, hfield, hfraction]
  rcases Nat.lt_or_ge n (2 ^ 23) with hsmall | hlarge
  · -- a subnormal word
    obtain rfl : e = 0 := by omega
    have hzero : (0 * 2 ^ 23 + n) / 2 ^ 23 = 0 := by omega
    rw [hzero]
    refine ⟨rfl, ?_⟩
    rw [if_pos rfl, Nat.zero_mul, Nat.zero_add, Nat.mod_eq_of_lt hsmall]
    rfl
  · have hone : (e * 2 ^ 23 + n) / 2 ^ 23 = e + 1 := by omega
    rw [hone, if_neg (by omega)]
    constructor
    · simp only [decide_eq_true_eq, ne_eq]
      omega
    · have hmax : max (e + 1) 1 - 1 = e := by omega
      have hsig : (e * 2 ^ 23 + n) % 2 ^ 23 + 2 ^ 23 = n := by omega
      rw [hmax, hsig]

end ofBits

theorem field_lt (x : Word) : field x < 2 ^ 8 := Nat.mod_lt _ (by norm_num)

theorem significand_lt (x : Word) : significand x < 2 ^ 24 := by
  have hfraction : fraction x < 2 ^ 23 := Nat.mod_lt _ (by norm_num)
  unfold significand
  split <;> omega

theorem nearest_mul (n : Nat) {d : Nat} (hd : 0 < d) : Binary64.nearest (n * d, d) = n := by
  rw [Binary64.nearest]
  simp only [Nat.mul_mod_left, Nat.mul_zero, Nat.mul_div_cancel n hd]
  rw [if_pos (Or.inl hd)]

theorem size_mul_two_pow {n : Nat} (hn : n ≠ 0) (t : Nat) : (n * 2 ^ t).size = n.size + t := by
  rw [← Nat.shiftLeft_eq, Nat.size_shiftLeft hn]

/-- A magnitude of a 32-bit word is a whole number of units of its place. -/
theorem exists_units {s t : Nat} (hs : s < 2 ^ 24) :
    ∃ n, s * 2 ^ t = n * 2 ^ place 0 (s * 2 ^ t) ∧ n < 2 ^ 24 ∧
      (place 0 (s * 2 ^ t) = 0 ∨ 2 ^ 23 ≤ n) ∧ place 0 (s * 2 ^ t) ≤ t := by
  by_cases hzero : s = 0
  · subst hzero
    exact ⟨0, by simp, by norm_num, Or.inl (by simp [place]), by simp [place]⟩
  have hsize : s.size ≤ 24 := Nat.size_le.mpr hs
  have hplace : place 0 (s * 2 ^ t) = s.size + t - 24 := by
    rw [place, size_mul_two_pow hzero]
    omega
  rw [hplace]
  obtain ⟨d, hd⟩ : ∃ d, t = s.size + t - 24 + d := ⟨_, (Nat.add_sub_cancel' (by omega)).symm⟩
  refine ⟨s * 2 ^ d, ?_, ?_, ?_, by omega⟩
  · rw [Nat.mul_assoc, ← pow_add, Nat.add_comm d, ← hd]
  · rw [← Nat.size_le, size_mul_two_pow hzero]
    omega
  · by_cases h : s.size + t - 24 = 0
    · exact Or.inl h
    · right
      rw [← Nat.lt_size, size_mul_two_pow hzero]
      omega

theorem place_shift (low n : Nat) : place low (n * 2 ^ low) = place 0 n + low := by
  by_cases hn : n = 0
  · subst hn
    simp [place]
  · rw [place, place, size_mul_two_pow hn]
    omega

theorem signed_mul (w : Binary64.Word) (n m : Nat) :
    Binary64.signed w (n * m) = Binary64.signed w n * m := by
  unfold Binary64.signed
  split <;> push_cast <;> ring

theorem natAbs_signed (x : Word) (n : Nat) : (signed x n).natAbs = n := by
  unfold signed
  split <;> simp

/-- Equal values have magnitudes that differ by the units. -/
theorem magnitude_of_toRat {x : Word} {w : Binary64.Word} (h : toRat x = Binary64.toRat w) :
    Binary64.magnitude w = magnitude x * 2 ^ gap := by
  rw [toRat_eq, Binary64.toRat_eq, lowest_eq, div_eq_div_iff (by positivity) (by positivity),
    pow_add, ← mul_assoc] at h
  have hunits := mul_right_cancel₀ (by positivity) h
  have hint : signed x (magnitude x) * 2 ^ gap = Binary64.signed w (Binary64.magnitude w) := by
    exact_mod_cast hunits
  have hnat := congrArg Int.natAbs hint
  rw [Int.natAbs_mul, natAbs_signed, Int.natAbs_pow, Binary64.natAbs_signed] at hnat
  exact hnat.symm

/-- A finite double with the value of a 32-bit word is rounded to one with that value. -/
theorem number_ofBinary64_finite {x : Word} {w : Binary64.Word} (hw : Binary64.isFinite w = true)
    (hx : isFinite x = true) (h : toRat x = Binary64.toRat w) :
    number (ofBinary64 w) = .fin (Binary64.toRat w) := by
  have hmag := magnitude_of_toRat h
  have ht : max (field x) 1 - 1 < 254 := by
    have hlt := field_lt x
    simp only [isFinite, decide_eq_true_eq] at hx
    omega
  obtain ⟨n, hn, hn24, hplace, hle⟩ := exists_units (t := max (field x) 1 - 1) (significand_lt x)
  rw [← magnitude] at hn hplace hle
  generalize hE : place 0 (magnitude x) = e at hn hplace hle
  have hbits : ofBinary64 w = ofBits (Binary64.negative w) (e * 2 ^ 23 + n) := by
    rw [ofBinary64, if_pos hw]
    simp only [hmag, place_shift, hE, Nat.add_sub_cancel]
    rw [hn, Nat.mul_assoc, ← pow_add, nearest_mul n (by positivity)]
  obtain ⟨hfin, hmagnitude⟩ :=
    magnitude_ofBits (Binary64.negative w) hn24 hplace (by omega)
  have hneg := negative_ofBits (Binary64.negative w) (show e * 2 ^ 23 + n ≤ 255 * 2 ^ 23 by omega)
  rw [← hbits] at hfin hmagnitude hneg
  have hsigned : signed (ofBinary64 w) (magnitude x) = Binary64.signed w (magnitude x) := by
    rw [signed, Binary64.signed, hneg]
  rw [number, if_pos hfin, toRat_eq, hmagnitude, ← hn, hsigned, Binary64.toRat_eq, hmag, signed_mul,
    lowest_eq, pow_add]
  push_cast
  rw [mul_comm ((2 : ℚ) ^ gap), mul_div_mul_right _ _ (by positivity)]

/-- A double that is a 32-bit float is rounded to one with its value. -/
theorem number_ofBinary64_iff (w : Binary64.Word) :
    number (ofBinary64 w) = Binary64.number w ↔ ∃ x, number x = Binary64.number w := by
  refine ⟨fun h => ⟨_, h⟩, ?_⟩
  rintro ⟨x, hx⟩
  by_cases hw : Binary64.isFinite w = true
  · rw [Binary64.number, if_pos hw] at hx ⊢
    have hfin : isFinite x = true := by
      by_contra hinf
      rw [number, if_neg hinf] at hx
      split at hx <;> cases hx
    rw [number, if_pos hfin] at hx
    exact number_ofBinary64_finite hw hfin (FloatNumber.fin.inj hx)
  · rw [ofBinary64, if_neg hw, Binary64.number, if_neg hw]
    split
    · have hfield := field_ofBits (Binary64.negative w) (le_refl (255 * 2 ^ 23))
      have hfraction := fraction_ofBits (Binary64.negative w) (le_refl (255 * 2 ^ 23))
      have hneg := negative_ofBits (Binary64.negative w) (le_refl (255 * 2 ^ 23))
      rw [number, isFinite, hfield, hfraction, hneg]
      rfl
    · rfl

/-- The double 0.1 is rounded to the float 0.1. -/
example : ofBinary64 0x3FB999999999999A = 0x3DCCCCCD := by decide +kernel

end Binary32
