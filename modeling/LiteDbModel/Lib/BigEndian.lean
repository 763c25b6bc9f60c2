import Mathlib.Algebra.Order.Group.Nat
import Mathlib.Algebra.Ring.Nat

/-!
# Big-endian numbers

The most significant byte first, in a given number of bytes.
-/

namespace BigEndian
set_option autoImplicit false

/-- The last `k` bytes of a number. -/
def bytes : Nat → Nat → List UInt8
  | 0, _ => []
  | k + 1, n => bytes k (n / 256) ++ [UInt8.ofNat n]

def value (b : List UInt8) : Nat := b.foldl (fun v x => v * 256 + x.toNat) 0

@[simp] theorem length_bytes (k n : Nat) : (bytes k n).length = k := by
  induction k generalizing n with
  | zero => rfl
  | succ k ih => simp [bytes, ih]

theorem value_append_singleton (b : List UInt8) (x : UInt8) :
    value (b ++ [x]) = value b * 256 + x.toNat := by
  simp [value]

theorem value_bytes (k n : Nat) : value (bytes k n) = n % 256 ^ k := by
  induction k generalizing n with
  | zero => rw [pow_zero, Nat.mod_one]; rfl
  | succ k ih =>
    have hmod : n % 256 ^ (k + 1) = n % 256 + 256 * (n / 256 % 256 ^ k) := by
      rw [Nat.pow_succ', Nat.mod_mul]
    rw [bytes, value_append_singleton, ih, UInt8.toNat_ofNat', hmod]
    omega

theorem value_bytes_of_lt {k n : Nat} (h : n < 256 ^ k) : value (bytes k n) = n := by
  rw [value_bytes, Nat.mod_eq_of_lt h]

/-- A word of whole bytes. -/
def word {w : Nat} (x : BitVec w) : List UInt8 := bytes (w / 8) x.toNat

/-- What a word of whole bytes is read as. -/
def read (w : Nat) (b : List UInt8) : Option (BitVec w) :=
  if b.length = w / 8 then some (BitVec.ofNat w (value b)) else none

theorem length_word {w : Nat} (x : BitVec w) : (word x).length = w / 8 := length_bytes _ _

theorem read_word {w : Nat} (h : w % 8 = 0) (x : BitVec w) : read w (word x) = some x := by
  have hlt : x.toNat < 256 ^ (w / 8) := by
    have hpow : 256 ^ (w / 8) = 2 ^ w := by
      rw [show 256 = 2 ^ 8 from rfl, ← pow_mul]
      congr 1
      omega
    rw [hpow]
    exact x.isLt
  rw [read, if_pos (length_word x), word, value_bytes_of_lt hlt, BitVec.ofNat_toNat,
    BitVec.setWidth_eq]

theorem read_other {w : Nat} {b : List UInt8} (h : b.length ≠ w / 8) : read w b = none := if_neg h

end BigEndian
