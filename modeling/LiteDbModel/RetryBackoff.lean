import Mathlib

/-!
# Back-off between the attempts of a transaction

The Rust and the Go runtime double the base duration with a shift, each in the integers of its own
duration. What a shift beyond the word does is the build's choice in Rust.
-/

namespace LiteDb.RetryBackoff
set_option autoImplicit false

/-! ## The retry loop -/

/-- How an attempt ends; a lost connection at `COMMIT` is not retried either. -/
inductive AttemptEnd
  | committed
  | retryable
  | failed
  deriving DecidableEq

inductive RunEnd
  | returned
  | raised
  | panicked
  deriving DecidableEq

/-- The loop from an attempt on, with the back-offs it computes; `left` attempts may follow. -/
def retryLoop (backoff : Nat → Option Int) (ends : Nat → AttemptEnd) :
    Nat → Nat → List Int × RunEnd
  | left, attempt =>
    match ends attempt with
    | .committed => ([], .returned)
    | .failed => ([], .raised)
    | .retryable =>
      match left with
      | 0 => ([], .raised)
      | left + 1 =>
        match backoff attempt with
        | none => ([], .panicked)
        | some delay =>
          let rest := retryLoop backoff ends left (attempt + 1)
          (delay :: rest.1, rest.2)

/-- How many attempts are retried from one on. -/
def retries (ends : Nat → AttemptEnd) : Nat → Nat → Nat
  | 0, _ => 0
  | left + 1, attempt =>
    if ends attempt = .retryable then retries ends left (attempt + 1) + 1 else 0

/-- The back-offs of a transaction of so many attempts, which end as given. -/
def runWith (limit : Nat) (backoff : Nat → Option Int) (ends : Nat → AttemptEnd) :
    List Int × RunEnd := retryLoop backoff ends (limit - 1) 1

/-! ## The two delays -/

namespace Rust

structure TransactionOptions where
  retryOnError : Bool
  retryLimit : Nat
  retryDurationMs : Nat

def TransactionOptions.limit (options : TransactionOptions) : Nat :=
  if options.retryOnError then max 1 options.retryLimit else 1

/-- `1u64 << n`: beyond the word a checked build panics, any other takes the count modulo 64. -/
def shl (overflowChecks : Bool) (n : Nat) : Option Nat :=
  if n < 64 then some (2 ^ n) else if overflowChecks then none else some (2 ^ (n % 64))

def maxMillis : Nat := 2 ^ 64 - 1

/-- `retry_duration_ms.saturating_mul(1u64 << (attempt - 1))`, in milliseconds. -/
def backoff (overflowChecks : Bool) (options : TransactionOptions) (attempt : Nat) : Option Int :=
  match shl overflowChecks (attempt - 1) with
  | none => none
  | some factor => some ((min (options.retryDurationMs * factor) maxMillis : Nat) : Int)

def run (overflowChecks : Bool) (options : TransactionOptions) (ends : Nat → AttemptEnd) :
    List Int × RunEnd := runWith options.limit (backoff overflowChecks options) ends

end Rust

namespace Go

structure TransactionOptions where
  retryOnError : Bool
  retryLimit : Int
  retryDurationMs : Int

def TransactionOptions.limit (options : TransactionOptions) : Nat :=
  if options.retryOnError then
    if options.retryLimit < 1 then 1 else options.retryLimit.toNat
  else 1

/-- An `int64` result. -/
def wrap (i : Int) : Int := i.bmod (2 ^ 64)

/-- `int64(1) << n` -/
def shl (n : Nat) : Int := if n < 64 then wrap (2 ^ n) else 0

def millisecond : Int := 1000000

def minDuration : Int := -2 ^ 63

def maxDuration : Int := 2 ^ 63 - 1

/-- `time.Duration(ms) * time.Millisecond * time.Duration(1 << (attempt - 1))`, in nanoseconds. -/
def backoff (options : TransactionOptions) (attempt : Nat) : Option Int :=
  some (wrap (wrap (options.retryDurationMs * millisecond) * shl (attempt - 1)))

def run (options : TransactionOptions) (ends : Nat → AttemptEnd) : List Int × RunEnd :=
  runWith options.limit (backoff options) ends

end Go

/-! ## What the delays are to be -/

/-- The base, doubled for each attempt before, up to the longest duration. -/
def capped (base longest : Int) (attempt : Nat) : Int := min (base * 2 ^ (attempt - 1)) longest

/-- No back-off panics, and each is the capped one. -/
def Exact (ideal : Nat → Int) (run : List Int × RunEnd) : Prop :=
  run.2 ≠ .panicked ∧ ∀ i delay, run.1[i]? = some delay → delay = ideal (i + 1)

/-- Every back-off of a run is the one it is to be exactly when each one due is. -/
theorem retryLoop_exact {backoff : Nat → Option Int} {ideal : Nat → Int} (ends : Nat → AttemptEnd)
    (left attempt : Nat) :
    ((retryLoop backoff ends left attempt).2 ≠ .panicked ∧
      ∀ i delay, (retryLoop backoff ends left attempt).1[i]? = some delay →
        delay = ideal (attempt + i)) ↔
      ∀ i < retries ends left attempt, backoff (attempt + i) = some (ideal (attempt + i)) := by
  induction left generalizing attempt with
  | zero =>
    unfold retryLoop retries
    cases ends attempt <;> simp
  | succ left ih =>
    unfold retryLoop retries
    cases hend : ends attempt with
    | committed => simp
    | failed => simp
    | retryable =>
      simp only [if_true]
      cases hb : backoff attempt with
      | none =>
        simp only [ne_eq, not_true_eq_false, false_and, false_iff]
        intro h
        have hzero := h 0 (Nat.succ_pos _)
        rw [Nat.add_zero, hb] at hzero
        cases hzero
      | some delay =>
        dsimp only
        constructor
        · rintro ⟨hend', hdelays⟩ i hi
          cases i with
          | zero =>
            rw [Nat.add_zero, hb, hdelays 0 delay rfl, Nat.add_zero]
          | succ i =>
            have hrest := (ih (attempt + 1)).mp ⟨hend', fun j d hj => by
              rw [hdelays (j + 1) d hj]
              congr 1
              omega⟩ i (by omega)
            rw [show attempt + (i + 1) = attempt + 1 + i by omega]
            exact hrest
        · intro h
          have hrest := (ih (attempt + 1)).mpr fun i hi => by
            rw [show attempt + 1 + i = attempt + (i + 1) by omega]
            exact h (i + 1) (by omega)
          refine ⟨hrest.1, fun i d hi => ?_⟩
          cases i with
          | zero =>
            have hzero := h 0 (Nat.succ_pos _)
            rw [Nat.add_zero, hb] at hzero
            cases hzero
            cases hi
            rfl
          | succ i =>
            rw [hrest.2 i d hi]
            congr 1
            omega

/-- The number of attempts that are retried. -/
def retried (limit : Nat) (ends : Nat → AttemptEnd) : Nat := retries ends (limit - 1) 1

theorem runWith_exact {backoff : Nat → Option Int} {ideal : Nat → Int} (limit : Nat)
    (ends : Nat → AttemptEnd) : Exact ideal (runWith limit backoff ends) ↔
      ∀ i < retried limit ends, backoff (i + 1) = some (ideal (i + 1)) := by
  have hloop := @retryLoop_exact backoff ideal ends (limit - 1) 1
  simp only [Nat.add_comm 1] at hloop
  exact hloop

/-! ## When they are -/

namespace Rust
variable (overflowChecks : Bool) (options : TransactionOptions)

theorem backoff_eq {n factor : Nat} (h : shl overflowChecks n = some factor) :
    backoff overflowChecks options (n + 1) =
      some ((min (options.retryDurationMs * factor) maxMillis : Nat) : Int) := by
  rw [backoff, Nat.add_sub_cancel, h]

theorem capped_eq (n : Nat) : capped options.retryDurationMs maxMillis (n + 1) =
    ((min (options.retryDurationMs * 2 ^ n) maxMillis : Nat) : Int) := by
  rw [capped, Nat.add_sub_cancel]
  push_cast
  rfl

/-- The 65th back-off is the first that is not shifted as it should be. -/
theorem backoffs_iff (m : Nat) :
    (∀ i < m, backoff overflowChecks options (i + 1) =
      some (capped options.retryDurationMs maxMillis (i + 1))) ↔
      m ≤ 64 ∨ overflowChecks = false ∧
        (options.retryDurationMs = 0 ∨ maxMillis ≤ options.retryDurationMs) := by
  constructor
  · intro h
    by_contra hno
    rw [not_or, not_le] at hno
    have h65 := h 64 hno.1
    cases hchecks : overflowChecks with
    | true =>
      rw [hchecks] at h65
      cases h65
    | false =>
      rw [hchecks] at h65
      apply hno.2
      refine ⟨hchecks, ?_⟩
      have hshl : shl false 64 = some 1 := rfl
      rw [backoff_eq false options hshl, capped_eq, mul_one] at h65
      have heq := Int.ofNat_inj.mp (Option.some.inj h65)
      unfold maxMillis at heq ⊢
      omega
  · intro h i hi
    rw [capped_eq]
    by_cases hword : i < 64
    · exact backoff_eq overflowChecks options (if_pos hword)
    rcases h with hm | ⟨rfl, hbase⟩
    · omega
    have hshl : shl false i = some (2 ^ (i % 64)) := by
      rw [shl, if_neg hword]
      rfl
    rw [backoff_eq false options hshl]
    rcases hbase with hzero | hlong
    · rw [hzero, Nat.zero_mul, Nat.zero_mul]
    · have hsat : ∀ n, min (options.retryDurationMs * 2 ^ n) maxMillis = maxMillis := by
        intro n
        apply Nat.min_eq_right
        exact hlong.trans (Nat.le_mul_of_pos_right _ (Nat.two_pow_pos n))
      rw [hsat, hsat]

end Rust

namespace Go
variable (options : TransactionOptions)

/-- The base, doubled for each attempt before, with no bound. -/
def doubled (n : Nat) : Int := options.retryDurationMs * millisecond * 2 ^ n

/-- The shift and both products are those of the integers, wrapped. -/
theorem backoff_eq (n : Nat) : backoff options (n + 1) = some (wrap (doubled options n)) := by
  have hshl : wrap (shl n) = wrap (2 ^ n) := by
    unfold shl
    split
    · exact Int.bmod_bmod
    · next h =>
      have hdvd : ((2 ^ 64 : Nat) : Int) ∣ 2 ^ n := by
        have hle : 64 ≤ n := not_lt.mp h
        exact_mod_cast pow_dvd_pow 2 hle
      unfold wrap
      rw [Int.zero_bmod, Int.bmod_eq_zero_of_dvd hdvd]
  rw [backoff, Nat.add_sub_cancel, doubled]
  refine congrArg some ?_
  calc wrap (wrap (options.retryDurationMs * millisecond) * shl n)
      = wrap (options.retryDurationMs * millisecond * shl n) := Int.bmod_mul_bmod
    _ = wrap (options.retryDurationMs * millisecond * wrap (shl n)) := Int.mul_bmod_bmod.symm
    _ = wrap (options.retryDurationMs * millisecond * wrap (2 ^ n)) := by rw [hshl]
    _ = wrap (options.retryDurationMs * millisecond * 2 ^ n) := Int.mul_bmod_bmod

/-- What fits is not changed; the longest duration is odd, which no delay is. -/
theorem wrap_eq_min_iff {x : Int} (heven : 2 ∣ x) :
    wrap x = min x maxDuration ↔ minDuration ≤ x ∧ x ≤ maxDuration := by
  have hdef : x.bmod (2 ^ 64) =
      if x % 18446744073709551616 < 9223372036854775808 then x % 18446744073709551616
      else x % 18446744073709551616 - 18446744073709551616 := Int.bmod_def x _
  unfold wrap maxDuration minDuration
  rw [hdef]
  constructor
  · intro h
    split at h <;> omega
  · intro h
    split <;> omega

theorem doubled_even (n : Nat) : 2 ∣ doubled options n := by
  have hms : (2 : Int) ∣ millisecond := by decide
  exact ((hms.mul_left _).mul_right _)

theorem abs_doubled_le {n m : Nat} (h : n ≤ m) : |doubled options n| ≤ |doubled options m| := by
  unfold doubled
  rw [abs_mul, abs_mul _ (2 ^ m), abs_of_nonneg (by positivity : (0 : Int) ≤ 2 ^ n),
    abs_of_nonneg (by positivity : (0 : Int) ≤ 2 ^ m)]
  exact mul_le_mul_of_nonneg_left (pow_le_pow_right₀ (by decide) h) (abs_nonneg _)

/-- The last back-off decides. -/
theorem backoffs_iff (m : Nat) :
    (∀ i < m, backoff options (i + 1) =
      some (capped (options.retryDurationMs * millisecond) maxDuration (i + 1))) ↔
      ∀ last, m = last + 1 → minDuration ≤ doubled options last ∧
        doubled options last ≤ maxDuration := by
  have hone : ∀ i, backoff options (i + 1) =
      some (capped (options.retryDurationMs * millisecond) maxDuration (i + 1)) ↔
      minDuration ≤ doubled options i ∧ doubled options i ≤ maxDuration := by
    intro i
    rw [backoff_eq, Option.some.injEq, capped, Nat.add_sub_cancel]
    exact wrap_eq_min_iff (doubled_even options i)
  simp only [hone]
  constructor
  · rintro h last rfl
    exact h last (Nat.lt_succ_self _)
  · intro h i hi
    obtain ⟨last, rfl⟩ := Nat.exists_eq_add_of_lt hi
    have hlast := h (i + last) rfl
    have hsign : 0 ≤ doubled options i ↔ 0 ≤ doubled options (i + last) := by
      unfold doubled
      rw [mul_nonneg_iff_of_pos_right (by positivity : (0 : Int) < 2 ^ i),
        mul_nonneg_iff_of_pos_right (by positivity : (0 : Int) < 2 ^ (i + last))]
    have habs := abs_doubled_le options (Nat.le_add_right i last)
    unfold minDuration maxDuration at hlast ⊢
    rcases abs_cases (doubled options i) with ⟨hi', _⟩ | ⟨hi', _⟩
    · rcases abs_cases (doubled options (i + last)) with ⟨hl, _⟩ | ⟨hl, _⟩ <;> omega
    · rcases abs_cases (doubled options (i + last)) with ⟨hl, _⟩ | ⟨hl, _⟩ <;> omega

end Go

/-- Every back-off of a run is the doubled base, up to the longest duration of its runtime: in Rust
as long as 64 attempts are retried at most, or the build does not check shifts and the base is zero
or the longest duration itself; in Go as long as the last one fits its duration. -/
theorem backoff_exact_iff (ends : Nat → AttemptEnd) (overflowChecks : Bool)
    (rust : Rust.TransactionOptions) (go : Go.TransactionOptions) :
    (Exact (capped rust.retryDurationMs Rust.maxMillis) (Rust.run overflowChecks rust ends) ↔
      retried rust.limit ends ≤ 64 ∨ overflowChecks = false ∧
        (rust.retryDurationMs = 0 ∨ Rust.maxMillis ≤ rust.retryDurationMs)) ∧
    (Exact (capped (go.retryDurationMs * Go.millisecond) Go.maxDuration) (Go.run go ends) ↔
      ∀ last, retried go.limit ends = last + 1 →
        Go.minDuration ≤ Go.doubled go last ∧ Go.doubled go last ≤ Go.maxDuration) := by
  constructor
  · exact (runWith_exact rust.limit ends).trans (Rust.backoffs_iff overflowChecks rust _)
  · exact (runWith_exact go.limit ends).trans (Go.backoffs_iff go _)

/-- Attempts that all fail retryably. -/
def alwaysRetryable : Nat → AttemptEnd := fun _ => .retryable

/-- A hundred attempts without any base delay panic in a checked Rust build; with the default base
the 37th back-off of Go is negative. -/
theorem hundred_attempts :
    ¬ Exact (capped 0 Rust.maxMillis) (Rust.run true ⟨true, 100, 0⟩ alwaysRetryable) ∧
    ¬ Exact (capped (200 * Go.millisecond) Go.maxDuration)
      (Go.run ⟨true, 100, 200⟩ alwaysRetryable) := by
  constructor
  · intro h
    exact h.1 (by decide +kernel)
  · intro h
    have h37 := h.2 36 (-4702848726509551616) (by decide +kernel)
    revert h37
    decide +kernel

end LiteDb.RetryBackoff
