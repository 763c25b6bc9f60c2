import LiteDbModel.PgParams

/-!
# Values that fit their slots

What is written for a parameter is read as the parameter where it fits the type of its slot. An
array ends with its first failure.
-/

namespace LiteDb.PgParams
set_option autoImplicit false
open Binary64 (Word)

/-! ## The client library's behaviour -/

/-- The elements that are written before one fails. -/
def writeCells : List Outcome → Except Outcome (List (Option (List UInt8)))
  | [] => .ok []
  | .null :: os => (writeCells os).map (none :: ·)
  | .bytes b :: os =>
    if b.length < 2 ^ 31 then (writeCells os).map (some b :: ·) else .error .error
  | .error :: _ => .error .error
  | .panic :: _ => .error .panic

def writeArray (member : ScalarType) (os : List Outcome) : Outcome :=
  match writeCells os with
  | .ok cells => .bytes (arrayBytes member cells)
  | .error failure => failure

def IsI32 (n : Int) : Prop := -2 ^ 31 ≤ n ∧ n < 2 ^ 31

instance (n : Int) : Decidable (IsI32 n) := inferInstanceAs (Decidable (_ ∧ _))

/-- Every type of Rust writes its own bytes, whatever the type of the slot. -/
structure Documented (client : Client) (named : Calendar) : Prop where
  bool : ∀ b ty, client.toSql (.bool b) ty = .bytes [if b then 1 else 0]
  i16 : ∀ x ty, client.toSql (.i16 x) ty = .bytes (BigEndian.word x)
  i32 : ∀ x ty, client.toSql (.i32 x) ty = .bytes (BigEndian.word x)
  i64 : ∀ x ty, client.toSql (.i64 x) ty = .bytes (BigEndian.word x)
  f32 : ∀ x ty, client.toSql (.f32 x) ty = .bytes (BigEndian.word x)
  f64 : ∀ x ty, client.toSql (.f64 x) ty = .bytes (BigEndian.word x)
  string : ∀ s ty, client.toSql (.string s) ty = .bytes (utf8 s.toList)
  decimal : ∀ w d, client.tryFrom w = some d →
    ∃ b, client.toSql (.decimal d) (.scalar .NUMERIC) = .bytes b ∧ b.length < 2 ^ 31 ∧
      readNumeric b = some (.fin d.value)
  dateTime : ∀ micros ty, client.toSql (.dateTime micros) ty =
    if IsI64 micros then .bytes (BigEndian.word (BitVec.ofInt 64 micros)) else .error
  date : ∀ days ty, client.toSql (.date days) ty =
    if IsI32 days then .bytes (BigEndian.word (BitVec.ofInt 32 days)) else .error
  slice_scalar : ∀ elems t, client.slice elems (.scalar t) = .panic
  slice_array : ∀ elems member, client.slice elems (.array member) =
    if elems.length < 2 ^ 31 then writeArray member (elems.map (· (.scalar member))) else .error
  parseDateTime : ∀ s micros, client.parseDateTime s = some micros →
    named .TIMESTAMP s = some micros
  midnight : ∀ s days, client.parseDate s = some days →
    named .TIMESTAMP s = some (days * microsPerDay)
  parseDate : ∀ s days, client.parseDate s = some days → named .DATE s = some days

/-- What is written is null for null, an error, or the value's own bytes. -/
def Right (named : Calendar) (ty : PgType) (v : PgParam) : Outcome → Prop
  | .null => v = .Null
  | .bytes b => EncodesIn named ty v b
  | .error => True
  | .panic => False

/-! ## The values that fit -/

/-- The pair is inside the text's characters and reads as a number. -/
def PairReads (hex : List UInt8) (i : Nat) : Prop :=
  ∃ pair x, pairAt hex i = some pair ∧ fromStrRadix16 pair = some x

def PairMalformed (hex : List UInt8) (i : Nat) : Prop :=
  ∃ pair, pairAt hex i = some pair ∧ fromStrRadix16 pair = none

/-- Without its hyphens the text has not 32 bytes, or some pair of them is no number and those
before it are. -/
def UuidRejected (s : String) : Prop :=
  (hexOf s).length ≠ 32 ∨
    ∃ i < 16, PairMalformed (hexOf s) i ∧ ∀ j < i, PairReads (hexOf s) j

/-- Some pair of bytes is cut out of a character and those before it are numbers. -/
def UuidPanics (s : String) : Prop :=
  (hexOf s).length = 32 ∧
    ∃ i < 16, pairAt (hexOf s) i = none ∧ ∀ j < i, PairReads (hexOf s) j

section Fits
variable (client : Client) (named : Calendar)

/-- A value that the driver refuses for a type. -/
def Rejected (t : ScalarType) (v : PgParam) : Prop :=
  match t, v with
  | .NUMERIC, .Float w => client.tryFrom w = none
  | .UUID, .Str s => UuidRejected s
  | .TIMESTAMP, .Str s | .TIMESTAMPTZ, .Str s =>
    ∀ micros, client.moment s = some micros → ¬ IsI64 micros
  | .DATE, .Str s => ∀ days, client.parseDate s = some days → ¬ IsI32 days
  | _, _ => False

def IntFits (n : Int) : ScalarType → Prop
  | .INT2 => -2 ^ 15 ≤ n ∧ n < 2 ^ 15
  | .INT4 => -2 ^ 31 ≤ n ∧ n < 2 ^ 31
  | .INT8 | .TEXT | .VARCHAR | .BPCHAR | .UNKNOWN => True
  | .FLOAT8 | .NUMERIC => n = 0
  | _ => False

def FloatFits (w : Word) : ScalarType → Prop
  | .FLOAT8 => True
  | .FLOAT4 => ∃ x, Binary32.number x = Binary64.number w
  | .NUMERIC => ∀ d, client.tryFrom w = some d → Binary64.number w = .fin d.value
  | .INT8 => w = 0
  | _ => False

def StrFits (s : String) : ScalarType → Prop
  | .TEXT | .VARCHAR | .BPCHAR | .UNKNOWN | .TIMESTAMP | .DATE => True
  | .UUID => (uuidOf s).isSome = true
  | .TIMESTAMPTZ => ∀ micros, client.moment s = some micros → named .TIMESTAMPTZ s = some micros
  | _ => False

/-- The values of a type that the driver writes as it should: null, an integer of the range or any
in a slot of text, a double where it is no other number there, a text of the type. -/
def Fits (t : ScalarType) (v : PgParam) : Prop :=
  match v with
  | .Null => True
  | .Bool _ => t = .BOOL
  | .Int n _ => IntFits n t
  | .Float w => FloatFits client w t
  | .Str s => StrFits client named s t
  | .Array _ => False

/-- An element that ends its array with an error: a refused one, or a text of 2 ^ 31 bytes. -/
def Stops (t : ScalarType) (v : PgParam) : Prop :=
  Rejected client t v ∨
    ∃ s, v = .Str s ∧ t ≠ .UUID ∧ t ≠ .TIMESTAMP ∧ t ≠ .TIMESTAMPTZ ∧ t ≠ .DATE ∧
      2 ^ 31 ≤ (utf8 s.toList).length

/-- An array among the elements, or a uuid's text that is cut inside a character. -/
def Panics (t : ScalarType) (v : PgParam) : Prop :=
  (∃ elems, v = .Array elems) ∨ t = .UUID ∧ ∃ s, v = .Str s ∧ UuidPanics s

/-- A value for a slot: for a scalar one that is refused or fits; for an array a null, or a list
that is too long, or that is refused before anything panics, or of which every element is refused
or fits. -/
def FitsSlot (ty : PgType) (v : PgParam) : Prop :=
  match ty with
  | .scalar t => Rejected client t v ∨ Fits client named t v
  | .array member => v = .Null ∨ ∃ elems, v = .Array elems ∧ (2 ^ 31 ≤ elems.length ∨
      (∃ before e after, elems = before ++ e :: after ∧ Stops client member e ∧
        ∀ b ∈ before, ¬ Panics member b) ∨
      ∀ e ∈ elems, Rejected client member e ∨ Fits client named member e)

end Fits

/-! ## Numbers -/

theorem fits_ofInt {w : Nat} (hw : 0 < w) (n : Int) :
    (BitVec.ofInt w n).toInt = n ↔ -2 ^ (w - 1) ≤ n ∧ n < 2 ^ (w - 1) := by
  constructor
  · intro h
    have hle := BitVec.le_toInt (BitVec.ofInt w n)
    have hlt := BitVec.toInt_lt (x := BitVec.ofInt w n)
    rw [h] at hle hlt
    exact ⟨hle, hlt⟩
  · rintro ⟨hle, hlt⟩
    exact BitVec.toInt_ofInt_eq_self hw hle hlt

theorem number_eq_fin_iff {w : Word} {q : ℚ} :
    Binary64.number w = .fin q ↔ Binary64.isFinite w = true ∧ Binary64.toRat w = q := by
  unfold Binary64.number
  split
  · next h => simp [h]
  · next h =>
    split <;> simp [h]

/-- The bits of an integer are its own float only for zero. -/
theorem number_ofInt_iff {n : Int} (fits : IsI64 n) :
    Binary64.number (BitVec.ofInt 64 n) = .fin n ↔ n = 0 := by
  have hself : (BitVec.ofInt 64 n).toInt = n := (fits_ofInt (by norm_num) n).mpr fits
  rw [number_eq_fin_iff]
  constructor
  · rintro ⟨hfinite, heq⟩
    have hzero := (Binary64.toRat_eq_toInt_iff hfinite).mp (by rw [heq, hself])
    rw [hzero] at hself
    exact hself.symm.trans BitVec.toInt_zero
  · rintro rfl
    have hzero : BitVec.ofInt 64 0 = 0 := rfl
    rw [hzero]
    exact ⟨by decide, by simp [Binary64.toRat, Binary64.signed, Binary64.significand, Binary64.field,
      Binary64.fraction]⟩

theorem number_toInt_iff {w : Word} : Binary64.number w = .fin w.toInt ↔ w = 0 := by
  rw [number_eq_fin_iff]
  constructor
  · rintro ⟨hfinite, heq⟩
    exact (Binary64.toRat_eq_toInt_iff hfinite).mp heq
  · rintro rfl
    exact ⟨by decide, (Binary64.toRat_eq_toInt_iff (by decide)).mpr rfl⟩

/-- Eight bytes are a `numeric` without digits. -/
theorem readNumeric_eight {b : List UInt8} {q : ℚ} (hlen : b.length = 8)
    (h : readNumeric b = some (.fin q)) : q = 0 := by
  obtain ⟨n₁, n₂, w₁, w₂, s₁, s₂, d₁, d₂, rfl⟩ :
      ∃ n₁ n₂ w₁ w₂ s₁ s₂ d₁ d₂, b = [n₁, n₂, w₁, w₂, s₁, s₂, d₁, d₂] := by
    match b, hlen with
    | [n₁, n₂, w₁, w₂, s₁, s₂, d₁, d₂], _ => exact ⟨n₁, n₂, w₁, w₂, s₁, s₂, d₁, d₂, rfl⟩
  simp only [readNumeric, numericDigits, Option.bind_some] at h
  split at h
  · split at h
    · cases h
    split at h
    · cases h
    split at h
    · cases h
    split at h
    · cases h
      rfl
    split at h
    · cases h
      simp
    · cases h
  · cases h

theorem readNumeric_word_iff (n : Int) (fits : IsI64 n) :
    readNumeric (BigEndian.word (BitVec.ofInt 64 n)) = some (.fin n) ↔ n = 0 := by
  constructor
  · intro h
    exact_mod_cast readNumeric_eight (BigEndian.length_word _) h
  · rintro rfl
    simp [BigEndian.word, BigEndian.bytes, readNumeric, halfWord, numericDigits]

/-! ## Scalars -/

section Scalars
variable {client : Client} {named : Calendar}

theorem readInt_word {w : Nat} (h : w % 8 = 0) (x : BitVec w) :
    readInt w (BigEndian.word x) = some (.fin x.toInt) := by
  rw [readInt, BigEndian.read_word h]
  rfl

theorem readInt_other {w : Nat} {b : List UInt8} (h : b.length ≠ w / 8) : readInt w b = none := by
  rw [readInt, BigEndian.read_other h]
  rfl

theorem fin_intCast_inj {m n : Int} : some (FloatNumber.fin m) = some (.fin n) ↔ m = n := by
  rw [Option.some.injEq, FloatNumber.fin.injEq]
  exact Int.cast_inj

theorem encodes_bool (named : Calendar) (t : ScalarType) (b : Bool) :
    Encodes named t (.Bool b) [if b then 1 else 0] ↔ t = .BOOL := by
  cases t <;> simp [Encodes, numberOf, textOf]

theorem intToSql_bytes (hdoc : Documented client named) (n : Int) (t : ScalarType) :
    intToSql client n (.scalar t) = .bytes (match t with
      | .INT2 => BigEndian.word (BitVec.ofInt 16 n)
      | .INT4 => BigEndian.word (BitVec.ofInt 32 n)
      | .TEXT | .VARCHAR | .BPCHAR | .UNKNOWN => utf8 (formatInt n).toList
      | _ => BigEndian.word (BitVec.ofInt 64 n)) := by
  cases t <;>
    first | exact hdoc.i16 _ _ | exact hdoc.i32 _ _ | exact hdoc.i64 _ _ | exact hdoc.string _ _

theorem int_right (hdoc : Documented client named) (n : Int) (fits : IsI64 n) (t : ScalarType) :
    Right named (.scalar t) (.Int n fits) (intToSql client n (.scalar t)) ↔ IntFits n t := by
  have hself : (BitVec.ofInt 64 n).toInt = n := (fits_ofInt (by norm_num) n).mpr fits
  rw [intToSql_bytes hdoc]
  cases t with
  | INT2 =>
    simp only [Right, EncodesIn, Encodes, numberOf, Option.some.injEq, exists_eq_left', readNumber,
      readInt_word (w := 16) rfl]
    rw [FloatNumber.fin.injEq, Int.cast_inj]
    exact fits_ofInt (by norm_num) n
  | INT4 =>
    simp only [Right, EncodesIn, Encodes, numberOf, Option.some.injEq, exists_eq_left', readNumber,
      readInt_word (w := 32) rfl]
    rw [FloatNumber.fin.injEq, Int.cast_inj]
    exact fits_ofInt (by norm_num) n
  | INT8 =>
    simp only [Right, EncodesIn, Encodes, numberOf, Option.some.injEq, exists_eq_left', readNumber,
      readInt_word (w := 64) rfl, hself, IntFits]
  | FLOAT4 =>
    have hnone : BigEndian.read 32 (BigEndian.word (BitVec.ofInt 64 n)) = none :=
      BigEndian.read_other (by rw [BigEndian.length_word]; norm_num)
    simp [Right, EncodesIn, Encodes, numberOf, readNumber, hnone, IntFits]
  | FLOAT8 =>
    simp only [Right, EncodesIn, Encodes, numberOf, Option.some.injEq, exists_eq_left', readNumber,
      BigEndian.read_word (w := 64) rfl, Option.map_some, number_ofInt_iff fits, IntFits]
  | NUMERIC =>
    simp only [Right, EncodesIn, Encodes, numberOf, Option.some.injEq, exists_eq_left', readNumber,
      readNumeric_word_iff n fits, IntFits]
  | TEXT | VARCHAR | BPCHAR | UNKNOWN => simp [Right, EncodesIn, Encodes, textOf, IntFits]
  | BOOL | UUID | TIMESTAMP | TIMESTAMPTZ | DATE => simp [Right, EncodesIn, Encodes, IntFits]

theorem float_right (hdoc : Documented client named) (w : Word) (t : ScalarType) :
    Right named (.scalar t) (.Float w) (floatToSql client w (.scalar t)) ↔
      Rejected client t (.Float w) ∨ FloatFits client w t := by
  have hplain : t ≠ .FLOAT4 → t ≠ .NUMERIC →
      floatToSql client w (.scalar t) = .bytes (BigEndian.word w) := by
    intro hfour hnumeric
    cases t <;> first | exact absurd rfl hfour | exact absurd rfl hnumeric | exact hdoc.f64 _ _
  cases t with
  | FLOAT4 =>
    rw [floatToSql, hdoc.f32]
    simp only [Right, EncodesIn, Encodes, numberOf, Option.some.injEq, exists_eq_left', readNumber,
      BigEndian.read_word (w := 32) rfl, Option.map_some, Rejected, false_or, FloatFits,
      Binary32.number_ofBinary64_iff]
  | NUMERIC =>
    rw [floatToSql]
    cases htry : client.tryFrom w with
    | none => exact iff_of_true trivial (Or.inl htry)
    | some d =>
      obtain ⟨b, hbytes, _, hread⟩ := hdoc.decimal w d htry
      simp only [hbytes, Right, EncodesIn, Encodes, numberOf, Option.some.injEq, exists_eq_left',
        readNumber, hread, Rejected, htry, reduceCtorEq, false_or, FloatFits, forall_eq']
      exact eq_comm
  | FLOAT8 =>
    rw [hplain (by simp) (by simp)]
    simp [Right, EncodesIn, Encodes, numberOf, readNumber, BigEndian.read_word (w := 64) rfl, FloatFits]
  | INT8 =>
    rw [hplain (by simp) (by simp)]
    simp only [Right, EncodesIn, Encodes, numberOf, Option.some.injEq, exists_eq_left', readNumber,
      readInt_word (w := 64) rfl, Rejected, false_or, FloatFits, ← number_toInt_iff]
    exact eq_comm
  | INT2 =>
    rw [hplain (by simp) (by simp)]
    simp [Right, EncodesIn, Encodes, readNumber, Rejected, FloatFits,
      readInt_other (w := 16) (b := BigEndian.word w) (by rw [BigEndian.length_word]; norm_num)]
  | INT4 =>
    rw [hplain (by simp) (by simp)]
    simp [Right, EncodesIn, Encodes, readNumber, Rejected, FloatFits,
      readInt_other (w := 32) (b := BigEndian.word w) (by rw [BigEndian.length_word]; norm_num)]
  | BOOL | TEXT | VARCHAR | BPCHAR | UNKNOWN | UUID | TIMESTAMP | TIMESTAMPTZ | DATE =>
    rw [hplain (by simp) (by simp)]
    simp [Right, EncodesIn, Encodes, textOf, Rejected, FloatFits]

/-! ## UUID texts -/

/-- Pairs of a range are all numbers, or the first that is none is malformed or cut. -/
theorem pairsToBytes_cases (hex : List UInt8) (n k : Nat) :
    (∃ b, pairsToBytes hex (List.range' k n) = .bytes b ∧ b.length = n ∧
        ∀ j, k ≤ j → j < k + n → PairReads hex j) ∨
      ∃ i, k ≤ i ∧ i < k + n ∧ (∀ j, k ≤ j → j < i → PairReads hex j) ∧
        (pairsToBytes hex (List.range' k n) = .error ∧ PairMalformed hex i ∨
          pairsToBytes hex (List.range' k n) = .panic ∧ pairAt hex i = none) := by
  induction n generalizing k with
  | zero => exact Or.inl ⟨[], rfl, rfl, by intro j hk hj; omega⟩
  | succ n ih =>
    have hnone : ∀ j, k ≤ j → j < k → PairReads hex j := by
      intro j hk hj
      omega
    rw [List.range'_succ, pairsToBytes]
    cases hpair : pairAt hex k with
    | none => exact Or.inr ⟨k, le_refl k, by omega, hnone, Or.inr ⟨rfl, hpair⟩⟩
    | some pair =>
      cases hread : fromStrRadix16 pair with
      | none =>
        refine Or.inr ⟨k, le_refl k, by omega, hnone, Or.inl ⟨?_, pair, hpair, hread⟩⟩
        simp only [hread]
      | some x =>
        have hfirst : PairReads hex k := ⟨pair, x, hpair, hread⟩
        have hreads : ∀ i, (∀ j, k + 1 ≤ j → j < i → PairReads hex j) →
            ∀ j, k ≤ j → j < i → PairReads hex j := by
          intro i hrest j hk hj
          rcases Nat.eq_or_lt_of_le hk with rfl | hk
          · exact hfirst
          · exact hrest j hk hj
        simp only [hread]
        rcases ih (k + 1) with ⟨b, hb, hlen, hall⟩ | ⟨i, hk, hi, hrest, hfail⟩
        · refine Or.inl ⟨x :: b, ?_, by rw [List.length_cons, hlen], ?_⟩
          · simp only [hb]
          · exact hreads _ fun j hk hj => hall j hk (by omega)
        · refine Or.inr ⟨i, by omega, by omega, hreads i hrest, ?_⟩
          rcases hfail with ⟨hout, hmal⟩ | ⟨hout, hcut⟩
          · exact Or.inl ⟨by simp only [hout], hmal⟩
          · exact Or.inr ⟨by simp only [hout], hcut⟩

theorem PairReads.not_malformed {hex : List UInt8} {i : Nat} (h : PairReads hex i) :
    ¬ PairMalformed hex i := by
  obtain ⟨pair, x, hpair, hread⟩ := h
  rintro ⟨pair', hpair', hnone⟩
  rw [hpair] at hpair'
  cases hpair'
  rw [hread] at hnone
  cases hnone

theorem PairReads.not_cut {hex : List UInt8} {i : Nat} (h : PairReads hex i) :
    pairAt hex i ≠ none := by
  obtain ⟨pair, x, hpair, _⟩ := h
  simp [hpair]

/-- Where the pairs before two positions are numbers and those at them are not, they are one. -/
theorem first_unique {hex : List UInt8} {i j : Nat} (hi : ∀ m < i, PairReads hex m)
    (hj : ∀ m < j, PairReads hex m) (hni : ¬ PairReads hex i) (hnj : ¬ PairReads hex j) : i = j := by
  rcases Nat.lt_trichotomy i j with h | h | h
  · exact absurd (hj i h) hni
  · exact h
  · exact absurd (hi j h) hnj

theorem uuidTextToBytes_cases (s : String) :
    (∃ b, uuidTextToBytes s = .bytes b ∧ b.length = 16 ∧ ¬ UuidRejected s ∧ ¬ UuidPanics s) ∨
      (uuidTextToBytes s = .error ∧ UuidRejected s ∧ ¬ UuidPanics s) ∨
        (uuidTextToBytes s = .panic ∧ ¬ UuidRejected s ∧ UuidPanics s) := by
  unfold uuidTextToBytes
  by_cases hlen : (hexOf s).length = 32
  · rw [if_neg (not_not.mpr hlen), List.range_eq_range']
    rcases pairsToBytes_cases (hexOf s) 16 0 with ⟨b, hb, hb16, hall⟩ | ⟨i, _, hi, hreads, hfail⟩
    · refine Or.inl ⟨b, hb, hb16, ?_, ?_⟩
      · rintro (hne | ⟨i, hi, hmal, _⟩)
        · exact hne hlen
        · exact (hall i (Nat.zero_le i) (by omega)).not_malformed hmal
      · rintro ⟨_, i, hi, hcut, _⟩
        exact (hall i (Nat.zero_le i) (by omega)).not_cut hcut
    · have hbefore : ∀ j < i, PairReads (hexOf s) j := fun j hj => hreads j (Nat.zero_le j) hj
      rcases hfail with ⟨hout, hmal⟩ | ⟨hout, hcut⟩
      · refine Or.inr (Or.inl ⟨hout, Or.inr ⟨i, by omega, hmal, hbefore⟩, ?_⟩)
        rintro ⟨_, j, _, hcut, hj⟩
        obtain rfl := first_unique hbefore hj (fun h => h.not_malformed hmal) (fun h => h.not_cut hcut)
        obtain ⟨pair, hpair, _⟩ := hmal
        rw [hcut] at hpair
        cases hpair
      · refine Or.inr (Or.inr ⟨hout, ?_, hlen, i, by omega, hcut, hbefore⟩)
        rintro (hne | ⟨j, _, hmal, hj⟩)
        · exact hne hlen
        · obtain rfl :=
            first_unique hbefore hj (fun h => h.not_cut hcut) (fun h => h.not_malformed hmal)
          obtain ⟨pair, hpair, _⟩ := hmal
          rw [hcut] at hpair
          cases hpair
  · rw [if_pos hlen]
    exact Or.inr (Or.inl ⟨rfl, Or.inl hlen, fun h => hlen h.1⟩)

theorem hexDigit_lt {x : UInt8} {d : Nat} (h : hexDigit x = some d) : d < 16 := by
  simp only [hexDigit] at h
  split_ifs at h <;> cases h <;> omega

theorem hexDigit_ascii {x : UInt8} {d : Nat} (h : hexDigit x = some d) :
    isContinuation x = false ∧ x ≠ 43 := by
  constructor
  · simp only [hexDigit] at h
    unfold isContinuation
    split_ifs at h <;> simp <;> omega
  · rintro rfl
    cases h

theorem fromStrRadix16_pair {x y : UInt8} {a c : Nat} (hx : hexDigit x = some a)
    (hy : hexDigit y = some c) : fromStrRadix16 [x, y] = some (UInt8.ofNat (a * 16 + c)) := by
  have ha := hexDigit_lt hx
  have hc := hexDigit_lt hy
  have hplus := (hexDigit_ascii hx).2
  have hdigits : addDigits 0 [x, y] = some (a * 16 + c) := by
    simp only [addDigits, hx, hy, Option.bind_some, Nat.zero_mul, Nat.zero_add]
    rw [if_pos (by omega), if_pos (by omega)]
  unfold fromStrRadix16
  split
  · next heq => cases heq
  · next heq => cases heq
  · next heq => exact absurd (List.cons.inj heq).1 hplus
  · rw [hdigits]
    rfl

theorem hexValues_cons {b values : List UInt8} (hlen : 2 ≤ b.length)
    (h : hexValues b = some values) :
    ∃ x y a c rest, b = x :: y :: b.drop 2 ∧ hexDigit x = some a ∧ hexDigit y = some c ∧
      hexValues (b.drop 2) = some rest ∧ values = UInt8.ofNat (a * 16 + c) :: rest := by
  match b, hlen with
  | x :: y :: b, _ =>
    simp only [hexValues, Option.bind_eq_bind, Option.bind_eq_some_iff, Option.map_eq_some_iff] at h
    obtain ⟨a, ha, c, hc, rest, hrest, rfl⟩ := h
    exact ⟨x, y, a, c, rest, rfl, ha, hc, hrest, rfl⟩

theorem hexValues_head {b values : List UInt8} (h : hexValues b = some values) {x : UInt8}
    (hx : b[0]? = some x) : isContinuation x = false := by
  match b with
  | [] => cases hx
  | [y] => cases h
  | y :: z :: b =>
    obtain ⟨x', _, a, _, _, heq, ha, _⟩ := hexValues_cons (by simp) h
    cases hx
    rw [(List.cons.inj heq).1]
    exact (hexDigit_ascii ha).1

/-- Sixteen pairs of hex digits are written as their bytes. -/
theorem pairsToBytes_hex {hex : List UInt8} (n k : Nat) {values : List UInt8}
    (hlen : hex.length = 2 * (k + n)) (h : hexValues (hex.drop (2 * k)) = some values) :
    pairsToBytes hex (List.range' k n) = .bytes values := by
  induction n generalizing k values with
  | zero =>
    rw [List.drop_eq_nil_of_le (by omega)] at h
    cases h
    rfl
  | succ n ih =>
    obtain ⟨x, y, a, c, rest, hdrop, hx, hy, hrest, rfl⟩ :=
      hexValues_cons (by rw [List.length_drop]; omega) h
    rw [List.drop_drop, show 2 * k + 2 = 2 * (k + 1) by ring] at hrest hdrop
    have hstart : isCharBoundary hex (k * 2) = true := by
      have hget : hex[2 * k]? = some x := by
        rw [← Nat.add_zero (2 * k), ← List.getElem?_drop, hdrop]
        rfl
      rw [isCharBoundary, Nat.mul_comm, hget, Option.any_some, (hexDigit_ascii hx).1]
      rfl
    have hend : isCharBoundary hex (k * 2 + 2) = true := by
      rw [isCharBoundary, show k * 2 + 2 = 2 * (k + 1) + 0 by ring, ← List.getElem?_drop]
      cases hget : (hex.drop (2 * (k + 1)))[0]? with
      | none => rfl
      | some z => rw [Option.any_some, hexValues_head hrest hget]; rfl
    have hpair : pairAt hex k = some [x, y] := by
      rw [pairAt, hstart, hend, Bool.and_self, if_pos rfl, Nat.mul_comm, hdrop]
      rfl
    rw [List.range'_succ, pairsToBytes, hpair]
    simp only [fromStrRadix16_pair hx hy, ih (k + 1) (by omega) hrest]

theorem uuid_right (named : Calendar) (s : String) :
    Right named (.scalar .UUID) (.Str s) (uuidTextToBytes s) ↔
      UuidRejected s ∨ (uuidOf s).isSome = true := by
  cases huuid : uuidOf s with
  | some values =>
    have hwritten : uuidTextToBytes s = .bytes values := by
      unfold uuidOf at huuid
      split at huuid
      · next hlen =>
        rw [uuidTextToBytes, if_neg (not_not.mpr hlen), List.range_eq_range']
        exact pairsToBytes_hex 16 0 hlen huuid
      · cases huuid
    rw [hwritten]
    exact iff_of_true ⟨s, rfl, huuid⟩ (Or.inr rfl)
  | none =>
    simp only [Option.isSome_none, Bool.false_eq_true, or_false]
    rcases uuidTextToBytes_cases s with ⟨b, hb, _, hrej, _⟩ | ⟨he, hrej, _⟩ | ⟨hp, hrej, _⟩
    · rw [hb]
      refine iff_of_false ?_ hrej
      rintro ⟨s', hs, hvalue⟩
      cases hs
      rw [huuid] at hvalue
      cases hvalue
    · rw [he]
      exact iff_of_true trivial hrej
    · rw [hp]
      exact iff_of_false id hrej

end Scalars

section Slots
variable {client : Client} {named : Calendar}

/-! ## Texts of other types -/

theorem moment_timestamp (hdoc : Documented client named) {s : String} {micros : Int}
    (h : client.moment s = some micros) : named .TIMESTAMP s = some micros := by
  rcases Option.or_eq_some_iff.mp h with h | ⟨_, h⟩
  · exact hdoc.parseDateTime s micros h
  · obtain ⟨days, hdays, rfl⟩ := Option.map_eq_some_iff.mp h
    exact hdoc.midnight s days hdays

/-- A moment is bound as its microseconds, and refused when it is none. -/
theorem strToSql_moment (client : Client) (s : String) {t : ScalarType}
    (ht : t = .TIMESTAMP ∨ t = .TIMESTAMPTZ) :
    (client.moment s = none → strToSql client s (.scalar t) = .error) ∧
      ∀ micros, client.moment s = some micros →
        strToSql client s (.scalar t) = client.toSql (.dateTime micros) (.scalar t) := by
  rcases ht with rfl | rfl
  · constructor
    · intro h
      rw [strToSql, h]
    · intro micros h
      rw [strToSql, h]
  · constructor
    · intro h
      rw [strToSql, h]
    · intro micros h
      rw [strToSql, h]

/-- A text of a moment, which the server reads as `named` says. -/
theorem moment_right (hdoc : Documented client named) (s : String) {t : ScalarType}
    (ht : t = .TIMESTAMP ∨ t = .TIMESTAMPTZ) :
    Right named (.scalar t) (.Str s) (strToSql client s (.scalar t)) ↔
      (∀ micros, client.moment s = some micros → ¬ IsI64 micros) ∨
        ∀ micros, client.moment s = some micros → named t s = some micros := by
  obtain ⟨hnone, hsome⟩ := strToSql_moment client s ht
  have henc : ∀ b, Right named (.scalar t) (.Str s) (.bytes b) ↔ ∃ micros, named t s = some micros ∧
      IsI64 micros ∧ b = BigEndian.word (BitVec.ofInt 64 micros) := by
    intro b
    rcases ht with rfl | rfl <;> simp [Right, EncodesIn, Encodes]
  cases hmoment : client.moment s with
  | none =>
    rw [hnone hmoment]
    exact iff_of_true trivial (Or.inl (by simp))
  | some micros =>
    rw [hsome micros hmoment]
    simp only [Option.some.injEq, forall_eq', hdoc.dateTime]
    by_cases hfits : IsI64 micros
    · rw [if_pos hfits, henc]
      constructor
      · rintro ⟨m, hm, hmfits, hbytes⟩
        right
        rw [hm]
        have hsame : BitVec.ofInt 64 micros = BitVec.ofInt 64 m := by
          have hread := BigEndian.read_word (w := 64) rfl (BitVec.ofInt 64 micros)
          rw [hbytes, BigEndian.read_word rfl] at hread
          exact (Option.some.inj hread).symm
        have hself := (fits_ofInt (w := 64) (by norm_num) micros).mpr hfits
        rw [hsame, (fits_ofInt (w := 64) (by norm_num) m).mpr hmfits] at hself
        rw [hself]
      · rintro (hno | hnamed)
        · exact absurd hfits hno
        · exact ⟨micros, hnamed, hfits, rfl⟩
    · rw [if_neg hfits]
      exact iff_of_true trivial (Or.inl hfits)

theorem date_right (hdoc : Documented client named) (s : String) :
    Right named (.scalar .DATE) (.Str s) (strToSql client s (.scalar .DATE)) := by
  rw [strToSql]
  cases hdate : client.parseDate s with
  | none => trivial
  | some days =>
    simp only [hdoc.date]
    split
    · next hfits => exact ⟨s, days, rfl, hdoc.parseDate s days hdate, hfits, rfl⟩
    · trivial

theorem str_right (hdoc : Documented client named) (s : String) (t : ScalarType) :
    Right named (.scalar t) (.Str s) (strToSql client s (.scalar t)) ↔
      Rejected client t (.Str s) ∨ StrFits client named s t := by
  cases t with
  | UUID => exact uuid_right named s
  | TIMESTAMP =>
    rw [moment_right hdoc s (Or.inl rfl)]
    simp only [Rejected, StrFits]
    exact iff_of_true (Or.inr fun micros h => moment_timestamp hdoc h) (Or.inr trivial)
  | TIMESTAMPTZ => exact moment_right hdoc s (Or.inr rfl)
  | DATE => exact iff_of_true (date_right hdoc s) (Or.inr trivial)
  | TEXT | VARCHAR | BPCHAR | UNKNOWN =>
    rw [strToSql, hdoc.string]
    · simp [Right, EncodesIn, Encodes, textOf, StrFits]
    all_goals simp
  | BOOL | INT2 | INT4 | INT8 | FLOAT4 | FLOAT8 | NUMERIC =>
    rw [strToSql, hdoc.string]
    · simp [Right, EncodesIn, Encodes, numberOf, Rejected, StrFits]
    all_goals simp

/-- In a scalar slot a value is written as it should where it is refused or fits. -/
theorem scalar_right (hdoc : Documented client named) (t : ScalarType) (v : PgParam) :
    Right named (.scalar t) v (toSql client v (.scalar t)) ↔
      Rejected client t v ∨ Fits client named t v := by
  cases v with
  | Null => exact iff_of_true rfl (Or.inr trivial)
  | Bool b =>
    have hbool := encodes_bool named t b
    rw [toSql, boolToSql, hdoc.bool]
    cases t <;> simpa [Right, EncodesIn, Rejected, Fits] using hbool
  | Int n fits =>
    rw [toSql, int_right hdoc n fits t]
    cases t <;> simp [Rejected, Fits]
  | Float w => exact float_right hdoc w t
  | Str s => exact str_right hdoc s t
  | Array elems =>
    rw [toSql, hdoc.slice_scalar]
    cases t <;> simp [Right, Rejected, Fits]

/-! ## How an element ends -/

/-- The value is written, refused, or panics. -/
inductive Ends (client : Client) (t : ScalarType) (v : PgParam) : Outcome → Prop
  | null : v = .Null → ¬ Stops client t v → ¬ Panics t v → Ends client t v .null
  | bytes {b : List UInt8} : v ≠ .Null → (2 ^ 31 ≤ b.length ↔ Stops client t v) → ¬ Panics t v →
      Ends client t v (.bytes b)
  | error : Stops client t v → ¬ Panics t v → Ends client t v .error
  | panic : ¬ Stops client t v → Panics t v → Ends client t v .panic

theorem length_utf8_le (cs : List Char) : (utf8 cs).length ≤ 4 * cs.length := by
  induction cs with
  | nil => exact le_refl 0
  | cons c cs ih =>
    have hc : (String.utf8EncodeChar c).length ≤ 4 := by
      rw [String.length_utf8EncodeChar]
      exact Char.utf8Size_le_four c
    rw [utf8, List.flatMap_cons, List.length_append, List.length_cons, ← utf8]
    omega

theorem length_formatInt {n : Int} (fits : IsI64 n) : (utf8 (formatInt n).toList).length < 2 ^ 31 := by
  have hutf8 := length_utf8_le (formatInt n).toList
  have hdigits : (Nat.toDigits 10 n.natAbs).length ≤ 19 := by
    rw [Nat.length_toDigits_le_iff (by norm_num) (by norm_num)]
    unfold IsI64 at fits
    omega
  have htext : (formatInt n).toList.length ≤ 20 := by
    rw [formatInt, String.toList_ofList, Decimal.intText, List.length_append]
    split <;> simp <;> omega
  omega

theorem not_stops {t : ScalarType} {v : PgParam} (hr : ¬ Rejected client t v)
    (hs : ∀ s, v ≠ .Str s) : ¬ Stops client t v := by
  rintro (h | ⟨s, rfl, _⟩)
  · exact hr h
  · exact hs s rfl

theorem not_panics {t : ScalarType} {v : PgParam} (ha : ∀ elems, v ≠ .Array elems)
    (hs : t = .UUID → ∀ s, v = .Str s → ¬ UuidPanics s) : ¬ Panics t v := by
  rintro (⟨elems, rfl⟩ | ⟨ht, s, rfl, hp⟩)
  · exact ha elems rfl
  · exact hs ht s rfl hp

/-- Bytes of a value that does not stop its array are few. -/
theorem Ends.few {t : ScalarType} {v : PgParam} {b : List UInt8} (hv : v ≠ .Null)
    (hb : b.length < 2 ^ 31) (hs : ¬ Stops client t v) (hp : ¬ Panics t v) :
    Ends client t v (.bytes b) := .bytes hv (iff_of_false (not_le.mpr hb) hs) hp

theorem ends_int (hdoc : Documented client named) (n : Int) (fits : IsI64 n) (t : ScalarType) :
    Ends client t (.Int n fits) (intToSql client n (.scalar t)) := by
  have hs : ¬ Stops client t (.Int n fits) := not_stops (by cases t <;> exact id) (by simp)
  have hp : ¬ Panics t (.Int n fits) := not_panics (by simp) (by simp)
  rw [intToSql_bytes hdoc]
  refine Ends.few (by simp) ?_ hs hp
  have hlength : ∀ {w : Nat} (x : BitVec w), w ≤ 64 → (BigEndian.word x).length < 2 ^ 31 := by
    intro w x hw
    rw [BigEndian.length_word]
    omega
  cases t with
  | TEXT | VARCHAR | BPCHAR | UNKNOWN => exact length_formatInt fits
  | _ => exact hlength _ (by norm_num)

theorem ends_float (hdoc : Documented client named) (w : Word) (t : ScalarType) :
    Ends client t (.Float w) (floatToSql client w (.scalar t)) := by
  have hp : ¬ Panics t (.Float w) := not_panics (by simp) (by simp)
  have hlength : ∀ {n : Nat} (x : BitVec n), n ≤ 64 → (BigEndian.word x).length < 2 ^ 31 := by
    intro n x hn
    rw [BigEndian.length_word]
    omega
  cases t with
  | NUMERIC =>
    rw [floatToSql]
    cases htry : client.tryFrom w with
    | none => exact .error (Or.inl htry) hp
    | some d =>
      obtain ⟨b, hbytes, hb, _⟩ := hdoc.decimal w d htry
      simp only [hbytes]
      refine Ends.few (by simp) hb (not_stops ?_ (by simp)) hp
      intro hrej
      rw [Rejected, htry] at hrej
      cases hrej
  | FLOAT4 =>
    rw [floatToSql, hdoc.f32]
    exact Ends.few (by simp) (hlength _ (by norm_num)) (not_stops id (by simp)) hp
  | _ =>
    rw [floatToSql, hdoc.f64]
    · exact Ends.few (by simp) (hlength _ (by norm_num)) (not_stops id (by simp)) hp
    all_goals simp

theorem ends_moment (hdoc : Documented client named) (s : String) {t : ScalarType}
    (ht : t = .TIMESTAMP ∨ t = .TIMESTAMPTZ) :
    Ends client t (.Str s) (strToSql client s (.scalar t)) := by
  have hp : ¬ Panics t (.Str s) := not_panics (by simp) (by rcases ht with rfl | rfl <;> simp)
  have hrej : Stops client t (.Str s) ↔
      ∀ micros, client.moment s = some micros → ¬ IsI64 micros := by
    rcases ht with rfl | rfl <;> simp [Stops, Rejected]
  obtain ⟨hnone, hsome⟩ := strToSql_moment client s ht
  cases hmoment : client.moment s with
  | none =>
    rw [hnone hmoment]
    exact .error (hrej.mpr (by simp [hmoment])) hp
  | some micros =>
    rw [hsome micros hmoment]
    simp only [hdoc.dateTime]
    split
    · next hfits =>
      refine Ends.few (by simp) (by rw [BigEndian.length_word]; norm_num) ?_ hp
      exact fun h => hrej.mp h micros hmoment hfits
    · next hfits =>
      refine .error (hrej.mpr ?_) hp
      intro m hm
      obtain rfl := Option.some.inj (hmoment.symm.trans hm)
      exact hfits

theorem ends_str (hdoc : Documented client named) (s : String) (t : ScalarType) :
    Ends client t (.Str s) (strToSql client s (.scalar t)) := by
  cases t with
  | UUID =>
    have hstops : Stops client .UUID (.Str s) ↔ UuidRejected s := by simp [Stops, Rejected]
    have hpanics : Panics .UUID (.Str s) ↔ UuidPanics s := by simp [Panics]
    rw [strToSql]
    rcases uuidTextToBytes_cases s with ⟨b, hb, hlen, hrej, hp⟩ | ⟨he, hrej, hp⟩ | ⟨hout, hrej, hp⟩
    · rw [hb]
      exact Ends.few (by simp) (by omega) (hstops.not.mpr hrej) (hpanics.not.mpr hp)
    · rw [he]
      exact .error (hstops.mpr hrej) (hpanics.not.mpr hp)
    · rw [hout]
      exact .panic (hstops.not.mpr hrej) (hpanics.mpr hp)
  | TIMESTAMP => exact ends_moment hdoc s (Or.inl rfl)
  | TIMESTAMPTZ => exact ends_moment hdoc s (Or.inr rfl)
  | DATE =>
    have hp : ¬ Panics .DATE (.Str s) := not_panics (by simp) (by simp)
    rw [strToSql]
    cases hdate : client.parseDate s with
    | none =>
      refine .error (Or.inl ?_) hp
      simp [Rejected, hdate]
    | some days =>
      simp only [hdoc.date]
      split
      · next hfits =>
        refine Ends.few (by simp) (by rw [BigEndian.length_word]; norm_num) ?_ hp
        rintro (h | ⟨_, _, _, _, _, hne, _⟩)
        · exact h days hdate hfits
        · exact hne rfl
      · next hfits =>
        refine .error (Or.inl ?_) hp
        rw [Rejected, hdate]
        intro d hd
        obtain rfl := Option.some.inj hd
        exact hfits
  | _ =>
    rw [strToSql, hdoc.string]
    · exact .bytes (by simp) (by simp [Stops, Rejected]) (not_panics (by simp) (by simp))
    all_goals simp

theorem ends_scalar (hdoc : Documented client named) (t : ScalarType) (v : PgParam) :
    Ends client t v (toSql client v (.scalar t)) := by
  cases v with
  | Null =>
    exact .null rfl (not_stops (by cases t <;> exact id) (by simp)) (not_panics (by simp) (by simp))
  | Bool b =>
    rw [toSql, boolToSql, hdoc.bool]
    exact Ends.few (by simp) (by norm_num) (not_stops (by cases t <;> exact id) (by simp))
      (not_panics (by simp) (by simp))
  | Int n fits => exact ends_int hdoc n fits t
  | Float w => exact ends_float hdoc w t
  | Str s => exact ends_str hdoc s t
  | Array elems =>
    rw [toSql, hdoc.slice_scalar]
    exact .panic (not_stops (by cases t <;> exact id) (by simp)) (Or.inl ⟨elems, rfl⟩)

/-! ## Arrays -/

/-- What ends an array with an error. -/
def Outcome.stops : Outcome → Prop
  | .error => True
  | .bytes b => 2 ^ 31 ≤ b.length
  | _ => False

theorem Ends.stops_iff {t : ScalarType} {v : PgParam} {o : Outcome} (h : Ends client t v o) :
    o.stops ↔ Stops client t v := by
  cases h with
  | null _ hs _ => exact iff_of_false id hs
  | bytes _ hs _ => exact hs
  | error hs _ => exact iff_of_true trivial hs
  | panic hs _ => exact iff_of_false id hs

theorem Ends.panic_iff {t : ScalarType} {v : PgParam} {o : Outcome} (h : Ends client t v o) :
    o = .panic ↔ Panics t v := by
  cases h with
  | null _ _ hp => exact iff_of_false (by simp) hp
  | bytes _ _ hp => exact iff_of_false (by simp) hp
  | error _ hp => exact iff_of_false (by simp) hp
  | panic _ hp => exact iff_of_true rfl hp

/-- The element that an outcome is. -/
def Outcome.cell : Outcome → Option (List UInt8)
  | .bytes b => some b
  | _ => none

/-- All elements are written, or one stops the array before any panics, or one panics first. -/
theorem writeCells_cases (os : List Outcome) :
    (writeCells os = .ok (os.map Outcome.cell) ∧ ∀ o ∈ os, ¬ o.stops ∧ o ≠ .panic) ∨
      (writeCells os = .error .error ∧ ∃ before o after, os = before ++ o :: after ∧ o.stops ∧
        ∀ p ∈ before, p ≠ .panic) ∨
      (writeCells os = .error .panic ∧ ∃ before after, os = before ++ .panic :: after ∧
        ∀ p ∈ before, ¬ p.stops) := by
  induction os with
  | nil => exact Or.inl ⟨rfl, by simp⟩
  | cons o os ih =>
    have hgoes : ¬ o.stops → o ≠ .panic →
        writeCells (o :: os) = (writeCells os).map (o.cell :: ·) := by
      intro hs hp
      cases o with
      | null => rfl
      | bytes b => exact if_pos (not_le.mp hs)
      | error => exact absurd trivial hs
      | panic => exact absurd rfl hp
    by_cases hs : o.stops
    · refine Or.inr (Or.inl ⟨?_, [], o, os, rfl, hs, by simp⟩)
      cases o with
      | error => rfl
      | bytes b => exact if_neg (not_lt.mpr hs)
      | null => cases hs
      | panic => cases hs
    by_cases hp : o = .panic
    · subst hp
      exact Or.inr (Or.inr ⟨rfl, [], os, rfl, by simp⟩)
    rw [hgoes hs hp]
    rcases ih with ⟨hw, hall⟩ | ⟨hw, before, x, after, hos, hx, hbefore⟩ |
      ⟨hw, before, after, hos, hbefore⟩
    · refine Or.inl ⟨by rw [hw]; rfl, ?_⟩
      intro x hx
      rcases List.mem_cons.mp hx with rfl | hx
      · exact ⟨hs, hp⟩
      · exact hall x hx
    · refine Or.inr (Or.inl ⟨by rw [hw]; rfl, o :: before, x, after, by rw [hos]; rfl, hx, ?_⟩)
      intro p hmem
      rcases List.mem_cons.mp hmem with rfl | hmem
      · exact hp
      · exact hbefore p hmem
    · refine Or.inr (Or.inr ⟨by rw [hw]; rfl, o :: before, after, by rw [hos]; rfl, ?_⟩)
      intro p hmem
      rcases List.mem_cons.mp hmem with rfl | hmem
      · exact hs
      · exact hbefore p hmem

theorem cell_split {c d : Option (List UInt8)} {x y : List UInt8}
    (hc : ∀ b, c = some b → b.length < 2 ^ 31) (hd : ∀ b, d = some b → b.length < 2 ^ 31)
    (h : cell c ++ x = cell d ++ y) : c = d ∧ x = y := by
  have hlength : ∀ z : BitVec 32, (BigEndian.word z).length = 4 := fun z => BigEndian.length_word z
  have hword : ∀ {u v : BitVec 32}, BigEndian.word u = BigEndian.word v → u = v := by
    intro u v huv
    have hread := BigEndian.read_word (w := 32) rfl u
    rw [huv, BigEndian.read_word rfl] at hread
    exact (Option.some.inj hread).symm
  have hneg : ∀ b : List UInt8, b.length < 2 ^ 31 →
      BitVec.ofInt 32 (-1) ≠ BitVec.ofNat 32 b.length := by
    intro b hb heq
    have hnat := congrArg BitVec.toNat heq
    rw [BitVec.toNat_ofNat] at hnat
    have hone : (BitVec.ofInt 32 (-1)).toNat = 2 ^ 32 - 1 := by decide
    omega
  cases c with
  | none =>
    cases d with
    | none => exact ⟨rfl, List.append_cancel_left h⟩
    | some b =>
      rw [cell, cell, List.append_assoc] at h
      obtain ⟨hw, _⟩ := List.append_inj h (by rw [hlength, hlength])
      exact absurd (hword hw) (hneg b (hd b rfl))
  | some a =>
    cases d with
    | none =>
      rw [cell, cell, List.append_assoc] at h
      obtain ⟨hw, _⟩ := List.append_inj h (by rw [hlength, hlength])
      exact absurd (hword hw).symm (hneg a (hc a rfl))
    | some b =>
      rw [cell, cell, List.append_assoc, List.append_assoc] at h
      obtain ⟨hw, htail⟩ := List.append_inj h (by rw [hlength, hlength])
      have hlen : a.length = b.length := by
        have hnat := congrArg BitVec.toNat (hword hw)
        rw [BitVec.toNat_ofNat, BitVec.toNat_ofNat] at hnat
        have ha := hc a rfl
        have hb := hd b rfl
        omega
      obtain ⟨rfl, rfl⟩ := List.append_inj htail hlen
      exact ⟨rfl, rfl⟩

/-- An array's bytes determine its elements. -/
theorem cells_inj {cs ds : List (Option (List UInt8))}
    (hc : ∀ c ∈ cs, ∀ b, c = some b → b.length < 2 ^ 31)
    (hd : ∀ d ∈ ds, ∀ b, d = some b → b.length < 2 ^ 31) (hlen : cs.length = ds.length)
    (h : cs.flatMap cell = ds.flatMap cell) : cs = ds := by
  induction cs generalizing ds with
  | nil => exact (List.length_eq_zero_iff.mp hlen.symm).symm
  | cons c cs ih =>
    cases ds with
    | nil => cases hlen
    | cons d ds =>
      rw [List.flatMap_cons, List.flatMap_cons] at h
      obtain ⟨rfl, htail⟩ := cell_split (hc c List.mem_cons_self) (hd d List.mem_cons_self) h
      rw [ih (fun c hc' => hc c (List.mem_cons_of_mem _ hc'))
        (fun d hd' => hd d (List.mem_cons_of_mem _ hd')) (Nat.succ.inj hlen) htail]

theorem arrayBytes_inj {member : ScalarType} {cs ds : List (Option (List UInt8))}
    (hc : ∀ c ∈ cs, ∀ b, c = some b → b.length < 2 ^ 31)
    (hd : ∀ d ∈ ds, ∀ b, d = some b → b.length < 2 ^ 31) (hlen : cs.length = ds.length)
    (h : arrayBytes member cs = arrayBytes member ds) : cs = ds := by
  obtain ⟨_, htail⟩ := List.append_inj h (by simp)
  exact cells_inj hc hd hlen htail

theorem EncodesCell.short {member : ScalarType} {v : PgParam} {c : Option (List UInt8)}
    (h : EncodesCell named member v c) : ∀ b, c = some b → b.length < 2 ^ 31 := by
  rintro b rfl
  exact h.1

/-- An element that is written is the value's where its outcome is right. -/
theorem encodesCell_iff {member : ScalarType} {v : PgParam} {o : Outcome} (hs : ¬ o.stops)
    (hp : o ≠ .panic) : EncodesCell named member v o.cell ↔ Right named (.scalar member) v o := by
  cases o with
  | null => exact Iff.rfl
  | bytes b => exact and_iff_right (not_le.mp hs)
  | error => exact absurd trivial hs
  | panic => exact absurd rfl hp

theorem forall₂_map_iff {α β : Type} {R : α → β → Prop} {f : α → β} {xs : List α} :
    List.Forall₂ R xs (xs.map f) ↔ ∀ x ∈ xs, R x (f x) := by
  induction xs with
  | nil => simp
  | cons x xs ih => simp [ih]

/-- The outcome of an element in a slot of the member type. -/
def elementOutcome (client : Client) (member : ScalarType) (e : PgParam) : Outcome :=
  toSql client e (.scalar member)

theorem toSqls_map (elems : List PgParam) (member : ScalarType) :
    (toSqls client elems).map (· (.scalar member)) = elems.map (elementOutcome client member) := by
  induction elems with
  | nil => rfl
  | cons e elems ih => rw [toSqls, List.map_cons, List.map_cons, ih]; rfl

theorem length_toSqls (elems : List PgParam) : (toSqls client elems).length = elems.length := by
  induction elems with
  | nil => rfl
  | cons e elems ih => rw [toSqls, List.length_cons, List.length_cons, ih]

/-- An array is right where it stops before anything panics or every element is right. -/
theorem writeArray_right {member : ScalarType} {elems : List PgParam} (f : PgParam → Outcome)
    (hlen : elems.length < 2 ^ 31) :
    Right named (.array member) (.Array elems) (writeArray member (elems.map f)) ↔
      (∃ before e after, elems = before ++ e :: after ∧ (f e).stops ∧
        ∀ b ∈ before, f b ≠ .panic) ∨ ∀ e ∈ elems, Right named (.scalar member) e (f e) := by
  rcases writeCells_cases (elems.map f) with ⟨hw, hall⟩ | ⟨hw, before, o, after, hos, ho, hbefore⟩ |
    ⟨hw, before, after, hos, hbefore⟩
  · have hgoes : ∀ e ∈ elems, ¬ (f e).stops ∧ f e ≠ .panic :=
      fun e he => hall (f e) (List.mem_map_of_mem he)
    have hright : Right named (.array member) (.Array elems) (writeArray member (elems.map f)) ↔
        ∀ e ∈ elems, EncodesCell named member e (f e).cell := by
      rw [writeArray, hw, List.map_map]
      constructor
      · rintro ⟨_, cells, heq, _, hcells, hbytes⟩
        cases heq
        have hshort : ∀ c ∈ cells, ∀ b, c = some b → b.length < 2 ^ 31 := by
          intro c hc
          obtain ⟨i, hi, rfl⟩ := List.getElem_of_mem hc
          exact (hcells.get (by rw [hcells.length_eq]; exact hi) hi).short
        have hwritten : ∀ c ∈ elems.map (Outcome.cell ∘ f), ∀ b, c = some b → b.length < 2 ^ 31 := by
          intro c hc b hb
          obtain ⟨e, he, rfl⟩ := List.mem_map.mp hc
          have hstop := (hgoes e he).1
          rw [Function.comp_apply] at hb
          cases hfe : f e with
          | bytes b' =>
            rw [hfe] at hb hstop
            cases hb
            exact not_le.mp hstop
          | null | error | panic =>
            rw [hfe] at hb
            cases hb
        have hcells' := arrayBytes_inj hwritten hshort
          (by rw [List.length_map]; exact hcells.length_eq) hbytes
        rw [← hcells'] at hcells
        exact forall₂_map_iff.mp hcells
      · intro h
        exact ⟨elems, _, rfl, hlen, forall₂_map_iff.mpr h, rfl⟩
    rw [hright]
    constructor
    · intro h
      right
      exact fun e he => (encodesCell_iff (hgoes e he).1 (hgoes e he).2).mp (h e he)
    · rintro (⟨before, e, after, rfl, hstop, _⟩ | h) x hx
      · exact absurd hstop (hgoes e (by simp)).1
      · exact (encodesCell_iff (hgoes x hx).1 (hgoes x hx).2).mpr (h x hx)
  · rw [writeArray, hw]
    refine iff_of_true trivial (Or.inl ?_)
    obtain ⟨xs, rest, rfl, rfl, hrest⟩ := List.map_eq_append_iff.mp hos
    obtain ⟨e, ys, rfl, rfl, rfl⟩ := List.map_eq_cons_iff.mp hrest
    exact ⟨xs, e, ys, rfl, ho, fun b hb => hbefore (f b) (List.mem_map_of_mem hb)⟩
  · rw [writeArray, hw]
    refine iff_of_false id ?_
    obtain ⟨xs, rest, rfl, rfl, hrest⟩ := List.map_eq_append_iff.mp hos
    obtain ⟨p, ys, rfl, hpanic, rfl⟩ := List.map_eq_cons_iff.mp hrest
    rintro (⟨before', e, after', hsplit, hstop, hbefore'⟩ | h)
    · -- the stop stands before the panic or behind it
      rcases List.append_eq_append_iff.mp hsplit with ⟨mid, rfl, hmid⟩ | ⟨mid, rfl, hmid⟩
      · cases mid with
        | nil =>
          cases hmid
          rw [hpanic] at hstop
          exact hstop
        | cons q mid =>
          cases hmid
          exact hbefore' p (by simp) hpanic
      · cases mid with
        | nil =>
          cases hmid
          rw [hpanic] at hstop
          exact hstop
        | cons q mid =>
          cases hmid
          exact hbefore (f e) (List.mem_map_of_mem (by simp)) hstop
    · have hp := h p (by simp)
      rw [hpanic] at hp
      exact hp

/-- In a slot of an array a scalar is written as if it were one of its own type. -/
theorem array_slot_bytes (hdoc : Documented client named) (member : ScalarType) {v : PgParam}
    (hnull : v ≠ .Null) (harr : ∀ elems, v ≠ .Array elems) :
    ∃ b, toSql client v (.array member) = .bytes b := by
  cases v with
  | Null => exact absurd rfl hnull
  | Bool b => exact ⟨_, hdoc.bool _ _⟩
  | Int n fits => exact ⟨_, hdoc.i64 _ _⟩
  | Float w => exact ⟨_, hdoc.f64 _ _⟩
  | Str s => exact ⟨_, hdoc.string _ _⟩
  | Array elems => exact absurd rfl (harr elems)

theorem array_right (hdoc : Documented client named) (member : ScalarType) (elems : List PgParam) :
    Right named (.array member) (.Array elems) (toSql client (.Array elems) (.array member)) ↔
      2 ^ 31 ≤ elems.length ∨
        (∃ before e after, elems = before ++ e :: after ∧ Stops client member e ∧
          ∀ b ∈ before, ¬ Panics member b) ∨
        ∀ e ∈ elems, Rejected client member e ∨ Fits client named member e := by
  rw [toSql, hdoc.slice_array, length_toSqls, toSqls_map]
  by_cases hlen : elems.length < 2 ^ 31
  · rw [if_pos hlen, writeArray_right _ hlen, or_iff_right (not_le.mpr hlen)]
    simp only [elementOutcome, (ends_scalar hdoc member _).stops_iff, ne_eq,
      (ends_scalar hdoc member _).panic_iff, scalar_right hdoc member]
  · rw [if_neg hlen]
    exact iff_of_true trivial (Or.inl (not_lt.mp hlen))

/-- A value is null, an error, or its own bytes in its slot exactly where it fits the slot. -/
theorem toSql_right_iff (hdoc : Documented client named) (ty : PgType) (v : PgParam) :
    Right named ty v (toSql client v ty) ↔ FitsSlot client named ty v := by
  cases ty with
  | scalar t => exact scalar_right hdoc t v
  | array member =>
    by_cases hnull : v = .Null
    · subst hnull
      exact iff_of_true rfl (Or.inl rfl)
    by_cases harr : ∃ elems, v = .Array elems
    · obtain ⟨elems, rfl⟩ := harr
      rw [array_right hdoc]
      simp [FitsSlot]
    · have hno : ∀ elems, v ≠ .Array elems := fun elems h => harr ⟨elems, h⟩
      obtain ⟨b, hb⟩ := array_slot_bytes hdoc member hnull hno
      rw [hb]
      refine iff_of_false ?_ ?_
      · rintro ⟨elems, _, rfl, _⟩
        exact hno elems rfl
      · rintro (h | ⟨elems, rfl, _⟩)
        · exact hnull h
        · exact hno elems rfl

end Slots

/-- Every bound value is written as its own bytes in its slot, or refused, exactly where it fits:
an integer in the range of its type, a float where it is the same number, a text of the type, and
of an array every element, unless one is refused first. -/
theorem bound_right_iff (client : Client) (named : Calendar) (hdoc : Documented client named)
    (value : BcValue) (ty : PgType) :
    (∀ v, toPgParam value = some v → Right named ty v (toSql client v ty)) ↔
      ∀ v, toPgParam value = some v → FitsSlot client named ty v := by
  simp only [toSql_right_iff hdoc]

/-! ## A client -/

/-- A client that knows one decimal, one date and no time. -/
def sampleClient : Client where
  toSql
    | .bool b, _ => .bytes [if b then 1 else 0]
    | .i16 x, _ => .bytes (BigEndian.word x)
    | .i32 x, _ => .bytes (BigEndian.word x)
    | .i64 x, _ => .bytes (BigEndian.word x)
    | .f32 x, _ => .bytes (BigEndian.word x)
    | .f64 x, _ => .bytes (BigEndian.word x)
    | .string s, _ => .bytes (utf8 s.toList)
    | .decimal _, _ => .bytes [0, 1, 0, 0, 0, 0, 0, 0, 0, 1]
    | .dateTime micros, _ =>
      if IsI64 micros then .bytes (BigEndian.word (BitVec.ofInt 64 micros)) else .error
    | .date days, _ => if IsI32 days then .bytes (BigEndian.word (BitVec.ofInt 32 days)) else .error
  slice elems
    | .scalar _ => .panic
    | .array member =>
      if elems.length < 2 ^ 31 then writeArray member (elems.map (· (.scalar member))) else .error
  tryFrom w := if w = 0x3FF0000000000000 then some ⟨1, 0⟩ else none
  parseDateTime _ := none
  parseDate s := if s = "2000-01-02" then some 1 else none

def sampleCalendar : Calendar
  | .DATE, s => if s = "2000-01-02" then some 1 else none
  | _, s => if s = "2000-01-02" then some microsPerDay else none

theorem sampleClient_documented : Documented sampleClient sampleCalendar where
  bool _ _ := rfl
  i16 _ _ := rfl
  i32 _ _ := rfl
  i64 _ _ := rfl
  f32 _ _ := rfl
  f64 _ _ := rfl
  string _ _ := rfl
  decimal w d h := by
    simp only [sampleClient] at h
    split at h
    · cases h
      refine ⟨_, rfl, by norm_num, ?_⟩
      simp [readNumeric, halfWord, numericDigits, Decimal.value]
    · cases h
  dateTime _ _ := rfl
  date _ _ := rfl
  slice_scalar _ _ := rfl
  slice_array _ _ := rfl
  parseDateTime _ _ h := by cases h
  midnight s days h := by
    simp only [sampleClient] at h
    split at h
    · next hs =>
      cases h
      rw [sampleCalendar, if_pos hs]
      · rfl
      · simp
    · cases h
  parseDate _ _ h := h

/-- A list of a number and a null for an array of `numeric`. -/
theorem bound_right_numeric :
    ∃ v, toPgParam (.Arr [.Float 0x3FF0000000000000, .Null]) = some v ∧
      Right sampleCalendar (.array .NUMERIC) v (toSql sampleClient v (.array .NUMERIC)) := by
  refine ⟨_, rfl, (bound_right_iff sampleClient sampleCalendar sampleClient_documented
    (.Arr [.Float 0x3FF0000000000000, .Null]) _).mpr ?_ _ rfl⟩
  intro v hv
  cases hv
  refine Or.inr ⟨_, rfl, Or.inr (Or.inr ?_)⟩
  intro e he
  right
  rcases List.mem_cons.mp he with rfl | he
  · intro d hd
    cases hd
    have hrat : Binary64.toRat 0x3FF0000000000000 = 1 := by
      have hscale : Binary64.scale 0x3FF0000000000000 = -52 := by decide
      have hsig : Binary64.signed 0x3FF0000000000000 (Binary64.significand 0x3FF0000000000000) =
          2 ^ 52 := by decide
      rw [Binary64.toRat, hscale, hsig]
      norm_num
    exact number_eq_fin_iff.mpr ⟨by decide, hrat.trans (by simp [Decimal.value])⟩
  · rw [List.mem_singleton.mp he]
    trivial

/-- An integer of 32 bits and more is cut to 32 in a slot of `int4`. -/
theorem int4_truncated :
    ¬ ∀ client named, Documented client named → ∀ value ty v, toPgParam value = some v →
      Right named ty v (toSql client v ty) := by
  intro h
  have hright := h sampleClient sampleCalendar sampleClient_documented (.Int (2 ^ 31) (by decide))
    (.scalar .INT4) (.Int (2 ^ 31) (by decide)) rfl
  obtain ⟨x, hx, hread⟩ : ∃ x, some (FloatNumber.fin ((2 ^ 31 : Int) : ℚ)) = some x ∧
      readInt 32 (BigEndian.word (BitVec.ofInt 32 (2 ^ 31))) = some x := hright
  rw [← hx, readInt_word rfl, fin_intCast_inj] at hread
  exact absurd hread (by decide)

end LiteDb.PgParams
