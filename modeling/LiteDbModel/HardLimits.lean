import Mathlib.Data.List.Perm.Basic

/-!
# Hard limits

A guarded load asks for one row more than its limit and throws when it gets them
all. The limits are those of `DBModel`, whichever base the model belongs to; a
relation may have its own.
-/

namespace LiteDb.HardLimits
set_option autoImplicit false

/-! ## Configuration -/

/-- Whose static members a call of the configuration writes. -/
inductive Base
  | dbModel
  /-- A class of `createDBBase`. -/
  | generated
deriving DecidableEq

/-- `undefined` and null are both none. -/
structure LimitConfig where
  findHardLimit : Option Nat
  hasManyHardLimit : Option Nat

/-- The limits among the options of a call; an absent one is none. -/
structure LimitOptions where
  findHardLimit : Option (Option Nat)
  hasManyHardLimit : Option (Option Nat)

structure Configs where
  dbModel : LimitConfig
  generated : LimitConfig

def Configs.of (c : Configs) : Base → LimitConfig
  | .dbModel => c.dbModel
  | .generated => c.generated

def Configs.write (c : Configs) (config : LimitConfig) : Base → Configs
  | .dbModel => { c with dbModel := config }
  | .generated => { c with generated := config }

inductive ConfigCall
  | setConfig (base : Base) (options : LimitOptions)
  | setLimitConfig (base : Base) (config : LimitOptions)

/-- `setConfig` takes every limit from its options. -/
def LimitOptions.fresh (o : LimitOptions) : LimitConfig :=
  ⟨o.findHardLimit.join, o.hasManyHardLimit.join⟩

/-- `{ ...this._limitConfig, ...config }` -/
def LimitConfig.merge (c : LimitConfig) (o : LimitOptions) : LimitConfig :=
  ⟨o.findHardLimit.getD c.findHardLimit, o.hasManyHardLimit.getD c.hasManyHardLimit⟩

def Configs.call (c : Configs) : ConfigCall → Configs
  | .setConfig base options => c.write options.fresh base
  | .setLimitConfig base config => c.write ((c.of base).merge config) base

/-- The limits after `createDBBase(options)` and the calls. -/
def configured (options : LimitOptions) (calls : List ConfigCall) : Configs :=
  calls.foldl Configs.call ⟨⟨none, none⟩, options.fresh⟩

/-! ## Loads -/

section Loads
variable {ρ : Type}

/-- What a statement answers with and without a `LIMIT`; without an order the rows come in any. -/
structure Answer (ρ : Type) where
  rows : List ρ
  limited : Nat → List ρ
  full : ∀ n, rows.length ≤ n → (limited n).Perm rows
  cut : ∀ n, n ≤ rows.length → (limited n).length = n

def Answer.get (a : Answer ρ) : Option Nat → List ρ
  | none => a.rows
  | some n => a.limited n

structure LimitExceededError where
  limit : Nat
  actualCount : Nat
  context : String

/-- `if (shouldCheckLimit && results.length > hardLimit) throw` -/
def checked (hardLimit : Option Nat) (context : String) (results : List ρ) :
    Except LimitExceededError (List ρ) :=
  match hardLimit with
  | some h => if h < results.length then .error ⟨h, results.length, context⟩ else .ok results
  | none => .ok results

/-- A load that asks for one row more than its hard limit. -/
def guarded (hardLimit : Option Nat) (context : String) (a : Answer ρ) :
    Except LimitExceededError (List ρ) :=
  checked hardLimit context (a.get (hardLimit.map (· + 1)))

/-- `find`, with the `limit` of its options; a limit of zero is taken for none. -/
def find (c : Configs) (limit : Option Nat) (a : Answer ρ) : Except LimitExceededError (List ρ) :=
  let shouldCheckLimit := c.dbModel.findHardLimit.isSome && limit.getD 0 = 0
  if shouldCheckLimit then guarded c.dbModel.findHardLimit "find" a else .ok (a.get limit)

inductive RelationType
  | hasMany
  | belongsTo
  | hasOne
deriving DecidableEq

/-- One record's load of a relation: the batch of all records, the rows of the windowed query that a
limited `hasMany` runs instead, and which of the rows have this record's key. -/
structure RelationLoad (ρ : Type) where
  relationType : RelationType
  limit : Option Nat
  /-- None is `undefined`. -/
  hardLimit : Option (Option Nat)
  batch : Answer ρ
  windowed : List ρ
  mine : ρ → Bool

/-- `undefined` means the global limit, null means none. -/
def effectiveHardLimit (c : Configs) (l : RelationLoad ρ) : Option Nat :=
  l.hardLimit.getD c.dbModel.hasManyHardLimit

def RelationLoad.needsLimitedLoading (l : RelationLoad ρ) : Bool :=
  l.relationType = .hasMany && l.limit.isSome

/-- The rows of the batch; the windowed query is not checked. -/
def batchLoadRelation (c : Configs) (l : RelationLoad ρ) : Except LimitExceededError (List ρ) :=
  if l.needsLimitedLoading then .ok l.windowed
  else guarded (effectiveHardLimit c l) "relation" l.batch

/-- A later row of a key replaces an earlier one, but for `hasMany`. -/
def RelationLoad.children (l : RelationLoad ρ) (rows : List ρ) : List ρ :=
  match l.relationType with
  | .hasMany => rows.filter l.mine
  | .belongsTo => (rows.filter l.mine).getLast?.toList
  | .hasOne => (rows.filter l.mine).getLast?.toList

/-- The record's own children are checked once more for `hasMany`. -/
def loadRelation (c : Configs) (l : RelationLoad ρ) : Except LimitExceededError (List ρ) := do
  let rows ← batchLoadRelation c l
  if l.relationType = .hasMany then checked (effectiveHardLimit c l) "relation" (l.children rows)
  else .ok (l.children rows)

/-! ## What a guard is for -/

inductive Load (ρ : Type)
  | find (limit : Option Nat) (a : Answer ρ)
  | relation (l : RelationLoad ρ)

def Load.run (c : Configs) : Load ρ → Except LimitExceededError (List ρ)
  | .find limit a => HardLimits.find c limit a
  | .relation l => loadRelation c l

/-- The hard limit that the load's base configures for it. An explicit limit of a `find` takes its place. -/
def Load.hardLimit (c : LimitConfig) : Load ρ → Option Nat
  | .find limit _ => if limit.isSome then none else c.findHardLimit
  | .relation l => l.hardLimit.getD c.hasManyHardLimit

/-- The rows that are counted: a relation without a limit of its own counts its whole batch. -/
def Load.counted : Load ρ → List ρ
  | .find limit a => a.get limit
  | .relation l => if l.needsLimitedLoading then l.windowed.filter l.mine else l.batch.rows

/-- The rows that the caller is to get. -/
def Load.wanted : Load ρ → List ρ
  | .find limit a => a.get limit
  | .relation l => if l.needsLimitedLoading then l.windowed.filter l.mine else l.batch.rows.filter l.mine

def Load.single : Load ρ → Bool
  | .find _ _ => false
  | .relation l => l.relationType ≠ .hasMany

def exceeds (limit : Option Nat) (count : Nat) : Bool := limit.any (· < count)

/-- All the rows come back, of a single relation one if there is one. -/
def Load.Complete (l : Load ρ) (result : List ρ) : Prop :=
  if l.single then result ⊆ l.wanted ∧ (result = [] → l.wanted = []) else result.Perm l.wanted

/-- The guard throws exactly when the base's limit is exceeded, and nothing is cut silently. -/
def Guarded (c : Configs) (base : Base) (l : Load ρ) : Prop :=
  match l.run c with
  | .error _ => exceeds (l.hardLimit (c.of base)) l.counted.length = true
  | .ok result => exceeds (l.hardLimit (c.of base)) l.counted.length = false ∧ l.Complete result

end Loads

/-! ## Counting -/

section Counting
variable {ρ : Type}

theorem checked_exceeds {h : Option Nat} {rows : List ρ} (context : String)
    (he : exceeds h rows.length = true) : ∃ e, checked h context rows = .error e := by
  cases h with
  | none => cases he
  | some h =>
    refine ⟨_, if_pos ?_⟩
    simpa [exceeds] using he

theorem checked_within {h : Option Nat} {rows : List ρ} (context : String)
    (he : exceeds h rows.length = false) : checked h context rows = .ok rows := by
  cases h with
  | none => rfl
  | some h =>
    apply if_neg
    simpa [exceeds] using he

theorem exceeds_mono {h : Option Nat} {m n : Nat} (hmn : m ≤ n) (he : exceeds h n = false) :
    exceeds h m = false := by
  cases h with
  | none => rfl
  | some h =>
    simp only [exceeds, Option.any_some, decide_eq_false_iff_not, Nat.not_lt] at he ⊢
    omega

/-- One row more than the limit is enough to see that there are more. -/
theorem guarded_exceeds {h : Option Nat} {a : Answer ρ} (context : String)
    (he : exceeds h a.rows.length = true) : ∃ e, guarded h context a = .error e := by
  cases h with
  | none => cases he
  | some h =>
    have hn : h < a.rows.length := by simpa [exceeds] using he
    apply checked_exceeds
    have hc : (a.limited (h + 1)).length = h + 1 := a.cut (h + 1) hn
    simp [exceeds, Answer.get, hc]

theorem guarded_within {h : Option Nat} {a : Answer ρ} (context : String)
    (he : exceeds h a.rows.length = false) :
    ∃ rows, guarded h context a = .ok rows ∧ rows.Perm a.rows := by
  cases h with
  | none => exact ⟨a.rows, rfl, List.Perm.refl _⟩
  | some h =>
    have hn : a.rows.length ≤ h := by simpa [exceeds] using he
    have hp : (a.limited (h + 1)).Perm a.rows := a.full (h + 1) (by omega)
    refine ⟨a.limited (h + 1), ?_, hp⟩
    apply checked_within
    simpa [exceeds, Answer.get, hp.length_eq] using hn

end Counting

/-! ## Relations -/

section Relations
variable {ρ : Type} {c : Configs} {l : RelationLoad ρ}

theorem children_perm {rows : List ρ} (hm : l.relationType = .hasMany)
    (hp : rows.Perm l.batch.rows) : (l.children rows).Perm (l.batch.rows.filter l.mine) := by
  simpa [RelationLoad.children, hm] using hp.filter l.mine

theorem children_single {rows : List ρ} (hm : l.relationType ≠ .hasMany)
    (hp : rows.Perm l.batch.rows) :
    l.children rows ⊆ l.batch.rows.filter l.mine ∧
      (l.children rows = [] → l.batch.rows.filter l.mine = []) := by
  have hf : (rows.filter l.mine).Perm (l.batch.rows.filter l.mine) := hp.filter l.mine
  have hc : l.children rows = (rows.filter l.mine).getLast?.toList := by
    cases h : l.relationType with
    | hasMany => exact absurd h hm
    | belongsTo => simp [RelationLoad.children, h]
    | hasOne => simp [RelationLoad.children, h]
  rw [hc]
  constructor
  · intro x hx
    apply hf.subset
    exact List.mem_of_getLast? (by simpa using hx)
  · intro he
    have hn : rows.filter l.mine = [] := by simpa using he
    simpa [hn] using hf

/-- An unlimited load counts its batch, and its children are among it. -/
theorem loadRelation_batch (hl : l.needsLimitedLoading = false)
    (he : exceeds (effectiveHardLimit c l) l.batch.rows.length = false) :
    ∃ rows, rows.Perm l.batch.rows ∧ loadRelation c l = .ok (l.children rows) := by
  obtain ⟨rows, hg, hp⟩ := guarded_within "relation" he
  have hb : batchLoadRelation c l = .ok rows := by simp [batchLoadRelation, hl, hg]
  refine ⟨rows, hp, ?_⟩
  by_cases hm : l.relationType = .hasMany
  · have hle : (l.children rows).length ≤ l.batch.rows.length := by
      rw [(children_perm hm hp).length_eq]
      exact List.length_filter_le _ _
    have hk := checked_within "relation" (exceeds_mono hle he)
    simp [loadRelation, hb, hm, hk, bind, Except.bind]
  · simp [loadRelation, hb, hm, bind, Except.bind]

theorem loadRelation_batch_exceeds (hl : l.needsLimitedLoading = false)
    (he : exceeds (effectiveHardLimit c l) l.batch.rows.length = true) :
    ∃ e, loadRelation c l = .error e := by
  obtain ⟨e, hg⟩ := guarded_exceeds "relation" he
  refine ⟨e, ?_⟩
  simp [loadRelation, batchLoadRelation, hl, hg, bind, Except.bind]

theorem loadRelation_windowed (hl : l.needsLimitedLoading = true) :
    loadRelation c l = checked (effectiveHardLimit c l) "relation" (l.windowed.filter l.mine) := by
  have hm : l.relationType = .hasMany := by
    simp only [RelationLoad.needsLimitedLoading, Bool.and_eq_true, decide_eq_true_eq] at hl
    exact hl.1
  simp [loadRelation, batchLoadRelation, hl, hm, RelationLoad.children, bind, Except.bind]

end Relations

/-! ## When a load is guarded -/

section Guards
variable {ρ : Type} {c : Configs} {base : Base}

/-- The load throws exactly when `DBModel`'s limits are exceeded, and answers completely otherwise. -/
structure Counts (c : Configs) (l : Load ρ) (h : Option Nat) : Prop where
  throws : exceeds h l.counted.length = true → ∃ e, l.run c = .error e
  answers : exceeds h l.counted.length = false → ∃ result, l.run c = .ok result ∧ l.Complete result

theorem Counts.guarded_iff {l : Load ρ} {h : Option Nat} (hc : Counts c l h) :
    Guarded c base l ↔
      exceeds h l.counted.length = exceeds (l.hardLimit (c.of base)) l.counted.length := by
  unfold Guarded
  cases he : exceeds h l.counted.length with
  | true =>
    obtain ⟨e, hr⟩ := hc.throws he
    rw [hr]
    exact eq_comm
  | false =>
    obtain ⟨result, hr, hw⟩ := hc.answers he
    rw [hr]
    constructor
    · intro hg
      exact hg.1.symm
    · intro hg
      exact ⟨hg.symm, hw⟩

theorem relation_counts (l : RelationLoad ρ) :
    Counts c (.relation l) (effectiveHardLimit c l) := by
  cases hl : l.needsLimitedLoading with
  | true =>
    have hm : l.relationType = .hasMany := by
      simp only [RelationLoad.needsLimitedLoading, Bool.and_eq_true, decide_eq_true_eq] at hl
      exact hl.1
    constructor
    · intro he
      simp only [Load.counted, hl, if_true] at he
      obtain ⟨e, hk⟩ := checked_exceeds "relation" he
      exact ⟨e, (loadRelation_windowed hl).trans hk⟩
    · intro he
      simp only [Load.counted, hl, if_true] at he
      refine ⟨_, (loadRelation_windowed hl).trans (checked_within "relation" he), ?_⟩
      simp [Load.Complete, Load.single, Load.wanted, hl, hm]
  | false =>
    constructor
    · intro he
      simp only [Load.counted, hl, Bool.false_eq_true, if_false] at he
      exact loadRelation_batch_exceeds hl he
    · intro he
      simp only [Load.counted, hl, Bool.false_eq_true, if_false] at he
      obtain ⟨rows, hp, hr⟩ := loadRelation_batch hl he
      refine ⟨_, hr, ?_⟩
      by_cases hm : l.relationType = .hasMany
      · simpa [Load.Complete, Load.single, Load.wanted, hl, hm] using children_perm hm hp
      · simpa [Load.Complete, Load.single, Load.wanted, hl, hm] using children_single hm hp

theorem find_counts (a : Answer ρ) : Counts c (.find none a) c.dbModel.findHardLimit := by
  have hrun : (Load.find none a).run c = guarded c.dbModel.findHardLimit "find" a := by
    cases h : c.dbModel.findHardLimit with
    | none => simp [Load.run, HardLimits.find, h, guarded, checked, Answer.get]
    | some n => simp [Load.run, HardLimits.find, h]
  constructor
  · intro he
    rw [hrun]
    exact guarded_exceeds "find" he
  · intro he
    rw [hrun]
    obtain ⟨rows, hg, hp⟩ := guarded_within "find" he
    exact ⟨rows, hg, by simpa [Load.Complete, Load.single, Load.wanted, Answer.get] using hp⟩

theorem find_limit_counts (n : Nat) (a : Answer ρ) : Counts c (.find (some (n + 1)) a) none := by
  constructor
  · intro he
    cases he
  · intro _
    refine ⟨a.limited (n + 1), ?_, ?_⟩
    · simp [Load.run, HardLimits.find, Answer.get]
    · simp [Load.Complete, Load.single, Load.wanted, Answer.get]

/-- `!opts?.limit` holds of a limit of zero too: the guard replaces it. -/
theorem find_zero_guarded_iff (a : Answer ρ) :
    Guarded c base (.find (some 0) a) ↔ c.dbModel.findHardLimit = none ∨ a.rows = [] := by
  have hz : a.limited 0 = [] := List.length_eq_zero_iff.mp (a.cut 0 (Nat.zero_le _))
  cases h : c.dbModel.findHardLimit with
  | none =>
    simp [Guarded, Load.run, HardLimits.find, h, Answer.get, Load.hardLimit, exceeds,
      Load.Complete, Load.single, Load.wanted]
  | some n =>
    have hrun : (Load.find (some 0) a).run c = guarded (some n) "find" a := by
      simp [Load.run, HardLimits.find, h]
    unfold Guarded
    rw [hrun]
    cases he : exceeds (some n) a.rows.length with
    | true =>
      obtain ⟨e, hg⟩ := guarded_exceeds "find" he
      have hne : a.rows ≠ [] := by
        intro h0
        simp [h0, exceeds] at he
      simp [hg, Load.hardLimit, exceeds, hne]
    | false =>
      obtain ⟨rows, hg, hp⟩ := guarded_within "find" he
      have hnil : rows = [] ↔ a.rows = [] := by
        rw [← List.length_eq_zero_iff, hp.length_eq, List.length_eq_zero_iff]
      simp [hg, Load.hardLimit, exceeds, Load.Complete, Load.single, Load.wanted, Answer.get, hz, hnil]

/-- Both limits or neither are exceeded by the rows counted. -/
def Load.Agrees (c : Configs) (base : Base) : Load ρ → Prop
  | .find none a =>
    exceeds c.dbModel.findHardLimit a.rows.length =
      exceeds (c.of base).findHardLimit a.rows.length
  | .find (some 0) a => c.dbModel.findHardLimit = none ∨ a.rows = []
  | .find (some (_ + 1)) _ => True
  | .relation l => l.hardLimit = none →
    exceeds c.dbModel.hasManyHardLimit (Load.relation l).counted.length =
      exceeds (c.of base).hasManyHardLimit (Load.relation l).counted.length

theorem guarded_iff_agrees (l : Load ρ) : Guarded c base l ↔ l.Agrees c base := by
  match l with
  | .find none a => exact (find_counts a).guarded_iff
  | .find (some 0) a => exact find_zero_guarded_iff a
  | .find (some (n + 1)) a =>
    rw [(find_limit_counts n a).guarded_iff]
    simp [Load.Agrees, Load.hardLimit]
  | .relation r =>
    rw [(relation_counts r).guarded_iff]
    cases hr : r.hardLimit with
    | none => simp [Load.Agrees, Load.hardLimit, effectiveHardLimit, hr]
    | some h => simp [Load.Agrees, Load.hardLimit, effectiveHardLimit, hr]

/-- The limits of a generated base are never read. -/
theorem run_write_generated (config : LimitConfig) (l : Load ρ) :
    l.run (c.write config .generated) = l.run c := by
  cases l with
  | find limit a => rfl
  | relation r => rfl

theorem guarded_dbModel {l : Load ρ} (hl : ∀ a, l ≠ .find (some 0) a) : Guarded c .dbModel l := by
  apply (guarded_iff_agrees l).mpr
  match l with
  | .find none a => rfl
  | .find (some 0) a => exact absurd rfl (hl a)
  | .find (some (n + 1)) a => trivial
  | .relation r => exact fun _ => rfl

theorem guarded_configured_iff (options : LimitOptions) (calls : List ConfigCall) (base : Base)
    (l : Load ρ) :
    Guarded (configured options calls) base l ↔ l.Agrees (configured options calls) base :=
  guarded_iff_agrees l

end Guards

/-- The rows in the order of a list. -/
def Answer.ofList {ρ : Type} (rows : List ρ) : Answer ρ where
  rows := rows
  limited := rows.take
  full n hn := by rw [List.take_of_length_le hn]
  cut n hn := List.length_take_of_le hn

theorem base_limit_ignored :
    ¬ Guarded (configured ⟨some (some 1), none⟩ []) .generated
      (.find none (Answer.ofList ["Ada", "Bob"])) := by
  intro hg
  have he : exceeds (some 1) 2 = false := hg.1
  exact absurd he (by decide)

end LiteDb.HardLimits
