import LiteDbModel.Values
import LiteDbModel.Lib.TopN

/-!
# A `hasMany` with a limit for each parent

Without a limit the relation goes through the model's own `SELECT`; with one it
is a window over a `SELECT` of its own: a lateral join on PostgreSQL, numbered
rows on MySQL and SQLite. Conditions are named properties of an object, and a
later property replaces an earlier one of its name.
-/

namespace LiteDb
set_option autoImplicit false
open TopN

/-! ## Conditions by name -/

/-- The properties of a condition object: what each asks of a row. -/
abbrev Conditions (ρ : Type) := List (String × (ρ → Bool))

/-- `{ ...base, ...last }`. -/
def spread {ρ : Type} (base last : Conditions ρ) : Conditions ρ :=
  (base.filter fun e => e.1 ∉ last.map (·.1)) ++ last

def passes {ρ : Type} (conditions : Conditions ρ) (r : ρ) : Bool := conditions.all fun e => e.2 r

/-! ## The relation and its target -/

/-- The target model; an empty order is none. -/
structure TargetModel (ρ : Type) where
  FIND_FILTER : Option (Conditions ρ)
  DEFAULT_ORDER : Option String
  isQueryBased : Bool

/-- The relation and the key of a target row, which is none where a column of it is null. -/
structure LimitedRelation (ρ κ : Type) where
  key : ρ → Option κ
  isComposite : Bool
  targetKey : String
  conditions : Conditions ρ
  order : Option String
  limit : Nat
  hardLimit : Option Nat

/-- A state: the table of the model's name, if there is one, and the rows of its custom query. -/
structure TargetState (ρ : Type) where
  table : Option (List ρ)
  derived : List ρ

/-- How rows compare under an `ORDER BY`; under the target key rows of one key are equal. -/
structure OrderTexts {ρ κ : Type} (rel : LimitedRelation ρ κ) where
  le : String → ρ → ρ → Bool
  total : ∀ order a b, le order a b = true ∨ le order b a = true
  trans : ∀ order a b c, le order a b = true → le order b c = true → le order a c = true
  tied : ∀ a b, rel.key a = rel.key b → le rel.targetKey a b = true

/-- What the database is free to do: break ties, and return unordered rows in any order. -/
structure RowArranger {ρ κ : Type} {rel : LimitedRelation ρ κ} (texts : OrderTexts rel) where
  sortBy : String → List ρ → List ρ
  arrange : List ρ → List ρ
  sortBy_perm : ∀ order rows, (sortBy order rows).Perm rows
  sortBy_sorted : ∀ order rows, (sortBy order rows).Pairwise fun a b => texts.le order a b = true
  arrange_perm : ∀ rows, (arrange rows).Perm rows

section Loading
variable {ρ κ : Type} [DecidableEq κ] (dialect : Dialect) (model : TargetModel ρ)
  (rel : LimitedRelation ρ κ) {texts : OrderTexts rel} (db : RowArranger texts)
  (misbound : List κ → Option (ρ → Bool)) (st : TargetState ρ) (keys : List κ)

def inKeys (r : ρ) : Bool :=
  match rel.key r with
  | some k => k ∈ keys
  | none => false

def ordered (order : Option String) (rows : List ρ) : List ρ :=
  match order with
  | some text => db.sortBy text rows
  | none => db.arrange rows

/-! ## Without a limit -/

/-- The condition object of the unlimited load; PostgreSQL joins composite keys instead. -/
def unlimitedConditions : Conditions ρ :=
  match dialect, rel.isComposite with
  | .postgres, false => spread [("__raw__", inKeys rel keys)] rel.conditions
  | .postgres, true => rel.conditions
  | _, false => spread rel.conditions [(rel.targetKey, inKeys rel keys)]
  | _, true => spread rel.conditions [("__tuple__", inKeys rel keys)]

/-- The join of a composite key on PostgreSQL. -/
def joins (r : ρ) : Bool := !(dialect = .postgres && rel.isComposite) || inKeys rel keys r

/-- `_buildSelectSQL` adds the model's filter. -/
def findFilter (r : ρ) : Bool :=
  match model.FIND_FILTER with
  | some filter => passes filter r
  | none => true

/-- The rows that `FROM` names in the model's own `SELECT`. -/
def modelSource : Option (List ρ) := if model.isQueryBased then some st.derived else st.table

/-- `config.order`, or else the model's `DEFAULT_ORDER`. -/
def relationOrder : Option String := rel.order.or model.DEFAULT_ORDER

def unlimitedPasses (r : ρ) : Bool :=
  joins dialect rel keys r && passes (unlimitedConditions dialect rel keys) r && findFilter model r

/-- `_selectForRelation` with conditions; too many rows are an error. -/
def loadUnlimited : Except String (List ρ) :=
  match modelSource model st with
  | none => .error "no such table"
  | some source =>
    let rows := ordered rel db (relationOrder model rel)
      (source.filter (unlimitedPasses dialect model rel keys))
    match rel.hardLimit with
    | some limit => if limit < rows.length then .error "LimitExceededError" else .ok rows
    | none => .ok rows

/-! ## With a limit -/

/-- The conditions inside the lateral join, for one key row. -/
def lateralConditions (k : κ) : Conditions ρ :=
  spread [("__raw__", fun r => rel.key r = some k)] rel.conditions

/-- `batchLoadWithLateral`, of either arity: the first rows of each key row. -/
def loadLateral (source : List ρ) : List ρ :=
  db.arrange (keys.flatMap fun k =>
    (ordered rel db rel.order (source.filter (passes (lateralConditions rel k)))).take rel.limit)

/-- The filter inside the numbered `SELECT`. The composite one names its key condition `__raw__`
without its parameters, which stay behind when the relation has a condition of that name. -/
def rankedPasses : Option (ρ → Bool) :=
  if rel.isComposite then
    if "__raw__" ∈ rel.conditions.map (·.1) then misbound keys
    else some (passes (spread [("__raw__", inKeys rel keys)] rel.conditions))
  else some (passes (spread [(rel.targetKey, inKeys rel keys)] rel.conditions))

/-- The rows that are numbered up to the limit within each key. -/
def numberedRows (rows : List ρ) : List ρ :=
  (rows.map rel.key).dedup.flatMap fun p =>
    (db.sortBy (rel.order.getD rel.targetKey) (rows.filter fun r => rel.key r = p)).take rel.limit

/-- `batchLoadWithRowNumber`, of either arity. -/
def loadRowNumber (source : List ρ) : Except String (List ρ) :=
  match rankedPasses rel misbound keys with
  | none => .error "wrong number of parameters"
  | some pass => .ok (db.arrange (numberedRows rel db (source.filter pass)))

/-- `buildSelectSQL` reads the table of the model's name. -/
def loadLimited : Except String (List ρ) :=
  match st.table with
  | none => .error "no such table"
  | some source =>
    match dialect with
    | .postgres => .ok (loadLateral rel db keys source)
    | _ => loadRowNumber rel db misbound keys source

/-! ## What the limit promises -/

/-- The children of a parent among the loaded rows. -/
def childrenOf (rows : List ρ) (k : κ) : List ρ := rows.filter fun r => rel.key r = some k

/-- `_loadRelation` checks the children of each parent once more. -/
def withinHardLimit (count : Nat) : Prop := ∀ limit, rel.hardLimit = some limit → count ≤ limit

/-- The order in which the first children are taken. -/
def relationLe (texts : OrderTexts rel) (a b : ρ) : Prop :=
  ∀ order, relationOrder model rel = some order → texts.le order a b = true

end Loading

section Promise
variable {ρ κ : Type} [DecidableEq κ] (dialect : Dialect) (model : TargetModel ρ)
  (rel : LimitedRelation ρ κ) (texts : OrderTexts rel) (misbound : List κ → Option (ρ → Bool))

/-- Whenever the relation loads without its limit, it loads with it, and each parent gets a first
`n` of its children. -/
def LimitsEach : Prop :=
  ∀ (db : RowArranger texts) (st : TargetState ρ) (keys : List κ), keys.Nodup → keys ≠ [] →
    ∀ all, loadUnlimited dialect model rel db st keys = .ok all →
      ∃ rows, loadLimited dialect rel db misbound st keys = .ok rows ∧
        ∀ k ∈ keys, withinHardLimit rel (childrenOf rel rows k).length ∧
          FirstN (relationLe model rel texts) rel.limit (childrenOf rel all k)
            (childrenOf rel rows k)

/-- A row with its key among the keys passes the filter of the limited load, if there is one. -/
def limitedPasses (keys : List κ) : Option (ρ → Bool) :=
  match dialect with
  | .postgres => some (passes (rel.conditions))
  | _ => rankedPasses rel misbound keys

/-- Rows with a wanted key pass both filters or neither, each row is loaded for one key, and both
loads order alike. Where the hard limit leaves no room for such rows, nothing is asked of them. -/
structure LoadsAlike : Prop where
  table : model.isQueryBased = false
  filter : ∀ keys : List κ, keys.Nodup → keys ≠ [] →
    ∃ pass, limitedPasses dialect rel misbound keys = some pass ∧
      (0 < rel.limit → ∀ r, inKeys rel keys r = true →
        (pass r = true → unlimitedPasses dialect model rel keys r = true) ∧
        (withinHardLimit rel 1 → unlimitedPasses dialect model rel keys r = true → pass r = true))
  once : dialect = .postgres → "__raw__" ∈ rel.conditions.map (·.1) → 0 < rel.limit →
    withinHardLimit rel 1 → ∀ (keys : List κ) (r : ρ), inKeys rel keys r = true →
      unlimitedPasses dialect model rel keys r = false
  order : 0 < rel.limit → withinHardLimit rel (rel.limit + 1) → rel.order = none →
    ∀ order, model.DEFAULT_ORDER = some order → ∀ (keys : List κ) (a b : ρ),
      inKeys rel keys a = true → rel.key a = rel.key b →
      unlimitedPasses dialect model rel keys a = true →
      unlimitedPasses dialect model rel keys b = true → texts.le order a b = true

/-- A condition named `__raw__` takes the place of the composite key condition of a numbered load,
whose parameters are bound all the same. -/
def misbinds : Prop :=
  dialect ≠ .postgres ∧ rel.isComposite = true ∧ "__raw__" ∈ rel.conditions.map (·.1)

/-- The conditions that the unlimited load leaves standing. -/
def standingConditions : Conditions ρ :=
  match dialect with
  | .postgres => rel.conditions
  | _ => rel.conditions.filter fun e => e.1 ≠ if rel.isComposite then "__tuple__" else rel.targetKey

/-- A row that the unlimited load shows to a parent of its key. -/
def shown (r : ρ) : Bool := passes (standingConditions dialect rel) r && findFilter model r

/-- What the declaration of a limited relation has to keep to. -/
structure LimitsSafely : Prop where
  /-- The target has no custom query. -/
  table : model.isQueryBased = false
  /-- The target's filter lets through every row that the conditions of the relation do. -/
  findFilter : 0 < rel.limit → ¬misbinds dialect rel → ∀ r, rel.key r ≠ none →
    passes rel.conditions r = true → findFilter model r = true
  /-- A condition that the keys displace from the unlimited load left out none of its rows. -/
  displaced : 0 < rel.limit → withinHardLimit rel 1 → ¬misbinds dialect rel →
    ∀ r, rel.key r ≠ none → shown dialect model rel r = true → passes rel.conditions r = true
  /-- Misbound parameters happen to filter as the right ones. -/
  bound : misbinds dialect rel → ∀ keys : List κ, keys.Nodup → keys ≠ [] →
    ∃ pass, misbound keys = some pass ∧ (0 < rel.limit → ∀ r, inKeys rel keys r = true →
      (pass r = true → shown dialect model rel r = true) ∧
      (withinHardLimit rel 1 → shown dialect model rel r = true → pass r = true))
  /-- No condition is named `__raw__`, which displaces the key of a lateral join. -/
  once : dialect = .postgres → "__raw__" ∈ rel.conditions.map (·.1) → 0 < rel.limit →
    withinHardLimit rel 1 → ∀ r, rel.key r ≠ none → shown dialect model rel r = false
  /-- A target with a default order needs a relation with an order. -/
  order : 0 < rel.limit → withinHardLimit rel (rel.limit + 1) → rel.order = none →
    ∀ order, model.DEFAULT_ORDER = some order → ∀ a b : ρ, rel.key a ≠ none →
      rel.key a = rel.key b → shown dialect model rel a = true →
      shown dialect model rel b = true → texts.le order a b = true

end Promise

/-! ## What passes -/

section Passing
variable {ρ κ : Type} [DecidableEq κ] {dialect : Dialect} {model : TargetModel ρ}
  {rel : LimitedRelation ρ κ} {misbound : List κ → Option (ρ → Bool)} {keys : List κ}

theorem passes_append (cs ds : Conditions ρ) (r : ρ) :
    passes (cs ++ ds) r = (passes cs r && passes ds r) := List.all_append

/-- A condition that is written first stands unless a later one has its name. -/
theorem passes_spread_first (name : String) (p : ρ → Bool) (conditions : Conditions ρ) (r : ρ) :
    passes (spread [(name, p)] conditions) r =
      ((decide (name ∈ conditions.map (·.1)) || p r) && passes conditions r) := by
  rw [spread, passes_append]
  by_cases h : name ∈ conditions.map (·.1)
  · have hnil : [(name, p)].filter (fun e => e.1 ∉ conditions.map (·.1)) = [] := by simp [h]
    rw [hnil, decide_eq_true h]
    rfl
  · have hone : [(name, p)].filter (fun e => e.1 ∉ conditions.map (·.1)) = [(name, p)] := by simp [h]
    rw [hone, decide_eq_false h]
    simp [passes]

/-- The last of the conditions stands, and displaces those of its name. -/
theorem passes_spread_last (name : String) (p : ρ → Bool) (conditions : Conditions ρ) (r : ρ) :
    passes (spread conditions [(name, p)]) r =
      (passes (conditions.filter fun e => e.1 ≠ name) r && p r) := by
  rw [spread, passes_append]
  simp [passes]

theorem inKeys_iff {r : ρ} : inKeys rel keys r = true ↔ ∃ k ∈ keys, rel.key r = some k := by
  rw [inKeys]
  cases rel.key r with
  | none => simp
  | some k => simp

theorem inKeys_of_mem {r : ρ} {k : κ} (hk : k ∈ keys) (hr : rel.key r = some k) :
    inKeys rel keys r = true := inKeys_iff.mpr ⟨k, hk, hr⟩

/-- Among rows with a wanted key, the other keys do not matter. -/
theorem unlimitedPasses_congr {keys' : List κ} {r : ρ}
    (h : inKeys rel keys r = inKeys rel keys' r) :
    unlimitedPasses dialect model rel keys r = unlimitedPasses dialect model rel keys' r := by
  have hconditions : passes (unlimitedConditions dialect rel keys) r =
      passes (unlimitedConditions dialect rel keys') r := by
    cases dialect <;> cases hc : rel.isComposite <;>
      simp only [unlimitedConditions, hc, passes_spread_first, passes_spread_last, h]
  rw [unlimitedPasses, unlimitedPasses, joins, joins, h, hconditions]

/-- On PostgreSQL the unlimited load keeps every condition of the relation. -/
theorem passes_of_unlimitedPasses {r : ρ}
    (h : unlimitedPasses .postgres model rel keys r = true) : passes rel.conditions r = true := by
  simp only [unlimitedPasses, Bool.and_eq_true] at h
  have hconditions := h.1.2
  cases hc : rel.isComposite with
  | false =>
    simp only [unlimitedConditions, hc, passes_spread_first, Bool.and_eq_true] at hconditions
    exact hconditions.2
  | true =>
    simpa only [unlimitedConditions, hc] using hconditions

theorem lateralPasses_iff {k : κ} {r : ρ} : passes (lateralConditions rel k) r = true ↔
    ("__raw__" ∈ rel.conditions.map (·.1) ∨ rel.key r = some k) ∧ passes rel.conditions r = true := by
  rw [lateralConditions, passes_spread_first, Bool.and_eq_true, Bool.or_eq_true, decide_eq_true_iff,
    decide_eq_true_iff]

omit [DecidableEq κ] in
theorem withinHardLimit_mono {m n : Nat} (h : m ≤ n) (hn : withinHardLimit rel n) :
    withinHardLimit rel m := fun limit hlimit => h.trans (hn limit hlimit)

end Passing

/-! ## The loaded rows -/

section Rows
variable {ρ κ : Type} [DecidableEq κ] {dialect : Dialect} {model : TargetModel ρ}
  {rel : LimitedRelation ρ κ} {texts : OrderTexts rel} {db : RowArranger texts}
  {misbound : List κ → Option (ρ → Bool)} {st : TargetState ρ} {keys : List κ}

omit [DecidableEq κ] in
theorem ordered_perm (order : Option String) (rows : List ρ) :
    (ordered rel db order rows).Perm rows := by
  cases order with
  | none => exact db.arrange_perm rows
  | some text => exact db.sortBy_perm text rows

theorem loadUnlimited_ok (hq : model.isQueryBased = false) {all : List ρ} :
    loadUnlimited dialect model rel db st keys = .ok all ↔ ∃ source, st.table = some source ∧
      all = ordered rel db (relationOrder model rel)
        (source.filter (unlimitedPasses dialect model rel keys)) ∧
      withinHardLimit rel all.length := by
  rw [loadUnlimited, modelSource, hq]
  cases st.table with
  | none => simp
  | some source =>
    simp only [Bool.false_eq_true, if_false, Option.some.injEq, exists_eq_left', withinHardLimit]
    cases rel.hardLimit with
    | none =>
      simp only [Except.ok.injEq, reduceCtorEq, false_implies, implies_true, and_true]
      exact eq_comm
    | some limit =>
      simp only [Option.some.injEq, forall_eq']
      constructor
      · intro h
        split at h
        · cases h
        · next hlt =>
          cases h
          exact ⟨rfl, not_lt.mp hlt⟩
      · rintro ⟨rfl, hle⟩
        rw [if_neg (not_lt.mpr hle)]

theorem childrenOf_perm {rows rows' : List ρ} (h : rows.Perm rows') (k : κ) :
    (childrenOf rel rows k).Perm (childrenOf rel rows' k) := h.filter _

/-- The children of a parent without the limit. -/
theorem childrenOf_unlimited {source : List ρ} (order : Option String) (k : κ) :
    (childrenOf rel (ordered rel db order
      (source.filter (unlimitedPasses dialect model rel keys))) k).Perm
      (source.filter fun r => unlimitedPasses dialect model rel keys r && rel.key r = some k) := by
  refine (childrenOf_perm (ordered_perm order _) k).trans ?_
  rw [childrenOf, List.filter_filter]
  exact List.Perm.of_eq (List.filter_congr fun r _ => Bool.and_comm _ _)

theorem mem_numberedRows {rows : List ρ} {r : ρ} (h : r ∈ numberedRows rel db rows) : r ∈ rows := by
  obtain ⟨p, _, hr⟩ := List.mem_flatMap.mp h
  exact List.mem_of_mem_filter ((db.sortBy_perm _ _).mem_iff.mp (List.mem_of_mem_take hr))

/-- The numbered rows of a key are the first of them. -/
theorem childrenOf_numberedRows (rows : List ρ) (k : κ) :
    childrenOf rel (numberedRows rel db rows) k =
      (db.sortBy (rel.order.getD rel.targetKey)
        (rows.filter fun r => rel.key r = some k)).take rel.limit := by
  refine (filter_flatMap_key Function.injective_id (List.nodup_dedup _) ?_ (some k)).trans ?_
  rotate_left
  · split
    · rfl
    · next hnot =>
      have hnil : rows.filter (fun r => rel.key r = some k) = [] := by
        rw [List.filter_eq_nil_iff]
        intro r hr hk
        apply hnot
        rw [List.mem_dedup]
        exact List.mem_map.mpr ⟨r, hr, of_decide_eq_true hk⟩
      rw [hnil]
      have hsort := (db.sortBy_perm (rel.order.getD rel.targetKey) []).eq_nil
      rw [hsort, List.take_nil]
  · intro p _ r hr
    have hmem := (db.sortBy_perm _ _).mem_iff.mp (List.mem_of_mem_take hr)
    exact of_decide_eq_true (List.mem_filter.mp hmem).2

theorem mem_loadRowNumber {source rows : List ρ}
    (h : loadRowNumber rel db misbound keys source = .ok rows) {r : ρ} (hr : r ∈ rows) :
    r ∈ source ∧ ∃ pass, rankedPasses rel misbound keys = some pass ∧ pass r = true := by
  rw [loadRowNumber] at h
  split at h
  · cases h
  · next pass hpass =>
    cases h
    have hmem := mem_numberedRows ((db.arrange_perm _).mem_iff.mp hr)
    obtain ⟨hsource, hpassr⟩ := List.mem_filter.mp hmem
    exact ⟨hsource, pass, hpass, hpassr⟩

theorem mem_loadLateral {source : List ρ} {r : ρ} (hr : r ∈ loadLateral rel db keys source) :
    r ∈ source ∧ passes rel.conditions r = true := by
  obtain ⟨k, _, hk⟩ := List.mem_flatMap.mp ((db.arrange_perm _).mem_iff.mp hr)
  have hmem := (ordered_perm _ _).mem_iff.mp (List.mem_of_mem_take hk)
  obtain ⟨hsource, hpass⟩ := List.mem_filter.mp hmem
  exact ⟨hsource, (lateralPasses_iff.mp hpass).2⟩

/-- Every loaded row passes the limited filter. -/
theorem mem_loadLimited {source rows : List ρ} (hst : st.table = some source)
    (h : loadLimited dialect rel db misbound st keys = .ok rows) {r : ρ} (hr : r ∈ rows) :
    r ∈ source ∧ ∃ pass, limitedPasses dialect rel misbound keys = some pass ∧ pass r = true := by
  cases dialect with
  | postgres =>
    simp only [loadLimited, hst, Except.ok.injEq] at h
    obtain ⟨hsource, hpass⟩ := mem_loadLateral (h ▸ hr)
    exact ⟨hsource, passes rel.conditions, rfl, hpass⟩
  | mysql =>
    simp only [loadLimited, hst] at h
    exact mem_loadRowNumber h hr
  | sqlite =>
    simp only [loadLimited, hst] at h
    exact mem_loadRowNumber h hr

end Rows

/-! ## Enough -/

section Enough
variable {ρ κ : Type} [DecidableEq κ] {dialect : Dialect} {model : TargetModel ρ}
  {rel : LimitedRelation ρ κ} {texts : OrderTexts rel} {db : RowArranger texts}
  {misbound : List κ → Option (ρ → Bool)} {st : TargetState ρ} {keys : List κ}

/-- The lateral rows of a key, where no condition displaces the key. -/
theorem childrenOf_loadLateral (db : RowArranger texts) (hn : keys.Nodup) (hraw : "__raw__" ∉ rel.conditions.map (·.1))
    {k : κ} (hk : k ∈ keys) (source : List ρ) :
    (childrenOf rel (loadLateral rel db keys source) k).Perm
      ((ordered rel db rel.order (source.filter fun r =>
        passes rel.conditions r && rel.key r = some k)).take rel.limit) := by
  have hlateral : ∀ k' : κ, source.filter (passes (lateralConditions rel k')) =
      source.filter fun r => passes rel.conditions r && rel.key r = some k' := by
    intro k'
    apply List.filter_congr
    intro r _
    rw [lateralConditions, passes_spread_first, decide_eq_false hraw, Bool.false_or, Bool.and_comm]
  refine (childrenOf_perm (db.arrange_perm _) k).trans (List.Perm.of_eq ?_)
  simp only [hlateral]
  refine (filter_flatMap_key (Option.some_injective κ) hn ?_ k).trans (if_pos hk)
  intro p _ r hr
  have hmem := (ordered_perm rel.order _).mem_iff.mp (List.mem_of_mem_take hr)
  have hpass := (List.mem_filter.mp hmem).2
  rw [Bool.and_eq_true] at hpass
  exact of_decide_eq_true hpass.2

theorem childrenOf_loadRowNumber {source rows : List ρ} {pass : ρ → Bool}
    (hpass : rankedPasses rel misbound keys = some pass)
    (h : loadRowNumber rel db misbound keys source = .ok rows) (k : κ) :
    (childrenOf rel rows k).Perm ((db.sortBy (rel.order.getD rel.targetKey)
      (source.filter fun r => pass r && rel.key r = some k)).take rel.limit) := by
  rw [loadRowNumber, hpass] at h
  cases h
  refine (childrenOf_perm (db.arrange_perm _) k).trans (List.Perm.of_eq ?_)
  rw [childrenOf_numberedRows, List.filter_filter]
  have hcomm : (source.filter fun r => decide (rel.key r = some k) && pass r) =
      source.filter fun r => pass r && decide (rel.key r = some k) :=
    List.filter_congr fun r _ => Bool.and_comm _ _
  rw [hcomm]

/-- The children of a parent are the first of its filtered rows, in the order of the relation. -/
theorem exists_window (hn : keys.Nodup)
    (hraw : dialect = .postgres → "__raw__" ∉ rel.conditions.map (·.1)) {source rows : List ρ}
    (hst : st.table = some source) {pass : ρ → Bool}
    (hpass : limitedPasses dialect rel misbound keys = some pass)
    (h : loadLimited dialect rel db misbound st keys = .ok rows) {k : κ} (hk : k ∈ keys) :
    ∃ window : List ρ, window.Perm (source.filter fun r => pass r && rel.key r = some k) ∧
      (∀ order, rel.order = some order → window.Pairwise fun a b => texts.le order a b = true) ∧
      (childrenOf rel rows k).Perm (window.take rel.limit) := by
  have hranked (hranked : rankedPasses rel misbound keys = some pass)
      (hrows : loadRowNumber rel db misbound keys source = .ok rows) :
      ∃ window : List ρ, window.Perm (source.filter fun r => pass r && rel.key r = some k) ∧
        (∀ order, rel.order = some order → window.Pairwise fun a b => texts.le order a b = true) ∧
        (childrenOf rel rows k).Perm (window.take rel.limit) := by
    refine ⟨_, db.sortBy_perm (rel.order.getD rel.targetKey) _, ?_,
      childrenOf_loadRowNumber hranked hrows k⟩
    intro order horder
    rw [horder]
    exact db.sortBy_sorted order _
  cases dialect with
  | postgres =>
    simp only [loadLimited, hst, Except.ok.injEq] at h
    cases hpass
    rw [← h]
    refine ⟨_, ordered_perm rel.order _, ?_, childrenOf_loadLateral db hn (hraw rfl) hk source⟩
    intro order horder
    rw [horder]
    exact db.sortBy_sorted order _
  | mysql =>
    simp only [loadLimited, hst] at h
    exact hranked hpass h
  | sqlite =>
    simp only [loadLimited, hst] at h
    exact hranked hpass h

theorem exists_loadLimited (db : RowArranger texts) {source : List ρ} (hst : st.table = some source) {pass : ρ → Bool}
    (hpass : limitedPasses dialect rel misbound keys = some pass) :
    ∃ rows, loadLimited dialect rel db misbound st keys = .ok rows := by
  cases dialect with
  | postgres => exact ⟨_, by simp only [loadLimited, hst]; rfl⟩
  | mysql =>
    change rankedPasses rel misbound keys = some pass at hpass
    exact ⟨_, by simp only [loadLimited, hst, loadRowNumber, hpass]; rfl⟩
  | sqlite =>
    change rankedPasses rel misbound keys = some pass at hpass
    exact ⟨_, by simp only [loadLimited, hst, loadRowNumber, hpass]; rfl⟩

theorem loadLimited_zero (hzero : rel.limit = 0) {rows : List ρ}
    (h : loadLimited dialect rel db misbound st keys = .ok rows) : rows = [] := by
  have hnone : ∀ r, r ∉ rows := by
    intro r hr
    cases hst : st.table with
    | none =>
      rw [loadLimited, hst] at h
      cases h
    | some source =>
      have hnumbered : ∀ rows', loadRowNumber rel db misbound keys source = .ok rows' → r ∉ rows' := by
        intro rows' hrows' hr'
        rw [loadRowNumber] at hrows'
        split at hrows'
        · cases hrows'
        · cases hrows'
          obtain ⟨p, _, hp⟩ := List.mem_flatMap.mp ((db.arrange_perm _).mem_iff.mp hr')
          rw [hzero] at hp
          exact List.not_mem_nil hp
      cases dialect with
      | postgres =>
        simp only [loadLimited, hst, Except.ok.injEq] at h
        obtain ⟨k, _, hk⟩ := List.mem_flatMap.mp ((db.arrange_perm _).mem_iff.mp (h ▸ hr))
        rw [hzero] at hk
        exact List.not_mem_nil hk
      | mysql =>
        simp only [loadLimited, hst] at h
        exact hnumbered rows h hr
      | sqlite =>
        simp only [loadLimited, hst] at h
        exact hnumbered rows h hr
  exact List.eq_nil_iff_forall_not_mem.mpr hnone

/-- A parent without children gets none, if the limited filter lets through no others. -/
theorem childrenOf_nil {source rows : List ρ} (hst : st.table = some source) {pass : ρ → Bool}
    (hpass : limitedPasses dialect rel misbound keys = some pass)
    (h : loadLimited dialect rel db misbound st keys = .ok rows) {k : κ}
    (hnone : ∀ r ∈ source, rel.key r = some k → pass r = false) : childrenOf rel rows k = [] := by
  rw [childrenOf, List.filter_eq_nil_iff]
  intro r hr hk
  obtain ⟨hsource, pass', hpass', hpassr⟩ := mem_loadLimited hst h hr
  rw [hpass] at hpass'
  cases hpass'
  rw [hnone r hsource (of_decide_eq_true hk)] at hpassr
  cases hpassr

/-- What a window of a parent's children shows is a first `n` of them. -/
theorem firstN_window (hsafe : LoadsAlike dialect model rel texts misbound)
    (hpos : 0 < rel.limit) {k : κ} (hk : k ∈ keys) {window : List ρ}
    (hmem : ∀ r ∈ window, unlimitedPasses dialect model rel keys r = true ∧ rel.key r = some k)
    (hsorted : ∀ order, rel.order = some order →
      window.Pairwise fun a b => texts.le order a b = true)
    (hlen : withinHardLimit rel window.length) :
    FirstN (relationLe model rel texts) rel.limit window (window.take rel.limit) := by
  cases horder : rel.order with
  | some order =>
    apply firstN_take
    refine (hsorted order horder).imp ?_
    intro a b hab text htext
    rw [relationOrder, horder] at htext
    cases htext
    exact hab
  | none =>
    by_cases hmore : rel.limit + 1 ≤ window.length
    · apply firstN_take
      refine List.pairwise_of_forall_mem_list ?_
      intro a ha b hb text htext
      rw [relationOrder, horder] at htext
      have hkeys : rel.key a = rel.key b := (hmem a ha).2.trans (hmem b hb).2.symm
      exact hsafe.order hpos (withinHardLimit_mono hmore hlen) horder text htext keys a b
        (inKeys_of_mem hk (hmem a ha).2) hkeys (hmem a ha).1 (hmem b hb).1
    · exact firstN_short (by omega)

theorem limitsEach_of_loadsAlike (hsafe : LoadsAlike dialect model rel texts misbound) :
    LimitsEach dialect model rel texts misbound := by
  intro db st keys hn hne all hall
  obtain ⟨source, hst, hallEq, hwithin⟩ := (loadUnlimited_ok hsafe.table).mp hall
  obtain ⟨pass, hpass, hfilter⟩ := hsafe.filter keys hn hne
  obtain ⟨rows, hrows⟩ := exists_loadLimited db hst hpass
  refine ⟨rows, hrows, ?_⟩
  intro k hk
  have hchildren : (childrenOf rel all k).Perm
      (source.filter fun r => unlimitedPasses dialect model rel keys r && rel.key r = some k) := by
    rw [hallEq]
    exact childrenOf_unlimited _ k
  suffices hfirst : FirstN (relationLe model rel texts) rel.limit (childrenOf rel all k)
      (childrenOf rel rows k) by
    refine ⟨withinHardLimit_mono ?_ hwithin, hfirst⟩
    exact hfirst.length_le.trans (List.length_filter_le _ _)
  rcases Nat.eq_zero_or_pos rel.limit with hzero | hpos
  · rw [loadLimited_zero hzero hrows, hzero]
    exact firstN_zero
  have hfilter := hfilter hpos
  -- Where no row passes, both loads leave the parent without children.
  have hnothing (hno : ∀ r ∈ source, rel.key r = some k →
      unlimitedPasses dialect model rel keys r = false) :
      FirstN (relationLe model rel texts) rel.limit (childrenOf rel all k)
        (childrenOf rel rows k) := by
    have hnil : childrenOf rel rows k = [] := by
      apply childrenOf_nil hst hpass hrows
      intro r hr hkey
      rw [Bool.eq_false_iff]
      intro hp
      have hpasses := (hfilter r (inKeys_of_mem hk hkey)).1 hp
      rw [hno r hr hkey] at hpasses
      cases hpasses
    have hallNil : childrenOf rel all k = [] := by
      refine (hchildren.trans (List.Perm.of_eq ?_)).eq_nil
      rw [List.filter_eq_nil_iff]
      intro r hr hboth
      rw [Bool.and_eq_true] at hboth
      rw [hno r hr (of_decide_eq_true hboth.2)] at hboth
      cases hboth.1
    rw [hallNil, firstN_nil_iff]
    exact hnil
  by_cases hroom : withinHardLimit rel 1
  · by_cases hraw : dialect = .postgres ∧ "__raw__" ∈ rel.conditions.map (·.1)
    · apply hnothing
      intro r _ hkey
      exact hsafe.once hraw.1 hraw.2 hpos hroom keys r (inKeys_of_mem hk hkey)
    · obtain ⟨window, hwindow, hsorted, htake⟩ :=
        exists_window hn (fun hd hname => hraw ⟨hd, hname⟩) hst hpass hrows hk
      have hsame : (source.filter fun r => pass r && rel.key r = some k) =
          source.filter fun r => unlimitedPasses dialect model rel keys r && rel.key r = some k := by
        apply List.filter_congr
        intro r _
        rw [Bool.eq_iff_iff, Bool.and_eq_true, Bool.and_eq_true]
        refine and_congr_left ?_
        intro hkey
        have hboth := hfilter r (inKeys_of_mem hk (of_decide_eq_true hkey))
        exact ⟨hboth.1, hboth.2 hroom⟩
      rw [hsame] at hwindow
      have hmem : ∀ r ∈ window, unlimitedPasses dialect model rel keys r = true ∧
          rel.key r = some k := by
        intro r hr
        have hboth := (List.mem_filter.mp (hwindow.mem_iff.mp hr)).2
        rw [Bool.and_eq_true] at hboth
        exact ⟨hboth.1, of_decide_eq_true hboth.2⟩
      have hlen : withinHardLimit rel window.length := by
        refine withinHardLimit_mono ?_ hwithin
        rw [hwindow.length_eq, ← hchildren.length_eq]
        exact List.length_filter_le _ _
      exact (firstN_window hsafe hpos hk hmem hsorted hlen).perm
        (hwindow.trans hchildren.symm) htake.symm
  · apply hnothing
    intro r hr hkey
    rw [Bool.eq_false_iff]
    intro hp
    apply hroom
    refine withinHardLimit_mono ?_ hwithin
    rw [hallEq]
    exact List.length_pos_of_mem
      ((ordered_perm _ _).mem_iff.mpr (List.mem_filter.mpr ⟨hr, hp⟩))

end Enough

/-! ## Needed -/

/-- A database that keeps the rows as they are and sorts them stably. -/
def stableArranger {ρ κ : Type} {rel : LimitedRelation ρ κ} (texts : OrderTexts rel) :
    RowArranger texts where
  sortBy order rows := rows.insertionSort fun a b => texts.le order a b = true
  arrange rows := rows
  sortBy_perm order rows := List.perm_insertionSort _ rows
  sortBy_sorted order rows := by
    have : Std.Total fun a b => texts.le order a b = true := ⟨texts.total order⟩
    have : IsTrans ρ fun a b => texts.le order a b = true := ⟨texts.trans order⟩
    exact List.pairwise_insertionSort _ rows
  arrange_perm rows := List.Perm.refl rows

section Needed
variable {ρ κ : Type} [DecidableEq κ] {dialect : Dialect} {model : TargetModel ρ}
  {rel : LimitedRelation ρ κ} {texts : OrderTexts rel} {db : RowArranger texts}
  {misbound : List κ → Option (ρ → Bool)} {keys : List κ}

theorem loadUnlimited_queryBased (hq : model.isQueryBased = true) :
    loadUnlimited dialect model rel db ⟨none, []⟩ keys = .ok [] := by
  have hnil : ordered rel db (relationOrder model rel) [] = [] := (ordered_perm _ []).eq_nil
  simp only [loadUnlimited, modelSource, hq, if_true, List.filter_nil, hnil, List.length_nil,
    Nat.not_lt_zero, if_false]
  cases rel.hardLimit <;> rfl

/-- What the promise says of a table. -/
theorem LimitsEach.source (h : LimitsEach dialect model rel texts misbound)
    (hq : model.isQueryBased = false) (db : RowArranger texts) (hn : keys.Nodup) (hne : keys ≠ [])
    (source : List ρ) (hwithin : withinHardLimit rel
      (source.filter (unlimitedPasses dialect model rel keys)).length) :
    ∃ rows, loadLimited dialect rel db misbound ⟨some source, []⟩ keys = .ok rows ∧
      ∀ k ∈ keys, FirstN (relationLe model rel texts) rel.limit
        (source.filter fun r => unlimitedPasses dialect model rel keys r && rel.key r = some k)
        (childrenOf rel rows k) := by
  have hperm : (ordered rel db (relationOrder model rel)
      (source.filter (unlimitedPasses dialect model rel keys))).Perm
      (source.filter (unlimitedPasses dialect model rel keys)) := ordered_perm _ _
  obtain ⟨rows, hrows, hchildren⟩ := h db ⟨some source, []⟩ keys hn hne _
    ((loadUnlimited_ok hq).mpr ⟨source, rfl, rfl, by rwa [hperm.length_eq]⟩)
  refine ⟨rows, hrows, ?_⟩
  intro k hk
  exact (hchildren k hk).2.perm (childrenOf_unlimited _ k) (List.Perm.refl _)

theorem exists_limitedPasses {source rows : List ρ}
    (h : loadLimited dialect rel db misbound ⟨some source, []⟩ keys = .ok rows) :
    ∃ pass, limitedPasses dialect rel misbound keys = some pass := by
  have hranked (hrows : loadRowNumber rel db misbound keys source = .ok rows) :
      ∃ pass, rankedPasses rel misbound keys = some pass := by
    rw [loadRowNumber] at hrows
    split at hrows
    · cases hrows
    · next pass hpass => exact ⟨pass, hpass⟩
  cases dialect with
  | postgres => exact ⟨passes rel.conditions, rfl⟩
  | mysql => exact hranked h
  | sqlite => exact hranked h

/-- The only row of a table is loaded if it passes the limited filter. -/
theorem mem_loadLimited_single (hpos : 0 < rel.limit) {r : ρ} {rows : List ρ}
    (h : loadLimited dialect rel db misbound ⟨some [r], []⟩ keys = .ok rows) {pass : ρ → Bool}
    (hpass : limitedPasses dialect rel misbound keys = some pass) (hr : pass r = true) {k : κ}
    (hk : k ∈ keys) (hkey : rel.key r = some k) : r ∈ rows := by
  have htake : ∀ rows : List ρ, rows.Perm [r] → r ∈ rows.take rel.limit := by
    intro rows hrows
    rw [List.perm_singleton.mp hrows, List.take_of_length_le hpos]
    exact List.mem_singleton_self r
  have hranked (hpass : rankedPasses rel misbound keys = some pass)
      (h : loadRowNumber rel db misbound keys [r] = .ok rows) : r ∈ rows := by
    have hperm := childrenOf_loadRowNumber hpass h k
    have hone : ([r].filter fun r => pass r && rel.key r = some k) = [r] := by simp [hr, hkey]
    rw [hone] at hperm
    exact List.mem_of_mem_filter (hperm.mem_iff.mpr (htake _ (db.sortBy_perm _ _)))
  cases dialect with
  | postgres =>
    cases hpass
    change Except.ok (loadLateral rel db keys [r]) = Except.ok rows at h
    cases h
    refine (db.arrange_perm _).mem_iff.mpr (List.mem_flatMap.mpr ⟨k, hk, ?_⟩)
    have hone : [r].filter (passes (lateralConditions rel k)) = [r] := by
      simp [lateralPasses_iff.mpr ⟨Or.inr hkey, hr⟩]
    rw [hone]
    exact htake _ (ordered_perm _ _)
  | mysql => exact hranked hpass h
  | sqlite => exact hranked hpass h

theorem LimitsEach.table (h : LimitsEach dialect model rel texts misbound) (k : κ) :
    model.isQueryBased = false := by
  rw [Bool.eq_false_iff]
  intro hq
  obtain ⟨rows, hrows, _⟩ := h (stableArranger texts) ⟨none, []⟩ [k] (List.nodup_singleton k)
    (List.cons_ne_nil k []) [] (loadUnlimited_queryBased hq)
  rw [loadLimited] at hrows
  cases hrows

theorem LimitsEach.filter (h : LimitsEach dialect model rel texts misbound)
    (hq : model.isQueryBased = false) (hn : keys.Nodup) (hne : keys ≠ []) :
    ∃ pass, limitedPasses dialect rel misbound keys = some pass ∧
      (0 < rel.limit → ∀ r, inKeys rel keys r = true →
        (pass r = true → unlimitedPasses dialect model rel keys r = true) ∧
        (withinHardLimit rel 1 → unlimitedPasses dialect model rel keys r = true →
          pass r = true)) := by
  obtain ⟨_, hempty, _⟩ := h.source hq (stableArranger texts) hn hne []
    (fun limit _ => Nat.zero_le limit)
  obtain ⟨pass, hpass⟩ := exists_limitedPasses hempty
  refine ⟨pass, hpass, ?_⟩
  intro hpos r hin
  obtain ⟨k, hk, hkey⟩ := inKeys_iff.mp hin
  constructor
  · intro hr
    by_contra hnot
    rw [Bool.not_eq_true] at hnot
    have hnil : [r].filter (unlimitedPasses dialect model rel keys) = [] := by simp [hnot]
    obtain ⟨rows, hrows, hfirst⟩ := h.source hq (stableArranger texts) hn hne [r]
      (by rw [hnil]; exact fun limit _ => Nat.zero_le limit)
    have hnone : ([r].filter fun r =>
        unlimitedPasses dialect model rel keys r && rel.key r = some k) = [] := by simp [hnot]
    have hchildren := hfirst k hk
    rw [hnone, firstN_nil_iff] at hchildren
    have hmem : r ∈ childrenOf rel rows k := List.mem_filter.mpr
      ⟨mem_loadLimited_single hpos hrows hpass hr hk hkey, decide_eq_true hkey⟩
    rw [hchildren] at hmem
    exact List.not_mem_nil hmem
  · intro hroom hr
    by_contra hnot
    rw [Bool.not_eq_true] at hnot
    have hall : [r].filter (unlimitedPasses dialect model rel keys) = [r] := by simp [hr]
    obtain ⟨rows, hrows, hfirst⟩ := h.source hq (stableArranger texts) hn hne [r]
      (by rw [hall]; exact hroom)
    have hnil : childrenOf rel rows k = [] := by
      apply childrenOf_nil rfl hpass hrows
      intro r' hr' _
      rw [List.mem_singleton.mp hr']
      exact hnot
    have hone : ([r].filter fun r =>
        unlimitedPasses dialect model rel keys r && rel.key r = some k) = [r] := by simp [hr, hkey]
    have hlen := (hfirst k hk).1
    rw [hone, hnil, List.length_singleton, List.length_nil] at hlen
    omega

/-- A displaced key lets each key row of the lateral join load the same child. -/
theorem LimitsEach.once [Nontrivial κ] (h : LimitsEach .postgres model rel texts misbound)
    (hq : model.isQueryBased = false) (hraw : "__raw__" ∈ rel.conditions.map (·.1))
    (hpos : 0 < rel.limit) (hroom : withinHardLimit rel 1) {r : ρ}
    (hin : inKeys rel keys r = true) :
    unlimitedPasses .postgres model rel keys r = false := by
  rw [Bool.eq_false_iff]
  intro hr
  obtain ⟨k, _, hkey⟩ := inKeys_iff.mp hin
  obtain ⟨k', hne⟩ := exists_ne k
  have hk : k ∈ [k, k'] := List.mem_cons_self
  rw [unlimitedPasses_congr (hin.trans (inKeys_of_mem hk hkey).symm)] at hr
  have hall : [r].filter (unlimitedPasses .postgres model rel [k, k']) = [r] := by simp [hr]
  obtain ⟨rows, hrows, hfirst⟩ := h.source hq (stableArranger texts)
    (show [k, k'].Nodup by simp [hne.symm]) (List.cons_ne_nil _ _) [r] (by rw [hall]; exact hroom)
  change Except.ok (loadLateral rel (stableArranger texts) [k, k'] [r]) = Except.ok rows at hrows
  cases hrows
  have hwindow : ∀ p : κ, (ordered rel (stableArranger texts) rel.order
      ([r].filter (passes (lateralConditions rel p)))).take rel.limit = [r] := by
    intro p
    have hone : [r].filter (passes (lateralConditions rel p)) = [r] := by
      simp [lateralPasses_iff.mpr ⟨Or.inl hraw, passes_of_unlimitedPasses hr⟩]
    rw [hone, List.perm_singleton.mp (ordered_perm _ _), List.take_of_length_le hpos]
  have htwice : childrenOf rel (loadLateral rel (stableArranger texts) [k, k'] [r]) k = [r, r] := by
    simp only [loadLateral, hwindow]
    simp [childrenOf, hkey, stableArranger]
  have hone : ([r].filter fun r =>
      unlimitedPasses .postgres model rel [k, k'] r && rel.key r = some k) = [r] := by
    simp [hr, hkey]
  have hlen := (hfirst k hk).1
  rw [htwice, hone] at hlen
  simp only [List.length_cons, List.length_nil] at hlen
  omega

/-- The first rows of a key without an order: those that the stable database finds first. -/
theorem childrenOf_stable (hn : keys.Nodup)
    (hraw : dialect = .postgres → "__raw__" ∉ rel.conditions.map (·.1)) {source rows : List ρ}
    {pass : ρ → Bool} (hpass : limitedPasses dialect rel misbound keys = some pass)
    (horder : rel.order = none)
    (h : loadLimited dialect rel (stableArranger texts) misbound ⟨some source, []⟩ keys =
      .ok rows) {k : κ} (hk : k ∈ keys) :
    (childrenOf rel rows k).Perm
      ((source.filter fun r => pass r && rel.key r = some k).take rel.limit) := by
  have hranked (hpass : rankedPasses rel misbound keys = some pass)
      (h : loadRowNumber rel (stableArranger texts) misbound keys source = .ok rows) :
      (childrenOf rel rows k).Perm
        ((source.filter fun r => pass r && rel.key r = some k).take rel.limit) := by
    refine (childrenOf_loadRowNumber hpass h k).trans (List.Perm.of_eq ?_)
    rw [horder]
    refine congrArg (List.take rel.limit) (List.Pairwise.insertionSort_eq ?_)
    refine List.pairwise_of_forall_mem_list ?_
    intro a ha b hb
    have hkeyed : ∀ r ∈ source.filter (fun r => pass r && rel.key r = some k),
        rel.key r = some k := by
      intro r hr
      have hboth := (List.mem_filter.mp hr).2
      rw [Bool.and_eq_true] at hboth
      exact of_decide_eq_true hboth.2
    exact texts.tied a b ((hkeyed a ha).trans (hkeyed b hb).symm)
  cases dialect with
  | postgres =>
    cases hpass
    change Except.ok (loadLateral rel (stableArranger texts) keys source) = Except.ok rows at h
    cases h
    have hlateral := childrenOf_loadLateral (stableArranger texts) hn (hraw rfl) hk source
    rw [horder] at hlateral
    exact hlateral
  | mysql => exact hranked hpass h
  | sqlite => exact hranked hpass h

/-- Without an order of its own the limited load may leave out the first row of the default one. -/
theorem LimitsEach.order [Nontrivial κ] (h : LimitsEach dialect model rel texts misbound)
    (hpos : 0 < rel.limit) (hroom : withinHardLimit rel (rel.limit + 1))
    (hnone : rel.order = none) {order : String} (horder : model.DEFAULT_ORDER = some order)
    {a b : ρ} (hin : inKeys rel keys a = true) (hab : rel.key a = rel.key b)
    (ha : unlimitedPasses dialect model rel keys a = true)
    (hb : unlimitedPasses dialect model rel keys b = true) : texts.le order a b = true := by
  obtain ⟨k, _, hkey⟩ := inKeys_iff.mp hin
  have hkeyb : rel.key b = some k := hab.symm.trans hkey
  have hk : k ∈ [k] := List.mem_singleton_self k
  have hone : withinHardLimit rel 1 := withinHardLimit_mono (by omega) hroom
  have hq := h.table k
  have hinb : inKeys rel keys b = true := by
    rw [inKeys, ← hab]
    exact hin
  rw [unlimitedPasses_congr (hin.trans (inKeys_of_mem hk hkey).symm)] at ha
  rw [unlimitedPasses_congr (hinb.trans (inKeys_of_mem hk hkeyb).symm)] at hb
  obtain ⟨pass, hpass, hfilter⟩ := h.filter hq (List.nodup_singleton k) (List.cons_ne_nil k [])
  have hpassa := (hfilter hpos a (inKeys_of_mem hk hkey)).2 hone ha
  have hpassb := (hfilter hpos b (inKeys_of_mem hk hkeyb)).2 hone hb
  have hraw : dialect = .postgres → "__raw__" ∉ rel.conditions.map (·.1) := by
    rintro rfl hname
    rw [h.once hq hname hpos hone (inKeys_of_mem hk hkey)] at ha
    cases ha
  -- The rows before the last are as many as the limit.
  let source := List.replicate rel.limit a ++ [b]
  have hmem : ∀ r ∈ source, r = a ∨ r = b := by
    intro r hr
    rcases List.mem_append.mp hr with hr | hr
    · exact Or.inl (List.eq_of_mem_replicate hr)
    · exact Or.inr (List.mem_singleton.mp hr)
  have hunlimited : source.filter (unlimitedPasses dialect model rel [k]) = source := by
    rw [List.filter_eq_self]
    intro r hr
    rcases hmem r hr with rfl | rfl
    · exact ha
    · exact hb
  have hlen : source.length = rel.limit + 1 := by simp [source]
  obtain ⟨rows, hrows, hfirst⟩ := h.source hq (stableArranger texts) (List.nodup_singleton k)
    (List.cons_ne_nil k []) source (by rw [hunlimited, hlen]; exact hroom)
  have hall : (source.filter fun r => unlimitedPasses dialect model rel [k] r &&
      rel.key r = some k) = source := by
    rw [List.filter_eq_self]
    intro r hr
    rcases hmem r hr with rfl | rfl
    · simp [ha, hkey]
    · simp [hb, hkeyb]
  have hkept : (source.filter fun r => pass r && rel.key r = some k) = source := by
    rw [List.filter_eq_self]
    intro r hr
    rcases hmem r hr with rfl | rfl
    · simp [hpassa, hkey]
    · simp [hpassb, hkeyb]
  have hchosen := childrenOf_stable (List.nodup_singleton k) hraw hpass hnone hrows hk
  have htake : source.take rel.limit = List.replicate rel.limit a := by
    rw [List.take_append_of_le_length (by simp), List.take_of_length_le (by simp)]
  rw [hkept, htake] at hchosen
  have hfirst := (hfirst k hk).perm (List.Perm.refl _) hchosen
  rw [hall] at hfirst
  obtain ⟨_, rest, hrest, hle⟩ := hfirst
  have hrest : rest = [b] := List.perm_singleton.mp ((List.perm_append_left_iff _).mp hrest).symm
  refine hle a (List.mem_replicate.mpr ⟨by omega, rfl⟩) b ?_ order ?_
  · rw [hrest]
    exact List.mem_singleton_self b
  · rw [relationOrder, hnone]
    exact horder

end Needed

/-! ## In terms of the declaration -/

section Declared
variable {ρ κ : Type} [DecidableEq κ] {dialect : Dialect} {model : TargetModel ρ}
  {rel : LimitedRelation ρ κ} {texts : OrderTexts rel} {misbound : List κ → Option (ρ → Bool)}
  {keys : List κ}

theorem inKeys_singleton {k : κ} {r : ρ} (hkey : rel.key r = some k) :
    inKeys rel [k] r = true := inKeys_of_mem (List.mem_singleton_self k) hkey

theorem key_ne_none {r : ρ} (h : inKeys rel keys r = true) : rel.key r ≠ none := by
  obtain ⟨k, _, hkey⟩ := inKeys_iff.mp h
  rw [hkey]
  exact Option.some_ne_none k

theorem unlimitedPasses_eq_shown {r : ρ} (h : inKeys rel keys r = true) :
    unlimitedPasses dialect model rel keys r = shown dialect model rel r := by
  cases dialect <;> cases hc : rel.isComposite <;>
    simp [unlimitedPasses, joins, unlimitedConditions, shown, standingConditions, hc,
      passes_spread_first, passes_spread_last, h]

theorem limitedPasses_misbinds (h : misbinds dialect rel) :
    limitedPasses dialect rel misbound keys = misbound keys := by
  obtain ⟨hd, hc, hname⟩ := h
  have hranked : rankedPasses rel misbound keys = misbound keys := by
    rw [rankedPasses, if_pos hc, if_pos hname]
  cases dialect with
  | postgres => exact absurd rfl hd
  | mysql => exact hranked
  | sqlite => exact hranked

/-- Otherwise the limited filter is the conditions of the relation. -/
theorem limitedPasses_plain (misbound : List κ → Option (ρ → Bool)) (keys : List κ)
    (h : ¬misbinds dialect rel) :
    ∃ pass, limitedPasses dialect rel misbound keys = some pass ∧
      ∀ r, inKeys rel keys r = true → pass r = passes rel.conditions r := by
  have hranked (hd : dialect ≠ .postgres) : ∃ pass, rankedPasses rel misbound keys = some pass ∧
      ∀ r, inKeys rel keys r = true → pass r = passes rel.conditions r := by
    cases hc : rel.isComposite with
    | false =>
      refine ⟨_, by rw [rankedPasses, hc]; rfl, ?_⟩
      intro r hr
      rw [passes_spread_first, hr, Bool.or_true, Bool.true_and]
    | true =>
      have hname : "__raw__" ∉ rel.conditions.map (·.1) := fun hname => h ⟨hd, hc, hname⟩
      refine ⟨_, by rw [rankedPasses, if_pos hc, if_neg hname], ?_⟩
      intro r hr
      rw [passes_spread_first, hr, Bool.or_true, Bool.true_and]
  cases dialect with
  | postgres => exact ⟨_, rfl, fun _ _ => rfl⟩
  | mysql => exact hranked (by decide)
  | sqlite => exact hranked (by decide)

omit [DecidableEq κ] in
theorem passes_standingConditions {r : ρ} (h : passes rel.conditions r = true) :
    passes (standingConditions dialect rel) r = true := by
  rw [passes, List.all_eq_true] at h ⊢
  intro e he
  apply h e
  cases dialect with
  | postgres => exact he
  | mysql => exact List.mem_of_mem_filter he
  | sqlite => exact List.mem_of_mem_filter he

theorem limitsSafely_of_loadsAlike (h : LoadsAlike dialect model rel texts misbound) :
    LimitsSafely dialect model rel texts misbound := by
  have hsingle (hpos : 0 < rel.limit) (hplain : ¬misbinds dialect rel) {r : ρ}
      (hr : rel.key r ≠ none) :
      (passes rel.conditions r = true → shown dialect model rel r = true) ∧
        (withinHardLimit rel 1 → shown dialect model rel r = true →
          passes rel.conditions r = true) := by
    obtain ⟨k, hkey⟩ := Option.ne_none_iff_exists'.mp hr
    have hin := inKeys_singleton hkey
    obtain ⟨pass, hpass, hfilter⟩ := h.filter [k] (List.nodup_singleton k) (List.cons_ne_nil k [])
    obtain ⟨pass', hpass', hconditions⟩ := limitedPasses_plain misbound [k] hplain
    rw [hpass] at hpass'
    cases hpass'
    have hboth := hfilter hpos r hin
    rwa [unlimitedPasses_eq_shown hin, hconditions r hin] at hboth
  refine ⟨h.table, ?_, ?_, ?_, ?_, ?_⟩
  · intro hpos hplain r hr hpasses
    have hshown := (hsingle hpos hplain hr).1 hpasses
    rw [shown, Bool.and_eq_true] at hshown
    exact hshown.2
  · intro hpos hroom hplain r hr
    exact (hsingle hpos hplain hr).2 hroom
  · intro hmisbinds keys hn hne
    obtain ⟨pass, hpass, hfilter⟩ := h.filter keys hn hne
    rw [limitedPasses_misbinds hmisbinds] at hpass
    refine ⟨pass, hpass, ?_⟩
    intro hpos r hin
    rw [← unlimitedPasses_eq_shown hin]
    exact hfilter hpos r hin
  · intro hd hname hpos hroom r hr
    obtain ⟨k, hkey⟩ := Option.ne_none_iff_exists'.mp hr
    rw [← unlimitedPasses_eq_shown (inKeys_singleton hkey)]
    exact h.once hd hname hpos hroom [k] r (inKeys_singleton hkey)
  · intro hpos hroom hnone order horder a b hr hab ha hb
    obtain ⟨k, hkey⟩ := Option.ne_none_iff_exists'.mp hr
    have hina := inKeys_singleton hkey
    have hinb := inKeys_singleton (hab.symm.trans hkey)
    rw [← unlimitedPasses_eq_shown hina] at ha
    rw [← unlimitedPasses_eq_shown hinb] at hb
    exact h.order hpos hroom hnone order horder [k] a b hina hab ha hb

theorem loadsAlike_of_limitsSafely (h : LimitsSafely dialect model rel texts misbound) :
    LoadsAlike dialect model rel texts misbound := by
  refine ⟨h.table, ?_, ?_, ?_⟩
  · intro keys hn hne
    by_cases hmisbinds : misbinds dialect rel
    · obtain ⟨pass, hpass, hfilter⟩ := h.bound hmisbinds keys hn hne
      refine ⟨pass, (limitedPasses_misbinds hmisbinds).trans hpass, ?_⟩
      intro hpos r hin
      rw [unlimitedPasses_eq_shown hin]
      exact hfilter hpos r hin
    · obtain ⟨pass, hpass, hconditions⟩ := limitedPasses_plain misbound keys hmisbinds
      refine ⟨pass, hpass, ?_⟩
      intro hpos r hin
      rw [unlimitedPasses_eq_shown hin, hconditions r hin]
      constructor
      · intro hr
        rw [shown, passes_standingConditions hr, Bool.true_and]
        exact h.findFilter hpos hmisbinds r (key_ne_none hin) hr
      · intro hroom
        exact h.displaced hpos hroom hmisbinds r (key_ne_none hin)
  · intro hd hname hpos hroom keys r hin
    rw [unlimitedPasses_eq_shown hin]
    exact h.once hd hname hpos hroom r (key_ne_none hin)
  · intro hpos hroom hnone order horder keys a b hin hab ha hb
    have hinb : inKeys rel keys b = true := by
      rw [inKeys, ← hab]
      exact hin
    rw [unlimitedPasses_eq_shown hin] at ha
    rw [unlimitedPasses_eq_shown hinb] at hb
    exact h.order hpos hroom hnone order horder a b (key_ne_none hin) hab ha hb

end Declared

structure Post where
  id : Nat
  user_id : Nat
  is_deleted : Bool
deriving DecidableEq, Repr

def postRank (order : String) (post : Post) : Nat :=
  if order = "user_id" then post.user_id else post.id

/-- The first post of each user that is not deleted. -/
def softDeleted : TargetModel Post :=
  ⟨some [("is_deleted", fun post => !post.is_deleted)], none, false⟩

def firstPost : LimitedRelation Post Nat :=
  ⟨fun post => some post.user_id, false, "user_id", [], some "id", 1, none⟩

def postTexts : OrderTexts firstPost where
  le order a b := decide (postRank order a ≤ postRank order b)
  total order a b := by
    rw [decide_eq_true_iff, decide_eq_true_iff]
    exact Nat.le_total _ _
  trans order a b c := by
    rw [decide_eq_true_iff, decide_eq_true_iff, decide_eq_true_iff]
    exact Nat.le_trans
  tied a b h := by
    have huser : a.user_id = b.user_id := Option.some.inj h
    rw [decide_eq_true_iff]
    exact Nat.le_of_eq huser

end LiteDb
