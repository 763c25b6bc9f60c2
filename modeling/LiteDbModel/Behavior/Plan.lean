import LiteDbModel.Behavior.Values
import LiteDbModel.Lib.Exit
import LiteDbModel.Lib.Schedule

/-!
# Execution plans

The operations of a component are run stage after stage, those of a stage in the order of their
indices. An operation whose parent did not succeed is skipped, and one that fails is skipped or
ends the run, as its policy says.
-/

namespace LiteDb.Behavior
set_option autoImplicit false

/-- The value of a relation that was not produced. -/
def unproducedValue (kind : Option String) : Val :=
  if kind = some "connection" then .obj [("items", .arr []), ("cursor", .null)] else .null

structure OpSpec where
  id : String
  parent : Option Nat
  bindField : Option String
  relationKind : Option String
  policy : Option String

inductive ExecOutcome
  | ok (v : Val)
  | error (message : String) (detail : Option Detail)

inductive OpState
  | ok (value : Val)
  | skipped

/-! ## Coverage -/

/-- `seen` holds the operations of the places before. -/
def coverStages (n : Nat) : List Int → List Nat → Except Failure (List Nat)
  | [], seen => .ok seen
  | i :: rest, seen =>
    if i < 0 ∨ n ≤ i then
      raise .invalidPlan ("stage index " ++ toString i ++ " out of range [0," ++ toString n ++ ")")
    else if i.toNat ∈ seen then
      raise .invalidPlan ("operation " ++ toString i ++ " appears in more than one stage")
    else coverStages n rest (i.toNat :: seen)

def validateCoverage (stages : List (List Int)) (n : Nat) : Except Failure Unit := do
  let seen ← coverStages n stages.flatten []
  if seen.length ≠ n then
    raise .invalidPlan ("plan does not cover all " ++ toString n ++ " operations (covered " ++
      toString seen.length ++ ")")
  else .ok ()

/-! ## Operations -/

section
variable {σ : Type}

/-- What a run has at hand: the states of the operations, the indices that were executed and
skipped, and whatever the executor keeps. -/
structure Run (σ : Type) where
  states : Nat → Option OpState
  executedIdx : List Nat
  skippedIdx : List Nat
  world : σ

/-- The property of the parent's value that the operation binds, unless it is absent or null. -/
def boundOf (pv : Val) (bindField : String) : Option Val :=
  match pv with
  | .obj ps =>
    match ps.lookup bindField with
    | some .null | none => none
    | some bound => some bound
  | _ => none

/-- Whether an operation is executed, and the value it is bound to. -/
inductive Gate
  | skip
  | exec (bound : Option Val)

def gate (op : OpSpec) (states : Nat → Option OpState) : Gate :=
  match op.parent with
  | none => .exec none
  | some parent =>
    match states parent with
    | some (.ok pv) =>
      match op.bindField with
      | none => .exec none
      | some bindField =>
        match boundOf pv bindField with
        | none => .skip
        | some bound => .exec (some bound)
    | _ => .skip

/-- The default policy is `fail`; a policy that is not known ends the run. -/
def policyOf (op : OpSpec) : Except Failure String :=
  let policy := op.policy.getD "fail"
  if policy ≠ "fail" ∧ policy ≠ "retry" ∧ policy ≠ "continue" then
    raise .unknownPolicy ("unknown policy kind: " ++ policy)
  else .ok policy

def opFailed (op : OpSpec) (under message : String) (detail : Option Detail) : Failure :=
  ⟨.opFailed, "operation '" ++ op.id ++ "' failed under " ++ under ++ ": " ++ message, detail⟩

def settle (op : OpSpec) (policy : String) : ExecOutcome → Except Failure OpState
  | .ok v => .ok (.ok v)
  | .error message detail =>
    if policy = "fail" then .error (opFailed op "'fail' policy" message detail)
    else if policy = "retry" then
      .error (opFailed op "'retry' policy (exhausted)" message detail)
    else .ok .skipped

variable (exec : OpSpec → Option Val → σ → Except Failure (ExecOutcome × σ))

/-- An operation that fails under `continue` has been executed, and counts as skipped. -/
def runOp (i : Nat) (op : OpSpec) (r : Run σ) : Except Failure (OpState × Run σ) := do
  let policy ← policyOf op
  match gate op r.states with
  | .skip => .ok (.skipped, { r with skippedIdx := r.skippedIdx ++ [i] })
  | .exec bound => do
    let (outcome, world) ← exec op bound r.world
    match ← settle op policy outcome with
    | .ok v => .ok (.ok v, { r with executedIdx := r.executedIdx ++ [i], world := world })
    | .skipped => .ok (.skipped, { r with skippedIdx := r.skippedIdx ++ [i], world := world })

def runOps (ops : List OpSpec) : List Nat → Run σ → Except Failure (Run σ)
  | [], r => .ok r
  | i :: order, r =>
    match ops[i]? with
    | none => runOps ops order r
    | some op => do
      let (state, r) ← runOp exec i op r
      runOps ops order { r with states := Function.update r.states i (some state) }

/-- Without a plan every operation is a stage of its own. -/
def stagesOf (plan : Option (List (List Int))) (n : Nat) : List (List Int) :=
  match plan with
  | some groups => groups
  | none => (List.range n).map fun i => [(i : Int)]

/-- The indices in the order in which they are run. -/
def orderOf (stages : List (List Int)) : List Nat :=
  (stages.map fun stage => (stage.insertionSort (· ≤ ·)).map Int.toNat).flatten

def initialRun (world : σ) : Run σ := ⟨fun _ => none, [], [], world⟩

/-- What is told of a run: the states, and the operations that were executed and skipped. -/
structure RunResult where
  states : List (Option OpState)
  executed : List String
  skipped : List String

def idAt (ops : List OpSpec) (i : Nat) : String := (ops[i]?.map OpSpec.id).getD ""

def idsOf (ops : List OpSpec) (idx : List Nat) : List String :=
  (idx.insertionSort (· ≤ ·)).map (idAt ops)

def runPlan (plan : Option (List (List Int))) (ops : List OpSpec) (world : σ) :
    Except Failure (RunResult × σ) := do
  validateCoverage (stagesOf plan ops.length) ops.length
  let r ← runOps exec ops (orderOf (stagesOf plan ops.length)) (initialRun world)
  .ok (⟨(List.range ops.length).map r.states, idsOf ops r.executedIdx, idsOf ops r.skippedIdx⟩,
    r.world)

end

/-- What each operation's port holds in the end. -/
def finalTree (states : List (Option OpState)) (ops : List OpSpec) : List (String × Val) :=
  (states.zip ops).filterMap fun (state, op) =>
    match state with
    | some (.ok v) => some (op.id, v)
    | some .skipped => some (op.id, unproducedValue op.relationKind)
    | none => none

/-! ## Which plans are accepted -/

theorem coverStages_ok {n : Nat} {places : List Int} {seen all : List Nat} :
    coverStages n places seen = .ok all ↔
      all = (places.map Int.toNat).reverse ++ seen ∧ (∀ i ∈ places, 0 ≤ i ∧ i < n) ∧
        (places.map Int.toNat).Nodup ∧ ∀ i ∈ places, i.toNat ∉ seen := by
  induction places generalizing seen with
  | nil => simp [coverStages, eq_comm]
  | cons i rest ih =>
    rw [coverStages]
    by_cases hrange : i < 0 ∨ n ≤ i
    · rw [if_pos hrange]
      constructor
      · intro h
        cases h
      · rintro ⟨-, hin, -⟩
        have := hin i List.mem_cons_self
        omega
    · rw [if_neg hrange]
      by_cases hseen : i.toNat ∈ seen
      · rw [if_pos hseen]
        constructor
        · intro h
          cases h
        · rintro ⟨-, -, -, hnot⟩
          exact absurd hseen (hnot i List.mem_cons_self)
      · rw [if_neg hseen, ih]
        rw [List.forall_mem_cons, List.forall_mem_cons, List.map_cons, List.nodup_cons,
          List.reverse_cons, List.append_assoc, List.singleton_append]
        simp only [List.mem_cons, not_or, List.mem_map, not_exists, not_and]
        constructor
        · rintro ⟨hall, hin, hnodup, hnot⟩
          exact ⟨hall, ⟨by omega, hin⟩, ⟨fun j hj => (hnot j hj).1, hnodup⟩, hseen,
            fun j hj => (hnot j hj).2⟩
        · rintro ⟨hall, ⟨-, hin⟩, ⟨hfresh, hnodup⟩, -, hnot⟩
          exact ⟨hall, hin, hnodup, fun j hj => ⟨hfresh j hj, hnot j hj⟩⟩

theorem orderOf_perm (stages : List (List Int)) :
    (orderOf stages).Perm (stages.flatten.map Int.toNat) := by
  induction stages with
  | nil => exact .nil
  | cons stage stages ih =>
    rw [List.flatten_cons, List.map_append]
    exact ((List.perm_insertionSort _ stage).map Int.toNat).append ih

/-- An accepted plan runs every operation once. -/
theorem validateCoverage_order {stages : List (List Int)} {n : Nat}
    (h : validateCoverage stages n = .ok ()) : (orderOf stages).Perm (List.range n) := by
  obtain ⟨seen, hseen, h⟩ := Exit.bind_ok_iff.mp h
  obtain ⟨rfl, hin, hnodup, -⟩ := coverStages_ok.mp hseen
  rw [List.append_nil, List.length_reverse] at h
  split at h
  · cases h
  · next hlen =>
    refine (orderOf_perm stages).trans ?_
    have hsub : stages.flatten.map Int.toNat ⊆ List.range n := by
      intro j hj
      obtain ⟨i, hi, rfl⟩ := List.mem_map.mp hj
      rw [List.mem_range]
      have := hin i hi
      omega
    refine (hnodup.subperm hsub).perm_of_length_le ?_
    rw [List.length_range]
    omega

/-! ## What a run leaves -/

def OpState.isOk : Option OpState → Bool
  | some (.ok _) => true
  | _ => false

def OpState.isSkipped : Option OpState → Bool
  | some .skipped => true
  | _ => false

section
variable {σ : Type} {exec : OpSpec → Option Val → σ → Except Failure (ExecOutcome × σ)}
  {ops : List OpSpec} {op : OpSpec} {i : Nat} {r t : Run σ} {state : OpState}

/-- An operation writes down its index, and its port where its gate is open. -/
theorem runOp_ok (h : runOp exec i op r = .ok (state, t)) : t.states = r.states ∧
    (state = .skipped ∧ t.executedIdx = r.executedIdx ∧ t.skippedIdx = r.skippedIdx ++ [i] ∨
      ∃ v bound, state = .ok v ∧ gate op r.states = .exec bound ∧
        t.executedIdx = r.executedIdx ++ [i] ∧ t.skippedIdx = r.skippedIdx) := by
  obtain ⟨policy, -, h⟩ := Exit.bind_ok_iff.mp h
  split at h
  · obtain ⟨rfl, rfl⟩ := Prod.mk.inj (Except.ok.inj h)
    exact ⟨rfl, .inl ⟨rfl, rfl, rfl⟩⟩
  · next bound hgate =>
    obtain ⟨⟨outcome, world⟩, -, h⟩ := Exit.bind_ok_iff.mp h
    obtain ⟨result, -, h⟩ := Exit.bind_ok_iff.mp h
    cases result with
    | ok v =>
      obtain ⟨rfl, rfl⟩ := Prod.mk.inj (Except.ok.inj h)
      exact ⟨rfl, .inr ⟨v, bound, rfl, hgate, rfl, rfl⟩⟩
    | skipped =>
      obtain ⟨rfl, rfl⟩ := Prod.mk.inj (Except.ok.inj h)
      exact ⟨rfl, .inl ⟨rfl, rfl, rfl⟩⟩

/-- An open gate stays open when another operation is done. -/
theorem gate_update {states : Nat → Option OpState} {bound : Option Val}
    (h : gate op states = .exec bound) (hi : states i = none) :
    gate op (Function.update states i (some state)) = .exec bound := by
  unfold gate at h ⊢
  cases hparent : op.parent with
  | none =>
    rw [hparent] at h
    exact h
  | some parent =>
    rw [hparent] at h
    by_cases hne : parent = i
    · subst hne
      simp only [hi] at h
      cases h
    · simp only [Function.update_of_ne hne]
      exact h

/-- The operations done so far are told apart by their states, and what succeeded was let through
by its gate. -/
structure Accounted (ops : List OpSpec) (done : List Nat) (r : Run σ) : Prop where
  ran : ∀ i, i ∈ done ↔ (r.states i).isSome = true
  executed : r.executedIdx = done.filter fun i => OpState.isOk (r.states i)
  skipped : r.skippedIdx = done.filter fun i => OpState.isSkipped (r.states i)
  gated : ∀ i op v, r.states i = some (.ok v) → ops[i]? = some op →
    ∃ bound, gate op r.states = .exec bound

theorem accounted_initial (world : σ) : Accounted ops [] (initialRun world) where
  ran := by simp [initialRun]
  executed := rfl
  skipped := rfl
  gated := by simp [initialRun]

theorem Accounted.step {done : List Nat} (h : Accounted ops done r) (hi : i ∉ done)
    (hop : ops[i]? = some op) (hstep : runOp exec i op r = .ok (state, t)) :
    Accounted ops (done ++ [i]) { t with states := Function.update t.states i (some state) } := by
  obtain ⟨hstates, hcase⟩ := runOp_ok hstep
  have hfresh : r.states i = none := by
    rw [← Option.not_isSome_iff_eq_none, ← h.ran]
    exact hi
  have hold : ∀ j ∈ done, Function.update r.states i (some state) j = r.states j := by
    intro j hj
    exact Function.update_of_ne (ne_of_mem_of_not_mem hj hi) _ _
  have hfilter (p : Option OpState → Bool) :
      ((done ++ [i]).filter fun j => p (Function.update r.states i (some state) j)) =
        (done.filter fun j => p (r.states j)) ++ if p (some state) then [i] else [] := by
    rw [List.filter_append, List.filter_cons, List.filter_nil, Function.update_self]
    congr 1
    exact List.filter_congr fun j hj => by rw [hold j hj]
  rw [hstates]
  refine ⟨?_, ?_, ?_, ?_⟩
  · intro j
    by_cases hji : j = i
    · simp [hji]
    · simp only [List.mem_append, List.mem_singleton, hji, or_false, Function.update_of_ne hji]
      exact h.ran j
  · simp only [hfilter]
    rcases hcase with ⟨rfl, hexec, -⟩ | ⟨v, bound, rfl, -, hexec, -⟩
    · rw [hexec, h.executed]
      simp [OpState.isOk]
    · rw [hexec, h.executed]
      simp [OpState.isOk]
  · simp only [hfilter]
    rcases hcase with ⟨rfl, -, hskip⟩ | ⟨v, bound, rfl, -, -, hskip⟩
    · rw [hskip, h.skipped]
      simp [OpState.isSkipped]
    · rw [hskip, h.skipped]
      simp [OpState.isSkipped]
  · intro j op' w hj hop'
    by_cases hji : j = i
    · subst hji
      simp only [Function.update_self] at hj
      obtain rfl := Option.some.inj (hop.symm.trans hop')
      rcases hcase with ⟨rfl, -, -⟩ | ⟨v, bound, rfl, hgate, -, -⟩
      · cases hj
      · exact ⟨bound, gate_update hgate hfresh⟩
    · simp only [Function.update_of_ne hji] at hj
      obtain ⟨bound, hgate⟩ := h.gated j op' w hj hop'
      exact ⟨bound, gate_update hgate hfresh⟩

theorem Accounted.run {order done : List Nat} (h : Accounted ops done r)
    (hnodup : (done ++ order).Nodup) (hin : ∀ i ∈ order, i < ops.length)
    (hrun : runOps exec ops order r = .ok t) : Accounted ops (done ++ order) t := by
  induction order generalizing done r with
  | nil =>
    obtain rfl := Except.ok.inj hrun
    rw [List.append_nil]
    exact h
  | cons i order ih =>
    obtain ⟨op, hop⟩ : ∃ op, ops[i]? = some op :=
      ⟨_, List.getElem?_eq_getElem (hin i List.mem_cons_self)⟩
    rw [runOps, hop] at hrun
    obtain ⟨⟨state, s⟩, hstep, hrun⟩ := Exit.bind_ok_iff.mp hrun
    have hi : i ∉ done := fun hmem =>
      (List.nodup_append.mp hnodup).2.2 i hmem i List.mem_cons_self rfl
    have hnext := h.step hi hop hstep
    rw [List.append_cons] at hnodup ⊢
    exact ih hnext hnodup (fun j hj => hin j (List.mem_cons_of_mem i hj)) hrun

/-- The state that an operation ends in. -/
def RunResult.stateOf (result : RunResult) (i : Nat) : Option OpState := result.states[i]?.join

theorem sorted_filter {n : Nat} {order : List Nat} (h : order.Perm (List.range n))
    (p : Nat → Bool) : (order.filter p).insertionSort (· ≤ ·) = (List.range n).filter p := by
  have hperm := (List.perm_insertionSort (· ≤ ·) (order.filter p)).trans (h.filter p)
  have hsorted := List.pairwise_insertionSort (· ≤ ·) (order.filter p)
  have hrange := (List.pairwise_le_range (n := n)).filter p
  exact hperm.eq_of_pairwise (fun a b _ _ => Nat.le_antisymm) hsorted hrange

/-- A run that ends has given every operation a state; what it tells as executed and as skipped are
the operations that succeeded and those that did not, in the order of their indices; and an
operation succeeded only where its parent did, with the field that it binds there and not null. -/
theorem runPlan_accounts {plan : Option (List (List Int))} {world world' : σ} {result : RunResult}
    (h : runPlan exec plan ops world = .ok (result, world')) :
    (∀ i, i < ops.length ↔ (result.stateOf i).isSome = true) ∧
    result.executed =
      ((List.range ops.length).filter fun i => OpState.isOk (result.stateOf i)).map (idAt ops) ∧
    result.skipped =
      ((List.range ops.length).filter fun i => OpState.isSkipped (result.stateOf i)).map
        (idAt ops) ∧
    ∀ i op v parent, ops[i]? = some op → result.stateOf i = some (.ok v) →
      op.parent = some parent → ∃ pv, result.stateOf parent = some (.ok pv) ∧
        ∀ field, op.bindField = some field → (boundOf pv field).isSome = true := by
  obtain ⟨⟨⟩, hcover, h⟩ := Exit.bind_ok_iff.mp h
  obtain ⟨t, hrun, h⟩ := Exit.bind_ok_iff.mp h
  obtain ⟨rfl, -⟩ := Prod.mk.inj (Except.ok.inj h)
  have hperm := validateCoverage_order hcover
  have hmem : ∀ i, i ∈ orderOf (stagesOf plan ops.length) ↔ i < ops.length := fun i => by
    rw [hperm.mem_iff, List.mem_range]
  have hacc : Accounted ops (orderOf (stagesOf plan ops.length)) t := by
    refine (accounted_initial world).run ?_ (fun i hi => (hmem i).mp hi) hrun
    rw [List.nil_append]
    exact hperm.nodup_iff.mpr List.nodup_range
  have hstate : ∀ i, RunResult.stateOf ⟨(List.range ops.length).map t.states,
      idsOf ops t.executedIdx, idsOf ops t.skippedIdx⟩ i = t.states i := by
    intro i
    rw [RunResult.stateOf, List.getElem?_map]
    by_cases hi : i < ops.length
    · rw [List.getElem?_range hi]
      rfl
    · rw [List.getElem?_eq_none (by simpa using hi)]
      have := (hacc.ran i).not.mp ((hmem i).not.mpr hi)
      exact (Option.not_isSome_iff_eq_none.mp this).symm
  simp only [hstate]
  refine ⟨fun i => (hmem i).symm.trans (hacc.ran i), ?_, ?_, ?_⟩
  · rw [idsOf, hacc.executed, sorted_filter hperm]
  · rw [idsOf, hacc.skipped, sorted_filter hperm]
  · intro i op v parent hop hv hparent
    obtain ⟨bound, hgate⟩ := hacc.gated i op v hv hop
    unfold gate at hgate
    simp only [hparent] at hgate
    cases hp : t.states parent with
    | none => simp [hp] at hgate
    | some pstate =>
      cases pstate with
      | skipped => simp [hp] at hgate
      | ok pv =>
        refine ⟨pv, rfl, ?_⟩
        intro field hfield
        simp only [hp, hfield] at hgate
        cases hb : boundOf pv field with
        | none => simp [hb] at hgate
        | some b => rfl

/-- The child of a leaf that failed under `continue` is not executed, though it is planned first. -/
theorem runPlan_accounts_continue :
    let ops : List OpSpec := [⟨"root", none, none, none, none⟩,
      ⟨"profile", some 0, some "uid", some "single", some "continue"⟩,
      ⟨"avatar", some 1, none, none, none⟩]
    let exec (op : OpSpec) (_ : Option Val) (calls : Nat) : Except Failure (ExecOutcome × Nat) :=
      .ok (if op.id = "root" then .ok (.obj [("uid", .int 4)]) else .error "down" none, calls + 1)
    ∃ result, runPlan exec (some [[0], [2], [1]]) ops 0 = .ok (result, 2) ∧
      result.skipped = ["profile", "avatar"] := by
  intro ops exec
  have h : runPlan exec (some [[0], [2], [1]]) ops 0 = .ok (⟨[some (.ok (.obj [("uid", .int 4)])),
      some .skipped, some .skipped], ["root"], ["profile", "avatar"]⟩, 2) := by rfl
  exact ⟨_, h, (runPlan_accounts h).2.2.1⟩

end

end LiteDb.Behavior
