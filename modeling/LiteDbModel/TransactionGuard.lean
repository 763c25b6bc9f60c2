import LiteDbModel.Lib.Run

/-!
# The gate between a transaction's body and its connection

`createTransactionGuard` counts the queries that the body has started and not
finished, and closes when the body settles. One attempt of a transaction is a
step function over the schedule: queries are started, answered and untracked in
any order relative to the body, whose settling the attempt waits for.
-/

namespace LiteDb
set_option autoImplicit false
open Run

/-! ## The gate -/

/-- A started query, by the order of the calls. -/
abbrev Query := Nat

structure TransactionGuard where
  closed : Bool
  /-- The promises in the set `unfinished`. -/
  unfinished : List Query

def createTransactionGuard : TransactionGuard := ⟨false, []⟩

/-- `run`: a closed gate rejects the call, an open one starts the query and tracks it. -/
def TransactionGuard.run (g : TransactionGuard) (q : Query) : TransactionGuard × Bool :=
  if g.closed then (g, false) else ({ g with unfinished := g.unfinished ++ [q] }, true)

/-- The `finally` of `track`. -/
def TransactionGuard.untrack (g : TransactionGuard) (q : Query) : TransactionGuard :=
  { g with unfinished := g.unfinished.filter (· ≠ q) }

/-- How a promise settles. -/
inductive Outcome (V E : Type)
  | value (v : V)
  | error (e : E)
deriving DecidableEq

/-- What an attempt throws: an error it passes on, or `TransactionClosedError`. -/
inductive Thrown (E : Type)
  | passed (e : E)
  | transactionClosed (unfinished : Bool) (cause : Option E)
deriving DecidableEq

def transactionClosedMessage (unfinished : Bool) : String :=
  (if unfinished then
    "A query started inside the transaction had not finished when the transaction function settled. "
  else "Query issued after the transaction function settled. ") ++
  "Await every query started inside DBModel.transaction() before returning."

variable {V E : Type}

def Outcome.error? : Outcome V E → Option E
  | .value _ => none
  | .error e => some e

/-- The end of `settle`, once the pending queries have settled. -/
def settleResult (outcome : Outcome V E) (pending : List Query) : Except (Thrown E) V :=
  if pending ≠ [] then .error (.transactionClosed true outcome.error?)
  else match outcome with
    | .value v => .ok v
    | .error e => .error (.passed e)

/-! ## One attempt of a transaction -/

inductive Phase (V E : Type)
  /-- The `BEGIN` statements still to be issued. -/
  | opening (begins : List String)
  | body
  /-- The body's promise has settled, and `settle` has not resumed yet. -/
  | settled (outcome : Outcome V E)
  /-- `Promise.allSettled(pending)`. -/
  | draining (outcome : Outcome V E) (pending : List Query)
  | committing (v : V)
  /-- The `ROLLBACK` of a `rollbackOnly` transaction. -/
  | dryRun (v : V)
  | rollingBack (thrown : Thrown E)
  | done (result : Except (Thrown E) V)

/-- The runtime's own statements. -/
inductive Control
  | begin
  | commit
  | rollback
deriving DecidableEq

/-- What happens on the connection and at the gate, in order. -/
inductive Event (V E : Type)
  | begin (sql : String)
  /-- A call of the gate: sent to the connection, or rejected with `TransactionClosedError`. -/
  | call (q : Query) (sent : Bool)
  | answered (q : Query)
  | bodySettled (outcome : Outcome V E)
  | gateClosed (pending : List Query)
  | commit
  | committed
  | rollback
  | rolledBack
  /-- `BEGIN`, `COMMIT` or a dry run's `ROLLBACK` failed. -/
  | controlFailed (control : Control) (e : E)
deriving DecidableEq

structure Attempt (V E : Type) where
  guard : TransactionGuard
  /-- The next call's number. -/
  next : Query
  /-- Sent and not answered. -/
  inFlight : List Query
  phase : Phase V E
  /-- `COMMIT` has been issued. -/
  committing : Bool
  /-- The `ROLLBACK` of a failed attempt failed. -/
  poisoned : Bool
  log : List (Event V E)

inductive Act (V E : Type)
  /-- A statement of the runtime's own succeeds: `BEGIN`, `COMMIT` or `ROLLBACK`. -/
  | control
  | controlFails (e : E)
  /-- Someone who holds the body's connection starts a query, at any time. -/
  | call
  | answer (q : Query)
  | untrack (q : Query)
  | bodySettles (outcome : Outcome V E)
  | close
  | drained

def Attempt.start (begins : List String) : Attempt V E :=
  ⟨createTransactionGuard, 0, [], .opening begins, false, false, []⟩

/-- The body, and with it the gate, has been reached. -/
def Attempt.entered (s : Attempt V E) : Bool :=
  match s.phase with
  | .opening _ => false
  | .body | .settled _ | .draining _ _ => true
  | .committing _ | .dryRun _ => true
  | .rollingBack _ | .done _ => s.guard.closed

/-- The `catch` of an attempt: `ROLLBACK`, whatever it throws being kept. -/
def Attempt.fail (s : Attempt V E) (thrown : Thrown E) : Attempt V E :=
  { s with phase := .rollingBack thrown, log := s.log ++ [.rollback] }

def Attempt.step (rollbackOnly : Bool) (s : Attempt V E) : Act V E → Option (Attempt V E)
  | .control =>
    match s.phase with
    | .opening (b :: begins) =>
      some { s with phase := .opening begins, log := s.log ++ [.begin b] }
    | .opening [] => some { s with phase := .body }
    | .committing v => some { s with phase := .done (.ok v), log := s.log ++ [.committed] }
    | .dryRun v => some { s with phase := .done (.ok v), log := s.log ++ [.rolledBack] }
    | .rollingBack thrown =>
      some { s with phase := .done (.error thrown), log := s.log ++ [.rolledBack] }
    | _ => none
  | .controlFails e =>
    match s.phase with
    | .opening (b :: _) =>
      some (Attempt.fail { s with log := s.log ++ [.begin b] ++ [.controlFailed .begin e] } (.passed e))
    | .committing _ =>
      some (Attempt.fail { s with log := s.log ++ [.controlFailed .commit e] } (.passed e))
    | .dryRun _ =>
      some (Attempt.fail { s with log := s.log ++ [.controlFailed .rollback e] } (.passed e))
    | .rollingBack thrown => some { s with phase := .done (.error thrown), poisoned := true }
    | _ => none
  | .call =>
    if s.entered then
      let (guard, sent) := s.guard.run s.next
      some { s with
        guard := guard
        next := s.next + 1
        inFlight := if sent then s.inFlight ++ [s.next] else s.inFlight
        log := s.log ++ [.call s.next sent] }
    else none
  | .answer q =>
    if q ∈ s.inFlight then
      some { s with inFlight := s.inFlight.filter (· ≠ q), log := s.log ++ [.answered q] }
    else none
  | .untrack q =>
    if q ∉ s.inFlight then some { s with guard := s.guard.untrack q } else none
  | .bodySettles outcome =>
    match s.phase with
    | .body => some { s with phase := .settled outcome, log := s.log ++ [.bodySettled outcome] }
    | _ => none
  | .close =>
    match s.phase with
    | .settled outcome =>
      some { s with
        guard := { s.guard with closed := true }
        phase := .draining outcome s.guard.unfinished
        log := s.log ++ [.gateClosed s.guard.unfinished] }
    | _ => none
  | .drained =>
    match s.phase with
    | .draining outcome pending =>
      if pending.all (· ∉ s.inFlight) then
        match settleResult outcome pending with
        | .error thrown => some (s.fail thrown)
        | .ok v =>
          if rollbackOnly then some { s with phase := .dryRun v, log := s.log ++ [.rollback] }
          else
            some { s with phase := .committing v, committing := true, log := s.log ++ [.commit] }
      else none
    | _ => none

/-! ## What the gate is for -/

def Event.bodySettled? : Event V E → Option (Outcome V E)
  | .bodySettled o => some o
  | _ => none

def Event.gateClosed? : Event V E → Option (List Query)
  | .gateClosed p => some p
  | _ => none

def Event.controlFailed? : Event V E → Option E
  | .controlFailed _ e => some e
  | _ => none

/-- Every query sent so far has its answer. -/
def Quiet (log : List (Event V E)) : Prop := ∀ q, .call q true ∈ log → .answered q ∈ log

/-- What each event needs of the events before it. -/
def EventOk (before : List (Event V E)) : Event V E → Prop
  | .call _ sent =>
    (sent = false ↔ ∃ pending, .gateClosed pending ∈ before) ∧
      (sent = true → .commit ∉ before ∧ .rollback ∉ before)
  | .commit => .gateClosed [] ∈ before ∧ Quiet before
  | .rollback => Quiet before
  | _ => True

/-- The body's own result when nothing was unfinished, `TransactionClosedError` otherwise. -/
def OutcomeOf (log : List (Event V E)) (result : Except (Thrown E) V) : Prop :=
  ∃ outcome pending, log.filterMap Event.bodySettled? = [outcome] ∧
    log.filterMap Event.gateClosed? = [pending] ∧
    (pending = [] → result = match outcome with
      | .value v => .ok v
      | .error e => .error (.passed e)) ∧
    (pending ≠ [] → result = .error (.transactionClosed true outcome.error?))

/-- The safety of the gate over one attempt. -/
structure GuardSafe (s : Attempt V E) : Prop where
  log : Logged EventOk s.log
  outcome : ∀ result, s.phase = .done result → OutcomeOf s.log result

/-- The same, with the errors of the runtime's own statements thrown as they are. -/
structure GuardSafeUpToControl (s : Attempt V E) : Prop where
  log : Logged EventOk s.log
  outcome : ∀ result, s.phase = .done result →
    match s.log.filterMap Event.controlFailed? with
    | [] => OutcomeOf s.log result
    | e :: _ => result = .error (.passed e)

/-! ## The invariant of an attempt -/

/-- Nothing has been decided on the connection yet. -/
def Undecided (log : List (Event V E)) : Prop :=
  .commit ∉ log ∧ .rollback ∉ log ∧ log.filterMap Event.controlFailed? = []

def ResultOk (log : List (Event V E)) (result : Except (Thrown E) V) : Prop :=
  match log.filterMap Event.controlFailed? with
  | [] => OutcomeOf log result
  | e :: _ => result = .error (.passed e)

def PhaseOk (log : List (Event V E)) (inFlight : List Query) : Phase V E → Prop
  | .opening _ => Undecided log ∧ log.filterMap Event.bodySettled? = [] ∧
      log.filterMap Event.gateClosed? = [] ∧ inFlight = []
  | .body => Undecided log ∧ log.filterMap Event.bodySettled? = [] ∧
      log.filterMap Event.gateClosed? = []
  | .settled outcome => Undecided log ∧ log.filterMap Event.bodySettled? = [outcome] ∧
      log.filterMap Event.gateClosed? = []
  | .draining outcome pending => Undecided log ∧ log.filterMap Event.bodySettled? = [outcome] ∧
      log.filterMap Event.gateClosed? = [pending] ∧ ∀ q ∈ inFlight, q ∈ pending
  | .committing v | .dryRun v => log.filterMap Event.controlFailed? = [] ∧
      log.filterMap Event.bodySettled? = [.value v] ∧ log.filterMap Event.gateClosed? = [[]] ∧
      inFlight = []
  | .rollingBack thrown => ResultOk log (.error thrown) ∧ inFlight = []
  | .done result => ResultOk log result ∧ inFlight = []

structure AttemptInv (s : Attempt V E) : Prop where
  logged : Logged EventOk s.log
  gate : s.guard.closed = true ↔ s.log.filterMap Event.gateClosed? ≠ []
  flight : ∀ q, .call q true ∈ s.log → .answered q ∈ s.log ∨ q ∈ s.inFlight
  tracked : ∀ q ∈ s.inFlight, q ∈ s.guard.unfinished
  phase : PhaseOk s.log s.inFlight s.phase

theorem gateClosed_mem_iff {log : List (Event V E)} :
    (∃ pending, .gateClosed pending ∈ log) ↔ log.filterMap Event.gateClosed? ≠ [] := by
  constructor
  · rintro ⟨pending, h⟩ hnil
    have : pending ∈ log.filterMap Event.gateClosed? :=
      List.mem_filterMap.mpr ⟨.gateClosed pending, h, rfl⟩
    rw [hnil] at this
    cases this
  · intro h
    obtain ⟨pending, hp⟩ := List.exists_mem_of_ne_nil _ h
    obtain ⟨e, he, heq⟩ := List.mem_filterMap.mp hp
    cases e with
    | gateClosed p =>
      obtain rfl := Option.some.inj heq
      exact ⟨p, he⟩
    | _ => cases heq

theorem gateClosed_mem {log : List (Event V E)} {pending : List Query}
    (h : log.filterMap Event.gateClosed? = [pending]) : .gateClosed pending ∈ log := by
  have hmem : pending ∈ log.filterMap Event.gateClosed? := by simp [h]
  obtain ⟨e, he, heq⟩ := List.mem_filterMap.mp hmem
  cases e with
  | gateClosed p =>
    obtain rfl := Option.some.inj heq
    exact he
  | _ => cases heq

theorem attempt_start (begins : List String) : AttemptInv (Attempt.start (V := V) (E := E) begins) where
  logged := Logged.nil
  gate := by simp [Attempt.start, createTransactionGuard]
  flight := by
    intro q h
    cases h
  tracked := by
    intro q h
    cases h
  phase := ⟨⟨List.not_mem_nil, List.not_mem_nil, rfl⟩, rfl, rfl, rfl⟩

variable {s s' : Attempt V E}

/-- With nothing in flight every query sent has its answer. -/
theorem AttemptInv.quiet (h : AttemptInv s) (hflight : s.inFlight = []) : Quiet s.log := by
  intro q hq
  rcases h.flight q hq with hanswered | hmem
  · exact hanswered
  · rw [hflight] at hmem
    cases hmem

/-- An event that starts no query leaves the bookkeeping of the queries as it is. -/
theorem AttemptInv.flight_append (h : AttemptInv s) {e : Event V E}
    (he : ∀ q, e ≠ .call q true) :
    ∀ q, .call q true ∈ s.log ++ [e] → .answered q ∈ s.log ++ [e] ∨ q ∈ s.inFlight := by
  intro q hq
  rcases List.mem_append.mp hq with hold | hnew
  · exact (h.flight q hold).imp_left (List.mem_append_left [e])
  · exact absurd (List.mem_singleton.mp hnew).symm (he q)

/-- An event that decides nothing: a `BEGIN`, a call, an answer. -/
def Event.Plain (e : Event V E) : Prop :=
  e.bodySettled? = none ∧ e.gateClosed? = none ∧ e.controlFailed? = none

theorem OutcomeOf.append {log : List (Event V E)} {result : Except (Thrown E) V} {e : Event V E}
    (he : e.Plain) (h : OutcomeOf log result) : OutcomeOf (log ++ [e]) result := by
  obtain ⟨outcome, pending, hbody, hgate, hresult⟩ := h
  refine ⟨outcome, pending, ?_, ?_, hresult⟩
  · simpa [he.1] using hbody
  · simpa [he.2.1] using hgate

theorem ResultOk.append {log : List (Event V E)} {result : Except (Thrown E) V} {e : Event V E}
    (he : e.Plain) (h : ResultOk log result) : ResultOk (log ++ [e]) result := by
  have hfail : (log ++ [e]).filterMap Event.controlFailed? = log.filterMap Event.controlFailed? := by
    simp [he.2.2]
  unfold ResultOk at h ⊢
  rw [hfail]
  split at h
  · exact h.append he
  · exact h

theorem Undecided.append {log : List (Event V E)} {e : Event V E} (he : e.Plain)
    (hc : e ≠ .commit) (hr : e ≠ .rollback) (h : Undecided log) : Undecided (log ++ [e]) := by
  obtain ⟨hcommit, hrollback, hfail⟩ := h
  refine ⟨?_, ?_, ?_⟩
  · simpa [Ne.symm hc] using hcommit
  · simpa [Ne.symm hr] using hrollback
  · simpa [he.2.2] using hfail

theorem PhaseOk.append {log : List (Event V E)} {inFlight : List Query} {phase : Phase V E}
    {e : Event V E} (he : e.Plain) (hc : e ≠ .commit) (hr : e ≠ .rollback)
    (h : PhaseOk log inFlight phase) : PhaseOk (log ++ [e]) inFlight phase := by
  have hbody : (log ++ [e]).filterMap Event.bodySettled? = log.filterMap Event.bodySettled? := by
    simp [he.1]
  have hgate : (log ++ [e]).filterMap Event.gateClosed? = log.filterMap Event.gateClosed? := by
    simp [he.2.1]
  have hfail : (log ++ [e]).filterMap Event.controlFailed? = log.filterMap Event.controlFailed? := by
    simp [he.2.2]
  cases phase with
  | opening | body | settled | draining =>
    refine ⟨h.1.append he hc hr, ?_⟩
    rw [hbody, hgate]
    exact h.2
  | committing | dryRun =>
    unfold PhaseOk at h ⊢
    rw [hbody, hgate, hfail]
    exact h
  | rollingBack | done => exact ⟨h.1.append he, h.2⟩

/-- `ROLLBACK` is issued when nothing is in flight. -/
theorem attempt_fail {thrown : Thrown E} (hlogged : Logged EventOk s.log)
    (hgate : s.guard.closed = true ↔ s.log.filterMap Event.gateClosed? ≠ [])
    (hquiet : Quiet s.log) (hflight : s.inFlight = []) (hresult : ResultOk s.log (.error thrown)) :
    AttemptInv (s.fail thrown) where
  logged := logged_append.mpr ⟨hlogged, hquiet⟩
  gate := by
    rw [Attempt.fail, hgate, List.filterMap_append]
    simp [Event.gateClosed?]
  flight := by
    intro q hq
    rcases List.mem_append.mp hq with hold | hnew
    · exact Or.inl (List.mem_append_left _ (hquiet q hold))
    · cases List.mem_singleton.mp hnew
  tracked := by
    intro q hq
    rw [Attempt.fail, hflight] at hq
    cases hq
  phase := ⟨hresult.append ⟨rfl, rfl, rfl⟩, hflight⟩

/-- A failing statement of the runtime's own is what the attempt throws. -/
theorem resultOk_controlFailed {log : List (Event V E)} (c : Control) (e : E)
    (h : log.filterMap Event.controlFailed? = []) :
    ResultOk (log ++ [.controlFailed c e]) (.error (.passed e)) := by
  have hfail : (log ++ [Event.controlFailed (V := V) c e]).filterMap Event.controlFailed? = [e] := by
    simp [h, Event.controlFailed?]
  unfold ResultOk
  rw [hfail]

theorem attempt_controlFails (h : AttemptInv s) {log : List (Event V E)} (c : Control) (e : E)
    (hlogged : Logged EventOk log) (hgate : log.filterMap Event.gateClosed? =
      s.log.filterMap Event.gateClosed?) (hquiet : Quiet log) (hflight : s.inFlight = [])
    (hfail : log.filterMap Event.controlFailed? = []) :
    AttemptInv (Attempt.fail { s with log := log ++ [.controlFailed c e] } (.passed e)) := by
  apply attempt_fail
  · exact logged_append.mpr ⟨hlogged, trivial⟩
  · rw [h.gate, ← hgate, List.filterMap_append]
    simp [Event.gateClosed?]
  · intro q hq
    rcases List.mem_append.mp hq with hold | hnew
    · exact List.mem_append_left _ (hquiet q hold)
    · cases List.mem_singleton.mp hnew
  · exact hflight
  · exact resultOk_controlFailed c e hfail

/-- A `COMMIT` or `ROLLBACK` that succeeds ends the attempt with the result it had. -/
theorem attempt_control_done (h : AttemptInv s) {e : Event V E} (result : Except (Thrown E) V)
    (he : e.Plain) (hok : EventOk s.log e) (hcall : ∀ q, e ≠ .call q true)
    (hresult : ResultOk s.log result) (hflight : s.inFlight = []) :
    AttemptInv { s with phase := .done result, log := s.log ++ [e] } where
  logged := logged_append.mpr ⟨h.logged, hok⟩
  gate := by simpa [he.2.1] using h.gate
  flight := h.flight_append hcall
  tracked := h.tracked
  phase := ⟨hresult.append he, hflight⟩

theorem resultOk_value {log : List (Event V E)} {inFlight : List Query} {v : V}
    (h : PhaseOk log inFlight (.committing v)) : ResultOk (E := E) log (.ok v) := by
  obtain ⟨hfail, hbody, hgate, -⟩ := h
  unfold ResultOk
  rw [hfail]
  exact ⟨.value v, [], hbody, hgate, fun _ => rfl, fun hne => absurd rfl hne⟩

theorem attempt_step_control (rollbackOnly : Bool) (h : AttemptInv s)
    (hs : s.step rollbackOnly .control = some s') : AttemptInv s' := by
  have hphase := h.phase
  simp only [Attempt.step] at hs
  split at hs
  · rename_i b begins heq
    obtain rfl := Option.some.inj hs
    rw [heq] at hphase
    refine ⟨logged_append.mpr ⟨h.logged, trivial⟩, ?_, ?_, h.tracked, ?_⟩
    · simpa [Event.gateClosed?] using h.gate
    · exact h.flight_append fun q => by simp
    · have hplain : (Event.begin b : Event V E).Plain := ⟨rfl, rfl, rfl⟩
      exact (show PhaseOk s.log s.inFlight (.opening begins) from hphase).append hplain
        (by simp) (by simp)
  · rename_i heq
    obtain rfl := Option.some.inj hs
    rw [heq] at hphase
    exact ⟨h.logged, h.gate, h.flight, h.tracked, hphase.1, hphase.2.1, hphase.2.2.1⟩
  · rename_i v heq
    obtain rfl := Option.some.inj hs
    rw [heq] at hphase
    exact attempt_control_done h (.ok v) ⟨rfl, rfl, rfl⟩ trivial (fun q => by simp)
      (resultOk_value hphase) hphase.2.2.2
  · rename_i v heq
    obtain rfl := Option.some.inj hs
    rw [heq] at hphase
    exact attempt_control_done h (.ok v) ⟨rfl, rfl, rfl⟩ trivial (fun q => by simp)
      (resultOk_value hphase) hphase.2.2.2
  · rename_i thrown heq
    obtain rfl := Option.some.inj hs
    rw [heq] at hphase
    exact attempt_control_done h (.error thrown) ⟨rfl, rfl, rfl⟩ trivial (fun q => by simp)
      hphase.1 hphase.2
  · cases hs

theorem attempt_step_controlFails (rollbackOnly : Bool) (e : E) (h : AttemptInv s)
    (hs : s.step rollbackOnly (.controlFails e) = some s') : AttemptInv s' := by
  have hphase := h.phase
  simp only [Attempt.step] at hs
  split at hs
  · rename_i b begins heq
    obtain rfl := Option.some.inj hs
    rw [heq] at hphase
    obtain ⟨⟨_, _, hfail⟩, _, _, hflight⟩ := hphase
    apply attempt_controlFails h .begin e
    · exact logged_append.mpr ⟨h.logged, trivial⟩
    · simp [Event.gateClosed?]
    · intro q hq
      rcases List.mem_append.mp hq with hold | hnew
      · exact List.mem_append_left _ (h.quiet hflight q hold)
      · cases List.mem_singleton.mp hnew
    · exact hflight
    · simpa [Event.controlFailed?] using hfail
  · rename_i v heq
    obtain rfl := Option.some.inj hs
    rw [heq] at hphase
    obtain ⟨hfail, _, _, hflight⟩ := hphase
    exact attempt_controlFails h .commit e h.logged rfl (h.quiet hflight) hflight hfail
  · rename_i v heq
    obtain rfl := Option.some.inj hs
    rw [heq] at hphase
    obtain ⟨hfail, _, _, hflight⟩ := hphase
    exact attempt_controlFails h .rollback e h.logged rfl (h.quiet hflight) hflight hfail
  · rename_i thrown heq
    obtain rfl := Option.some.inj hs
    rw [heq] at hphase
    exact ⟨h.logged, h.gate, h.flight, h.tracked, hphase⟩
  · cases hs

/-- While the gate is open, the attempt is in a phase before the decision. -/
theorem AttemptInv.open_phase (h : AttemptInv s) (hentered : s.entered = true)
    (hopen : s.guard.closed = false) :
    s.phase = .body ∨ ∃ outcome, s.phase = .settled outcome := by
  have hnone : s.log.filterMap Event.gateClosed? = [] := by
    by_contra hne
    rw [h.gate.mpr hne] at hopen
    cases hopen
  have hphase := h.phase
  unfold Attempt.entered at hentered
  cases hp : s.phase with
  | opening => simp [hp] at hentered
  | body => exact Or.inl rfl
  | settled outcome => exact Or.inr ⟨outcome, rfl⟩
  | draining =>
    rw [hp] at hphase
    rw [hphase.2.2.1] at hnone
    cases hnone
  | committing | dryRun =>
    rw [hp] at hphase
    rw [hphase.2.2.1] at hnone
    cases hnone
  | rollingBack | done => simp [hp, hopen] at hentered

theorem attempt_step_call (rollbackOnly : Bool) (h : AttemptInv s)
    (hs : s.step rollbackOnly .call = some s') : AttemptInv s' := by
  simp only [Attempt.step] at hs
  split at hs
  · rename_i hentered
    obtain rfl := Option.some.inj hs
    have hplain : ∀ sent, (Event.call s.next sent : Event V E).Plain := fun _ => ⟨rfl, rfl, rfl⟩
    cases hclosed : s.guard.closed with
    | true =>
      have hgate : ∃ pending, .gateClosed pending ∈ s.log := gateClosed_mem_iff.mpr (h.gate.mp hclosed)
      simp only [TransactionGuard.run, hclosed, if_true]
      refine ⟨logged_append.mpr ⟨h.logged, ⟨fun _ => hgate, fun _ => rfl⟩, fun hsent => ?_⟩, ?_,
        ?_, h.tracked, ?_⟩
      · cases hsent
      · simpa [Event.gateClosed?] using h.gate
      · exact h.flight_append fun q => by simp
      · exact h.phase.append (hplain false) (by simp) (by simp)
    | false =>
      have hnogate : ¬ ∃ pending, .gateClosed pending ∈ s.log := by
        intro hgate
        rw [h.gate.mpr (gateClosed_mem_iff.mp hgate)] at hclosed
        cases hclosed
      have hopen := h.open_phase hentered hclosed
      have hundecided : Undecided s.log := by
        have hphase := h.phase
        rcases hopen with hp | ⟨outcome, hp⟩ <;> rw [hp] at hphase <;> exact hphase.1
      simp only [TransactionGuard.run, hclosed, Bool.false_eq_true, if_false, if_true]
      refine ⟨logged_append.mpr ⟨h.logged, ⟨fun hsent => ?_, fun hgate => absurd hgate hnogate⟩,
        fun _ => ⟨hundecided.1, hundecided.2.1⟩⟩, ?_, ?_, ?_, ?_⟩
      · cases hsent
      · simpa [Event.gateClosed?, hclosed] using h.gate
      · intro q hq
        rcases List.mem_append.mp hq with hold | hnew
        · exact (h.flight q hold).imp (List.mem_append_left _) (List.mem_append_left _)
        · simp only [List.mem_singleton, Event.call.injEq, and_true] at hnew
          exact Or.inr (List.mem_append_right _ (by simp [hnew]))
      · intro q hq
        rcases List.mem_append.mp hq with hold | hnew
        · exact List.mem_append_left _ (h.tracked q hold)
        · exact List.mem_append_right _ hnew
      · have happend := h.phase.append (hplain true) (by simp) (by simp)
        rcases hopen with hp | ⟨outcome, hp⟩
        · simp only [hp] at happend ⊢
          exact happend
        · simp only [hp] at happend ⊢
          exact happend
  · cases hs

/-- Answering a query leaves fewer in flight, which every phase allows. -/
theorem PhaseOk.subset {log : List (Event V E)} {inFlight rest : List Query} {phase : Phase V E}
    (hsub : rest ⊆ inFlight) (h : PhaseOk log inFlight phase) : PhaseOk log rest phase := by
  have hnil : inFlight = [] → rest = [] := by
    rintro rfl
    exact List.subset_nil.mp hsub
  cases phase with
  | opening => exact ⟨h.1, h.2.1, h.2.2.1, hnil h.2.2.2⟩
  | body | settled => exact h
  | draining => exact ⟨h.1, h.2.1, h.2.2.1, fun q hq => h.2.2.2 q (hsub hq)⟩
  | committing | dryRun => exact ⟨h.1, h.2.1, h.2.2.1, hnil h.2.2.2⟩
  | rollingBack | done => exact ⟨h.1, hnil h.2⟩

theorem attempt_step_answer (rollbackOnly : Bool) (q : Query) (h : AttemptInv s)
    (hs : s.step rollbackOnly (.answer q) = some s') : AttemptInv s' := by
  simp only [Attempt.step] at hs
  split at hs
  · obtain rfl := Option.some.inj hs
    refine ⟨logged_append.mpr ⟨h.logged, trivial⟩, ?_, ?_, ?_, ?_⟩
    · simpa [Event.gateClosed?] using h.gate
    · intro r hr
      rcases h.flight_append (e := .answered q) (fun q' => by simp) r hr with hanswered | hmem
      · exact Or.inl hanswered
      · by_cases hrq : r = q
        · exact Or.inl (by simp [hrq])
        · exact Or.inr (List.mem_filter.mpr ⟨hmem, by simpa using hrq⟩)
    · intro r hr
      exact h.tracked r (List.mem_filter.mp hr).1
    · apply PhaseOk.append ⟨rfl, rfl, rfl⟩ (by simp) (by simp)
      exact h.phase.subset fun r hr => (List.mem_filter.mp hr).1
  · cases hs

theorem attempt_step_untrack (rollbackOnly : Bool) (q : Query) (h : AttemptInv s)
    (hs : s.step rollbackOnly (.untrack q) = some s') : AttemptInv s' := by
  simp only [Attempt.step] at hs
  split at hs
  · rename_i hq
    obtain rfl := Option.some.inj hs
    refine ⟨h.logged, h.gate, h.flight, ?_, h.phase⟩
    intro r hr
    refine List.mem_filter.mpr ⟨h.tracked r hr, ?_⟩
    simp only [decide_eq_true_eq]
    rintro rfl
    exact hq hr
  · cases hs

theorem attempt_step_bodySettles (rollbackOnly : Bool) (outcome : Outcome V E) (h : AttemptInv s)
    (hs : s.step rollbackOnly (.bodySettles outcome) = some s') : AttemptInv s' := by
  have hphase := h.phase
  simp only [Attempt.step] at hs
  split at hs
  · rename_i heq
    obtain rfl := Option.some.inj hs
    rw [heq] at hphase
    obtain ⟨⟨hcommit, hrollback, hfail⟩, hbody, hgate⟩ := hphase
    refine ⟨logged_append.mpr ⟨h.logged, trivial⟩, ?_, ?_, h.tracked, ⟨?_, ?_, ?_⟩, ?_, ?_⟩
    · simpa [Event.gateClosed?] using h.gate
    · exact h.flight_append fun q => by simp
    · simpa using hcommit
    · simpa using hrollback
    · simpa [Event.controlFailed?] using hfail
    · simp [hbody, Event.bodySettled?]
    · simpa [Event.gateClosed?] using hgate
  · cases hs

theorem attempt_step_close (rollbackOnly : Bool) (h : AttemptInv s)
    (hs : s.step rollbackOnly .close = some s') : AttemptInv s' := by
  have hphase := h.phase
  simp only [Attempt.step] at hs
  split at hs
  · rename_i outcome heq
    obtain rfl := Option.some.inj hs
    rw [heq] at hphase
    obtain ⟨⟨hcommit, hrollback, hfail⟩, hbody, hgate⟩ := hphase
    refine ⟨logged_append.mpr ⟨h.logged, trivial⟩, ?_, ?_, h.tracked, ⟨?_, ?_, ?_⟩, ?_, ?_,
      h.tracked⟩
    · simp [Event.gateClosed?]
    · exact h.flight_append fun q => by simp
    · simpa using hcommit
    · simpa using hrollback
    · simpa [Event.controlFailed?] using hfail
    · simp [hbody, Event.bodySettled?]
    · simp [hgate, Event.gateClosed?]
  · cases hs

theorem settleResult_of_ne (outcome : Outcome V E) {pending : List Query} (h : pending ≠ []) :
    settleResult outcome pending = .error (.transactionClosed true outcome.error?) := by
  cases pending with
  | nil => exact absurd rfl h
  | cons q pending => rfl

/-- When the pending queries have settled, nothing is in flight and the result is the settled one. -/
theorem drained_facts {outcome : Outcome V E} {pending : List Query}
    (hphase : PhaseOk s.log s.inFlight (.draining outcome pending))
    (hall : pending.all (· ∉ s.inFlight) = true) :
    s.inFlight = [] ∧ OutcomeOf s.log (settleResult outcome pending) := by
  obtain ⟨_, hbody, hgate, hpending⟩ := hphase
  constructor
  · apply List.eq_nil_iff_forall_not_mem.mpr
    intro q hq
    have hnot := List.all_eq_true.mp hall q (hpending q hq)
    simp only [decide_eq_true_eq] at hnot
    exact hnot hq
  · refine ⟨outcome, pending, hbody, hgate, fun hnil => ?_, fun hne => settleResult_of_ne outcome hne⟩
    rw [hnil]
    cases outcome <;> rfl

theorem attempt_step_drained (rollbackOnly : Bool) (h : AttemptInv s)
    (hs : s.step rollbackOnly .drained = some s') : AttemptInv s' := by
  have hphase := h.phase
  simp only [Attempt.step] at hs
  split at hs
  · rename_i outcome pending heq
    rw [heq] at hphase
    split at hs
    · rename_i hall
      obtain ⟨hflight, houtcome⟩ := drained_facts hphase hall
      obtain ⟨⟨hcommit, hrollback, hfail⟩, hbody, hgate, -⟩ := hphase
      have hquiet := h.quiet hflight
      split at hs
      · rename_i thrown hresult
        obtain rfl := Option.some.inj hs
        apply attempt_fail h.logged h.gate hquiet hflight
        unfold ResultOk
        rw [hfail, ← hresult]
        exact houtcome
      · rename_i v hresult
        have hpending : pending = [] := by
          by_contra hne
          rw [settleResult_of_ne outcome hne] at hresult
          cases hresult
        subst hpending
        have hvalue : outcome = .value v := by
          cases outcome with
          | value w =>
            obtain rfl : w = v := Except.ok.inj hresult
            rfl
          | error e => cases hresult
        subst hvalue
        have hcommon : ∀ e : Event V E, e.Plain → e = .commit ∨ e = .rollback →
            AttemptInv { s with phase := .committing v, log := s.log ++ [e] } := by
          intro e he hdecide
          refine ⟨logged_append.mpr ⟨h.logged, ?_⟩, ?_, ?_, h.tracked, ?_, ?_, ?_, hflight⟩
          · rcases hdecide with rfl | rfl
            · exact ⟨gateClosed_mem hgate, hquiet⟩
            · exact hquiet
          · simpa [he.2.1] using h.gate
          · apply h.flight_append
            rcases hdecide with rfl | rfl <;> simp
          · simpa [he.2.2] using hfail
          · simpa [he.1] using hbody
          · simpa [he.2.1] using hgate
        split at hs
        · obtain rfl := Option.some.inj hs
          have hdry := hcommon .rollback ⟨rfl, rfl, rfl⟩ (Or.inr rfl)
          exact ⟨hdry.logged, hdry.gate, hdry.flight, hdry.tracked, hdry.phase⟩
        · obtain rfl := Option.some.inj hs
          have hcommit := hcommon .commit ⟨rfl, rfl, rfl⟩ (Or.inl rfl)
          exact ⟨hcommit.logged, hcommit.gate, hcommit.flight, hcommit.tracked, hcommit.phase⟩
    · cases hs
  · cases hs

theorem attempt_step (rollbackOnly : Bool) (s : Attempt V E) (a : Act V E) (s' : Attempt V E)
    (h : AttemptInv s) (hs : s.step rollbackOnly a = some s') : AttemptInv s' := by
  cases a with
  | control => exact attempt_step_control rollbackOnly h hs
  | controlFails e => exact attempt_step_controlFails rollbackOnly e h hs
  | call => exact attempt_step_call rollbackOnly h hs
  | answer q => exact attempt_step_answer rollbackOnly q h hs
  | untrack q => exact attempt_step_untrack rollbackOnly q h hs
  | bodySettles outcome => exact attempt_step_bodySettles rollbackOnly outcome h hs
  | close => exact attempt_step_close rollbackOnly h hs
  | drained => exact attempt_step_drained rollbackOnly h hs

/-- Every schedule keeps the gate safe; the outcome is the settled one unless a statement of the
runtime's own fails. -/
theorem guard_safe (rollbackOnly : Bool) (begins : List String) (acts : List (Act V E))
    (s : Attempt V E)
    (h : Run.run (Attempt.step rollbackOnly) (Attempt.start begins) acts = some s) :
    GuardSafeUpToControl s := by
  have hinv : AttemptInv s :=
    Run.invariant (attempt_step rollbackOnly) (attempt_start begins) h
  refine ⟨hinv.logged, ?_⟩
  intro result hdone
  have hphase := hinv.phase
  rw [hdone] at hphase
  exact hphase.1

/-- One query awaited in the body and one started after it settled. -/
theorem guard_safe_late_query : ∃ s : Attempt String String,
    Run.run (Attempt.step false) (Attempt.start ["BEGIN"]) [.control, .control, .call, .answer 0,
      .untrack 0, .bodySettles (.value "r"), .close, .call, .drained, .control] = some s ∧
    GuardSafeUpToControl s := by
  refine ⟨_, rfl, ?_⟩
  exact guard_safe false ["BEGIN"] [.control, .control, .call, .answer 0, .untrack 0,
    .bodySettles (.value "r"), .close, .call, .drained, .control] _ rfl

/-- A failing `COMMIT` is what the transaction throws, not the body's result. -/
theorem commit_error_is_outcome : ¬ ∀ (rollbackOnly : Bool) (begins : List String)
    (acts : List (Act String String)) (s : Attempt String String),
    Run.run (Attempt.step rollbackOnly) (Attempt.start begins) acts = some s → GuardSafe s := by
  intro h
  have hsafe := h false ["BEGIN"] [.control, .control, .bodySettles (.value "r"), .close, .drained,
    .controlFails "lost", .control] _ rfl
  obtain ⟨outcome, pending, hbody, hgate, hown, -⟩ := hsafe.outcome _ rfl
  have hpending : pending = [] := (List.singleton_inj.mp hgate).symm
  have houtcome : outcome = .value "r" := (List.singleton_inj.mp hbody).symm
  have hresult := hown hpending
  rw [houtcome] at hresult
  cases hresult

end LiteDb
