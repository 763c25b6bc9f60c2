import LiteDbModel.TransactionGuard
import LiteDbModel.Values

/-!
# Transactions on owned connections

`withTransactionAsync` runs its attempts one after the other, each on a connection
of its own (or on the given one): `BEGIN`, the body behind the gate, `COMMIT` or
`ROLLBACK`, release, and the decision to retry.
-/

namespace LiteDb
set_option autoImplicit false
open Run

/-! ## Errors -/

/-- The `code` of a driver's error. -/
inductive ErrorCode
  | absent
  | text (s : String)
  | number (n : Int)
deriving DecidableEq

/-- A thrown value: whether it is an `Error`, and the fields that are looked at. -/
structure JsError where
  isError : Bool
  message : String
  code : ErrorCode
  errno : Option Int
  sqlState : Option String
deriving DecidableEq

/-- `text.includes(part)`. -/
def includesText (text part : String) : Bool := part.toList <:+: text.toList

/-- A broken or stale connection, by message or code. -/
def isConnectionError (e : JsError) : Bool :=
  ["Connection terminated unexpectedly", "Connection terminated",
    "Client has encountered a connection error", "read ECONNRESET", "connect ECONNREFUSED",
    "Connection lost", "This socket has been ended by the other party"].any (includesText e.message) ||
  [ErrorCode.text "ECONNRESET", .text "ECONNREFUSED", .text "EPIPE", .text "EAI_AGAIN",
    .text "PROTOCOL_CONNECTION_LOST"].contains e.code

/-- A connection error that is thrown and not retried. -/
def isUnretriedConnectionError (error : JsError) (committing givenConnection : Bool)
    (isConn : JsError → Bool) : Bool :=
  (committing || givenConnection) && error.isError && isConn error

def isRetryableTxError (error : JsError) (isConn : JsError → Bool) : Bool :=
  if !error.isError then false
  else if isConn error then true
  else
    let pgState := match error.code with
      | .text s => s
      | _ => error.sqlState.getD ""
    let myErrno := match error.errno, error.code with
      | some n, _ => some n
      | none, .number n => some n
      | none, _ => none
    if pgState = "40001" ∨ pgState = "40P01" then true
    else if myErrno = some 1213 ∨ myErrno = some 1205 then true
    else
      ["The transaction might succeed if retried", "try restarting transaction",
        "could not serialize access due to concurrent update", "could not serialize access",
        "Deadlock found", "deadlock detected", "Lock wait timeout exceeded"].any
        (includesText error.message)

/-- The error object that is thrown. -/
def Thrown.toError : Thrown JsError → JsError
  | .passed e => e
  | .transactionClosed unfinished _ =>
    ⟨true, transactionClosedMessage unfinished, .absent, none, none⟩

/-! ## Options -/

inductive IsolationLevel
  | readCommitted
  | repeatableRead
  | serializable
deriving DecidableEq

def isolationPhrase : IsolationLevel → String
  | .readCommitted => "READ COMMITTED"
  | .repeatableRead => "REPEATABLE READ"
  | .serializable => "SERIALIZABLE"

/-- The statements that start a transaction; SQLite has no isolation level to set. -/
def beginStatements (dialect : Dialect) : Option IsolationLevel → Except String (List String)
  | none => .ok ["BEGIN"]
  | some level =>
    match dialect with
    | .postgres => .ok ["BEGIN ISOLATION LEVEL " ++ isolationPhrase level]
    | .mysql => .ok ["SET TRANSACTION ISOLATION LEVEL " ++ isolationPhrase level, "BEGIN"]
    | .sqlite => .error "scp tx: SQLite does not support a per-transaction isolation level"

variable {Conn V : Type}

structure TransactionOptions (Conn : Type) where
  isolation : Option IsolationLevel
  retryOnError : Option Bool
  retryLimit : Option Int
  rollbackOnly : Option Bool
  useWriterAfterTransaction : Option Bool
  connection : Option Conn

structure ResolvedTxOptions where
  retryOnError : Bool
  retryLimit : Int
  rollbackOnly : Bool
  useWriterAfterTransaction : Bool

def resolveTxOptions (opts : TransactionOptions Conn) : ResolvedTxOptions where
  retryOnError := opts.retryOnError.getD true
  retryLimit := opts.retryLimit.getD 3
  rollbackOnly := opts.rollbackOnly.getD false
  useWriterAfterTransaction := opts.useWriterAfterTransaction.getD true

/-! ## The attempts of one transaction -/

/-- What happens to the transaction, attempt by attempt (the first is attempt 1). -/
inductive TxEvent (Conn V : Type)
  | attempt (n : Nat)
  | acquired (n : Nat) (conn : Conn)
  /-- At the gate or on the connection of attempt `n`. -/
  | on (n : Nat) (conn : Conn) (e : Event V JsError)
  | released (n : Nat) (conn : Conn) (destroy : Bool)
  /-- `stickyClock.mark()`. -/
  | marked

inductive TxPhase (V : Type)
  | acquiring
  | running
  | returned (result : Except (Thrown JsError) V)

structure Transaction (Conn V : Type) where
  /-- Each attempt so far with its connection. -/
  attempts : List (Conn × Attempt V JsError)
  phase : TxPhase V
  log : List (TxEvent Conn V)

inductive TxAct (Conn V : Type)
  | acquire (conn : Conn)
  | acquireFails (e : JsError)
  | useGiven
  /-- A step of an attempt; one that is over can still be called through its gate. -/
  | on (i : Nat) (a : Act V JsError)
  /-- The attempt is over: release, then return, throw or retry. -/
  | finish

def Transaction.start : Transaction Conn V := ⟨[], .acquiring, [.attempt 1]⟩

def Transaction.open (tx : Transaction Conn V) (begins : List String) (conn : Conn)
    (log : List (TxEvent Conn V)) : Transaction Conn V :=
  ⟨tx.attempts ++ [(conn, Attempt.start begins)], .running, log⟩

/-- Whether the whole transaction is run again after this error. -/
def retries (resolved : ResolvedTxOptions) (givenConnection : Bool) (isConn : JsError → Bool)
    (attempt : Nat) (committing : Bool) (error : JsError) : Bool :=
  resolved.retryOnError && attempt < resolved.retryLimit &&
    !isUnretriedConnectionError error committing givenConnection isConn &&
    isRetryableTxError error isConn

def Transaction.finish (tx : Transaction Conn V) (opts : TransactionOptions Conn)
    (isConn : JsError → Bool) (conn : Conn) (a : Attempt V JsError)
    (result : Except (Thrown JsError) V) : Transaction Conn V :=
  let resolved := resolveTxOptions opts
  let n := tx.attempts.length
  let ok := match result with
    | .ok _ => true
    | .error _ => false
  let log := if opts.connection.isNone then tx.log ++ [.released n conn (a.poisoned || !ok)] else tx.log
  match result with
  | .ok _ =>
    let log := if !resolved.rollbackOnly && resolved.useWriterAfterTransaction then
      log ++ [.marked] else log
    { tx with phase := .returned result, log }
  | .error thrown =>
    if retries resolved opts.connection.isSome isConn n a.committing thrown.toError then
      { tx with phase := .acquiring, log := log ++ [.attempt (n + 1)] }
    else { tx with phase := .returned result, log }

def Transaction.step (opts : TransactionOptions Conn) (isConn : JsError → Bool)
    (begins : List String) (tx : Transaction Conn V) : TxAct Conn V → Option (Transaction Conn V)
  | .acquire conn =>
    match tx.phase, opts.connection with
    | .acquiring, none =>
      some (tx.open begins conn (tx.log ++ [.acquired (tx.attempts.length + 1) conn]))
    | _, _ => none
  | .acquireFails e =>
    match tx.phase, opts.connection with
    | .acquiring, none => some { tx with phase := .returned (.error (.passed e)) }
    | _, _ => none
  | .useGiven =>
    match tx.phase, opts.connection with
    | .acquiring, some conn => some (tx.open begins conn tx.log)
    | _, _ => none
  | .on i a =>
    match tx.attempts[i]? with
    | none => none
    | some (conn, s) =>
      (s.step (resolveTxOptions opts).rollbackOnly a).map fun s' =>
        { tx with
          attempts := tx.attempts.set i (conn, s')
          log := tx.log ++ (s'.log.drop s.log.length).map (.on (i + 1) conn) }
  | .finish =>
    match tx.phase, tx.attempts.getLast? with
    | .running, some (conn, a) =>
      match a.phase with
      | .done result => some (tx.finish opts isConn conn a result)
      | _ => none
    | _, _ => none

/-! ## What an attempt decides -/

/-- A query is sent after a `BEGIN`; `COMMIT` succeeds once, and never in a dry run. -/
def DecidedOk (rollbackOnly : Bool) (before : List (Event V JsError)) : Event V JsError → Prop
  | .call _ true => ∃ b, .begin b ∈ before
  | .committed => .committed ∉ before ∧ rollbackOnly = false
  | _ => True

/-- `COMMIT` has neither succeeded nor failed. -/
def CommitOpen (log : List (Event V JsError)) : Prop :=
  .committed ∉ log ∧ ∀ e, .controlFailed .commit e ∉ log

def DecisionOk (rollbackOnly : Bool) (s : Attempt V JsError) : Prop :=
  match s.phase with
  | .opening _ | .body | .settled _ | .draining _ _ => CommitOpen s.log
  | .committing _ => CommitOpen s.log ∧ rollbackOnly = false ∧ s.committing = true
  | .dryRun _ => CommitOpen s.log ∧ rollbackOnly = true
  | .rollingBack thrown | .done (.error thrown) => .committed ∉ s.log ∧
      ∀ e, .controlFailed .commit e ∈ s.log → s.committing = true ∧ thrown = .passed e
  | .done (.ok _) => (∀ e, .controlFailed .commit e ∉ s.log) ∧
      if rollbackOnly then .rolledBack ∈ s.log ∧ .committed ∉ s.log else .committed ∈ s.log

structure AttemptDecision (rollbackOnly : Bool) (begins : List String) (s : Attempt V JsError) :
    Prop where
  logged : Logged (DecidedOk rollbackOnly) s.log
  begun : s.phase = .opening begins ∨ ∃ b, .begin b ∈ s.log
  decision : DecisionOk rollbackOnly s

variable {s s' : Attempt V JsError} {rollbackOnly : Bool} {begins : List String}

theorem decision_start (rollbackOnly : Bool) (begins : List String) :
    AttemptDecision rollbackOnly begins (Attempt.start (V := V) begins) where
  logged := Logged.nil
  begun := Or.inl rfl
  decision := ⟨List.not_mem_nil, fun _ => List.not_mem_nil⟩

theorem CommitOpen.append {log : List (Event V JsError)} {e : Event V JsError}
    (hc : e ≠ .committed) (hf : ∀ err, e ≠ .controlFailed .commit err) (h : CommitOpen log) :
    CommitOpen (log ++ [e]) := by
  refine ⟨?_, fun err => ?_⟩
  · simpa [Ne.symm hc] using h.1
  · simpa [Ne.symm (hf err)] using h.2 err

theorem begun_append {log : List (Event V JsError)} (e : Event V JsError)
    (h : ∃ b, .begin b ∈ log) : ∃ b, .begin b ∈ log ++ [e] := by
  obtain ⟨b, hb⟩ := h
  exact ⟨b, List.mem_append_left [e] hb⟩

/-- A call, an answer or the settling of the body changes nothing about the decision. -/
theorem DecisionOk.append {e : Event V JsError} (hc : e ≠ .committed)
    (hf : ∀ err, e ≠ .controlFailed .commit err) {next : Query} {inFlight : List Query}
    {guard : TransactionGuard} (h : DecisionOk rollbackOnly s) :
    DecisionOk rollbackOnly { s with guard, next, inFlight, log := s.log ++ [e] } := by
  have hcommitted : .committed ∈ s.log ++ [e] ↔ .committed ∈ s.log := by simp [Ne.symm hc]
  have hfailed : ∀ err, .controlFailed .commit err ∈ s.log ++ [e] ↔
      .controlFailed .commit err ∈ s.log := by
    intro err
    simp [Ne.symm (hf err)]
  unfold DecisionOk at h ⊢
  cases hp : s.phase with
  | opening | body | settled | draining =>
    simp only [hp] at h ⊢
    exact h.append hc hf
  | committing | dryRun =>
    simp only [hp] at h ⊢
    exact ⟨h.1.append hc hf, h.2⟩
  | rollingBack =>
    simp only [hp] at h ⊢
    rw [hcommitted]
    simp only [hfailed]
    exact h
  | done result =>
    cases result with
    | error =>
      simp only [hp] at h ⊢
      rw [hcommitted]
      simp only [hfailed]
      exact h
    | ok =>
      simp only [hp] at h ⊢
      simp only [hfailed, hcommitted]
      refine ⟨h.1, ?_⟩
      split
      · rename_i hdry
        rw [if_pos hdry] at h
        exact ⟨List.mem_append_left [e] h.2.1, h.2.2⟩
      · rename_i hdry
        rw [if_neg hdry] at h
        exact h.2

theorem decision_step_control (h : AttemptDecision rollbackOnly begins s)
    (hne : begins ≠ []) (hs : s.step rollbackOnly .control = some s') :
    AttemptDecision rollbackOnly begins s' := by
  have hdecision := h.decision
  unfold DecisionOk at hdecision
  simp only [Attempt.step] at hs
  split at hs
  · rename_i b rest heq
    obtain rfl := Option.some.inj hs
    rw [heq] at hdecision
    refine ⟨logged_append.mpr ⟨h.logged, trivial⟩, Or.inr ⟨b, by simp⟩, ?_⟩
    exact CommitOpen.append (by simp) (by simp) hdecision
  · rename_i heq
    obtain rfl := Option.some.inj hs
    rw [heq] at hdecision
    refine ⟨h.logged, Or.inr ?_, hdecision⟩
    rcases h.begun with hopening | hbegun
    · rw [heq] at hopening
      exact absurd (Phase.opening.inj hopening).symm hne
    · exact hbegun
  · rename_i v heq
    obtain rfl := Option.some.inj hs
    rw [heq] at hdecision
    obtain ⟨hopen, hdry, _⟩ := hdecision
    refine ⟨logged_append.mpr ⟨h.logged, hopen.1, hdry⟩, ?_, ?_⟩
    · exact Or.inr (begun_append _ (h.begun.resolve_left fun hp => by rw [heq] at hp; cases hp))
    · refine ⟨fun e => ?_, ?_⟩
      · simpa using hopen.2 e
      · rw [hdry]
        simp
  · rename_i v heq
    obtain rfl := Option.some.inj hs
    rw [heq] at hdecision
    obtain ⟨hopen, hdry⟩ := hdecision
    refine ⟨logged_append.mpr ⟨h.logged, trivial⟩, ?_, ?_⟩
    · exact Or.inr (begun_append _ (h.begun.resolve_left fun hp => by rw [heq] at hp; cases hp))
    · refine ⟨fun e => ?_, ?_⟩
      · simpa using hopen.2 e
      · rw [hdry]
        exact ⟨by simp, by simpa using hopen.1⟩
  · rename_i thrown heq
    obtain rfl := Option.some.inj hs
    rw [heq] at hdecision
    refine ⟨logged_append.mpr ⟨h.logged, trivial⟩, ?_, ?_, ?_⟩
    · exact Or.inr (begun_append _ (h.begun.resolve_left fun hp => by rw [heq] at hp; cases hp))
    · simpa using hdecision.1
    · simpa using hdecision.2
  · cases hs

/-- A failed statement leads to `ROLLBACK`, with the error kept. -/
theorem decision_fail {log : List (Event V JsError)}
    (c : Control) (e : JsError) (hlogged : Logged (DecidedOk rollbackOnly) log)
    (hbegun : ∃ b, .begin b ∈ log) (hopen : CommitOpen log) (hc : c = .commit → s.committing = true) :
    AttemptDecision rollbackOnly begins
      (Attempt.fail { s with log := log ++ [.controlFailed c e] } (.passed e)) where
  logged := logged_append.mpr ⟨logged_append.mpr ⟨hlogged, trivial⟩, trivial⟩
  begun := Or.inr (begun_append _ (begun_append _ hbegun))
  decision := by
    refine ⟨?_, fun err herr => ?_⟩
    · simpa [Attempt.fail] using hopen.1
    · have hmem : c = .commit ∧ err = e := by
        have := hopen.2 err
        simp only [Attempt.fail, List.mem_append, List.mem_singleton, reduceCtorEq, or_false, this,
          false_or, Event.controlFailed.injEq] at herr
        exact ⟨herr.1.symm, herr.2⟩
      exact ⟨hc hmem.1, by rw [hmem.2]⟩

theorem decision_step_controlFails (e : JsError) (h : AttemptDecision rollbackOnly begins s)
    (hs : s.step rollbackOnly (.controlFails e) = some s') :
    AttemptDecision rollbackOnly begins s' := by
  have hdecision := h.decision
  unfold DecisionOk at hdecision
  simp only [Attempt.step] at hs
  split at hs
  · rename_i b rest heq
    obtain rfl := Option.some.inj hs
    rw [heq] at hdecision
    apply decision_fail .begin e
    · exact logged_append.mpr ⟨h.logged, trivial⟩
    · exact ⟨b, by simp⟩
    · exact hdecision.append (by simp) (by simp)
    · intro hc
      cases hc
  · rename_i v heq
    obtain rfl := Option.some.inj hs
    rw [heq] at hdecision
    have hbegun := h.begun.resolve_left fun hp => by rw [heq] at hp; cases hp
    exact decision_fail .commit e h.logged hbegun hdecision.1 fun _ => hdecision.2.2
  · rename_i v heq
    obtain rfl := Option.some.inj hs
    rw [heq] at hdecision
    have hbegun := h.begun.resolve_left fun hp => by rw [heq] at hp; cases hp
    exact decision_fail .rollback e h.logged hbegun hdecision.1 fun hc => by cases hc
  · rename_i thrown heq
    obtain rfl := Option.some.inj hs
    rw [heq] at hdecision
    refine ⟨h.logged, ?_, hdecision⟩
    exact Or.inr (h.begun.resolve_left fun hp => by rw [heq] at hp; cases hp)
  · cases hs

theorem decision_step (hne : begins ≠ []) (a : Act V JsError)
    (h : AttemptDecision rollbackOnly begins s) (hs : s.step rollbackOnly a = some s') :
    AttemptDecision rollbackOnly begins s' := by
  have hdecision := h.decision
  cases a with
  | control => exact decision_step_control h hne hs
  | controlFails e => exact decision_step_controlFails e h hs
  | call =>
    simp only [Attempt.step] at hs
    split at hs
    · rename_i hentered
      obtain rfl := Option.some.inj hs
      have hbegun : ∃ b, .begin b ∈ s.log := by
        refine h.begun.resolve_left fun hp => ?_
        rw [Attempt.entered, hp] at hentered
        cases hentered
      refine ⟨logged_append.mpr ⟨h.logged, ?_⟩, Or.inr (begun_append _ hbegun), ?_⟩
      · cases (s.guard.run s.next).2 with
        | true => exact hbegun
        | false => trivial
      · exact hdecision.append (by simp) (by simp)
    · cases hs
  | answer q =>
    simp only [Attempt.step] at hs
    split at hs
    · obtain rfl := Option.some.inj hs
      refine ⟨logged_append.mpr ⟨h.logged, trivial⟩, h.begun.imp_right (begun_append _), ?_⟩
      exact hdecision.append (by simp) (by simp)
    · cases hs
  | untrack q =>
    simp only [Attempt.step] at hs
    split at hs
    · obtain rfl := Option.some.inj hs
      exact ⟨h.logged, h.begun, hdecision⟩
    · cases hs
  | bodySettles outcome =>
    simp only [Attempt.step] at hs
    split at hs
    · rename_i heq
      obtain rfl := Option.some.inj hs
      unfold DecisionOk at hdecision
      rw [heq] at hdecision
      refine ⟨logged_append.mpr ⟨h.logged, trivial⟩, ?_, hdecision.append (by simp) (by simp)⟩
      exact Or.inr (begun_append _ (h.begun.resolve_left fun hp => by rw [heq] at hp; cases hp))
    · cases hs
  | close =>
    simp only [Attempt.step] at hs
    split at hs
    · rename_i outcome heq
      obtain rfl := Option.some.inj hs
      unfold DecisionOk at hdecision
      rw [heq] at hdecision
      refine ⟨logged_append.mpr ⟨h.logged, trivial⟩, ?_, hdecision.append (by simp) (by simp)⟩
      exact Or.inr (begun_append _ (h.begun.resolve_left fun hp => by rw [heq] at hp; cases hp))
    · cases hs
  | drained =>
    simp only [Attempt.step] at hs
    split at hs
    · rename_i outcome pending heq
      unfold DecisionOk at hdecision
      rw [heq] at hdecision
      have hbegun := h.begun.resolve_left fun hp => by rw [heq] at hp; cases hp
      split at hs
      · split at hs
        · rename_i thrown _
          obtain rfl := Option.some.inj hs
          refine ⟨logged_append.mpr ⟨h.logged, trivial⟩, Or.inr (begun_append _ hbegun), ?_, ?_⟩
          · simpa [Attempt.fail] using hdecision.1
          · intro e he
            have := hdecision.2 e
            simp [Attempt.fail, this] at he
        · split at hs
          · rename_i hdry
            obtain rfl := Option.some.inj hs
            refine ⟨logged_append.mpr ⟨h.logged, trivial⟩, Or.inr (begun_append _ hbegun), ?_⟩
            exact ⟨hdecision.append (by simp) (by simp), hdry⟩
          · rename_i hdry
            obtain rfl := Option.some.inj hs
            refine ⟨logged_append.mpr ⟨h.logged, trivial⟩, Or.inr (begun_append _ hbegun), ?_⟩
            exact ⟨hdecision.append (by simp) (by simp), Bool.eq_false_of_not_eq_true hdry, rfl⟩
      · cases hs
    · cases hs

/-- A step only adds to the log. -/
theorem attempt_log_grows {a : Act V JsError} (hs : s.step rollbackOnly a = some s') :
    ∃ new, s'.log = s.log ++ new := by
  cases a with
  | control =>
    simp only [Attempt.step] at hs
    split at hs
    · exact ⟨_, by rw [← Option.some.inj hs]⟩
    · exact ⟨[], by rw [← Option.some.inj hs, List.append_nil]⟩
    · exact ⟨_, by rw [← Option.some.inj hs]⟩
    · exact ⟨_, by rw [← Option.some.inj hs]⟩
    · exact ⟨_, by rw [← Option.some.inj hs]⟩
    · cases hs
  | controlFails e =>
    simp only [Attempt.step] at hs
    split at hs
    · rename_i b rest _
      refine ⟨[.begin b, .controlFailed .begin e, .rollback], ?_⟩
      rw [← Option.some.inj hs, Attempt.fail, List.append_assoc, List.append_assoc]
      rfl
    · refine ⟨[.controlFailed .commit e, .rollback], ?_⟩
      rw [← Option.some.inj hs, Attempt.fail, List.append_assoc]
      rfl
    · refine ⟨[.controlFailed .rollback e, .rollback], ?_⟩
      rw [← Option.some.inj hs, Attempt.fail, List.append_assoc]
      rfl
    · exact ⟨[], by rw [← Option.some.inj hs, List.append_nil]⟩
    · cases hs
  | call =>
    simp only [Attempt.step] at hs
    split at hs
    · exact ⟨_, by rw [← Option.some.inj hs]⟩
    · cases hs
  | answer q =>
    simp only [Attempt.step] at hs
    split at hs
    · exact ⟨_, by rw [← Option.some.inj hs]⟩
    · cases hs
  | untrack q =>
    simp only [Attempt.step] at hs
    split at hs
    · exact ⟨[], by rw [← Option.some.inj hs, List.append_nil]⟩
    · cases hs
  | bodySettles outcome | close =>
    simp only [Attempt.step] at hs
    split at hs
    · exact ⟨_, by rw [← Option.some.inj hs]⟩
    · cases hs
  | drained =>
    simp only [Attempt.step] at hs
    split at hs
    · split at hs
      · split at hs
        · exact ⟨_, by rw [← Option.some.inj hs, Attempt.fail]⟩
        · split at hs
          · exact ⟨_, by rw [← Option.some.inj hs]⟩
          · exact ⟨_, by rw [← Option.some.inj hs]⟩
      · cases hs
    · cases hs

/-- At the gate of an attempt that is over there are only late calls and answers. -/
theorem attempt_done_step {result : Except (Thrown JsError) V} {a : Act V JsError}
    (hdone : s.phase = .done result) (hs : s.step rollbackOnly a = some s') :
    s'.phase = .done result ∧ ∃ new, s'.log = s.log ++ new ∧
      ∀ e ∈ new, (∃ q sent, e = .call q sent) ∨ ∃ q, e = .answered q := by
  cases a with
  | control | controlFails | bodySettles | close | drained =>
    simp only [Attempt.step, hdone] at hs
    cases hs
  | call =>
    simp only [Attempt.step] at hs
    split at hs
    · obtain rfl := Option.some.inj hs
      exact ⟨hdone, _, rfl, fun e he => Or.inl ⟨_, _, List.mem_singleton.mp he⟩⟩
    · cases hs
  | answer q =>
    simp only [Attempt.step] at hs
    split at hs
    · obtain rfl := Option.some.inj hs
      exact ⟨hdone, _, rfl, fun e he => Or.inr ⟨_, List.mem_singleton.mp he⟩⟩
    · cases hs
  | untrack q =>
    simp only [Attempt.step] at hs
    split at hs
    · obtain rfl := Option.some.inj hs
      refine ⟨hdone, [], by simp, fun e he => ?_⟩
      cases he
    · cases hs

end LiteDb
