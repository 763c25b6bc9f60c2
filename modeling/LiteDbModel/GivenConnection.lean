import LiteDbModel.Retry

/-!
# Attempts on a given connection

On a connection of the caller every attempt runs on the same one. A `ROLLBACK` that
fails leaves the attempt's transaction open there, and the attempt after it begins
inside it.
-/

namespace LiteDb
set_option autoImplicit false
open Run

variable {Conn V : Type}

def TransactionOptions.onGiven (opts : TransactionOptions Conn) (given : Conn) :
    TransactionOptions Conn := { opts with connection := some given }

/-- The attempt's transaction is closed: it was committed or rolled back. -/
def Attempt.ended (s : Attempt V JsError) : Prop := .committed ∈ s.log ∨ .rolledBack ∈ s.log

/-- `BEGIN` is issued only after the transactions of the attempts before are closed, and an attempt
whose `ROLLBACK` failed is the last one. -/
structure BeginsOnClosed (tx : Transaction Conn V) : Prop where
  begins : ∀ i j c d s t, i < j → tx.At i c s → tx.At j d t → (∃ b, .begin b ∈ t.log) → s.ended
  last : ∀ i c s, tx.At i c s → s.poisoned = true →
    i + 1 = tx.attempts.length ∧ tx.phase ≠ .acquiring

/-- The transaction is not run again after an attempt whose `ROLLBACK` failed. -/
def StopsAfterRollback (opts : TransactionOptions Conn) (isConn : JsError → Bool)
    (tx : Transaction Conn V) (a : TxAct Conn V) : Prop :=
  a = .finish → ∀ conn s thrown, tx.attempts.getLast? = some (conn, s) →
    s.phase = .done (.error thrown) → s.poisoned = true →
    retries (resolveTxOptions opts) true isConn tx.attempts.length s.committing thrown.toError = false

/-! ## One attempt -/

/-- Only a failed `ROLLBACK` poisons, and an attempt that is over without one is closed. -/
structure AttemptCloses (s : Attempt V JsError) : Prop where
  poisoned : s.poisoned = true → ∃ thrown, s.phase = .done (.error thrown)
  done : ∀ result, s.phase = .done result → s.poisoned = true ∨ s.ended

variable {s s' : Attempt V JsError} {rollbackOnly : Bool} {begins : List String}

/-- Only the failure of a `ROLLBACK` poisons. -/
theorem poisoned_step {a : Act V JsError} (hs : s.step rollbackOnly a = some s')
    (h : s'.poisoned = true) :
    s.poisoned = true ∨ ∃ thrown, s.phase = .rollingBack thrown ∧ s'.phase = .done (.error thrown) := by
  cases a with
  | control =>
    cases hphase : s.phase with
    | opening bs => cases bs <;> simp [Attempt.step, hphase] at hs <;> exact .inl (by simpa [← hs] using h)
    | rollingBack thrown =>
      simp only [Attempt.step, hphase] at hs
      exact .inr ⟨thrown, rfl, by rw [← Option.some.inj hs]⟩
    | committing v => simp [Attempt.step, hphase] at hs; exact .inl (by simpa [← hs] using h)
    | dryRun v => simp [Attempt.step, hphase] at hs; exact .inl (by simpa [← hs] using h)
    | body | settled | draining | done => simp [Attempt.step, hphase] at hs
  | controlFails e =>
    cases hphase : s.phase with
    | opening bs =>
      cases bs with
      | nil => simp [Attempt.step, hphase] at hs
      | cons b bs =>
        simp only [Attempt.step, hphase, Attempt.fail] at hs
        exact .inl (by simpa [← Option.some.inj hs] using h)
    | rollingBack thrown =>
      simp only [Attempt.step, hphase] at hs
      exact .inr ⟨thrown, rfl, by rw [← Option.some.inj hs]⟩
    | committing v =>
      simp only [Attempt.step, hphase, Attempt.fail] at hs
      exact .inl (by simpa [← Option.some.inj hs] using h)
    | dryRun v =>
      simp only [Attempt.step, hphase, Attempt.fail] at hs
      exact .inl (by simpa [← Option.some.inj hs] using h)
    | body | settled | draining | done => simp [Attempt.step, hphase] at hs
  | call =>
    simp only [Attempt.step] at hs
    split at hs
    · exact .inl (by simpa [← Option.some.inj hs] using h)
    · cases hs
  | answer q =>
    simp only [Attempt.step] at hs
    split at hs
    · exact .inl (by simpa [← Option.some.inj hs] using h)
    · cases hs
  | untrack q =>
    simp only [Attempt.step] at hs
    split at hs
    · exact .inl (by simpa [← Option.some.inj hs] using h)
    · cases hs
  | bodySettles outcome =>
    simp only [Attempt.step] at hs
    split at hs
    · exact .inl (by simpa [← Option.some.inj hs] using h)
    · cases hs
  | close =>
    simp only [Attempt.step] at hs
    split at hs
    · exact .inl (by simpa [← Option.some.inj hs] using h)
    · cases hs
  | drained =>
    simp only [Attempt.step] at hs
    split at hs
    · split at hs
      · split at hs
        · exact .inl (by simpa [← Option.some.inj hs, Attempt.fail] using h)
        · split at hs
          · exact .inl (by simpa [← Option.some.inj hs] using h)
          · exact .inl (by simpa [← Option.some.inj hs] using h)
      · cases hs
    · cases hs

/-- How a step comes to the end of an attempt. -/
theorem done_step {a : Act V JsError} {result : Except (Thrown JsError) V}
    (hs : s.step rollbackOnly a = some s') (h : s'.phase = .done result) :
    s.phase = .done result ∨ s'.poisoned = true ∨ s'.ended := by
  cases a with
  | control =>
    cases hphase : s.phase with
    | opening bs =>
      cases bs <;> simp only [Attempt.step, hphase] at hs <;> rw [← Option.some.inj hs] at h <;> cases h
    | committing v | dryRun v | rollingBack thrown =>
      simp only [Attempt.step, hphase] at hs
      rw [← Option.some.inj hs]
      exact .inr (.inr (by simp [Attempt.ended]))
    | body | settled | draining | done => simp [Attempt.step, hphase] at hs
  | controlFails e =>
    cases hphase : s.phase with
    | opening bs =>
      cases bs with
      | nil => simp [Attempt.step, hphase] at hs
      | cons b bs =>
        simp only [Attempt.step, hphase] at hs
        rw [← Option.some.inj hs] at h
        cases h
    | committing v | dryRun v =>
      simp only [Attempt.step, hphase] at hs
      rw [← Option.some.inj hs] at h
      cases h
    | rollingBack thrown =>
      simp only [Attempt.step, hphase] at hs
      rw [← Option.some.inj hs]
      exact .inr (.inl rfl)
    | body | settled | draining | done => simp [Attempt.step, hphase] at hs
  | call | answer q | untrack q =>
    simp only [Attempt.step] at hs
    split at hs
    · rw [← Option.some.inj hs] at h
      exact .inl h
    · cases hs
  | bodySettles outcome | close =>
    simp only [Attempt.step] at hs
    split at hs
    · rw [← Option.some.inj hs] at h
      cases h
    · cases hs
  | drained =>
    simp only [Attempt.step] at hs
    split at hs
    · split at hs
      · split at hs
        · rw [← Option.some.inj hs] at h
          cases h
        · split at hs <;> rw [← Option.some.inj hs] at h <;> cases h
      · cases hs
    · cases hs

theorem poisoned_stays {a : Act V JsError} {result : Except (Thrown JsError) V}
    (hdone : s.phase = .done result) (hs : s.step rollbackOnly a = some s') :
    s'.poisoned = s.poisoned := by
  cases a with
  | control | controlFails | bodySettles | close | drained =>
    simp only [Attempt.step, hdone] at hs
    cases hs
  | call | answer q | untrack q =>
    simp only [Attempt.step] at hs
    split at hs
    · rw [← Option.some.inj hs]
    · cases hs

theorem closes_start (begins : List String) :
    AttemptCloses (Attempt.start begins : Attempt V JsError) where
  poisoned := nofun
  done := nofun

theorem closes_step {a : Act V JsError} (h : AttemptCloses s)
    (hs : s.step rollbackOnly a = some s') : AttemptCloses s' where
  poisoned := by
    intro hp
    rcases poisoned_step hs hp with hp | ⟨thrown, _, hdone⟩
    · obtain ⟨thrown, hdone⟩ := h.poisoned hp
      exact ⟨thrown, (attempt_done_step hdone hs).1⟩
    · exact ⟨thrown, hdone⟩
  done := by
    intro result hdone
    rcases done_step hs hdone with hbefore | hp | hended
    · rcases h.done result hbefore with hp | hended
      · exact .inl ((poisoned_stays hbefore hs).trans hp)
      · obtain ⟨_, new, hlog, _⟩ := attempt_done_step hbefore hs
        exact .inr (hended.imp (fun hm => hlog ▸ List.mem_append_left new hm)
          fun hm => hlog ▸ List.mem_append_left new hm)
    · exact .inl hp
    · exact .inr hended

/-! ## The run -/

variable {opts : TransactionOptions Conn} {given : Conn} {isConn : JsError → Bool}
variable {tx tx' : Transaction Conn V}

/-- What holds in every run: the attempts before the last one are over. -/
structure GivenInv (tx : Transaction Conn V) : Prop where
  closes : ∀ i c s, tx.At i c s → AttemptCloses s
  past : ∀ i c s, tx.At i c s → (i + 1 < tx.attempts.length ∨ tx.phase = .acquiring) →
    ∃ result, s.phase = .done result

theorem givenInv_start : GivenInv (Transaction.start : Transaction Conn V) where
  closes := fun _ _ _ h => absurd h not_at_start
  past := fun _ _ _ h => absurd h not_at_start

theorem givenInv_open (h : GivenInv tx) (hphase : tx.phase = .acquiring) (conn : Conn)
    (log : List (TxEvent Conn V)) : GivenInv (tx.open begins conn log) where
  closes := by
    intro i c s hat
    rcases at_open.mp hat with hat | ⟨_, _, rfl⟩
    · exact h.closes i c s hat
    · exact closes_start begins
  past := by
    intro i c s hat hbefore
    rcases at_open.mp hat with hat | ⟨rfl, _, rfl⟩
    · exact h.past i c s hat (.inr hphase)
    · rcases hbefore with hlt | hacq
      · simp [Transaction.open] at hlt
      · cases hacq

theorem givenInv_on (h : GivenInv tx) {i : Nat} {c : Conn} (hat : tx.At i c s) {a : Act V JsError}
    (hs : s.step rollbackOnly a = some s') (log : List (TxEvent Conn V)) :
    GivenInv { tx with attempts := tx.attempts.set i (c, s'), log } where
  closes := by
    intro j d t hj
    rcases (at_set hat s' log j d t).mp hj with ⟨_, _, rfl⟩ | ⟨_, hj⟩
    · exact closes_step (h.closes i c s hat) hs
    · exact h.closes j d t hj
  past := by
    intro j d t hj hbefore
    simp only [List.length_set] at hbefore
    rcases (at_set hat s' log j d t).mp hj with ⟨rfl, _, rfl⟩ | ⟨_, hj⟩
    · obtain ⟨result, hdone⟩ := h.past j c s hat hbefore
      exact ⟨result, (attempt_done_step hdone hs).1⟩
    · exact h.past j d t hj hbefore

theorem at_last {conn : Conn} {a : Attempt V JsError} (hlast : tx.attempts.getLast? = some (conn, a)) :
    tx.At (tx.attempts.length - 1) conn a := by
  rw [Transaction.At, ← List.getLast?_eq_getElem?, hlast]

theorem givenInv_finish (h : GivenInv tx) {conn : Conn} {a : Attempt V JsError}
    {result : Except (Thrown JsError) V} (hlast : tx.attempts.getLast? = some (conn, a))
    (hdone : a.phase = .done result) (phase : TxPhase V) (log : List (TxEvent Conn V)) :
    GivenInv { tx with phase, log } where
  closes := h.closes
  past := by
    intro i c s hat _
    by_cases hi : i + 1 < tx.attempts.length
    · exact h.past i c s hat (.inl hi)
    · have hlt := at_lt hat
      have heq : i = tx.attempts.length - 1 := by
        change i < tx.attempts.length at hlt
        omega
      subst heq
      obtain ⟨_, rfl⟩ := at_unique (at_last hlast) hat
      exact ⟨result, hdone⟩

/-- Where only the last attempt may be poisoned, `BEGIN` meets closed transactions. -/
theorem beginsOnClosed_iff (h : GivenInv tx) : BeginsOnClosed tx ↔
    ∀ i c s, tx.At i c s → s.poisoned = true → i + 1 = tx.attempts.length ∧ tx.phase ≠ .acquiring := by
  refine ⟨fun hb => hb.last, fun hlast => ⟨?_, hlast⟩⟩
  intro i j c d s t hij hi hj _
  have hlt := at_lt hj
  obtain ⟨result, hdone⟩ := h.past i c s hi (.inl (by omega))
  rcases (h.closes i c s hi).done result hdone with hp | hended
  · have := (hlast i c s hi hp).1
    omega
  · exact hended

theorem finish_cases (tx : Transaction Conn V) (opts : TransactionOptions Conn) (given : Conn)
    (isConn : JsError → Bool) (conn : Conn) (a : Attempt V JsError)
    (result : Except (Thrown JsError) V) : ∃ phase log, tx.finish (opts.onGiven given) isConn conn a result = { tx with phase, log } ∧
      (phase = .acquiring ↔ ∃ thrown, result = .error thrown ∧
        retries (resolveTxOptions opts) true isConn tx.attempts.length a.committing thrown.toError = true) := by
  cases result with
  | ok v => exact ⟨_, _, rfl, iff_of_false nofun (by rintro ⟨_, h, _⟩; cases h)⟩
  | error thrown =>
    have hresolved : resolveTxOptions (opts.onGiven given) = resolveTxOptions opts := rfl
    simp only [Transaction.finish, hresolved]
    by_cases hr : retries (resolveTxOptions opts) true isConn tx.attempts.length a.committing thrown.toError = true
    · exact ⟨.acquiring, _, if_pos hr, iff_of_true rfl ⟨thrown, rfl, hr⟩⟩
    · refine ⟨.returned _, _, if_neg hr, iff_of_false nofun ?_⟩
      rintro ⟨t, ht, h⟩
      cases ht
      exact hr h

/-- The four kinds of steps on a given connection. -/
theorem given_step_cases {a : TxAct Conn V}
    (hs : tx.step (opts.onGiven given) isConn begins a = some tx') :
    (a = .useGiven ∧ tx.phase = .acquiring ∧ tx' = tx.open begins given tx.log) ∨
    (∃ i c s act s' log, a = .on i act ∧ tx.At i c s ∧
      s.step (resolveTxOptions opts).rollbackOnly act = some s' ∧
      tx' = { tx with attempts := tx.attempts.set i (c, s'), log }) ∨
    (∃ conn s result, a = .finish ∧ tx.phase = .running ∧ tx.attempts.getLast? = some (conn, s) ∧
      s.phase = .done result ∧ tx' = tx.finish (opts.onGiven given) isConn conn s result) := by
  cases a with
  | acquire conn =>
    cases hphase : tx.phase <;> simp [Transaction.step, hphase, TransactionOptions.onGiven] at hs
  | acquireFails e =>
    cases hphase : tx.phase <;> simp [Transaction.step, hphase, TransactionOptions.onGiven] at hs
  | useGiven =>
    cases hphase : tx.phase with
    | acquiring =>
      simp only [Transaction.step, hphase, TransactionOptions.onGiven] at hs
      exact .inl ⟨rfl, rfl, (Option.some.inj hs).symm⟩
    | running => simp [Transaction.step, hphase] at hs
    | returned result => simp [Transaction.step, hphase] at hs
  | on i act =>
    refine .inr (.inl ?_)
    cases hat : tx.attempts[i]? with
    | none => simp [Transaction.step, hat] at hs
    | some p =>
      obtain ⟨c, s⟩ := p
      simp only [Transaction.step, hat, Option.map_eq_some_iff] at hs
      obtain ⟨s', hs', heq⟩ := hs
      exact ⟨i, c, s, act, s', _, rfl, hat, hs', heq.symm⟩
  | finish =>
    refine .inr (.inr ?_)
    simp only [Transaction.step] at hs
    split at hs
    · next conn s hphase hlast =>
      split at hs
      · next result hdone => exact ⟨conn, s, result, rfl, hphase, hlast, hdone, (Option.some.inj hs).symm⟩
      · cases hs
    · cases hs

theorem givenInv_step (tx : Transaction Conn V) (a : TxAct Conn V) (tx' : Transaction Conn V)
    (h : GivenInv tx) (hs : tx.step (opts.onGiven given) isConn begins a = some tx') : GivenInv tx' := by
  rcases given_step_cases hs with ⟨_, hphase, rfl⟩ | ⟨i, c, s, act, s', log, _, hat, hstep, rfl⟩ |
    ⟨conn, s, result, _, _, hlast, hdone, rfl⟩
  · exact givenInv_open h hphase given tx.log
  · exact givenInv_on h hat hstep log
  · obtain ⟨phase, log, heq, _⟩ := finish_cases tx opts given isConn conn s result
    rw [heq]
    exact givenInv_finish h hlast hdone phase log

theorem begins_step (tx : Transaction Conn V) (a : TxAct Conn V) (tx' : Transaction Conn V)
    (h : GivenInv tx) (hb : BeginsOnClosed tx)
    (hs : tx.step (opts.onGiven given) isConn begins a = some tx') :
    BeginsOnClosed tx' ↔ StopsAfterRollback opts isConn tx a := by
  rw [beginsOnClosed_iff (givenInv_step tx a tx' h hs)]
  rcases given_step_cases hs with ⟨rfl, hphase, rfl⟩ | ⟨i, c, s, act, s', log, rfl, hat, hstep, rfl⟩ |
    ⟨conn, s, result, rfl, hphase, hlast, hdone, rfl⟩
  · refine iff_of_true ?_ nofun
    intro i c s hi hp
    rcases at_open.mp hi with hi | ⟨_, _, rfl⟩
    · exact absurd hphase (hb.last i c s hi hp).2
    · cases hp
  · refine iff_of_true ?_ nofun
    intro j d t hj hp
    rcases (at_set hat s' log j d t).mp hj with ⟨rfl, _, rfl⟩ | ⟨_, hj⟩
    · rw [List.length_set]
      rcases poisoned_step hstep hp with hp | ⟨thrown, hrolling, _⟩
      · exact hb.last j c s hat hp
      · -- an attempt that is rolling back is not over, so it is the last one
        have hover : ¬ (j + 1 < tx.attempts.length ∨ tx.phase = .acquiring) := by
          intro hbefore
          obtain ⟨result, hdone⟩ := h.past j c s hat hbefore
          rw [hrolling] at hdone
          cases hdone
        have hlt := at_lt hat
        rw [not_or] at hover
        exact ⟨by omega, hover.2⟩
    · rw [List.length_set]
      exact hb.last j d t hj hp
  · obtain ⟨phase, log, heq, hacq⟩ := finish_cases tx opts given isConn conn s result
    rw [heq]
    have hat := at_last hlast
    have hlen : 0 < tx.attempts.length := by
      have := at_lt hat
      omega
    constructor
    · intro hall _ conn' s' thrown hlast' hdone' hp
      rw [hlast] at hlast'
      cases hlast'
      have hne := (hall _ conn s hat hp).2
      by_contra hr
      rw [hdone] at hdone'
      cases hdone'
      exact hne (hacq.mpr ⟨thrown, rfl, by simpa using hr⟩)
    · intro hstop i c t hi hp
      obtain ⟨hlast'', hrunning⟩ := hb.last i c t hi hp
      refine ⟨hlast'', ?_⟩
      intro hphase'
      obtain ⟨thrown, rfl, hr⟩ := hacq.mp hphase'
      have hi' : i = tx.attempts.length - 1 := by omega
      subst hi'
      obtain ⟨_, rfl⟩ := at_unique hat hi
      rw [hstop rfl conn s thrown hlast hdone hp] at hr
      cases hr

/-- On a given connection `BEGIN` meets no open transaction, in every state of a run, exactly when
the run never starts again after a `ROLLBACK` that failed. -/
theorem beginsOnClosed_run_iff (opts : TransactionOptions Conn) (given : Conn)
    (isConn : JsError → Bool) (begins : List String) (acts : List (TxAct Conn V)) :
    Along (Transaction.step (opts.onGiven given) isConn begins) BeginsOnClosed Transaction.start acts ↔
      Steps (Transaction.step (opts.onGiven given) isConn begins) (StopsAfterRollback opts isConn)
        Transaction.start acts := by
  apply along_iff_steps givenInv_step begins_step givenInv_start
  rw [beginsOnClosed_iff givenInv_start]
  intro i c s h
  exact absurd h not_at_start

/-- What the connection has seen of an attempt that failed by a deadlock and was not rolled back. -/
def deadlocked : List (Event String JsError) :=
  [.begin "BEGIN", .bodySettled (.error ⟨true, "deadlock detected", .text "40P01", none, none⟩),
    .gateClosed [], .rollback]

/-- The body fails by a deadlock and the `ROLLBACK` by a lost connection: the second attempt's `BEGIN`
is issued on the connection where the first attempt's transaction may still be open. -/
theorem begins_inside_open : ∃ (acts : List (TxAct Nat String)) (tx : Transaction Nat String),
    Run.run (Transaction.step (TransactionOptions.onGiven ⟨none, none, none, none, none, none⟩ 7)
      isConnectionError ["BEGIN"]) Transaction.start acts = some tx ∧ ¬ BeginsOnClosed tx := by
  refine ⟨[.useGiven, .on 0 .control, .on 0 .control,
    .on 0 (.bodySettles (.error ⟨true, "deadlock detected", .text "40P01", none, none⟩)), .on 0 .close,
    .on 0 .drained, .on 0 (.controlFails ⟨true, "Connection lost", .absent, none, none⟩), .finish,
    .useGiven, .on 1 .control], _, rfl, ?_⟩
  intro h
  have hended := h.begins 0 1 7 7 _ _ (by decide) rfl rfl ⟨"BEGIN", List.mem_cons_self⟩
  change Event.committed ∈ deadlocked ∨ Event.rolledBack ∈ deadlocked at hended
  simp [deadlocked] at hended

end LiteDb
