import LiteDbModel.Transaction

/-!
# Runs of a transaction with retries

What holds over every run of the attempts: connections, commits and the sticky
writer's clock.
-/

namespace LiteDb
set_option autoImplicit false
open Run

variable {Conn V : Type}

/-! ## What a run may do -/

def TxEvent.isAttempt : TxEvent Conn V → Bool
  | .attempt _ => true
  | _ => false

/-- A connection-level failure, as the runtime tells it. -/
def ConnectionLevel (isConn : JsError → Bool) (e : JsError) : Prop := e.isError = true ∧ isConn e = true

/-- What each event needs of the events before it. -/
def TxOk (opts : TransactionOptions Conn) (isConn : JsError → Bool)
    (before : List (TxEvent Conn V)) : TxEvent Conn V → Prop
  | .attempt _ => (∀ m c, .on m c .committed ∉ before) ∧
      (∀ m c e, .on m c (.controlFailed .commit e) ∈ before → ¬ ConnectionLevel isConn e) ∧
      ∀ m c, .acquired m c ∈ before → ∃ destroy, .released m c destroy ∈ before
  | .acquired n _ => opts.connection = none ∧ ∀ c', .acquired n c' ∉ before
  | .on n c e => (∀ given, opts.connection = some given → c = given) ∧
      (opts.connection = none → .acquired n c ∈ before) ∧
      (∀ c' b, .on n c' (.begin b) ∈ before → c' = c) ∧
      ((∃ q, e = .call q true) → ∃ b, .on n c (.begin b) ∈ before) ∧
      (e = .committed → (∀ m c', .on m c' .committed ∉ before) ∧
        (resolveTxOptions opts).rollbackOnly = false)
  | .released n c destroy => opts.connection = none ∧ .acquired n c ∈ before ∧
      (∀ c' destroy', .released n c' destroy' ∉ before) ∧
      (destroy = false → .on n c .committed ∈ before ∨ .on n c .rolledBack ∈ before)
  | .marked => (∃ n c, .on n c .committed ∈ before) ∧
      (resolveTxOptions opts).rollbackOnly = false ∧
      (resolveTxOptions opts).useWriterAfterTransaction = true ∧ .marked ∉ before

/-- One connection for each attempt, released once and reusable only after its own `COMMIT` or
`ROLLBACK`; one successful `COMMIT` at most, and no attempt after it or after a lost one; attempts
within the limit; and the clock marked for a committed transaction that wants it. -/
structure TxSafe (opts : TransactionOptions Conn) (isConn : JsError → Bool)
    (tx : Transaction Conn V) : Prop where
  log : Logged (TxOk opts isConn) tx.log
  attempts : (tx.log.countP TxEvent.isAttempt : Int) ≤ max 1 (resolveTxOptions opts).retryLimit
  released : ∀ result, tx.phase = .returned result → ∀ n c, .acquired n c ∈ tx.log →
    ∃ destroy, .released n c destroy ∈ tx.log
  marked : ∀ result, tx.phase = .returned result →
    (.marked ∈ tx.log ↔ (∃ n c, .on n c .committed ∈ tx.log) ∧
      (resolveTxOptions opts).rollbackOnly = false ∧
      (resolveTxOptions opts).useWriterAfterTransaction = true)

/-! ## The invariant of a run -/

/-- Attempt `i + 1` runs on this connection and has come this far. -/
def Transaction.At (tx : Transaction Conn V) (i : Nat) (c : Conn) (s : Attempt V JsError) : Prop :=
  tx.attempts[i]? = some (c, s)

def Marked (opts : TransactionOptions Conn) (log : List (TxEvent Conn V)) : Prop :=
  .marked ∈ log ↔ (∃ n c, .on n c .committed ∈ log) ∧
    (resolveTxOptions opts).rollbackOnly = false ∧
    (resolveTxOptions opts).useWriterAfterTransaction = true

structure TxInv (opts : TransactionOptions Conn) (isConn : JsError → Bool) (begins : List String)
    (tx : Transaction Conn V) : Prop where
  logged : Logged (TxOk opts isConn) tx.log
  tags : ∀ n c e, .on n c e ∈ tx.log ↔
    ∃ i s, n = i + 1 ∧ tx.At i c s ∧ e ∈ s.log
  given : ∀ i c s, tx.At i c s → ∀ g, opts.connection = some g → c = g
  opened : opts.connection = none → ∀ n c, .acquired n c ∈ tx.log ↔
    ∃ i s, n = i + 1 ∧ tx.At i c s
  closed : opts.connection ≠ none → ∀ n c, .acquired n c ∉ tx.log
  inner : ∀ i c s, tx.At i c s →
    AttemptDecision (resolveTxOptions opts).rollbackOnly begins s
  ended : ∀ i c s, tx.At i c s →
    (i + 1 < tx.attempts.length ∨ tx.phase ≠ .running) → ∃ result, s.phase = .done result
  past : ∀ i c s, tx.At i c s →
    (i + 1 < tx.attempts.length ∨ tx.phase = .acquiring) →
    .committed ∉ s.log ∧ ∀ e, .controlFailed .commit e ∈ s.log → ¬ ConnectionLevel isConn e
  released : ∀ n c, (∃ destroy, .released n c destroy ∈ tx.log) ↔
    .acquired n c ∈ tx.log ∧ (n < tx.attempts.length ∨ tx.phase ≠ .running)
  count : (tx.phase = .acquiring → tx.log.countP TxEvent.isAttempt = tx.attempts.length + 1) ∧
    (tx.phase = .running → tx.log.countP TxEvent.isAttempt = tx.attempts.length)
  bound : (tx.log.countP TxEvent.isAttempt : Int) ≤ max 1 (resolveTxOptions opts).retryLimit
  unmarked : (∀ result, tx.phase ≠ .returned result) → .marked ∉ tx.log
  marked : ∀ result, tx.phase = .returned result → Marked opts tx.log

variable {opts : TransactionOptions Conn} {isConn : JsError → Bool} {begins : List String}
variable {tx tx' : Transaction Conn V}

theorem not_at_start {i : Nat} {c : Conn} {s : Attempt V JsError} :
    ¬ (Transaction.start : Transaction Conn V).At i c s := by
  simp [Transaction.At, Transaction.start]

theorem tx_start : TxInv opts isConn begins (Transaction.start : Transaction Conn V) := by
  have hlog : (Transaction.start : Transaction Conn V).log = [.attempt 1] := rfl
  refine ⟨?_, ?_, ?_, ?_, ?_, ?_, ?_, ?_, ?_, ?_, ?_, ?_, ?_⟩
  · rw [hlog, ← List.nil_append [TxEvent.attempt 1], logged_append]
    refine ⟨Logged.nil, ?_, ?_, ?_⟩
    · intro m c h
      cases h
    · intro m c e h
      cases h
    · intro m c h
      cases h
  · intro n c e
    refine iff_of_false (by simp [hlog]) ?_
    rintro ⟨i, s, _, h, _⟩
    exact not_at_start h
  · intro i c s h
    exact absurd h not_at_start
  · intro _ n c
    refine iff_of_false (by simp [hlog]) ?_
    rintro ⟨i, s, _, h⟩
    exact not_at_start h
  · intro _ n c
    simp [hlog]
  · intro i c s h
    exact absurd h not_at_start
  · intro i c s h
    exact absurd h not_at_start
  · intro i c s h
    exact absurd h not_at_start
  · intro n c
    simp [hlog]
  · exact ⟨fun _ => rfl, fun h => by cases h⟩
  · simp [hlog, TxEvent.isAttempt]
  · simp [hlog]
  · intro result h
    cases h

/-! ## A new connection -/

theorem at_open {conn : Conn} {log : List (TxEvent Conn V)} {i : Nat} {c : Conn}
    {s : Attempt V JsError} : (tx.open begins conn log).At i c s ↔
      tx.At i c s ∨ (i = tx.attempts.length ∧ c = conn ∧ s = Attempt.start begins) := by
  simp only [Transaction.At, Transaction.open, List.getElem?_append]
  split
  · rename_i h
    refine ⟨Or.inl, fun h' => h'.resolve_right fun hlast => ?_⟩
    omega
  · rename_i h
    have hnone : tx.attempts[i]? = none := List.getElem?_eq_none (by omega)
    rw [hnone]
    by_cases hi : i = tx.attempts.length
    · subst hi
      simp [eq_comm]
    · have : i - tx.attempts.length ≠ 0 := by omega
      simp [hi, this]

theorem at_lt {i : Nat} {c : Conn} {s : Attempt V JsError} (h : tx.At i c s) :
    i < tx.attempts.length :=
  (List.getElem?_eq_some_iff.mp h).1

/-- Opening an attempt on a connection, acquired or given. -/
theorem tx_open (h : TxInv opts isConn begins tx) (hphase : tx.phase = .acquiring) {conn : Conn}
    {log : List (TxEvent Conn V)} (hlogged : Logged (TxOk opts isConn) log)
    (hkeep : ∀ e, (∀ n c, e ≠ .acquired n c) → (e ∈ log ↔ e ∈ tx.log))
    (hcount : log.countP TxEvent.isAttempt = tx.log.countP TxEvent.isAttempt)
    (hgiven : ∀ g, opts.connection = some g → conn = g)
    (hnew : opts.connection = none → ∀ n c, .acquired n c ∈ log ↔
      .acquired n c ∈ tx.log ∨ (n = tx.attempts.length + 1 ∧ c = conn))
    (hold : opts.connection ≠ none → ∀ n c, .acquired n c ∈ log ↔ .acquired n c ∈ tx.log) :
    TxInv opts isConn begins (tx.open begins conn log) := by
  have hlen : (tx.open begins conn log).attempts.length = tx.attempts.length + 1 := by
    simp [Transaction.open]
  have hlog : (tx.open begins conn log).log = log := rfl
  refine ⟨hlogged, ?_, ?_, ?_, ?_, ?_, ?_, ?_, ?_, ?_, ?_, ?_, ?_⟩
  · intro n c e
    rw [hlog, hkeep _ (fun _ _ => by simp), h.tags]
    constructor
    · rintro ⟨i, s, hn, hat, he⟩
      exact ⟨i, s, hn, at_open.mpr (Or.inl hat), he⟩
    · rintro ⟨i, s, hn, hat, he⟩
      rcases at_open.mp hat with hat | ⟨_, _, rfl⟩
      · exact ⟨i, s, hn, hat, he⟩
      · cases he
  · intro i c s hat g hg
    rcases at_open.mp hat with hat | ⟨_, rfl, _⟩
    · exact h.given i c s hat g hg
    · exact hgiven g hg
  · intro hnone n c
    rw [hlog, hnew hnone, h.opened hnone]
    constructor
    · rintro (⟨i, s, hn, hat⟩ | ⟨hn, rfl⟩)
      · exact ⟨i, s, hn, at_open.mpr (Or.inl hat)⟩
      · exact ⟨tx.attempts.length, Attempt.start begins, hn, at_open.mpr (Or.inr ⟨rfl, rfl, rfl⟩)⟩
    · rintro ⟨i, s, hn, hat⟩
      rcases at_open.mp hat with hat | ⟨rfl, rfl, _⟩
      · exact Or.inl ⟨i, s, hn, hat⟩
      · exact Or.inr ⟨hn, rfl⟩
  · intro hsome n c
    rw [hlog, hold hsome]
    exact h.closed hsome n c
  · intro i c s hat
    rcases at_open.mp hat with hat | ⟨_, _, rfl⟩
    · exact h.inner i c s hat
    · exact decision_start _ begins
  · intro i c s hat hended
    rcases at_open.mp hat with hat | ⟨rfl, _, _⟩
    · exact h.ended i c s hat (Or.inr (by simp [hphase]))
    · rw [hlen] at hended
      rcases hended with hlt | hne
      · exact absurd hlt (lt_irrefl _)
      · exact absurd rfl hne
  · intro i c s hat hpast
    rcases at_open.mp hat with hat | ⟨rfl, _, _⟩
    · exact h.past i c s hat (Or.inr hphase)
    · rw [hlen] at hpast
      rcases hpast with hlt | hne
      · exact absurd hlt (lt_irrefl _)
      · cases hne
  · intro n c
    have hrel : (∃ destroy, .released n c destroy ∈ log) ↔
        ∃ destroy, .released n c destroy ∈ tx.log := by
      constructor
      · rintro ⟨destroy, hd⟩
        exact ⟨destroy, (hkeep _ fun _ _ => by simp).mp hd⟩
      · rintro ⟨destroy, hd⟩
        exact ⟨destroy, (hkeep _ fun _ _ => by simp).mpr hd⟩
    rw [hlog, hrel, h.released, hlen]
    by_cases hnone : opts.connection = none
    · rw [hnew hnone]
      constructor
      · rintro ⟨hacq, _⟩
        obtain ⟨i, s, rfl, hat⟩ := (h.opened hnone n c).mp hacq
        have := at_lt hat
        exact ⟨Or.inl hacq, Or.inl (by omega)⟩
      · rintro ⟨hacq | ⟨rfl, _⟩, hlt⟩
        · exact ⟨hacq, Or.inr (by simp [hphase])⟩
        · rcases hlt with hlt | hne
          · exact absurd hlt (lt_irrefl _)
          · exact absurd rfl hne
    · have hno := h.closed hnone n c
      rw [hold hnone]
      simp [hno]
  · refine ⟨fun hp => (by cases hp), fun _ => ?_⟩
    rw [hlog, hcount, h.count.1 hphase, hlen]
  · rw [hlog, hcount]
    exact h.bound
  · intro _
    rw [hlog, hkeep _ (fun _ _ => by simp)]
    exact h.unmarked fun result hp => by rw [hphase] at hp; cases hp
  · intro result hp
    cases hp

theorem tx_step_acquire (conn : Conn) (h : TxInv opts isConn begins tx)
    (hs : tx.step opts isConn begins (.acquire conn) = some tx') :
    TxInv opts isConn begins tx' := by
  simp only [Transaction.step] at hs
  split at hs
  · rename_i hphase hnone
    obtain rfl := Option.some.inj hs
    apply tx_open h hphase
    · refine logged_append.mpr ⟨h.logged, hnone, fun c' hc' => ?_⟩
      obtain ⟨i, s, hn, hat⟩ := (h.opened hnone _ _).mp hc'
      have := at_lt hat
      omega
    · intro e he
      simp [he]
    · simp [TxEvent.isAttempt]
    · intro g hg
      rw [hnone] at hg
      cases hg
    · intro _ n c
      simp
    · intro hne
      exact absurd hnone hne
  · cases hs

theorem tx_step_useGiven (h : TxInv opts isConn begins tx)
    (hs : tx.step opts isConn begins .useGiven = some tx') : TxInv opts isConn begins tx' := by
  simp only [Transaction.step] at hs
  split at hs
  · rename_i conn hphase hsome
    obtain rfl := Option.some.inj hs
    apply tx_open h hphase h.logged (fun _ _ => Iff.rfl) rfl
    · intro g hg
      rw [hsome] at hg
      exact Option.some.inj hg
    · intro hnone
      rw [hsome] at hnone
      cases hnone
    · intro _ n c
      exact Iff.rfl
  · cases hs

/-! ## A step of an attempt -/

theorem at_set {i : Nat} {c : Conn} {s : Attempt V JsError} (hat : tx.At i c s)
    (s' : Attempt V JsError) (log : List (TxEvent Conn V)) (j : Nat) (c' : Conn)
    (t : Attempt V JsError) :
    Transaction.At { tx with attempts := tx.attempts.set i (c, s'), log } j c' t ↔
      (j = i ∧ c' = c ∧ t = s') ∨ (j ≠ i ∧ tx.At j c' t) := by
  have hlt := at_lt hat
  simp only [Transaction.At, List.getElem?_set]
  by_cases hj : i = j
  · subst hj
    simp only [if_true, hlt, Option.some.injEq, Prod.mk.injEq, ne_eq, not_true_eq_false,
      false_and, or_false, true_and]
    exact ⟨fun h => ⟨h.1.symm, h.2.symm⟩, fun h => ⟨h.1.symm, h.2.symm⟩⟩
  · simp [hj, Ne.symm hj]

theorem at_unique {i : Nat} {c c' : Conn} {s s' : Attempt V JsError} (h : tx.At i c s)
    (h' : tx.At i c' s') : c = c' ∧ s = s' := by
  have := Option.some.inj (h.symm.trans h')
  exact ⟨congrArg Prod.fst this, congrArg Prod.snd this⟩

/-- The events an attempt's step adds are right after those before them. -/
theorem tx_on_ok (h : TxInv opts isConn begins tx) {i : Nat} {c : Conn}
    {s s' : Attempt V JsError} {a : Act V JsError} (hat : tx.At i c s)
    (hs : s.step (resolveTxOptions opts).rollbackOnly a = some s') {new : List (Event V JsError)}
    (hlog : s'.log = s.log ++ new) (hbegins : begins ≠ []) :
    Logged (TxOk opts isConn) (tx.log ++ new.map (.on (i + 1) c)) := by
  have hinner := decision_step hbegins a (h.inner i c s hat) hs
  have htag : ∀ e, .on (i + 1) c e ∈ tx.log ↔ e ∈ s.log := by
    intro e
    rw [h.tags]
    constructor
    · rintro ⟨j, t, hj, hatj, he⟩
      obtain rfl : i = j := by omega
      rw [(at_unique hat hatj).2]
      exact he
    · intro he
      exact ⟨i, s, rfl, hat, he⟩
  apply logged_append_list h.logged
  intro before e after heq
  obtain ⟨pre, rest, hnew, rfl, hrest⟩ := List.map_eq_append_iff.mp heq
  obtain ⟨e, post, rfl, rfl, rfl⟩ := List.map_eq_cons_iff.mp hrest
  have hok : DecidedOk (resolveTxOptions opts).rollbackOnly (s.log ++ pre) e :=
    hinner.logged (s.log ++ pre) e post (by rw [hlog, hnew, List.append_assoc])
  have hmem : ∀ e', .on (i + 1) c e' ∈ tx.log ++ pre.map (.on (i + 1) c) ↔ e' ∈ s.log ++ pre := by
    intro e'
    simp only [List.mem_append, htag, List.mem_map, TxEvent.on.injEq, true_and, exists_eq_right]
  refine ⟨fun g hg => h.given i c s hat g hg, fun hnone => ?_, fun c' b hb => ?_, ?_, ?_⟩
  · exact List.mem_append_left _ ((h.opened hnone _ _).mpr ⟨i, s, rfl, hat⟩)
  · rcases List.mem_append.mp hb with hold | hnew'
    · obtain ⟨j, t, hj, hatj, _⟩ := (h.tags _ _ _).mp hold
      obtain rfl : i = j := by omega
      exact (at_unique hat hatj).1.symm
    · obtain ⟨e', _, heq'⟩ := List.mem_map.mp hnew'
      exact ((TxEvent.on.inj heq').2.1).symm
  · rintro ⟨q, rfl⟩
    obtain ⟨b, hb⟩ := hok
    exact ⟨b, (hmem _).mpr hb⟩
  · rintro rfl
    obtain ⟨hfirst, hdry⟩ := hok
    refine ⟨fun m c' hc' => ?_, hdry⟩
    have hopen : ¬ ∃ result, s.phase = .done result := by
      rintro ⟨result, hdone⟩
      obtain ⟨_, new', hlog', hquiet⟩ := attempt_done_step hdone hs
      have hsame : new' = new := List.append_cancel_left (hlog'.symm.trans hlog)
      have hcommitted : .committed ∈ new' := by
        rw [hsame, hnew]
        simp
      rcases hquiet _ hcommitted with ⟨q, sent, hq⟩ | ⟨q, hq⟩ <;> cases hq
    have hlast : ¬ (i + 1 < tx.attempts.length ∨ tx.phase ≠ .running) := fun hended =>
      hopen (h.ended i c s hat hended)
    rcases List.mem_append.mp hc' with hold | hnew'
    · obtain ⟨j, t, hj, hatj, hcommitted⟩ := (h.tags _ _ _).mp hold
      by_cases hij : j = i
      · subst hij
        obtain ⟨rfl, rfl⟩ := at_unique hat hatj
        exact hfirst (List.mem_append_left _ hcommitted)
      · have hlt := at_lt hatj
        have hi := at_lt hat
        exact (h.past j c' t hatj (Or.inl (by omega))).1 hcommitted
    · obtain ⟨e', he', heq'⟩ := List.mem_map.mp hnew'
      obtain ⟨_, _, rfl⟩ := TxEvent.on.inj heq'
      exact hfirst (List.mem_append_right _ he')

theorem tx_step_on (hbegins : begins ≠ []) (i : Nat) (a : Act V JsError)
    (h : TxInv opts isConn begins tx)
    (hs : tx.step opts isConn begins (.on i a) = some tx') : TxInv opts isConn begins tx' := by
  simp only [Transaction.step] at hs
  split at hs
  · cases hs
  · rename_i c s hat
    obtain ⟨s', hstep, rfl⟩ := Option.map_eq_some_iff.mp hs
    obtain ⟨new, hlog⟩ := attempt_log_grows hstep
    have hdrop : s'.log.drop s.log.length = new := by rw [hlog, List.drop_left]
    rw [hdrop]
    have hset := at_set hat s' (tx.log ++ new.map (.on (i + 1) c))
    have hkeep : ∀ e, (∀ n d f, e ≠ TxEvent.on n d f) →
        (e ∈ tx.log ++ new.map (.on (i + 1) c) ↔ e ∈ tx.log) := by
      intro e he
      simp only [List.mem_append, List.mem_map]
      refine or_iff_left ?_
      rintro ⟨f, _, rfl⟩
      exact he _ _ _ rfl
    have hquiet : (i + 1 < tx.attempts.length ∨ tx.phase ≠ .running) →
        ∀ e ∈ new, (∃ q sent, e = .call q sent) ∨ ∃ q, e = .answered q := by
      intro hended
      obtain ⟨result, hdone⟩ := h.ended i c s hat hended
      obtain ⟨_, new', hlog', hcalls⟩ := attempt_done_step hdone hstep
      rwa [List.append_cancel_left (hlog'.symm.trans hlog)] at hcalls
    have hcount : (tx.log ++ new.map (TxEvent.on (i + 1) c)).countP TxEvent.isAttempt =
        tx.log.countP TxEvent.isAttempt := by
      rw [List.countP_append, List.countP_map]
      simp [Function.comp_def, TxEvent.isAttempt]
    refine ⟨tx_on_ok h hat hstep hlog hbegins, ?_, ?_, ?_, ?_, ?_, ?_, ?_, ?_, ?_, ?_, ?_, ?_⟩
    · intro n d e
      constructor
      · intro hmem
        rcases List.mem_append.mp hmem with hold | hnew
        · obtain ⟨j, t, hn, hatj, he⟩ := (h.tags n d e).mp hold
          by_cases hj : j = i
          · subst hj
            obtain ⟨rfl, rfl⟩ := at_unique hat hatj
            exact ⟨j, s', hn, (hset _ _ _).mpr (Or.inl ⟨rfl, rfl, rfl⟩),
              hlog ▸ List.mem_append_left new he⟩
          · exact ⟨j, t, hn, (hset _ _ _).mpr (Or.inr ⟨hj, hatj⟩), he⟩
        · obtain ⟨f, hf, heq⟩ := List.mem_map.mp hnew
          obtain ⟨rfl, rfl, rfl⟩ := TxEvent.on.inj heq
          exact ⟨i, s', rfl, (hset _ _ _).mpr (Or.inl ⟨rfl, rfl, rfl⟩),
            hlog ▸ List.mem_append_right s.log hf⟩
      · rintro ⟨j, t, hn, hatj, he⟩
        rcases (hset _ _ _).mp hatj with ⟨rfl, rfl, rfl⟩ | ⟨_, hatj⟩
        · rw [hlog] at he
          rcases List.mem_append.mp he with hold | hnew
          · exact List.mem_append_left _ ((h.tags n d e).mpr ⟨j, s, hn, hat, hold⟩)
          · rw [hn]
            exact List.mem_append_right _ (List.mem_map_of_mem hnew)
        · exact List.mem_append_left _ ((h.tags n d e).mpr ⟨j, t, hn, hatj, he⟩)
    · intro j d t hatj g hg
      rcases (hset _ _ _).mp hatj with ⟨rfl, rfl, _⟩ | ⟨_, hatj⟩
      · exact h.given j d s hat g hg
      · exact h.given j d t hatj g hg
    · intro hnone n d
      refine (hkeep _ fun _ _ _ => by simp).trans ((h.opened hnone n d).trans ?_)
      constructor
      · rintro ⟨j, t, hn, hatj⟩
        by_cases hj : j = i
        · subst hj
          obtain ⟨rfl, rfl⟩ := at_unique hat hatj
          exact ⟨j, s', hn, (hset _ _ _).mpr (Or.inl ⟨rfl, rfl, rfl⟩)⟩
        · exact ⟨j, t, hn, (hset _ _ _).mpr (Or.inr ⟨hj, hatj⟩)⟩
      · rintro ⟨j, t, hn, hatj⟩
        rcases (hset _ _ _).mp hatj with ⟨rfl, rfl, _⟩ | ⟨_, hatj⟩
        · exact ⟨j, s, hn, hat⟩
        · exact ⟨j, t, hn, hatj⟩
    · intro hsome n d hmem
      exact h.closed hsome n d ((hkeep _ fun _ _ _ => by simp).mp hmem)
    · intro j d t hatj
      rcases (hset _ _ _).mp hatj with ⟨rfl, rfl, rfl⟩ | ⟨_, hatj⟩
      · exact decision_step hbegins a (h.inner j d s hat) hstep
      · exact h.inner j d t hatj
    · intro j d t hatj hended
      rw [List.length_set] at hended
      rcases (hset _ _ _).mp hatj with ⟨rfl, rfl, rfl⟩ | ⟨_, hatj⟩
      · obtain ⟨result, hdone⟩ := h.ended j d s hat hended
        exact ⟨result, (attempt_done_step hdone hstep).1⟩
      · exact h.ended j d t hatj hended
    · intro j d t hatj hpast
      rw [List.length_set] at hpast
      rcases (hset _ _ _).mp hatj with ⟨rfl, rfl, rfl⟩ | ⟨_, hatj⟩
      · obtain ⟨hcommitted, hfailed⟩ := h.past j d s hat hpast
        have hcalls := hquiet (hpast.imp_right fun hp hrun => by cases hp.symm.trans hrun)
        rw [hlog]
        refine ⟨fun hmem => ?_, fun e hmem => ?_⟩
        · rcases List.mem_append.mp hmem with hold | hnew
          · exact hcommitted hold
          · rcases hcalls _ hnew with ⟨q, sent, hq⟩ | ⟨q, hq⟩ <;> cases hq
        · rcases List.mem_append.mp hmem with hold | hnew
          · exact hfailed e hold
          · rcases hcalls _ hnew with ⟨q, sent, hq⟩ | ⟨q, hq⟩ <;> cases hq
      · exact h.past j d t hatj hpast
    · intro n d
      rw [List.length_set]
      refine Iff.trans ?_ ((h.released n d).trans ?_)
      · constructor
        · rintro ⟨destroy, hd⟩
          exact ⟨destroy, (hkeep _ fun _ _ _ => by simp).mp hd⟩
        · rintro ⟨destroy, hd⟩
          exact ⟨destroy, (hkeep _ fun _ _ _ => by simp).mpr hd⟩
      · exact and_congr_left fun _ => (hkeep _ fun _ _ _ => by simp).symm
    · rw [List.length_set]
      exact ⟨fun hp => hcount.trans (h.count.1 hp), fun hp => hcount.trans (h.count.2 hp)⟩
    · exact hcount ▸ h.bound
    · intro hp hmem
      exact h.unmarked hp ((hkeep _ fun _ _ _ => by simp).mp hmem)
    · intro result hp
      have hcalls := hquiet (Or.inr fun hrun => by cases hp.symm.trans hrun)
      have hold := h.marked result hp
      unfold Marked at hold ⊢
      have hcommitted : (∃ n d, TxEvent.on n d .committed ∈ tx.log ++ new.map (.on (i + 1) c)) ↔
          ∃ n d, TxEvent.on n d .committed ∈ tx.log := by
        constructor
        · rintro ⟨n, d, hmem⟩
          refine ⟨n, d, (List.mem_append.mp hmem).resolve_right fun hnew => ?_⟩
          obtain ⟨f, hf, heq⟩ := List.mem_map.mp hnew
          obtain ⟨_, _, rfl⟩ := TxEvent.on.inj heq
          rcases hcalls _ hf with ⟨q, sent, hq⟩ | ⟨q, hq⟩ <;> cases hq
        · rintro ⟨n, d, hmem⟩
          exact ⟨n, d, List.mem_append_left _ hmem⟩
      exact (hkeep _ fun _ _ _ => by simp).trans (hold.trans (and_congr_left fun _ => hcommitted.symm))

/-! ## The end of an attempt -/

/-- No attempt is running any more. -/
theorem tx_end (h : TxInv opts isConn begins tx) {phase : TxPhase V} {log : List (TxEvent Conn V)}
    (hne : phase ≠ .running)
    (hended : ∀ i c s, tx.At i c s → ∃ result, s.phase = .done result)
    (hlogged : Logged (TxOk opts isConn) log)
    (hon : ∀ n c e, .on n c e ∈ log ↔ .on n c e ∈ tx.log)
    (hacquired : ∀ n c, .acquired n c ∈ log ↔ .acquired n c ∈ tx.log)
    (hreleased : ∀ n c, (∃ destroy, .released n c destroy ∈ log) ↔ .acquired n c ∈ tx.log)
    (hpast : phase = .acquiring → ∀ i c s, tx.At i c s → .committed ∉ s.log ∧
      ∀ e, .controlFailed .commit e ∈ s.log → ¬ ConnectionLevel isConn e)
    (hcount : phase = .acquiring → log.countP TxEvent.isAttempt = tx.attempts.length + 1)
    (hbound : (log.countP TxEvent.isAttempt : Int) ≤ max 1 (resolveTxOptions opts).retryLimit)
    (hunmarked : (∀ result, phase ≠ .returned result) → .marked ∉ log)
    (hmarked : ∀ result, phase = .returned result → Marked opts log) :
    TxInv opts isConn begins { tx with phase, log } where
  logged := hlogged
  tags n c e := (hon n c e).trans (h.tags n c e)
  given := h.given
  opened hnone n c := (hacquired n c).trans (h.opened hnone n c)
  closed hsome n c hmem := h.closed hsome n c ((hacquired n c).mp hmem)
  inner := h.inner
  ended i c s hat _ := hended i c s hat
  past i c s hat hp := by
    rcases hp with hlt | hacquiring
    · exact h.past i c s hat (Or.inl hlt)
    · exact hpast hacquiring i c s hat
  released n c := by
    rw [hreleased, hacquired]
    exact (and_iff_left (Or.inr hne)).symm
  count := ⟨hcount, fun hp => absurd hp hne⟩
  bound := hbound
  unmarked := hunmarked
  marked := hmarked

theorem tx_step_acquireFails (e : JsError) (h : TxInv opts isConn begins tx)
    (hs : tx.step opts isConn begins (.acquireFails e) = some tx') : TxInv opts isConn begins tx' := by
  simp only [Transaction.step] at hs
  split at hs
  · rename_i hphase hnone
    obtain rfl := Option.some.inj hs
    apply tx_end h
    · simp
    · intro i c s hat
      exact h.ended i c s hat (Or.inr (by simp [hphase]))
    · exact h.logged
    · intro n c e
      exact Iff.rfl
    · intro n c
      exact Iff.rfl
    · intro n c
      rw [h.released]
      exact and_iff_left (Or.inr (by simp [hphase]))
    · intro hp
      cases hp
    · intro hp
      cases hp
    · exact h.bound
    · intro hp
      exact absurd rfl (hp _)
    · intro result _
      refine iff_of_false (h.unmarked fun r hp => by rw [hphase] at hp; cases hp) ?_
      rintro ⟨⟨n, c, hmem⟩, _⟩
      obtain ⟨i, s, _, hat, hcommitted⟩ := (h.tags _ _ _).mp hmem
      exact (h.past i c s hat (Or.inr hphase)).1 hcommitted
  · cases hs

/-- Whether the attempt's result is a value. -/
def succeeded (result : Except (Thrown JsError) V) : Bool :=
  match result with
  | .ok _ => true
  | .error _ => false

/-- The log after the release of an attempt's connection; a given one is left alone. -/
def releaseLog (opts : TransactionOptions Conn) (tx : Transaction Conn V) (conn : Conn)
    (a : Attempt V JsError) (result : Except (Thrown JsError) V) : List (TxEvent Conn V) :=
  if opts.connection.isNone then
    tx.log ++ [.released tx.attempts.length conn (a.poisoned || !succeeded result)]
  else tx.log

variable {i : Nat} {c : Conn} {s : Attempt V JsError} {result : Except (Thrown JsError) V}

theorem mem_releaseLog {e : TxEvent Conn V} (he : ∀ n c destroy, e ≠ .released n c destroy) :
    e ∈ releaseLog opts tx c s result ↔ e ∈ tx.log := by
  unfold releaseLog
  split
  · simp [he]
  · exact Iff.rfl

theorem releaseLog_count : (releaseLog opts tx c s result).countP TxEvent.isAttempt =
    tx.log.countP TxEvent.isAttempt := by
  unfold releaseLog
  split
  · simp [TxEvent.isAttempt]
  · rfl

/-- Releasing is right: its own connection, once, and reusable only after `COMMIT` or `ROLLBACK`. -/
theorem releaseLog_logged (h : TxInv opts isConn begins tx) (hphase : tx.phase = .running)
    (hat : tx.At i c s) (hi : i + 1 = tx.attempts.length) (hdone : s.phase = .done result) :
    Logged (TxOk opts isConn) (releaseLog opts tx c s result) := by
  unfold releaseLog
  split
  · rename_i hnone
    have hnone' : opts.connection = none := Option.isNone_iff_eq_none.mp hnone
    refine logged_append.mpr ⟨h.logged, hnone', ?_, fun c' destroy hmem => ?_, fun hreuse => ?_⟩
    · exact (h.opened hnone' _ _).mpr ⟨i, s, hi.symm, hat⟩
    · obtain ⟨_, hlt | hne⟩ := (h.released _ _).mp ⟨destroy, hmem⟩
      · exact absurd hlt (lt_irrefl _)
      · exact hne hphase
    · have hok : succeeded result = true := by
        cases hsucc : succeeded result with
        | true => rfl
        | false =>
          rw [hsucc] at hreuse
          simp at hreuse
      obtain ⟨v, rfl⟩ : ∃ v, result = .ok v := by
        cases result with
        | ok v => exact ⟨v, rfl⟩
        | error e => cases hok
      have hdecision := (h.inner i c s hat).decision
      unfold DecisionOk at hdecision
      rw [hdone] at hdecision
      have hmem : ∀ e, e ∈ s.log → .on tx.attempts.length c e ∈ tx.log := fun e he =>
        (h.tags _ _ _).mpr ⟨i, s, hi.symm, hat, he⟩
      cases hdry : (resolveTxOptions opts).rollbackOnly with
      | true =>
        rw [hdry, if_pos rfl] at hdecision
        exact Or.inr (hmem _ hdecision.2.1)
      | false =>
        rw [hdry, if_neg (by simp)] at hdecision
        exact Or.inl (hmem _ hdecision.2)
  · exact h.logged

theorem releaseLog_released (h : TxInv opts isConn begins tx) (hat : tx.At i c s)
    (hi : i + 1 = tx.attempts.length) (n : Nat) (d : Conn) :
    (∃ destroy, .released n d destroy ∈ releaseLog opts tx c s result) ↔ .acquired n d ∈ tx.log := by
  unfold releaseLog
  split
  · rename_i hnone
    have hnone' : opts.connection = none := Option.isNone_iff_eq_none.mp hnone
    constructor
    · rintro ⟨destroy, hmem⟩
      rcases List.mem_append.mp hmem with hold | hnew
      · exact ((h.released n d).mp ⟨destroy, hold⟩).1
      · obtain ⟨rfl, rfl, _⟩ := TxEvent.released.inj (List.mem_singleton.mp hnew)
        exact (h.opened hnone' _ _).mpr ⟨i, s, hi.symm, hat⟩
    · intro hacquired
      obtain ⟨j, t, rfl, hatj⟩ := (h.opened hnone' _ _).mp hacquired
      have hlt := at_lt hatj
      by_cases hj : j + 1 < tx.attempts.length
      · obtain ⟨destroy, hmem⟩ := (h.released _ _).mpr ⟨hacquired, Or.inl hj⟩
        exact ⟨destroy, List.mem_append_left _ hmem⟩
      · obtain rfl : j = i := by omega
        obtain ⟨rfl, rfl⟩ := at_unique hat hatj
        exact ⟨_, List.mem_append_right _ (by rw [hi]; exact List.mem_singleton_self _)⟩
  · rename_i hsome
    have hsome' : opts.connection ≠ none := fun h => hsome (Option.isNone_iff_eq_none.mpr h)
    have hno := h.closed hsome' n d
    rw [h.released]
    exact iff_of_false (fun h => hno h.1) hno

/-- With no attempt running and none committed, nothing is to be marked. -/
theorem not_committed (h : TxInv opts isConn begins tx)
    (hnone : ∀ i c s, tx.At i c s → .committed ∉ s.log) : ¬ ∃ n c, .on n c .committed ∈ tx.log := by
  rintro ⟨n, c, hmem⟩
  obtain ⟨i, s, _, hat, hcommitted⟩ := (h.tags _ _ _).mp hmem
  exact hnone i c s hat hcommitted

/-- A retry is taken below the limit, and not after a lost `COMMIT`. -/
theorem retries_facts {resolved : ResolvedTxOptions} {given committing : Bool} {n : Nat}
    {e : JsError} (h : retries resolved given isConn n committing e = true) :
    (n : Int) < resolved.retryLimit ∧ (committing = true → ¬ ConnectionLevel isConn e) := by
  simp only [retries, Bool.and_eq_true, Bool.not_eq_true', decide_eq_true_eq] at h
  obtain ⟨⟨⟨_, hlt⟩, hunretried⟩, _⟩ := h
  refine ⟨hlt, ?_⟩
  rintro rfl ⟨herror, hconn⟩
  simp [isUnretriedConnectionError, herror, hconn] at hunretried

/-- What holds of the attempts before the last, and of the last, holds of all. -/
theorem forall_attempts (hat : tx.At i c s) (hi : i + 1 = tx.attempts.length)
    {p : Attempt V JsError → Prop} (hlast : p s)
    (hpast : ∀ j d t, tx.At j d t → j + 1 < tx.attempts.length → p t) :
    ∀ j d t, tx.At j d t → p t := by
  intro j d t hatj
  have hlt := at_lt hatj
  by_cases hj : j + 1 < tx.attempts.length
  · exact hpast j d t hatj hj
  · obtain rfl : j = i := by omega
    exact (at_unique hat hatj).2 ▸ hlast

section Finish

variable (h : TxInv opts isConn begins tx) (hphase : tx.phase = .running)
variable (hat : tx.At i c s) (hi : i + 1 = tx.attempts.length) (hdone : s.phase = .done result)
include h hphase hat hi hdone

omit hphase in
theorem attempts_ended : ∀ j d t, tx.At j d t → ∃ r, t.phase = .done r :=
  forall_attempts hat hi (p := fun t => ∃ r, t.phase = .done r) ⟨result, hdone⟩
    fun j d t hatj hj => h.ended j d t hatj (Or.inl hj)

theorem tx_finish_ok {v : V} (hresult : result = .ok v) :
    TxInv opts isConn begins (tx.finish opts isConn c s result) := by
  subst hresult
  have hdecision := (h.inner i c s hat).decision
  unfold DecisionOk at hdecision
  rw [hdone] at hdecision
  have hunmarked : .marked ∉ tx.log := h.unmarked fun r hp => by cases hphase.symm.trans hp
  have hlogged := releaseLog_logged h hphase hat hi hdone
  have hcommitted : (∃ n d, .on n d .committed ∈ tx.log) ↔
      (resolveTxOptions opts).rollbackOnly = false := by
    cases hdry : (resolveTxOptions opts).rollbackOnly with
    | true =>
      rw [hdry, if_pos rfl] at hdecision
      refine iff_of_false (not_committed h ?_) (by simp)
      exact forall_attempts hat hi (p := fun t => .committed ∉ t.log) hdecision.2.2
        fun j d t hatj hj => (h.past j d t hatj (Or.inl hj)).1
    | false =>
      rw [hdry, if_neg (by simp)] at hdecision
      exact iff_of_true ⟨_, _, (h.tags _ _ _).mpr ⟨i, s, rfl, hat, hdecision.2⟩⟩ rfl
  have hrelease : ∀ e, (∀ n d destroy, e ≠ TxEvent.released n d destroy) →
      (e ∈ releaseLog opts tx c s (.ok v) ↔ e ∈ tx.log) := fun e he => mem_releaseLog he
  have hkeep : ∀ e, (∀ n d destroy, e ≠ TxEvent.released n d destroy) → e ≠ .marked →
      ∀ b : Bool, (e ∈ (if b then releaseLog opts tx c s (.ok v) ++ [.marked]
        else releaseLog opts tx c s (.ok v)) ↔ e ∈ tx.log) := by
    intro e he hm b
    rw [← hrelease e he]
    cases b <;> simp [hm]
  have hreleased : ∀ n d, (∃ destroy, .released n d destroy ∈ releaseLog opts tx c s (.ok v)) ↔
      .acquired n d ∈ tx.log := releaseLog_released h hat hi
  show TxInv opts isConn begins { tx with
    phase := .returned (.ok v)
    log := if !(resolveTxOptions opts).rollbackOnly &&
        (resolveTxOptions opts).useWriterAfterTransaction then
      releaseLog opts tx c s (.ok v) ++ [.marked] else releaseLog opts tx c s (.ok v) }
  apply tx_end h
  · simp
  · exact attempts_ended h hat hi hdone
  · split
    · rename_i hcond
      simp only [Bool.and_eq_true, Bool.not_eq_true'] at hcond
      refine logged_append.mpr ⟨hlogged, ?_, hcond.1, hcond.2, ?_⟩
      · obtain ⟨n, d, hmem⟩ := hcommitted.mpr hcond.1
        exact ⟨n, d, (mem_releaseLog (by simp)).mpr hmem⟩
      · rw [mem_releaseLog (by simp)]
        exact hunmarked
    · exact hlogged
  · intro n d e
    exact hkeep _ (by simp) (by simp) _
  · intro n d
    exact hkeep _ (by simp) (by simp) _
  · intro n d
    rw [← hreleased]
    split <;> simp
  · intro hp
    cases hp
  · intro hp
    cases hp
  · have hcount : ∀ b : Bool, (if b then releaseLog opts tx c s (.ok v) ++ [.marked]
        else releaseLog opts tx c s (.ok v)).countP TxEvent.isAttempt =
        tx.log.countP TxEvent.isAttempt := by
      intro b
      have hsame : (releaseLog opts tx c s (.ok v)).countP TxEvent.isAttempt =
          tx.log.countP TxEvent.isAttempt := releaseLog_count
      rw [← hsame]
      cases b <;> simp [TxEvent.isAttempt]
    rw [hcount]
    exact h.bound
  · intro hp
    exact absurd rfl (hp _)
  · intro r _
    unfold Marked
    have hon : (∃ n d, TxEvent.on n d .committed ∈
        (if !(resolveTxOptions opts).rollbackOnly &&
            (resolveTxOptions opts).useWriterAfterTransaction then
          releaseLog opts tx c s (.ok v) ++ [.marked] else releaseLog opts tx c s (.ok v))) ↔
        (resolveTxOptions opts).rollbackOnly = false := by
      rw [← hcommitted]
      exact exists_congr fun n => exists_congr fun d => hkeep _ (by simp) (by simp) _
    rw [hon, and_self_left]
    split
    · rename_i hcond
      simp only [Bool.and_eq_true, Bool.not_eq_true'] at hcond
      exact iff_of_true (by simp) hcond
    · rename_i hcond
      simp only [Bool.and_eq_true, Bool.not_eq_true'] at hcond
      refine iff_of_false ?_ hcond
      rw [mem_releaseLog (by simp)]
      exact hunmarked

theorem tx_finish_error {thrown : Thrown JsError} (hresult : result = .error thrown) :
    TxInv opts isConn begins (tx.finish opts isConn c s result) := by
  subst hresult
  have hdecision := (h.inner i c s hat).decision
  unfold DecisionOk at hdecision
  rw [hdone] at hdecision
  have hunmarked : .marked ∉ releaseLog opts tx c s (.error thrown) := by
    rw [mem_releaseLog (by simp)]
    exact h.unmarked fun r hp => by cases hphase.symm.trans hp
  have hlogged := releaseLog_logged h hphase hat hi hdone
  have hrelease : ∀ e, (∀ n d destroy, e ≠ TxEvent.released n d destroy) →
      (e ∈ releaseLog opts tx c s (.error thrown) ↔ e ∈ tx.log) := fun e he => mem_releaseLog he
  have hreleased : ∀ n d, (∃ destroy, .released n d destroy ∈ releaseLog opts tx c s
      (.error thrown)) ↔ .acquired n d ∈ tx.log := releaseLog_released h hat hi
  have hcount := h.count.2 hphase
  have hnone := not_committed h (forall_attempts hat hi (p := fun t => .committed ∉ t.log)
    hdecision.1 fun j d t hatj hj => (h.past j d t hatj (Or.inl hj)).1)
  unfold Transaction.finish
  dsimp only
  split
  · rename_i hretry
    obtain ⟨hlt, hlost⟩ := retries_facts hretry
    have hpast : ∀ j d t, tx.At j d t → .committed ∉ t.log ∧
        ∀ e, .controlFailed .commit e ∈ t.log → ¬ ConnectionLevel isConn e := by
      refine forall_attempts hat hi (p := fun t => .committed ∉ t.log ∧
        ∀ e, .controlFailed .commit e ∈ t.log → ¬ ConnectionLevel isConn e) ⟨hdecision.1, ?_⟩
        fun j d t hatj hj => h.past j d t hatj (Or.inl hj)
      intro e he
      obtain ⟨hcommitting, rfl⟩ := hdecision.2 e he
      exact hlost hcommitting
    show TxInv opts isConn begins { tx with
      phase := .acquiring
      log := releaseLog opts tx c s (.error thrown) ++ [.attempt (tx.attempts.length + 1)] }
    apply tx_end h
    · simp
    · exact attempts_ended h hat hi hdone
    · refine logged_append.mpr ⟨hlogged, fun m d hmem => ?_, fun m d e hmem => ?_,
        fun m d hmem => ?_⟩
      · exact hnone ⟨m, d, (mem_releaseLog (by simp)).mp hmem⟩
      · obtain ⟨j, t, _, hatj, he⟩ := (h.tags _ _ _).mp ((mem_releaseLog (by simp)).mp hmem)
        exact (hpast j d t hatj).2 e he
      · exact (hreleased m d).mpr ((mem_releaseLog (by simp)).mp hmem)
    · intro n d e
      rw [← hrelease _ (by simp)]
      simp
    · intro n d
      rw [← hrelease _ (by simp)]
      simp
    · intro n d
      rw [← hreleased]
      simp
    · intro _
      exact hpast
    · intro _
      rw [List.countP_append, releaseLog_count, hcount]
      rfl
    · rw [List.countP_append, releaseLog_count, hcount]
      have hone : [(TxEvent.attempt (tx.attempts.length + 1) : TxEvent Conn V)].countP
          TxEvent.isAttempt = 1 := rfl
      rw [hone]
      omega
    · intro _
      simpa using hunmarked
    · intro r hp
      cases hp
  · show TxInv opts isConn begins { tx with
      phase := .returned (.error thrown), log := releaseLog opts tx c s (.error thrown) }
    apply tx_end h
    · simp
    · exact attempts_ended h hat hi hdone
    · exact hlogged
    · intro n d e
      exact mem_releaseLog (by simp)
    · intro n d
      exact mem_releaseLog (by simp)
    · exact hreleased
    · intro hp
      cases hp
    · intro hp
      cases hp
    · rw [releaseLog_count]
      exact h.bound
    · intro hp
      exact absurd rfl (hp _)
    · intro r _
      refine iff_of_false hunmarked ?_
      rintro ⟨⟨n, d, hmem⟩, _⟩
      exact hnone ⟨n, d, (mem_releaseLog (by simp)).mp hmem⟩

end Finish

theorem tx_step_finish (h : TxInv opts isConn begins tx)
    (hs : tx.step opts isConn begins .finish = some tx') : TxInv opts isConn begins tx' := by
  simp only [Transaction.step] at hs
  split at hs
  · rename_i c s hphase hlast
    rw [List.getLast?_eq_getElem?] at hlast
    have hlt := at_lt hlast
    split at hs
    · rename_i result hdone
      obtain rfl := Option.some.inj hs
      cases hresult : result with
      | ok v => exact hresult ▸ tx_finish_ok h hphase hlast (by omega) hdone hresult
      | error thrown => exact hresult ▸ tx_finish_error h hphase hlast (by omega) hdone hresult
    · cases hs
  · cases hs

theorem tx_step (hbegins : begins ≠ []) (tx : Transaction Conn V) (a : TxAct Conn V)
    (tx' : Transaction Conn V) (h : TxInv opts isConn begins tx)
    (hs : tx.step opts isConn begins a = some tx') : TxInv opts isConn begins tx' := by
  cases a with
  | acquire conn => exact tx_step_acquire conn h hs
  | acquireFails e => exact tx_step_acquireFails e h hs
  | useGiven => exact tx_step_useGiven h hs
  | on i a => exact tx_step_on hbegins i a h hs
  | finish => exact tx_step_finish h hs

theorem beginStatements_ne_nil {dialect : Dialect} {level : Option IsolationLevel}
    {begins : List String} (h : beginStatements dialect level = .ok begins) : begins ≠ [] := by
  unfold beginStatements at h
  split at h
  · rw [← Except.ok.inj h]
    simp
  · split at h
    · rw [← Except.ok.inj h]
      simp
    · rw [← Except.ok.inj h]
      simp
    · cases h

end LiteDb
