import LiteDbModel.Routing

/-!
# Reads after a commit

A request's reads go to the writer for a while after it has committed a transaction. Where
a statement goes is read off the scopes it is sent in and the clock, over every history of
statements and transactions in any requests.
-/

namespace LiteDb.Sticky
set_option autoImplicit false

/-! ## The clock -/

structure WriterStickyClock where
  /-- `useWriterAfterTransaction ?? true`. -/
  enabled : Bool := true
  /-- `writerStickyDuration ?? 5000`. -/
  stickyDurationMs : ℚ := 5000

/-- The `commits` of the requests for this clock: the time of a request's last commit. -/
abbrev Commits := Nat → Option ℚ

/-- `mark`, in the current request scope if there is one. -/
def WriterStickyClock.mark (clock : WriterStickyClock) (request : Option Nat) (now : ℚ)
    (commits : Commits) : Commits :=
  match request with
  | none => commits
  | some r => if clock.enabled then Function.update commits r (some now) else commits

def WriterStickyClock.isSticky (clock : WriterStickyClock) (request : Option Nat) (now : ℚ)
    (commits : Commits) : Bool :=
  if !clock.enabled then false
  else match request.bind commits with
    | none => false
    | some t => now - t < clock.stickyDurationMs

/-! ## Scopes -/

/-- An asynchronous scope that a statement is sent in. -/
inductive Scope
  /-- `Middleware.run`. -/
  | request (id : Nat)
  | withWriter
  /-- `withTransactionAsync` on the context, with the connection that the pool hands out. -/
  | transaction (given : Option PoolConnection) (connection : Option String) (serial : Nat)

/-- What the asynchronous stores hold. -/
structure Env where
  request : Option Nat := none
  inWriterScope : Bool := false
  pinned : Option PinnedTx := none

def Env.enter (registry : ConnectionRegistry) (env : Env) : Scope → Env
  | .request id => { env with request := some id }
  | .withWriter => if env.inWriterScope then env else { env with inWriterScope := true }
  | .transaction given connection serial =>
    match env.pinned with
    -- a nested transaction joins
    | some _ => env
    | none =>
      match registry.pairFor connection with
      | .error _ => env
      | .ok pair => { env with pinned := some ⟨given.getD ⟨pair.writer, serial⟩, connection⟩ }

/-- The stores inside these scopes, the outermost first. -/
def envOf (registry : ConnectionRegistry) (scopes : List Scope) : Env :=
  scopes.foldl (Env.enter registry) {}

/-! ## Histories -/

/-- How a call of `withTransactionAsync` ended, and its options. -/
structure Ended where
  ok : Bool
  rollbackOnly : Option Bool := none
  useWriterAfterTransaction : Option Bool := none

/-- `!resolved.rollbackOnly && resolved.useWriterAfterTransaction`, of one that returned. -/
def Ended.marks (e : Ended) : Bool :=
  e.ok && !e.rollbackOnly.getD false && e.useWriterAfterTransaction.getD true

structure Intent where
  write : Bool
  db : Option String := none

inductive Event
  | statement (scopes : List Scope) (intent : Intent) (now : ℚ)
  /-- A transaction that was called in these scopes has ended. -/
  | transaction (scopes : List Scope) (ended : Ended) (now : ℚ)

variable (clock : WriterStickyClock) (registry : ConnectionRegistry)

def step (commits : Commits) : Event → Commits
  | .statement _ _ _ => commits
  | .transaction scopes ended now =>
    let env := envOf registry scopes
    if env.pinned.isNone && ended.marks then clock.mark env.request now commits else commits

/-- The requests' commits after a history. -/
def commitsAfter (history : List Event) : Commits :=
  history.foldl (step clock registry) fun _ => none

/-- The pool of the connection that a statement is given after a history. -/
def route (history : List Event) (scopes : List Scope) (intent : Intent) (now : ℚ) :
    Except String Pool :=
  let env := envOf registry scopes
  connectionFor registry env.pinned
    { write := intent.write, db := intent.db
      useWriter := env.inWriterScope ||
        clock.isSticky env.request now (commitsAfter clock registry history) }

/-! ## What a statement's scopes say -/

/-- The request is the innermost one. -/
def requestOf (scopes : List Scope) : Option Nat :=
  scopes.reverse.findSome? fun
    | .request id => some id
    | _ => none

/-- The time of a request's last transaction that committed and was to be followed by the writer. -/
def lastCommit (history : List Event) (r : Nat) : Option ℚ :=
  history.reverse.findSome? fun
    | .statement _ _ _ => none
    | .transaction scopes ended now =>
      if (envOf registry scopes).pinned.isNone && ended.marks &&
        requestOf scopes = some r then some now else none

/-- The statement's request has committed within the window. -/
def WithinWindow (history : List Event) (scopes : List Scope) (now : ℚ) : Prop :=
  clock.enabled = true ∧ ∃ r t, requestOf scopes = some r ∧
    lastCommit registry history r = some t ∧ now - t < clock.stickyDurationMs

variable {registry}

theorem envOf_concat (scopes : List Scope) (scope : Scope) :
    envOf registry (scopes ++ [scope]) = (envOf registry scopes).enter registry scope := by
  rw [envOf, List.foldl_append]
  rfl

theorem envOf_request (scopes : List Scope) :
    (envOf registry scopes).request = requestOf scopes := by
  induction scopes using List.reverseRecOn with
  | nil => rfl
  | append_singleton scopes scope ih =>
    rw [envOf_concat, requestOf, List.reverse_append, List.reverse_singleton,
      List.singleton_append, List.findSome?_cons, ← requestOf, ← ih]
    cases scope with
    | request id => rfl
    | withWriter =>
      rw [Env.enter]
      split <;> rfl
    | transaction given connection serial =>
      rw [Env.enter]
      split
      · rfl
      · split <;> rfl

theorem envOf_inWriterScope (scopes : List Scope) :
    (envOf registry scopes).inWriterScope = true ↔ .withWriter ∈ scopes := by
  induction scopes using List.reverseRecOn with
  | nil => simp [envOf]
  | append_singleton scopes scope ih =>
    rw [envOf_concat, List.mem_append, List.mem_singleton, ← ih]
    cases scope with
    | request id => simp [Env.enter]
    | withWriter =>
      rw [Env.enter]
      split
      next h => simp [h]
      next => simp
    | transaction given connection serial =>
      rw [Env.enter]
      split
      · simp
      · split <;> simp

/-- A transaction is pinned by the outermost call: its connection is the given one, or one of the
writer pool of its database. -/
theorem envOf_pinned {scopes : List Scope} {pin : PinnedTx}
    (h : (envOf registry scopes).pinned = some pin) :
    ∃ given serial, .transaction given pin.db serial ∈ scopes ∧
      ∃ pair, registry.pairFor pin.db = .ok pair ∧
        pin.opened = given.getD ⟨pair.writer, serial⟩ := by
  induction scopes using List.reverseRecOn with
  | nil => exact nomatch h
  | append_singleton scopes scope ih =>
    have hold : (envOf registry scopes).pinned = some pin → ∃ given serial,
        .transaction given pin.db serial ∈ scopes ++ [scope] ∧
          ∃ pair, registry.pairFor pin.db = .ok pair ∧
            pin.opened = given.getD ⟨pair.writer, serial⟩ := by
      intro hpin
      obtain ⟨given, serial, hmem, hpair⟩ := ih hpin
      exact ⟨given, serial, List.mem_append_left _ hmem, hpair⟩
    rw [envOf_concat] at h
    cases scope with
    | request id => exact hold h
    | withWriter =>
      rw [Env.enter] at h
      split at h <;> exact hold h
    | transaction given connection serial =>
      rw [Env.enter] at h
      split at h
      next => exact hold h
      next =>
        split at h
        next => exact hold h
        next pair hpair =>
          obtain rfl := Option.some.inj h
          exact ⟨given, serial, by simp, pair, hpair, rfl⟩

/-! ## The clock over a history -/

theorem commitsAfter_concat (history : List Event) (e : Event) :
    commitsAfter clock registry (history ++ [e]) =
      step clock registry (commitsAfter clock registry history) e := by
  rw [commitsAfter, List.foldl_append]
  rfl

/-- What the clock has recorded of a request is its last commit. -/
theorem commitsAfter_eq (history : List Event) (r : Nat) :
    commitsAfter clock registry history r =
      if clock.enabled then lastCommit registry history r else none := by
  induction history using List.reverseRecOn with
  | nil => simp [commitsAfter, lastCommit]
  | append_singleton history e ih =>
    rw [commitsAfter_concat, lastCommit, List.reverse_append, List.reverse_singleton,
      List.singleton_append, List.findSome?_cons, ← lastCommit]
    cases e with
    | statement scopes intent now => exact ih
    | transaction scopes ended now =>
      simp only [step]
      by_cases hmarks : ((envOf registry scopes).pinned.isNone && ended.marks) = true
      · rw [if_pos hmarks, hmarks, Bool.true_and, envOf_request]
        cases hrequest : requestOf scopes with
        | none => simpa [WriterStickyClock.mark] using ih
        | some r' =>
          cases henabled : clock.enabled with
          | false =>
            rw [henabled] at ih
            simpa [WriterStickyClock.mark, henabled] using ih
          | true =>
            rw [henabled] at ih
            simp only [WriterStickyClock.mark, henabled, if_pos]
            by_cases hr : r' = r
            · subst hr
              simp
            · have hne : r ≠ r' := fun h => hr h.symm
              rw [Function.update_of_ne hne, ih]
              simp [hr]
      · rw [if_neg hmarks, ih]
        simp [Bool.eq_false_iff.mpr hmarks]

theorem isSticky_iff (history : List Event) (scopes : List Scope) (now : ℚ) :
    clock.isSticky (envOf registry scopes).request now (commitsAfter clock registry history) = true ↔
      WithinWindow clock registry history scopes now := by
  rw [WriterStickyClock.isSticky, WithinWindow, envOf_request]
  cases henabled : clock.enabled with
  | false => simp
  | true =>
    cases hrequest : requestOf scopes with
    | none => simp
    | some r =>
      simp only [Option.bind_some, commitsAfter_eq, henabled]
      cases hlast : lastCommit registry history r with
      | none => simp [hlast]
      | some t => simp [hlast]

/-- Inside a transaction a statement of its database runs on its connection, which is of the
database's writer pool unless it was given. Any other write goes to the writer; any other read goes
there inside `withWriter` and in the window after a commit of its own request, and to the reader
otherwise. -/
theorem route_exact (history : List Event) (scopes : List Scope) (intent : Intent) (now : ℚ) :
    (∀ pin, (envOf registry scopes).pinned = some pin →
        route clock registry history scopes intent now =
          (assertTxDbAgrees intent.db pin.db).map (fun _ => pin.opened.pool) ∧
        ∃ given serial, .transaction given pin.db serial ∈ scopes ∧
          ∃ pair, registry.pairFor pin.db = .ok pair ∧
            pin.opened = given.getD ⟨pair.writer, serial⟩) ∧
      ((envOf registry scopes).pinned = none → ∀ pair, registry.pairFor intent.db = .ok pair →
        (intent.write = true →
          route clock registry history scopes intent now = .ok pair.writer) ∧
        (intent.write = false →
          (.withWriter ∈ scopes ∨ WithinWindow clock registry history scopes now →
            route clock registry history scopes intent now = .ok pair.writer) ∧
          (¬ (.withWriter ∈ scopes ∨ WithinWindow clock registry history scopes now) →
            route clock registry history scopes intent now = .ok pair.reader))) := by
  constructor
  · intro pin hpin
    refine ⟨?_, envOf_pinned hpin⟩
    simp only [route, connectionFor, hpin]
  · intro hpin pair hpair
    have hroute : route clock registry history scopes intent now =
        .ok (if intent.write || ((envOf registry scopes).inWriterScope ||
          clock.isSticky (envOf registry scopes).request now
            (commitsAfter clock registry history)) then pair.writer else pair.reader) := by
      simp only [route, connectionFor, hpin, resolvePool, hpair]
      rfl
    have huse : ((envOf registry scopes).inWriterScope ||
        clock.isSticky (envOf registry scopes).request now
          (commitsAfter clock registry history)) = true ↔
        .withWriter ∈ scopes ∨ WithinWindow clock registry history scopes now := by
      rw [Bool.or_eq_true, envOf_inWriterScope, isSticky_iff]
    rw [hroute]
    constructor
    · intro hwrite
      rw [hwrite, Bool.true_or, if_pos rfl]
    · intro hread
      rw [hread, Bool.false_or]
      constructor
      · intro h
        rw [if_pos (huse.mpr h)]
      · intro h
        rw [if_neg fun htrue => h (huse.mp htrue)]

/-- After a commit outside every request, and after one of another request, a read goes to the
reader. -/
theorem commit_elsewhere :
    let registry : ConnectionRegistry := [(DEFAULT_CONNECTION, ⟨0, 1⟩)]
    route {} registry [.transaction [] ⟨true, none, none⟩ 0] [] ⟨false, none⟩ 0 = .ok 0 ∧
      route {} registry [.transaction [.request 1] ⟨true, none, none⟩ 0] [.request 2]
        ⟨false, none⟩ 0 = .ok 0 := by
  constructor <;> rfl

end LiteDb.Sticky
