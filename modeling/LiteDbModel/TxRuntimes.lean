import LiteDbModel.Lib.Exit
import LiteDbModel.Transaction

/-!
# Transactions in Rust and Go

Both runtimes run a transaction body on one owned connection: a guard releases
it in Rust, a deferred call in Go. The connection goes back to its pool, or it is
destroyed.
-/

namespace LiteDb.TxRuntime
set_option autoImplicit false
open Exit Exit.Comp Run

/-! ## The connection -/

/-- What the server keeps of a connection's transactions: whether one is open, and an isolation level
that is set for the next one. -/
structure Session where
  inTransaction : Bool
  pendingIsolation : Bool
deriving DecidableEq

def Session.clean : Session := ⟨false, false⟩

inductive Control
  | setIsolation
  | begin
  | commit
  | rollback
deriving DecidableEq

/-- A statement that takes effect; inside a transaction the isolation is that transaction's own. -/
def Control.effect : Control → Session → Session
  | .setIsolation, s => ⟨s.inTransaction, !s.inTransaction || s.pendingIsolation⟩
  | .begin, _ => ⟨true, false⟩
  | .commit, s | .rollback, s => ⟨false, s.pendingIsolation⟩

variable {V E : Type}

/-- The answer to a control statement; one that fails may still take effect. -/
inductive Reply (E : Type)
  | ok
  | failed (effect : Bool) (e : E)

inductive BodyEnd (V E : Type)
  | commit (r : V)
  | rollback (r : V)
  | error (e : E)
  | panic

/-- What one attempt meets. -/
structure World (V E : Type) where
  acquire : Option E
  control : Control → Reply E
  body : BodyEnd V E
  /-- No statement of the body has ended the transaction. -/
  stillOpen : Bool
  /-- A statement was in flight when the body ended. -/
  unfinished : Bool

inductive ConnEvent
  | acquired
  | issued (c : Control)
  | settled (commit : Bool)
  | marked
  | released (destroyed : Bool)
deriving DecidableEq

structure TxState where
  session : Session
  /-- The connection is to be destroyed. -/
  poison : Bool
  log : List ConnEvent

abbrev TxM (E α : Type) := Comp TxState E α

inductive TxDecision (V : Type)
  | Commit (r : V)
  | Rollback (r : V)

def Reply.takesEffect : Reply E → Bool
  | .ok => true
  | .failed effect _ => effect

def Reply.isOk : Reply E → Bool
  | .ok => true
  | .failed .. => false

/-- The session after a control statement. -/
def World.after (w : World V E) (c : Control) (s : Session) : Session :=
  if (w.control c).takesEffect then c.effect s else s

variable (w : World V E)

/-- The driver's connection, checked out clean. -/
def acquire : TxM E Unit :=
  match w.acquire with
  | some e => fail e
  | none => update fun s => ⟨.clean, s.poison, s.log ++ [.acquired]⟩

/-- A control statement through the seam. -/
def run (c : Control) : TxM E Unit := fun s =>
  (match w.control c with
    | .ok => .value ()
    | .failed _ e => .error e,
    ⟨w.after c s.session, s.poison, s.log ++ [.issued c]⟩)

def runAll : List Control → TxM E Unit
  | [] => pure ()
  | c :: cs => do
    run w c
    runAll cs

/-- The transaction body. -/
def body : TxM E (TxDecision V) := fun s =>
  let ended (commit : Bool) : TxState :=
    ⟨⟨s.session.inTransaction && w.stillOpen, s.session.pendingIsolation⟩, s.poison,
      s.log ++ [.settled commit]⟩
  match w.body with
  | .commit r => (.value (.Commit r), ended true)
  | .rollback r => (.value (.Rollback r), ended false)
  | .error e => (.error e, ended false)
  | .panic => (.panic, ended false)

def setPoison (poison : Bool) : TxM E Unit := update fun s => { s with poison := poison }

def markSticky (useWriterAfterTransaction : Bool) : TxM E Unit :=
  update fun s => if useWriterAfterTransaction then { s with log := s.log ++ [.marked] } else s

namespace Rust

/-- SET runs before BEGIN on MySQL and after it on PostgreSQL. -/
def isolationPrelude (dialect : Dialect) (isolation : Option IsolationLevel) :
    Option (List Control × List Control) :=
  match isolation, dialect with
  | none, _ => some ([], [])
  | some _, .postgres => some ([], [.setIsolation])
  | some _, .mysql => some ([.setIsolation], [])
  | some _, .sqlite => none

/-- `TxConnection::release`: the single connection of an SQLite driver stays in use. -/
def release (dialect : Dialect) (s : TxState) : TxState :=
  { s with log := s.log ++ [.released (s.poison && dialect != .sqlite)] }

/-- `TxGuard::keep` -/
def keep : TxM E Unit := setPoison false

def rollbackOrPoison : TxM E Unit := do
  match ← attempt (run w .rollback) with
  | .value _ => keep
  | _ => pure ()

/-- What follows the prelude. -/
def settle (useWriterAfterTransaction : Bool) : TxM E V := do
  match ← attempt (body w) with
  | .panic =>
    rollbackOrPoison w
    panicking
  | .value (.Commit r) =>
    match ← attempt (run w .commit) with
    | .value _ =>
      keep
      markSticky useWriterAfterTransaction
      pure r
    | .error e =>
      let _ ← attempt (run w .rollback)
      fail e
    | .panic => panicking
  | .value (.Rollback r) =>
    match ← attempt (run w .rollback) with
    | .value _ =>
      keep
      pure r
    | .error e => fail e
    | .panic => panicking
  | .error e =>
    rollbackOrPoison w
    fail e

def withTransactionDecidedIsolated (dialect : Dialect) (beforeBegin afterBegin : List Control)
    (useWriterAfterTransaction : Bool) : TxM E V := do
  acquire w
  setPoison true
  ensuring (do
    runAll w (beforeBegin ++ .begin :: afterBegin)
    settle w useWriterAfterTransaction) (release dialect)

/-- One attempt with the isolation's prelude. -/
def transactionDecidedOn (unsupported : E) (dialect : Dialect) (isolation : Option IsolationLevel)
    (useWriterAfterTransaction : Bool) : TxM E V :=
  match isolationPrelude dialect isolation with
  | none => fail unsupported
  | some (beforeBegin, afterBegin) =>
    withTransactionDecidedIsolated w dialect beforeBegin afterBegin useWriterAfterTransaction

end Rust

namespace Go

def BeginStatements (dialect : Dialect) (isolation : Option IsolationLevel) : Option (List Control) :=
  match isolation, dialect with
  | none, _ => some [.begin]
  | some _, .postgres => some [.begin]
  | some _, .mysql => some [.setIsolation, .begin]
  | some _, .sqlite => none

/-- The failures that the runtime makes of others. -/
structure Failures (E : Type) where
  unsupported : E
  transactionClosed : Option E → E
  atCommit : E → E

/-- The release hook of `acquireTxConnection`: a pool of the routing ignores `destroy`. -/
def release (routed : Bool) (s : TxState) : TxState :=
  { s with log := s.log ++ [.released (s.poison && !routed)] }

/-- `ROLLBACK`, whose failure poisons the connection. -/
def rollback : TxM E (Exit.Outcome E Unit) := do
  match ← attempt (run w .rollback) with
  | .value r => pure (.value r)
  | failed =>
    setPoison true
    pure failed

/-- What follows BEGIN. -/
def settle (F : Failures E) (useWriterAfterTransaction : Bool) : TxM E V := do
  match ← attempt (body w) with
  | .panic => panicking
  | .error e =>
    let _ ← rollback w
    if w.unfinished then fail (F.transactionClosed (some e)) else fail e
  | .value decision =>
    if w.unfinished then
      let _ ← rollback w
      fail (F.transactionClosed none)
    else
      match decision with
      | .Rollback r =>
        match ← rollback w with
        | .value _ => pure r
        | .error e => fail e
        | .panic => panicking
      | .Commit r =>
        match ← attempt (run w .commit) with
        | .value _ =>
          markSticky useWriterAfterTransaction
          pure r
        | .error e =>
          let _ ← rollback w
          fail (F.atCommit e)
        | .panic => panicking

def WithTransactionDecidedIsolated (F : Failures E) (routed : Bool) (dialect : Dialect)
    (isolation : Option IsolationLevel) (useWriterAfterTransaction : Bool) : TxM E V :=
  match BeginStatements dialect isolation with
  | none => fail F.unsupported
  | some begins => do
    acquire w
    setPoison false
    ensuring (do
      runAll w begins
      settle w F useWriterAfterTransaction) (release routed)

end Go

/-! ## What a connection is owed -/

/-- An event of the transaction itself. -/
def ConnEvent.inner : ConnEvent → Bool
  | .acquired | .released _ => false
  | _ => true

/-- COMMIT stands only after a body that decided to commit. -/
def CommitDecided (before : List ConnEvent) (e : ConnEvent) : Prop :=
  e = .issued .commit → .settled true ∈ before

/-- The connection is released once, at the end, and is destroyed unless its session is clean. -/
structure Safe (s : TxState) : Prop where
  released : s.log = [] ∨ ∃ inner destroyed,
    s.log = .acquired :: (inner ++ [.released destroyed]) ∧ ∀ e ∈ inner, e.inner = true
  committed : Logged CommitDecided s.log
  reusable : .released false ∈ s.log → s.session = .clean

def TxState.start : TxState := ⟨.clean, false, []⟩

section Conditions
variable {V E : Type} (w : World V E)

def World.preludeOk (cs : List Control) : Bool := cs.all fun c => (w.control c).isOk

/-- The session after control statements, up to the first that fails. -/
def World.afterAll : List Control → Session → Session
  | [], s => s
  | c :: cs, s => if (w.control c).isOk then afterAll cs (w.after c s) else w.after c s

def World.decidesCommit : Bool :=
  match w.body with
  | .commit _ => true
  | _ => false

def World.panics : Bool :=
  match w.body with
  | .panic => true
  | _ => false

/-- The transaction is still open after the body, and neither COMMIT nor ROLLBACK ends it. -/
def Rust.leftOpen : Bool :=
  w.stillOpen && !(w.decidesCommit && (w.control .commit).takesEffect) &&
    !(w.control .rollback).takesEffect

/-- In Go a panic passes both by, and a statement in flight passes by COMMIT. -/
def Go.leftOpen : Bool :=
  w.stillOpen && (w.panics ||
    (!(w.decidesCommit && !w.unfinished && (w.control .commit).takesEffect) &&
      !(w.control .rollback).takesEffect))

/-- The single connection of SQLite is left clean. -/
def Rust.Ends (dialect : Dialect) (isolation : Option IsolationLevel) : Prop :=
  ∀ prelude, isolationPrelude dialect isolation = some prelude → w.acquire = none →
    dialect = .sqlite →
    if w.preludeOk (prelude.1 ++ .begin :: prelude.2) then leftOpen w = false
    else w.afterAll (prelude.1 ++ .begin :: prelude.2) .clean = .clean

/-- What fails before the body leaves the session clean, a body that panics has no open transaction,
and a connection of a routing's pool is left clean. -/
def Go.Ends (routed : Bool) (dialect : Dialect) (isolation : Option IsolationLevel) : Prop :=
  ∀ begins, BeginStatements dialect isolation = some begins → w.acquire = none →
    if w.preludeOk begins then
      if w.panics then w.stillOpen = false else routed = true → leftOpen w = false
    else w.afterAll begins .clean = .clean

end Conditions

/-! ## Steps -/

section Steps
variable {V E : Type} {w : World V E} {s : TxState}

/-- The connection is held: so far only events of the transaction, and COMMIT in its place. -/
structure Held (s : TxState) : Prop where
  acquired : ∃ inner, s.log = .acquired :: inner ∧ ∀ e ∈ inner, e.inner = true
  committed : Logged CommitDecided s.log

theorem Held.append {e : ConnEvent} (h : Held s) (hinner : e.inner = true)
    (hcommit : CommitDecided s.log e) (session : Session) (poison : Bool) :
    Held ⟨session, poison, s.log ++ [e]⟩ := by
  obtain ⟨inner, hlog, hall⟩ := h.acquired
  refine ⟨⟨inner ++ [e], ?_, ?_⟩, logged_append.mpr ⟨h.committed, hcommit⟩⟩
  · change s.log ++ [e] = _
    rw [hlog, List.cons_append]
  · intro d hd
    rcases List.mem_append.mp hd with hd | hd
    · exact hall d hd
    · rw [List.mem_singleton.mp hd]
      exact hinner

theorem Held.poison (h : Held s) (poison : Bool) : Held { s with poison := poison } :=
  ⟨h.acquired, h.committed⟩

/-- A held connection is released by the next event. -/
theorem Held.release (h : Held s) (destroyed : Bool) (session : Session) (poison : Bool)
    (hclean : destroyed = false → session = .clean) :
    Safe ⟨session, poison, s.log ++ [.released destroyed]⟩ := by
  obtain ⟨inner, hlog, hall⟩ := h.acquired
  refine ⟨Or.inr ⟨inner, destroyed, ?_, hall⟩, logged_append.mpr ⟨h.committed, ?_⟩, ?_⟩
  · change s.log ++ [_] = _
    rw [hlog, List.cons_append]
  · intro heq
    cases heq
  · intro hmem
    apply hclean
    rcases List.mem_append.mp hmem with hmem | hmem
    · rw [hlog] at hmem
      rcases List.mem_cons.mp hmem with heq | hmem
      · cases heq
      · cases hall _ hmem
    · cases List.mem_singleton.mp hmem
      rfl

theorem Safe.last (h : Safe ⟨s.session, s.poison, s.log ++ [.released false]⟩) :
    s.session = .clean :=
  h.reusable (List.mem_append_right _ List.mem_cons_self)

/-- The exit of a control statement. -/
def Reply.exit : Reply E → Exit.Outcome E Unit
  | .ok => .value ()
  | .failed _ e => .error e

theorem wp_run {c : Control} {post : Exit.Outcome E Unit → TxState → Prop} :
    wp (run w c) post s ↔
      post (w.control c).exit ⟨w.after c s.session, s.poison, s.log ++ [.issued c]⟩ := Iff.rfl

theorem wp_runAll (cs : List Control) (hcs : .commit ∉ cs) (h : Held s) :
    wp (runAll w cs) (fun r s' => Held s' ∧ s'.poison = s.poison ∧
      s'.session = w.afterAll cs s.session ∧
      if w.preludeOk cs then r = .value () else ∃ e, r = .error e) s := by
  induction cs generalizing s with
  | nil => exact ⟨h, rfl, rfl, rfl⟩
  | cons c cs ih =>
    rw [List.mem_cons, not_or] at hcs
    have hheld := h.append (e := .issued c) rfl (fun heq => absurd (ConnEvent.issued.inj heq).symm hcs.1)
      (w.after c s.session) s.poison
    rw [runAll, wp_bind, wp_run]
    cases hc : w.control c with
    | ok =>
      have hok : (w.control c).isOk = true := by rw [hc]; rfl
      have hrest := ih hcs.2 hheld
      rw [World.afterAll, if_pos hok, World.preludeOk, List.all_cons, hok, Bool.true_and]
      exact hrest
    | failed effect e =>
      have hfail : (w.control c).isOk = false := by rw [hc]; rfl
      rw [World.afterAll, if_neg (Bool.eq_false_iff.mp hfail), World.preludeOk, List.all_cons, hfail,
        Bool.false_and]
      exact ⟨hheld, rfl, rfl, e, rfl⟩

end Steps

/-! ## The end of a transaction -/

section Ends
variable {V E : Type} {w : World V E} {s : TxState}

theorem after_rollback (session : Session) : w.after .rollback session =
    ⟨session.inTransaction && !(w.control .rollback).takesEffect, session.pendingIsolation⟩ := by
  rw [World.after]
  cases (w.control .rollback).takesEffect <;> simp [Control.effect]

theorem after_commit (session : Session) : w.after .commit session =
    ⟨session.inTransaction && !(w.control .commit).takesEffect, session.pendingIsolation⟩ := by
  rw [World.after]
  cases (w.control .commit).takesEffect <;> simp [Control.effect]

theorem Held.control (h : Held s) {c : Control} (hc : c = .commit → .settled true ∈ s.log)
    (session : Session) (poison : Bool) : Held ⟨session, poison, s.log ++ [.issued c]⟩ := by
  refine h.append rfl ?_ session poison
  intro heq
  exact hc (ConnEvent.issued.inj heq)

/-- The state that a ROLLBACK leaves; it stays poisoned where the ROLLBACK fails. -/
def rolledBack (w : World V E) (s : TxState) (poison : Bool) : TxState :=
  ⟨⟨s.session.inTransaction && !(w.control .rollback).takesEffect, s.session.pendingIsolation⟩, poison,
    s.log ++ [.issued .rollback]⟩

theorem wp_rollback {post : Exit.Outcome E Unit → TxState → Prop} :
    wp (run w .rollback) post s ↔ post (w.control .rollback).exit (rolledBack w s s.poison) := by
  rw [wp_run, after_rollback]
  rfl

theorem Rust.wp_rollbackOrPoison {post : Exit.Outcome E Unit → TxState → Prop} :
    wp (rollbackOrPoison w) post s ↔
      post (.value ()) (rolledBack w s (s.poison && !(w.control .rollback).isOk)) := by
  rw [rollbackOrPoison, wp_bind, wp_attempt, wp_rollback]
  cases hr : w.control .rollback with
  | ok =>
    rw [Reply.isOk, Bool.not_true, Bool.and_false]
    exact Iff.rfl
  | failed effect e =>
    rw [Reply.isOk, Bool.not_false, Bool.and_true]
    exact Iff.rfl

theorem Go.wp_rollback {post : Exit.Outcome E (Exit.Outcome E Unit) → TxState → Prop} :
    wp (rollback w) post s ↔ post (.value (w.control .rollback).exit)
      (rolledBack w s (s.poison || !(w.control .rollback).isOk)) := by
  rw [rollback, wp_bind, wp_attempt, TxRuntime.wp_rollback]
  cases hr : w.control .rollback with
  | ok =>
    rw [Reply.isOk, Bool.not_true, Bool.or_false]
    exact Iff.rfl
  | failed effect e =>
    rw [Reply.isOk, Bool.not_false, Bool.or_true]
    exact Iff.rfl

end Ends

section Settling
variable {V E : Type} {w : World V E} {s : TxState}

def World.bodyExit (w : World V E) : Exit.Outcome E (TxDecision V) :=
  match w.body with
  | .commit r => .value (.Commit r)
  | .rollback r => .value (.Rollback r)
  | .error e => .error e
  | .panic => .panic

def bodyEnded (w : World V E) (s : TxState) : TxState :=
  ⟨⟨s.session.inTransaction && w.stillOpen, s.session.pendingIsolation⟩, s.poison,
    s.log ++ [.settled w.decidesCommit]⟩

theorem wp_body {post : Exit.Outcome E (TxDecision V) → TxState → Prop} :
    wp (body w) post s ↔ post w.bodyExit (bodyEnded w s) := by
  rw [wp, body, World.bodyExit, bodyEnded, World.decidesCommit]
  cases w.body <;> exact Iff.rfl

theorem Held.body (h : Held s) : Held (bodyEnded w s) := by
  apply h.append rfl
  intro heq
  cases heq

/-- The connection of a settled transaction: it is poisoned where the transaction is left open. -/
structure Settled (leftOpen pending : Bool) (s : TxState) : Prop where
  held : Held s
  session : s.session = ⟨leftOpen, pending⟩
  poisoned : s.poison = false → leftOpen = false

theorem settled_rolledBack {left poison : Bool} (h : Held s)
    (hopen : left = (s.session.inTransaction && !(w.control .rollback).takesEffect))
    (hpoison : poison = false → left = false) :
    Settled left s.session.pendingIsolation (rolledBack w s poison) := by
  subst hopen
  refine ⟨h.control ?_ _ _, rfl, hpoison⟩
  intro heq
  cases heq

theorem isOk_takesEffect {r : Reply E} (h : r.isOk = true) : r.takesEffect = true := by
  cases r with
  | ok => rfl
  | failed effect e => cases h

/-- The state after COMMIT. -/
def committed (w : World V E) (s : TxState) : TxState :=
  ⟨⟨s.session.inTransaction && !(w.control .commit).takesEffect, s.session.pendingIsolation⟩, s.poison,
    s.log ++ [.issued .commit]⟩

theorem wp_commit {post : Exit.Outcome E Unit → TxState → Prop} :
    wp (run w .commit) post s ↔ post (w.control .commit).exit (committed w s) := by
  rw [wp_run, after_commit]
  rfl

theorem Held.commit (h : Held s) (hdecides : w.decidesCommit = true) :
    Held (TxRuntime.committed w (bodyEnded w s)) := by
  apply h.body.control
  intro _
  rw [bodyEnded, hdecides]
  exact List.mem_append_right _ List.mem_cons_self

theorem Held.marked (h : Held s) (use : Bool) :
    Held (if use then { s with log := s.log ++ [.marked] } else s) := by
  cases use with
  | false => exact h
  | true =>
    apply h.append rfl
    intro heq
    cases heq

theorem markSticky_state (use : Bool) (s : TxState) :
    (if use then { s with log := s.log ++ [.marked] } else s).session = s.session ∧
      (if use then { s with log := s.log ++ [.marked] } else s).poison = s.poison := by
  cases use <;> exact ⟨rfl, rfl⟩

/-- A rollback that is kept when it succeeds leaves the connection clean or poisoned. -/
theorem Rust.settled_rollback (h : Held s) (hopen : s.session.inTransaction = true)
    (hpoison : s.poison = true) (hdecides : w.decidesCommit = false) :
    Settled (leftOpen w) s.session.pendingIsolation
      (rolledBack w (bodyEnded w s) (s.poison && !(w.control .rollback).isOk)) := by
  have hleft : leftOpen w = (w.stillOpen && !(w.control .rollback).takesEffect) := by
    rw [leftOpen, hdecides, Bool.false_and, Bool.not_false, Bool.and_true]
  apply settled_rolledBack (w := w) (s := bodyEnded w s) h.body
  · rw [hleft, bodyEnded, hopen, Bool.true_and]
  · intro hkeep
    rw [hpoison, Bool.true_and, Bool.not_eq_false'] at hkeep
    rw [hleft, isOk_takesEffect hkeep, Bool.not_true, Bool.and_false]

theorem Rust.wp_settle (h : Held s) (hopen : s.session.inTransaction = true)
    (hpoison : s.poison = true) (use : Bool) :
    wp (settle w use) (fun _ s' => Settled (leftOpen w) s.session.pendingIsolation s') s := by
  rw [settle, wp_attempt_bind, wp_body]
  cases hb : w.body with
  | commit r =>
    have hdecides : w.decidesCommit = true := by rw [World.decidesCommit, hb]
    have hleft : leftOpen w = (w.stillOpen && !(w.control .commit).takesEffect &&
        !(w.control .rollback).takesEffect) := by
      rw [leftOpen, hdecides, Bool.true_and]
    have hheld : Held (committed w (bodyEnded w s)) := h.commit hdecides
    rw [World.bodyExit, hb]
    dsimp only
    rw [wp_attempt_bind, wp_commit]
    cases hc : w.control .commit with
    | ok =>
      have hended : leftOpen w = false := by
        rw [hleft, hc, Reply.takesEffect, Bool.not_true, Bool.and_false, Bool.false_and]
      obtain ⟨hsession, _⟩ := markSticky_state use { committed w (bodyEnded w s) with poison := false }
      refine ⟨(hheld.poison false).marked use, hsession.trans ?_, fun _ => hended⟩
      rw [hended, committed, hc, Reply.takesEffect, Bool.not_true, Bool.and_false]
      rfl
    | failed effect e =>
      dsimp only [Reply.exit]
      rw [wp_attempt_bind, wp_rollback]
      apply settled_rolledBack hheld
      · rw [hleft, committed, bodyEnded, hopen, Bool.true_and]
      · intro hkeep
        rw [show (committed w (bodyEnded w s)).poison = s.poison from rfl, hpoison] at hkeep
        cases hkeep
  | rollback r =>
    have hdecides : w.decidesCommit = false := by rw [World.decidesCommit, hb]
    have hsettled := settled_rollback h hopen hpoison hdecides
    rw [World.bodyExit, hb]
    dsimp only
    rw [wp_attempt_bind, wp_rollback]
    cases hr : w.control .rollback with
    | ok =>
      rw [hr, Reply.isOk, Bool.not_true, Bool.and_false] at hsettled
      exact hsettled
    | failed effect e =>
      rw [hr, Reply.isOk, Bool.not_false, Bool.and_true] at hsettled
      exact hsettled
  | error e =>
    have hdecides : w.decidesCommit = false := by rw [World.decidesCommit, hb]
    rw [World.bodyExit, hb]
    dsimp only
    rw [wp_bind, wp_rollbackOrPoison]
    exact settled_rollback h hopen hpoison hdecides
  | panic =>
    have hdecides : w.decidesCommit = false := by rw [World.decidesCommit, hb]
    rw [World.bodyExit, hb]
    dsimp only
    rw [wp_bind, wp_rollbackOrPoison]
    exact settled_rollback h hopen hpoison hdecides

end Settling

section Go
variable {V E : Type} {w : World V E} {s : TxState}

/-- A rollback whose failure poisons the connection leaves it clean or poisoned. -/
theorem Go.settled_rollback (h : Held s) (hopen : s.session.inTransaction = true)
    (hpanics : w.panics = false) (hcommit : (w.decidesCommit && !w.unfinished) = false) :
    Settled (leftOpen w) s.session.pendingIsolation
      (rolledBack w (bodyEnded w s) (s.poison || !(w.control .rollback).isOk)) := by
  have hleft : leftOpen w = (w.stillOpen && !(w.control .rollback).takesEffect) := by
    rw [leftOpen, hpanics, hcommit, Bool.false_and, Bool.not_false, Bool.true_and, Bool.false_or]
  apply settled_rolledBack (w := w) (s := bodyEnded w s) h.body
  · rw [hleft, bodyEnded, hopen, Bool.true_and]
  · intro hkeep
    rw [Bool.or_eq_false_iff, Bool.not_eq_false'] at hkeep
    rw [hleft, isOk_takesEffect hkeep.2, Bool.not_true, Bool.and_false]

theorem Go.wp_settle_panic (F : Failures E) (h : Held s) (hopen : s.session.inTransaction = true)
    (hpanics : w.panics = true) (use : Bool) :
    wp (settle w F use) (fun _ s' => Held s' ∧
      s'.session = ⟨w.stillOpen, s.session.pendingIsolation⟩ ∧ s'.poison = s.poison) s := by
  rw [World.panics] at hpanics
  rw [settle, wp_attempt_bind, wp_body, World.bodyExit]
  cases hb : w.body with
  | panic =>
    have hsession : (bodyEnded w s).session = ⟨w.stillOpen, s.session.pendingIsolation⟩ := by
      rw [bodyEnded, hopen, Bool.true_and]
    exact ⟨h.body, hsession, rfl⟩
  | _ =>
    rw [hb] at hpanics
    cases hpanics

theorem Go.wp_settle (F : Failures E) (h : Held s) (hopen : s.session.inTransaction = true)
    (hpanics : w.panics = false) (use : Bool) :
    wp (settle w F use) (fun _ s' => Settled (leftOpen w) s.session.pendingIsolation s') s := by
  rw [settle, wp_attempt_bind, wp_body]
  cases hb : w.body with
  | panic =>
    rw [World.panics, hb] at hpanics
    cases hpanics
  | error e =>
    have hcommit : (w.decidesCommit && !w.unfinished) = false := by
      rw [World.decidesCommit, hb, Bool.false_and]
    rw [World.bodyExit, hb]
    dsimp only
    rw [wp_bind, wp_rollback]
    have hsettled := settled_rollback h hopen hpanics hcommit
    cases hu : w.unfinished with
    | false => exact hsettled
    | true => exact hsettled
  | rollback r =>
    have hcommit : (w.decidesCommit && !w.unfinished) = false := by
      rw [World.decidesCommit, hb, Bool.false_and]
    have hsettled := settled_rollback h hopen hpanics hcommit
    rw [World.bodyExit, hb]
    dsimp only
    cases hu : w.unfinished with
    | true =>
      rw [if_pos rfl, wp_bind, wp_rollback]
      exact hsettled
    | false =>
      rw [if_neg Bool.false_ne_true, wp_bind, wp_rollback]
      cases hr : w.control .rollback with
      | ok =>
        rw [hr] at hsettled
        exact hsettled
      | failed effect e =>
        rw [hr] at hsettled
        exact hsettled
  | commit r =>
    have hdecides : w.decidesCommit = true := by rw [World.decidesCommit, hb]
    rw [World.bodyExit, hb]
    dsimp only
    cases hu : w.unfinished with
    | true =>
      have hcommit : (w.decidesCommit && !w.unfinished) = false := by
        rw [hu, Bool.not_true, Bool.and_false]
      rw [if_pos rfl, wp_bind, wp_rollback]
      exact settled_rollback h hopen hpanics hcommit
    | false =>
      have hleft : leftOpen w = (w.stillOpen && (!(w.control .commit).takesEffect &&
          !(w.control .rollback).takesEffect)) := by
        rw [leftOpen, hpanics, hdecides, hu, Bool.false_or, Bool.not_false, Bool.true_and, Bool.true_and]
      have hheld : Held (committed w (bodyEnded w s)) := h.commit hdecides
      rw [if_neg Bool.false_ne_true, wp_attempt_bind, wp_commit]
      cases hc : w.control .commit with
      | ok =>
        have hended : leftOpen w = false := by
          rw [hleft, hc, Reply.takesEffect, Bool.not_true, Bool.false_and, Bool.and_false]
        obtain ⟨hsession, _⟩ := markSticky_state use (committed w (bodyEnded w s))
        refine ⟨hheld.marked use, hsession.trans ?_, fun _ => hended⟩
        rw [hended, committed, hc, Reply.takesEffect, Bool.not_true, Bool.and_false]
        rfl
      | failed effect e =>
        dsimp only [Reply.exit]
        rw [wp_bind, wp_rollback]
        apply settled_rolledBack hheld
        · rw [hleft, committed, bodyEnded, hopen, Bool.true_and, Bool.and_assoc]
        · intro hkeep
          rw [Bool.or_eq_false_iff, Bool.not_eq_false'] at hkeep
          rw [hleft, isOk_takesEffect hkeep.2, Bool.not_true, Bool.and_false, Bool.and_false]

end Go

/-! ## Whole transactions -/

section Whole
variable {V E : Type} {w : World V E} {s : TxState}

theorem afterAll_ok {cs : List Control} (h : w.preludeOk cs = true) (session : Session) :
    w.afterAll cs session = cs.foldl (fun s c => c.effect s) session := by
  induction cs generalizing session with
  | nil => rfl
  | cons c cs ih =>
    rw [World.preludeOk, List.all_cons, Bool.and_eq_true] at h
    have hafter : w.after c session = c.effect session := by
      rw [World.after, if_pos (isOk_takesEffect h.1)]
    rw [World.afterAll, if_pos h.1, hafter]
    exact ih h.2 (c.effect session)

/-- A checked-out connection. -/
def checkedOut (poison : Bool) : TxState := ⟨.clean, poison, [.acquired]⟩

theorem held_checkedOut (poison : Bool) : Held (checkedOut poison) := by
  refine ⟨⟨[], rfl, ?_⟩, ?_⟩
  · intro e he
    cases he
  · have hlogged : Logged CommitDecided ([] ++ [.acquired]) := by
      refine logged_append.mpr ⟨.nil, ?_⟩
      intro heq
      cases heq
    exact hlogged

/-- A transaction begins with a connection that is checked out clean. -/
theorem wp_checkedOut {x : TxM E V} {cleanup : TxState → TxState} {poison : Bool}
    {post : Exit.Outcome E V → TxState → Prop} (hacquire : w.acquire = none) :
    wp (acquire w >>= fun _ => setPoison poison >>= fun _ => ensuring x cleanup) post .start ↔
      wp x (fun r s' => post r (cleanup s')) (checkedOut poison) := by
  rw [wp_bind, acquire, hacquire]
  exact Iff.rfl

/-- No connection, no event. -/
theorem not_acquired {x : Unit → TxM E V} {e : E} (hacquire : w.acquire = some e) :
    ((acquire w >>= x : TxM E V) .start).2 = .start := by
  change (andThen (acquire w) x .start).2 = _
  rw [acquire, hacquire]
  rfl

/-- Releasing a held connection is safe when it is destroyed or clean. -/
theorem safe_release_iff (h : Held s) (destroyed : Bool) :
    Safe { s with log := s.log ++ [.released destroyed] } ↔
      (destroyed = false → s.session = .clean) := by
  constructor
  · rintro hsafe rfl
    exact hsafe.last
  · intro hclean
    exact h.release destroyed s.session s.poison hclean

theorem safe_start : Safe .start := by
  refine ⟨Or.inl rfl, .nil, ?_⟩
  intro hmem
  cases hmem

theorem session_clean {left : Bool} : (⟨left, false⟩ : Session) = .clean ↔ left = false := by
  cases left <;> decide

/-- Control statements before the body, and then the body's part. -/
theorem wp_prelude {cs : List Control} {rest : TxM E V} {post : Exit.Outcome E V → TxState → Prop}
    (hcs : .commit ∉ cs) (h : Held s)
    (hok : w.preludeOk cs = true → ∀ s', Held s' → s'.poison = s.poison →
      s'.session = w.afterAll cs s.session → wp rest post s')
    (hfail : w.preludeOk cs = false → ∀ e s', Held s' → s'.poison = s.poison →
      s'.session = w.afterAll cs s.session → post (.error e) s') :
    wp (runAll w cs >>= fun _ => rest) post s := by
  rw [wp_bind]
  apply wp_mono _ (wp_runAll cs hcs h)
  rintro r s' ⟨hheld, hpoison, hsession, hexit⟩
  cases hcase : w.preludeOk cs with
  | true =>
    rw [hcase, if_pos rfl] at hexit
    subst hexit
    exact hok hcase s' hheld hpoison hsession
  | false =>
    rw [hcase, if_neg Bool.false_ne_true] at hexit
    obtain ⟨e, rfl⟩ := hexit
    exact hfail hcase e s' hheld hpoison hsession

theorem Rust.prelude_session {dialect : Dialect} {isolation : Option IsolationLevel}
    {prelude : List Control × List Control} (h : isolationPrelude dialect isolation = some prelude) :
    (prelude.1 ++ .begin :: prelude.2).foldl (fun s c => c.effect s) .clean = ⟨true, false⟩ ∧
      .commit ∉ prelude.1 ++ .begin :: prelude.2 := by
  cases isolation with
  | none =>
    obtain rfl := Option.some.inj h
    exact ⟨rfl, by decide⟩
  | some level =>
    cases dialect with
    | sqlite => cases h
    | _ =>
      obtain rfl := Option.some.inj h
      exact ⟨rfl, by decide⟩

theorem Rust.safe_iff (w : World V E) (unsupported : E) (dialect : Dialect)
    (isolation : Option IsolationLevel) (use : Bool) :
    Safe (transactionDecidedOn w unsupported dialect isolation use .start).2 ↔
      Ends w dialect isolation := by
  cases hprelude : isolationPrelude dialect isolation with
  | none =>
    rw [transactionDecidedOn, hprelude]
    refine iff_of_true safe_start ?_
    intro prelude heq
    rw [hprelude] at heq
    cases heq
  | some prelude =>
    cases hacquire : w.acquire with
    | some e =>
      have hend : (transactionDecidedOn w unsupported dialect isolation use .start).2 = .start := by
        rw [transactionDecidedOn, hprelude]
        exact not_acquired hacquire
      rw [hend]
      refine iff_of_true safe_start ?_
      intro _ _ hnone
      rw [hacquire] at hnone
      cases hnone
    | none =>
      obtain ⟨hsession, hcs⟩ := prelude_session hprelude
      have hends : Ends w dialect isolation ↔ (dialect = .sqlite →
          if w.preludeOk (prelude.1 ++ .begin :: prelude.2) then leftOpen w = false
          else w.afterAll (prelude.1 ++ .begin :: prelude.2) .clean = .clean) := by
        constructor
        · intro h
          exact h prelude hprelude hacquire
        · intro h prelude' heq _
          rw [hprelude] at heq
          obtain rfl := Option.some.inj heq
          exact h
      have hstart : wp (transactionDecidedOn w unsupported dialect isolation use)
          (fun _ s' => Safe s' ↔ Ends w dialect isolation) .start := by
        rw [transactionDecidedOn, hprelude]
        change wp (withTransactionDecidedIsolated w dialect prelude.1 prelude.2 use) _ _
        rw [withTransactionDecidedIsolated, wp_checkedOut hacquire]
        apply wp_prelude hcs (held_checkedOut true)
        · intro hok s' hheld hpoison hs'
          rw [afterAll_ok hok] at hs'
          have hopen : s'.session = ⟨true, false⟩ := hs'.trans hsession
          apply wp_mono _ (wp_settle hheld (by rw [hopen]) hpoison use)
          intro r t ht
          rw [hopen] at ht
          rw [release, safe_release_iff ht.held, ht.session, session_clean, hends, hok, if_pos rfl]
          by_cases hd : dialect = .sqlite
          · subst hd
            simp
          · have hbne : (dialect != .sqlite) = true := bne_iff_ne.mpr hd
            rw [hbne, Bool.and_true]
            exact iff_of_true ht.poisoned (fun heq => absurd heq hd)
        · intro hfail e s' hheld hpoison hs'
          rw [release, safe_release_iff hheld, hs', hends, hfail, if_neg Bool.false_ne_true, hpoison]
          by_cases hd : dialect = .sqlite
          · subst hd
            simp [checkedOut]
          · have hbne : (dialect != .sqlite) = true := bne_iff_ne.mpr hd
            rw [hbne, Bool.and_true]
            refine iff_of_true ?_ (fun heq => absurd heq hd)
            intro heq
            cases heq
      exact hstart

theorem Go.begins_session {dialect : Dialect} {isolation : Option IsolationLevel}
    {begins : List Control} (h : BeginStatements dialect isolation = some begins) :
    begins.foldl (fun s c => c.effect s) .clean = ⟨true, false⟩ ∧ .commit ∉ begins := by
  cases isolation with
  | none =>
    obtain rfl := Option.some.inj h
    exact ⟨rfl, by decide⟩
  | some level =>
    cases dialect with
    | sqlite => cases h
    | _ =>
      obtain rfl := Option.some.inj h
      exact ⟨rfl, by decide⟩

theorem Go.safe_iff (w : World V E) (F : Failures E) (routed : Bool) (dialect : Dialect)
    (isolation : Option IsolationLevel) (use : Bool) :
    Safe (WithTransactionDecidedIsolated w F routed dialect isolation use .start).2 ↔
      Ends w routed dialect isolation := by
  cases hbegins : BeginStatements dialect isolation with
  | none =>
    rw [WithTransactionDecidedIsolated, hbegins]
    refine iff_of_true safe_start ?_
    intro begins heq
    rw [hbegins] at heq
    cases heq
  | some begins =>
    cases hacquire : w.acquire with
    | some e =>
      have hend : (WithTransactionDecidedIsolated w F routed dialect isolation use .start).2 =
          .start := by
        rw [WithTransactionDecidedIsolated, hbegins]
        exact not_acquired hacquire
      rw [hend]
      refine iff_of_true safe_start ?_
      intro _ _ hnone
      rw [hacquire] at hnone
      cases hnone
    | none =>
      obtain ⟨hsession, hcs⟩ := begins_session hbegins
      have hends : Ends w routed dialect isolation ↔ (if w.preludeOk begins then
            if w.panics then w.stillOpen = false else routed = true → leftOpen w = false
          else w.afterAll begins .clean = .clean) := by
        constructor
        · intro h
          exact h begins hbegins hacquire
        · intro h begins' heq _
          rw [hbegins] at heq
          obtain rfl := Option.some.inj heq
          exact h
      have hstart : wp (WithTransactionDecidedIsolated w F routed dialect isolation use)
          (fun _ s' => Safe s' ↔ Ends w routed dialect isolation) .start := by
        rw [WithTransactionDecidedIsolated, hbegins]
        dsimp only
        rw [wp_checkedOut hacquire]
        apply wp_prelude hcs (held_checkedOut false)
        · intro hok s' hheld hpoison hs'
          rw [afterAll_ok hok] at hs'
          have hopen : s'.session = ⟨true, false⟩ := hs'.trans hsession
          rw [hends, hok, if_pos rfl]
          cases hpanics : w.panics with
          | true =>
            apply wp_mono _ (wp_settle_panic F hheld (by rw [hopen]) hpanics use)
            rintro r t ⟨ht, htsession, htpoison⟩
            have hkept : (t.poison && !routed) = false := by
              rw [htpoison, hpoison]
              exact Bool.false_and _
            rw [hopen] at htsession
            rw [release, safe_release_iff ht, htsession, session_clean, hkept, if_pos rfl]
            exact forall_prop_of_true rfl
          | false =>
            apply wp_mono _ (wp_settle F hheld (by rw [hopen]) hpanics use)
            intro r t ht
            rw [hopen] at ht
            rw [release, safe_release_iff ht.held, ht.session, session_clean,
              if_neg Bool.false_ne_true]
            cases routed with
            | true =>
              rw [Bool.not_true, Bool.and_false]
              exact ⟨fun hleft _ => hleft rfl, fun hleft _ => hleft rfl⟩
            | false =>
              rw [Bool.not_false, Bool.and_true]
              exact iff_of_true ht.poisoned (fun heq => absurd heq Bool.false_ne_true)
        · intro hfail e s' hheld hpoison hs'
          have hkept : (s'.poison && !routed) = false := by
            rw [hpoison]
            exact Bool.false_and _
          rw [release, safe_release_iff hheld, hs', hends, hfail, if_neg Bool.false_ne_true, hkept]
          exact forall_prop_of_true rfl
      exact hstart

/-- Both runtimes release the connection once, commit only on a decision and hand back only clean
connections, exactly where each of them leaves no transaction and no isolation level behind. -/
theorem txRuntimes_safe_iff (w : World V E) (unsupported : E) (F : Go.Failures E) (routed : Bool)
    (dialect : Dialect) (isolation : Option IsolationLevel) (use : Bool) :
    (Safe (Rust.transactionDecidedOn w unsupported dialect isolation use .start).2 ∧
      Safe (Go.WithTransactionDecidedIsolated w F routed dialect isolation use .start).2) ↔
    (Rust.Ends w dialect isolation ∧ Go.Ends w routed dialect isolation) := by
  rw [Rust.safe_iff, Go.safe_iff]

end Whole

/-- A body that panics; every control statement would succeed. -/
def bodyPanics : World Unit String where
  acquire := none
  control := fun _ => .ok
  body := .panic
  stillOpen := true
  unfinished := false

/-- Go hands a connection back inside the transaction of a body that panicked. -/
theorem panic_hands_back_transaction : ¬ ∀ (w : World Unit String) (unsupported : String)
    (F : Go.Failures String) (routed : Bool) (dialect : Dialect) (isolation : Option IsolationLevel)
    (use : Bool),
    Safe (Rust.transactionDecidedOn w unsupported dialect isolation use .start).2 ∧
      Safe (Go.WithTransactionDecidedIsolated w F routed dialect isolation use .start).2 := by
  intro h
  have hgo := (h bodyPanics "unsupported" ⟨"unsupported", fun _ => "closed", id⟩ false .postgres none
    true).2
  have hclean := hgo.reusable (by decide)
  exact absurd hclean (by decide)

end LiteDb.TxRuntime
