import LiteDbModel.Lib.Text
import LiteDbModel.MakeSql
import LiteDbModel.Routing

/-!
# Reads inside `withWriter`

A program of raw statements, model writes and nested `withWriter` and `transaction`
scopes runs on one of two routes: the handler, and the SCP runtime. Each route reads
its own scopes, so a scope that is set for one is not seen by the other.
-/

namespace LiteDb.WriterScope
set_option autoImplicit false

/-! ## What a raw statement is taken for -/

/-- `\w` of a regular expression. -/
def isWordChar (c : Char) : Bool :=
  ('a' ≤ c && c ≤ 'z') || ('A' ≤ c && c ≤ 'Z') || ('0' ≤ c && c ≤ '9') || c = '_'

def isWord (word : String) (run : List Char) : Bool := run.map Char.toLower = word.toList

/-- `/^\s*(w₁|w₂|…)\b/i`. -/
def startsWith (words : List String) (sql : List Char) : Bool :=
  words.any fun w => isWord w ((sql.dropWhile Text.isSpace).takeWhile isWordChar)

/-- `/\b(w₁|w₂|…)\b/i`. -/
def hasWord (words : List String) (sql : List Char) : Bool :=
  (sql.splitOnP fun c => !isWordChar c).any fun run => words.any fun w => isWord w run

def returnsRows (sql : List Char) : Bool :=
  startsWith ["select", "with", "show", "pragma", "values", "explain", "table"] sql ||
    hasWord ["returning"] sql

def isReadOnlyStatement (sql : List Char) : Bool :=
  if startsWith ["with", "explain"] sql then !hasWord ["insert", "update", "delete", "merge"] sql
  else startsWith ["select", "show", "pragma", "values", "table"] sql && !hasWord ["returning"] sql

theorem startsWith_mono {few many : List String} (h : few ⊆ many) {sql : List Char}
    (hs : startsWith few sql = true) : startsWith many sql = true := by
  simp only [startsWith, List.any_eq_true] at hs ⊢
  obtain ⟨w, hw, hrun⟩ := hs
  exact ⟨w, h hw, hrun⟩

theorem returnsRows_of_readOnly {sql : List Char} (h : isReadOnlyStatement sql = true) :
    returnsRows sql = true := by
  rw [returnsRows, Bool.or_eq_true]
  left
  rw [isReadOnlyStatement] at h
  split at h
  next hs => exact startsWith_mono (by simp) hs
  next =>
    rw [Bool.and_eq_true] at h
    exact startsWith_mono (by simp) h.1

/-! ## Programs -/

inductive Route
  /-- `DBModel.getHandler()`. -/
  | direct
  /-- `DBModel._getScpRuntime()`. -/
  | scp
deriving DecidableEq

/-- A model's write, with the statements that it sends once it is allowed. -/
structure ModelWrite where
  operation : String
  model : String
  /-- The name of the plan's first statement, for a write that is lowered to a bundle. -/
  bundle : Option String
  statements : List (List Char)

mutual

inductive Op
  /-- `DBModel.execute(sql)`; every find, count and relation load goes through it. `sticky` is what
  the route's writer-sticky clock says when it is sent. -/
  | execute (sql : List Char) (sticky : Route → Bool)
  | write (w : ModelWrite)
  /-- `acquireConnection().query(sql)`. -/
  | acquired (sql : List Char)
  /-- `getCurrentConnection()?.query(sql)`. -/
  | current (sql : List Char)
  | withWriter (func : Ops)
  /-- One attempt of a transaction; a retried one is several, one after the other. -/
  | transaction (func : Ops)

inductive Ops
  | done
  | next (op : Op) (rest : Ops)

end

/-! ## Scopes -/

/-- The asynchronous scopes that a statement is sent in. -/
structure Scope where
  /-- The model's `writerContext`. -/
  writerContext : Bool := false
  /-- The model's `transactionContext`. -/
  txContext : Bool := false
  /-- A transaction is pinned for the SCP context. -/
  pinned : Bool := false
  /-- `txActiveStore`. -/
  txActive : Bool := false
  /-- `writerScopeStore`. -/
  writerScope : Bool := false
  /-- `readOnlyStore`. -/
  readOnly : Bool := false

/-- `DBModel.withWriter`. -/
def Scope.withWriter (s : Scope) : Scope :=
  if s.txContext then s
  else if s.writerContext then s
  else { s with writerContext := true }

/-- `DBModel.transaction`, which joins when one is open. -/
def Scope.transaction (route : Route) (s : Scope) : Scope :=
  if s.txContext then s
  else match route with
    | .direct => { s with txContext := true }
    | .scp => { s with txContext := true, pinned := true, txActive := true }

/-! ## Where a statement goes -/

inductive Target
  | pool (pool : Pool)
  /-- The connection of the open transaction. -/
  | transaction
deriving DecidableEq

/-- The pools that both routes are configured with, and the SCP runtime's dialect. -/
structure Deployment where
  pair : ReaderWriterPools
  dialect : Dialect

/-- `renderRawSql`. -/
def Deployment.renderRawSql (d : Deployment) (sql : List Char) : List Char :=
  renderPlaceholders sql d.dialect

/-- `resolvePool` for a statement that names no connection. -/
def Deployment.resolvePool (d : Deployment) (write useWriter : Bool) : Pool :=
  if write || useWriter then d.pair.writer else d.pair.reader

theorem Deployment.resolvePool_eq (d : Deployment) (write useWriter : Bool) :
    LiteDb.resolvePool ⟨write, none, useWriter⟩ [(DEFAULT_CONNECTION, d.pair)] =
      .ok (d.resolvePool write useWriter) := by
  rfl

/-- The handler is the transaction's inside a transaction; else `execute` and `executeOnWriter`. -/
def Deployment.handlerTarget (d : Deployment) (s : Scope) (sticky : Bool) (sql : List Char) : Target :=
  if s.txContext then .transaction
  else
    let useWriter := !isReadOnlyStatement sql || s.writerContext || sticky
    if useWriter then .pool d.pair.writer else .pool d.pair.reader

/-- `PooledAsyncContext.connectionFor`. -/
def Deployment.connectionFor (d : Deployment) (s : Scope) (sticky write : Bool) : Target :=
  if s.pinned then .transaction else .pool (d.resolvePool write (s.writerScope || sticky))

/-- `rawExecuteAsync`. -/
def Deployment.rawExecuteAsync (d : Deployment) (s : Scope) (sticky : Bool) (sql : List Char) : Target :=
  if returnsRows sql then d.connectionFor s sticky (!isReadOnlyStatement sql)
  else d.connectionFor s sticky true

/-- `DBModel.execute`. -/
def Deployment.execute (d : Deployment) (route : Route) (s : Scope) (sticky : Bool) (sql : List Char) :
    Target :=
  match route with
  | .direct => d.handlerTarget s sticky sql
  | .scp => d.rawExecuteAsync s sticky (d.renderRawSql sql)

/-! ## Whether a write is allowed -/

inductive WriteError
  | writeInReadOnlyContext (operation : String) (modelName : String)
  | writeOutsideTransaction (operation : String) (modelName : String)
deriving DecidableEq

/-- The two checks of `_checkWriteAllowed`, in their order. -/
def checkScopes (readOnly inTransaction : Bool) (operation modelName : String) : Except WriteError Unit :=
  if readOnly then .error (.writeInReadOnlyContext operation modelName)
  else if !inTransaction then .error (.writeOutsideTransaction operation modelName)
  else .ok ()

/-- `DBModel._checkWriteAllowed`. -/
def Scope.checkModelWrite (s : Scope) (w : ModelWrite) : Except WriteError Unit :=
  checkScopes s.writerContext s.txContext w.operation w.model

/-- `checkWriteAllowed`, at the entry of a bundle. -/
def Scope.checkBundle (s : Scope) (statement : String) : Except WriteError Unit :=
  checkScopes s.readOnly s.txActive "WRITE" statement

/-- A write that the SCP runtime lowers to a bundle is checked again where the bundle starts. -/
def Scope.checkWrite (s : Scope) (route : Route) (w : ModelWrite) : Except WriteError Unit :=
  match route, w.bundle with
  | .scp, some statement => do
    s.checkModelWrite w
    s.checkBundle statement
  | _, _ => s.checkModelWrite w

/-! ## Runs -/

inductive Event
  | sent (target : Target)
  | rejected (e : WriteError)
deriving DecidableEq

/-- An event, and whether it happens inside `DBModel.withWriter`. -/
structure Logged where
  inside : Bool
  event : Event
deriving DecidableEq

/-- The statements of a write: on SCP a bundle's are write intents, any other is a raw statement. -/
def Deployment.writeTarget (d : Deployment) (route : Route) (s : Scope) (w : ModelWrite)
    (sql : List Char) : Target :=
  match route, w.bundle with
  | .scp, some _ => d.connectionFor s false true
  | _, _ => d.execute route s false sql

def Deployment.write (d : Deployment) (route : Route) (s : Scope) (w : ModelWrite) : List Event :=
  match s.checkWrite route w with
  | .error e => [.rejected e]
  | .ok _ => w.statements.map fun sql => .sent (d.writeTarget route s w sql)

mutual

def Op.exec (d : Deployment) (route : Route) (s : Scope) (inside : Bool) : Op → List Logged
  | .execute sql sticky => [⟨inside, .sent (d.execute route s (sticky route) sql)⟩]
  | .write w => (d.write route s w).map (Logged.mk inside)
  -- the acquired connection is pinned for its own statement, so no scope diverts it
  | .acquired _ => [⟨inside, .sent (.pool d.pair.writer)⟩]
  | .current _ => if s.txContext then [⟨inside, .sent .transaction⟩] else []
  | .withWriter func => func.exec d route s.withWriter true
  | .transaction func => func.exec d route (s.transaction route) inside

def Ops.exec (d : Deployment) (route : Route) (s : Scope) (inside : Bool) : Ops → List Logged
  | .done => []
  | .next op rest => op.exec d route s inside ++ rest.exec d route s inside

end

/-- A program that an application starts outside every scope. -/
def Ops.run (d : Deployment) (route : Route) (p : Ops) : List Logged := p.exec d route {} false

/-! ## The promise of `withWriter` -/

def Event.OnWriter (d : Deployment) : Event → Prop
  | .sent (.pool pool) => pool = d.pair.writer
  | .sent .transaction => True
  | .rejected _ => True

/-- What was sent inside `withWriter` went to the writer, or to the open transaction. -/
def ReadsWriter (d : Deployment) (run : List Logged) : Prop :=
  ∀ l ∈ run, l.inside = true → l.event.OnWriter d

/-- Sent, or the error that rejected it. -/
def Event.verdict : Event → Option WriteError
  | .sent _ => none
  | .rejected e => some e

def verdicts (run : List Logged) : List (Bool × Option WriteError) :=
  run.map fun l => (l.inside, l.event.verdict)

/-- The two routes keep the promise, and accept and reject alike. -/
structure Bridged (d : Deployment) (p : Ops) : Prop where
  direct : ReadsWriter d (p.run d .direct)
  scp : ReadsWriter d (p.run d .scp)
  writes : verdicts (p.run d .direct) = verdicts (p.run d .scp)

theorem ReadsWriter.nil (d : Deployment) : ReadsWriter d [] := by
  intro l hl
  cases hl

theorem readsWriter_append {d : Deployment} {a b : List Logged} :
    ReadsWriter d (a ++ b) ↔ ReadsWriter d a ∧ ReadsWriter d b := by
  constructor
  · intro h
    exact ⟨fun l hl => h l (List.mem_append_left b hl), fun l hl => h l (List.mem_append_right a hl)⟩
  · intro h l hl
    cases List.mem_append.mp hl with
    | inl ha => exact h.1 l ha
    | inr hb => exact h.2 l hb

theorem readsWriter_singleton {d : Deployment} {inside : Bool} {e : Event} :
    ReadsWriter d [⟨inside, e⟩] ↔ (inside = true → e.OnWriter d) := by
  simp [ReadsWriter]

theorem readsWriter_logged {d : Deployment} {inside : Bool} {es : List Event}
    (h : ∀ e ∈ es, e.OnWriter d) : ReadsWriter d (es.map (Logged.mk inside)) := by
  intro l hl _
  obtain ⟨e, he, rfl⟩ := List.mem_map.mp hl
  exact h e he

theorem verdicts_append (a b : List Logged) : verdicts (a ++ b) = verdicts a ++ verdicts b :=
  List.map_append

/-! ## The scopes of a run -/

/-- The scopes of a route inside so many `withWriter`s and transactions. Neither route ever enters
the SCP writer scope. -/
structure Scope.Entered (route : Route) (inside inTx : Bool) (s : Scope) : Prop where
  txContext : s.txContext = inTx
  pinned : route = .scp → s.pinned = inTx
  txActive : route = .scp → s.txActive = inTx
  writerScope : s.writerScope = false
  readOnly : s.readOnly = false
  covered : inside = true → s.writerContext = true ∨ inTx = true

namespace Scope.Entered
variable {route : Route} {inside inTx : Bool} {s : Scope}

theorem start : Scope.Entered route false false {} :=
  ⟨rfl, fun _ => rfl, fun _ => rfl, rfl, rfl, nofun⟩

theorem withWriter (h : s.Entered route inside inTx) : s.withWriter.Entered route true inTx := by
  rw [Scope.withWriter]
  split
  next ht => exact { h with covered := fun _ => .inr (h.txContext.symm.trans ht) }
  next =>
    split
    next hw => exact { h with covered := fun _ => .inl hw }
    next => exact { h with covered := fun _ => .inl rfl }

theorem transaction (h : s.Entered route inside inTx) :
    (s.transaction route).Entered route inside true := by
  unfold Scope.transaction
  split
  next ht =>
    have hin : inTx = true := h.txContext.symm.trans ht
    subst hin
    exact h
  next =>
    cases route with
    | direct =>
      exact ⟨rfl, nofun, nofun, h.writerScope, h.readOnly, fun _ => .inr rfl⟩
    | scp => exact ⟨rfl, fun _ => rfl, fun _ => rfl, h.writerScope, h.readOnly, fun _ => .inr rfl⟩

/-- A write is allowed in a transaction that no `withWriter` encloses, by either guard. -/
theorem checkWrite (h : s.Entered route inside inTx) (w : ModelWrite) :
    s.checkWrite route w = checkScopes s.writerContext inTx w.operation w.model := by
  cases route with
  | direct => simp only [Scope.checkWrite, Scope.checkModelWrite, h.txContext]
  | scp =>
    cases hb : w.bundle with
    | none => simp only [Scope.checkWrite, hb, Scope.checkModelWrite, h.txContext]
    | some statement =>
      simp only [Scope.checkWrite, hb, Scope.checkModelWrite, Scope.checkBundle, h.txContext,
        h.txActive rfl, h.readOnly, checkScopes]
      cases s.writerContext <;> cases inTx <;> rfl

theorem inTx_of_allowed (h : s.Entered route inside inTx) {w : ModelWrite} {u : Unit}
    (hw : s.checkWrite route w = .ok u) : inTx = true := by
  rw [h.checkWrite, checkScopes] at hw
  cases hin : inTx with
  | true => rfl
  | false => cases hc : s.writerContext <;> simp [hc, hin] at hw

theorem execute_inTx (h : s.Entered route inside true) (d : Deployment) (sticky : Bool)
    (sql : List Char) : d.execute route s sticky sql = .transaction := by
  cases route with
  | direct => simp only [Deployment.execute, Deployment.handlerTarget, h.txContext, if_true]
  | scp =>
    simp only [Deployment.execute, Deployment.rawExecuteAsync, Deployment.connectionFor, h.pinned rfl,
      if_true, ite_self]

theorem writeTarget_inTx (h : s.Entered route inside true) (d : Deployment) (w : ModelWrite)
    (sql : List Char) : d.writeTarget route s w sql = .transaction := by
  unfold Deployment.writeTarget
  split
  next => simp only [Deployment.connectionFor, h.pinned rfl, if_true]
  next => exact h.execute_inTx d false sql

theorem write_onWriter (h : s.Entered route inside inTx) (d : Deployment) (w : ModelWrite) :
    ∀ e ∈ d.write route s w, e.OnWriter d := by
  intro e he
  rw [Deployment.write] at he
  split at he
  next =>
    rw [List.mem_singleton] at he
    subst he
    trivial
  next u hok =>
    have hin := h.inTx_of_allowed hok
    subst hin
    obtain ⟨sql, _, rfl⟩ := List.mem_map.mp he
    rw [h.writeTarget_inTx]
    trivial

/-- On the handler a statement inside `withWriter` finds the model's own scope. -/
theorem execute_direct (h : s.Entered .direct inside inTx) (hi : inside = true) (d : Deployment)
    (sticky : Bool) (sql : List Char) :
    (Event.sent (d.execute .direct s sticky sql)).OnWriter d := by
  cases h.covered hi with
  | inr hin =>
    subst hin
    rw [h.execute_inTx]
    trivial
  | inl hw =>
    simp only [Deployment.execute, Deployment.handlerTarget, hw, Bool.or_true, Bool.true_or, if_true]
    split
    · trivial
    · rfl

/-- On SCP only the transaction, the statement's own intent and the clock count. -/
theorem rawExecuteAsync_scp (h : s.Entered .scp inside inTx) (d : Deployment) (sticky : Bool)
    (sql : List Char) :
    d.rawExecuteAsync s sticky sql =
      if inTx then .transaction
      else if isReadOnlyStatement sql && !sticky then .pool d.pair.reader
      else .pool d.pair.writer := by
  have hwrite : d.rawExecuteAsync s sticky sql = d.connectionFor s sticky (!isReadOnlyStatement sql) := by
    rw [Deployment.rawExecuteAsync]
    split
    next => rfl
    next hr =>
      cases hread : isReadOnlyStatement sql with
      | true => exact absurd (returnsRows_of_readOnly hread) hr
      | false => rfl
  rw [hwrite, Deployment.connectionFor, h.pinned rfl, h.writerScope, Deployment.resolvePool]
  cases inTx <;> cases isReadOnlyStatement sql <;> cases sticky <;> rfl

end Scope.Entered

/-! ## Runs -/

mutual

theorem Op.readsWriter_direct (d : Deployment) : ∀ (op : Op) {inside inTx : Bool} {s : Scope},
    s.Entered .direct inside inTx → ReadsWriter d (op.exec d .direct s inside)
  | .execute sql sticky, _, _, _, h => by
    rw [Op.exec, readsWriter_singleton]
    intro hi
    exact h.execute_direct hi d (sticky .direct) sql
  | .write w, _, _, _, h => by
    rw [Op.exec]
    exact readsWriter_logged (h.write_onWriter d w)
  | .acquired _, _, _, _, _ => by
    rw [Op.exec, readsWriter_singleton]
    intro _
    rfl
  | .current _, _, _, _, _ => by
    rw [Op.exec]
    split
    · rw [readsWriter_singleton]
      intro _
      trivial
    · exact ReadsWriter.nil d
  | .withWriter func, _, _, _, h => by
    rw [Op.exec]
    exact func.readsWriter_direct d h.withWriter
  | .transaction func, _, _, _, h => by
    rw [Op.exec]
    exact func.readsWriter_direct d h.transaction

theorem Ops.readsWriter_direct (d : Deployment) : ∀ (ops : Ops) {inside inTx : Bool} {s : Scope},
    s.Entered .direct inside inTx → ReadsWriter d (ops.exec d .direct s inside)
  | .done, _, _, _, _ => by
    rw [Ops.exec]
    exact ReadsWriter.nil d
  | .next op rest, _, _, _, h => by
    rw [Ops.exec, readsWriter_append]
    exact ⟨op.readsWriter_direct d h, rest.readsWriter_direct d h⟩

end

mutual

/-- A read-only statement inside `withWriter` and outside every transaction, when SCP's clock is not
sticky. -/
def Op.replicaRead (d : Deployment) (inside inTx : Bool) : Op → Bool
  | .execute sql sticky =>
    inside && !inTx && isReadOnlyStatement (d.renderRawSql sql) && !sticky .scp
  | .write _ => false
  | .acquired _ => false
  | .current _ => false
  | .withWriter func => func.replicaRead d true inTx
  | .transaction func => func.replicaRead d inside true

def Ops.replicaRead (d : Deployment) (inside inTx : Bool) : Ops → Bool
  | .done => false
  | .next op rest => op.replicaRead d inside inTx || rest.replicaRead d inside inTx

end

/-- One pool serves both, or no such read is made. -/
def Covered (d : Deployment) (replicaRead : Bool) : Prop :=
  d.pair.reader = d.pair.writer ∨ replicaRead = false

theorem covered_or {d : Deployment} {a b : Bool} : Covered d (a || b) ↔ Covered d a ∧ Covered d b := by
  simp only [Covered, Bool.or_eq_false_iff]
  tauto

theorem covered_false (d : Deployment) : Covered d false := .inr rfl

mutual

theorem Op.readsWriter_scp (d : Deployment) : ∀ (op : Op) {inside inTx : Bool} {s : Scope},
    s.Entered .scp inside inTx →
    (ReadsWriter d (op.exec d .scp s inside) ↔ Covered d (op.replicaRead d inside inTx))
  | .execute sql sticky, inside, inTx, s, h => by
    rw [Op.exec, readsWriter_singleton, Op.replicaRead, Deployment.execute, h.rawExecuteAsync_scp]
    cases inside with
    | false => simp [Covered]
    | true =>
      cases inTx with
      | true => simp [Covered, Event.OnWriter]
      | false =>
        cases hread : isReadOnlyStatement (d.renderRawSql sql) && !sticky .scp with
        | true => simp [Covered, Event.OnWriter, hread]
        | false => simp [Covered, Event.OnWriter, hread]
  | .write w, _, _, _, h => by
    rw [Op.exec, Op.replicaRead]
    exact iff_of_true (readsWriter_logged (h.write_onWriter d w)) (covered_false d)
  | .acquired _, _, _, _, _ => by
    rw [Op.exec, Op.replicaRead, readsWriter_singleton]
    exact iff_of_true (fun _ => rfl) (covered_false d)
  | .current _, _, _, _, _ => by
    rw [Op.exec, Op.replicaRead]
    refine iff_of_true ?_ (covered_false d)
    split
    · rw [readsWriter_singleton]
      intro _
      trivial
    · exact ReadsWriter.nil d
  | .withWriter func, _, _, _, h => by
    rw [Op.exec, Op.replicaRead]
    exact func.readsWriter_scp d h.withWriter
  | .transaction func, _, _, _, h => by
    rw [Op.exec, Op.replicaRead]
    exact func.readsWriter_scp d h.transaction

theorem Ops.readsWriter_scp (d : Deployment) : ∀ (ops : Ops) {inside inTx : Bool} {s : Scope},
    s.Entered .scp inside inTx →
    (ReadsWriter d (ops.exec d .scp s inside) ↔ Covered d (ops.replicaRead d inside inTx))
  | .done, _, _, _, _ => by
    rw [Ops.exec, Ops.replicaRead]
    exact iff_of_true (ReadsWriter.nil d) (covered_false d)
  | .next op rest, _, _, _, h => by
    rw [Ops.exec, Ops.replicaRead, readsWriter_append, covered_or]
    exact and_congr (op.readsWriter_scp d h) (rest.readsWriter_scp d h)

end

/-! ## The verdicts of the two routes -/

/-- A scope of the handler's route, and the SCP route's at the same point of the program. -/
structure Scope.Paired (inside inTx : Bool) (s t : Scope) : Prop where
  direct : s.Entered .direct inside inTx
  scp : t.Entered .scp inside inTx
  writerContext : s.writerContext = t.writerContext

namespace Scope.Paired
variable {inside inTx : Bool} {s t : Scope}

theorem withWriter (h : s.Paired inside inTx t) : s.withWriter.Paired true inTx t.withWriter := by
  refine ⟨h.direct.withWriter, h.scp.withWriter, ?_⟩
  simp only [Scope.withWriter, h.direct.txContext, h.scp.txContext]
  cases inTx with
  | true => exact h.writerContext
  | false => cases hs : s.writerContext <;> simp [hs, ← h.writerContext]

theorem transaction (h : s.Paired inside inTx t) :
    (s.transaction .direct).Paired inside true (t.transaction .scp) := by
  refine ⟨h.direct.transaction, h.scp.transaction, ?_⟩
  simp only [Scope.transaction, h.direct.txContext, h.scp.txContext]
  cases inTx <;> exact h.writerContext

theorem checkWrite (h : s.Paired inside inTx t) (w : ModelWrite) :
    s.checkWrite .direct w = t.checkWrite .scp w := by
  rw [h.direct.checkWrite, h.scp.checkWrite, h.writerContext]

theorem verdicts_write (h : s.Paired inside inTx t) (d : Deployment) (w : ModelWrite) :
    verdicts ((d.write .direct s w).map (Logged.mk inside)) =
      verdicts ((d.write .scp t w).map (Logged.mk inside)) := by
  simp only [Deployment.write, h.checkWrite]
  cases t.checkWrite .scp w with
  | error e => rfl
  | ok u => simp [verdicts, Event.verdict, Function.comp_def]

end Scope.Paired

mutual

theorem Op.verdicts_eq (d : Deployment) : ∀ (op : Op) {inside inTx : Bool} {s t : Scope},
    s.Paired inside inTx t →
    verdicts (op.exec d .direct s inside) = verdicts (op.exec d .scp t inside)
  | .execute _ _, _, _, _, _, _ => by simp only [Op.exec, verdicts, List.map, Event.verdict]
  | .write w, _, _, _, _, h => by
    rw [Op.exec, Op.exec]
    exact h.verdicts_write d w
  | .acquired _, _, _, _, _, _ => by simp only [Op.exec]
  | .current _, _, _, _, _, h => by
    simp only [Op.exec, h.direct.txContext, h.scp.txContext]
  | .withWriter func, _, _, _, _, h => by
    rw [Op.exec, Op.exec]
    exact func.verdicts_eq d h.withWriter
  | .transaction func, _, _, _, _, h => by
    rw [Op.exec, Op.exec]
    exact func.verdicts_eq d h.transaction

theorem Ops.verdicts_eq (d : Deployment) : ∀ (ops : Ops) {inside inTx : Bool} {s t : Scope},
    s.Paired inside inTx t →
    verdicts (ops.exec d .direct s inside) = verdicts (ops.exec d .scp t inside)
  | .done, _, _, _, _, _ => by simp only [Ops.exec]
  | .next op rest, _, _, _, _, h => by
    rw [Ops.exec, Ops.exec, verdicts_append, verdicts_append, op.verdicts_eq d h,
      rest.verdicts_eq d h]

end

/-- The model's `withWriter` is not bridged to the SCP runtime: the promise is kept exactly when no
read-only statement depends on it there. -/
theorem withWriter_bridged_iff (d : Deployment) (p : Ops) :
    Bridged d p ↔ d.pair.reader = d.pair.writer ∨ p.replicaRead d false false = false := by
  have hscp : ReadsWriter d (p.run d .scp) ↔ Covered d (p.replicaRead d false false) :=
    p.readsWriter_scp d Scope.Entered.start
  constructor
  · intro h
    exact hscp.mp h.scp
  · intro h
    refine ⟨p.readsWriter_direct d Scope.Entered.start, hscp.mpr h, ?_⟩
    exact p.verdicts_eq d ⟨Scope.Entered.start, Scope.Entered.start, rfl⟩

/-- `DBModel.withWriter(() => DBModel.execute('SELECT 1'))`, with a replica. -/
theorem withWriter_reads_replica :
    ¬ Bridged ⟨⟨0, 1⟩, .postgres⟩
      (.next (.withWriter (.next (.execute "SELECT 1".toList fun _ => false) .done)) .done) := by
  intro h
  have hsent : ReadsWriter ⟨⟨0, 1⟩, .postgres⟩ [⟨true, .sent (.pool 0)⟩] := by
    have hrun := h.scp
    have heq : Ops.run ⟨⟨0, 1⟩, .postgres⟩ .scp
        (.next (.withWriter (.next (.execute "SELECT 1".toList fun _ => false) .done)) .done) =
        [⟨true, .sent (.pool 0)⟩] := by decide +kernel
    rwa [heq] at hrun
  exact absurd (readsWriter_singleton.mp hsent rfl) (by decide : ¬ (0 : Pool) = 1)

end LiteDb.WriterScope
