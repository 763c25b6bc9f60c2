import Mathlib

/-!
# Named connections

Which pool a statement runs on: the transaction's pin is looked up first, then the
registry of named connections. A program is the calls an application makes, with
its transactions nested as they are awaited.
-/

namespace LiteDb
set_option autoImplicit false

/-- A pool object, by identity. -/
abbrev Pool := Nat

structure ReaderWriterPools where
  reader : Pool
  writer : Pool

/-- The registered connections, by name. -/
abbrev ConnectionRegistry := List (String × ReaderWriterPools)

def DEFAULT_CONNECTION : String := "default"

/-- Unnamed means the default connection. -/
def effectiveConnection (db : Option String) : String := db.getD DEFAULT_CONNECTION

def ConnectionRegistry.pairFor (registry : ConnectionRegistry) (name : Option String) :
    Except String ReaderWriterPools :=
  match registry.lookup (effectiveConnection name) with
  | some pair => .ok pair
  | none => .error ("scp connection routing: no connection registered under name '" ++
      effectiveConnection name ++ "'")

/-- A statement's intent, and whether the scope or the clock sends its reads to the writer. -/
structure StatementIntent where
  write : Bool
  db : Option String
  useWriter : Bool

def resolvePool (intent : StatementIntent) (registry : ConnectionRegistry) : Except String Pool :=
  (registry.pairFor intent.db).map fun pair =>
    if intent.write || intent.useWriter then pair.writer else pair.reader

/-- An unnamed statement agrees with any transaction, a named one with its own. -/
def assertTxDbAgrees (db txDb : Option String) : Except String Unit :=
  match db with
  | none => .ok ()
  | some want =>
    if want = effectiveConnection txDb then .ok ()
    else .error ("scp connection routing: a statement names connection '" ++ want ++
      "', but it is executing inside a transaction opened on '" ++ effectiveConnection txDb ++ "'")

structure PoolConnection where
  pool : Pool
  serial : Nat
deriving DecidableEq

/-- The pinned transaction of a context: its connection and the name it was opened on. -/
structure PinnedTx where
  opened : PoolConnection
  db : Option String

/-- A context, by identity. -/
abbrev Ctx := Nat

/-- `connectionFor`, up to the pool of the connection it gives. -/
def connectionFor (registry : ConnectionRegistry) (pinned : Option PinnedTx)
    (intent : StatementIntent) : Except String Pool :=
  match pinned with
  | some pin => (assertTxDbAgrees intent.db pin.db).map fun _ => pin.opened.pool
  | none => resolvePool intent registry

/-- A nested transaction may be given the enclosing transaction's own connection only. -/
def assertNestedConnection (given : Option PoolConnection) (opened : PoolConnection) :
    Except String Unit :=
  match given with
  | none => .ok ()
  | some conn =>
    if conn = opened then .ok ()
    else .error
      "transaction(): the connection option is a different connection from the enclosing transaction's"

/-! ## Programs -/

mutual

inductive Cmd
  | stmt (ctx : Ctx) (intent : StatementIntent)
  /-- `withTransactionAsync(ctx, fn, { connection: given }, …, connection)`. -/
  | tx (ctx : Ctx) (given : Option PoolConnection) (connection : Option String) (runs : Runs)

/-- What a transaction's function does when it is called. -/
inductive Body
  | done
  | next (c : Cmd) (rest : Body)

/-- The calls of a transaction's function, one an attempt, with the connection the pool hands out. -/
inductive Runs
  | none
  | next (serial : Nat) (body : Body) (rest : Runs)

end

/-- SQL that is sent: on which pool's connection, and the name that it is addressed to. -/
structure Sent where
  ctx : Ctx
  pool : Pool
  addressed : Option String

variable (registry : Ctx → ConnectionRegistry)

mutual

/-- The SQL a call sends. `names` is the name that the innermost naming transaction carries. -/
def Cmd.exec (pins : Ctx → Option PinnedTx) (names : Ctx → Option String) : Cmd → List Sent
  | .stmt ctx intent =>
    match connectionFor (registry ctx) (pins ctx) intent with
    | .error _ => []
    | .ok pool => [⟨ctx, pool, intent.db.or (names ctx)⟩]
  | .tx ctx given connection runs =>
    match pins ctx with
    | some outer =>
      match assertNestedConnection given outer.opened with
      | .error _ => []
      -- the nested call joins: its function is called once, on the outer connection
      | .ok _ => runs.execJoined pins (Function.update names ctx (connection.or (names ctx)))
    | none =>
      match (registry ctx).pairFor connection with
      | .error _ => []
      | .ok pair => runs.execOpened ctx given connection pair.writer pins names

def Body.exec (pins : Ctx → Option PinnedTx) (names : Ctx → Option String) : Body → List Sent
  | .done => []
  | .next c rest => c.exec pins names ++ rest.exec pins names

def Runs.execJoined (pins : Ctx → Option PinnedTx) (names : Ctx → Option String) : Runs → List Sent
  | .none => []
  | .next _ body _ => body.exec pins names

/-- Each attempt: `BEGIN`, the body under the pin, `COMMIT` or `ROLLBACK`. -/
def Runs.execOpened (ctx : Ctx) (given : Option PoolConnection) (connection : Option String)
    (writer : Pool) (pins : Ctx → Option PinnedTx) (names : Ctx → Option String) :
    Runs → List Sent
  | .none => []
  | .next serial body rest =>
    let conn := given.getD ⟨writer, serial⟩
    ⟨ctx, conn.pool, connection⟩ ::
      body.exec (Function.update pins ctx (some ⟨conn, connection⟩)) (Function.update names ctx connection) ++
      ⟨ctx, conn.pool, connection⟩ :: rest.execOpened ctx given connection writer pins names

end

/-- The pool belongs to the connection registered under the name. -/
def OfDatabase (r : ConnectionRegistry) (name : String) (pool : Pool) : Prop :=
  ∃ pair, r.lookup name = some pair ∧ (pool = pair.reader ∨ pool = pair.writer)

/-- Whatever is addressed to a named connection is sent on a connection of that database. -/
def RunsOnNamed (sent : List Sent) : Prop :=
  ∀ s ∈ sent, ∀ name, s.addressed = some name → OfDatabase (registry s.ctx) name s.pool

mutual

/-- Where the program keeps to the databases it names: a given connection belongs to the name the
transaction is opened on, and a statement that is not rejected inside a transaction belongs to the
database of the transaction's connection, be it named itself or by a transaction around it. -/
def Cmd.Fits (pins : Ctx → Option PinnedTx) (names : Ctx → Option String) : Cmd → Prop
  | .stmt ctx intent => ∀ pin, pins ctx = some pin →
    (intent.db = none → ∀ name, names ctx = some name →
      OfDatabase (registry ctx) name pin.opened.pool) ∧
    (∀ name, intent.db = some name → name = effectiveConnection pin.db →
      OfDatabase (registry ctx) name pin.opened.pool)
  | .tx ctx given connection runs =>
    match pins ctx with
    | some outer => (∀ conn, given = some conn → conn = outer.opened) →
      runs.FitsJoined pins (Function.update names ctx (connection.or (names ctx)))
    | none => ∀ pair, (registry ctx).lookup (effectiveConnection connection) = some pair →
      runs.FitsOpened ctx given connection pair.writer pins names

def Body.Fits (pins : Ctx → Option PinnedTx) (names : Ctx → Option String) : Body → Prop
  | .done => True
  | .next c rest => c.Fits pins names ∧ rest.Fits pins names

def Runs.FitsJoined (pins : Ctx → Option PinnedTx) (names : Ctx → Option String) : Runs → Prop
  | .none => True
  | .next _ body _ => body.Fits pins names

def Runs.FitsOpened (ctx : Ctx) (given : Option PoolConnection) (connection : Option String)
    (writer : Pool) (pins : Ctx → Option PinnedTx) (names : Ctx → Option String) : Runs → Prop
  | .none => True
  | .next serial body rest =>
    (∀ conn, given = some conn → ∀ name, connection = some name →
      OfDatabase (registry ctx) name conn.pool) ∧
    body.Fits (Function.update pins ctx (some ⟨given.getD ⟨writer, serial⟩, connection⟩))
      (Function.update names ctx connection) ∧
    rest.FitsOpened ctx given connection writer pins names

end

/-! ## Every nesting -/

variable {registry}

theorem runsOnNamed_append {sent sent' : List Sent} : RunsOnNamed registry (sent ++ sent') ↔
    RunsOnNamed registry sent ∧ RunsOnNamed registry sent' :=
  List.forall_mem_append

theorem runsOnNamed_cons {s : Sent} {sent : List Sent} : RunsOnNamed registry (s :: sent) ↔
    (∀ name, s.addressed = some name → OfDatabase (registry s.ctx) name s.pool) ∧
      RunsOnNamed registry sent :=
  List.forall_mem_cons

theorem runsOnNamed_nil : RunsOnNamed registry [] := by
  intro s hs
  cases hs

/-- Outside a transaction the registry's own pair serves a named statement. -/
theorem resolvePool_ofDatabase {r : ConnectionRegistry} {intent : StatementIntent} {pool : Pool}
    (h : resolvePool intent r = .ok pool) {name : String} (hname : intent.db = some name) :
    OfDatabase r name pool := by
  unfold resolvePool ConnectionRegistry.pairFor at h
  rw [hname] at h
  cases hlookup : r.lookup (effectiveConnection (some name)) with
  | none =>
    rw [hlookup] at h
    cases h
  | some pair =>
    rw [hlookup] at h
    refine ⟨pair, hlookup, ?_⟩
    have hpool := Except.ok.inj h
    dsimp only at hpool
    rw [← hpool]
    split
    · exact Or.inr rfl
    · exact Or.inl rfl

theorem assertTxDbAgrees_ok {db txDb : Option String} :
    (∃ u, assertTxDbAgrees db txDb = .ok u) ↔
      ∀ name, db = some name → name = effectiveConnection txDb := by
  unfold assertTxDbAgrees
  cases db with
  | none => simp
  | some want =>
    by_cases h : want = effectiveConnection txDb <;> simp [h]

theorem stmt_exec_iff (pins : Ctx → Option PinnedTx) (names : Ctx → Option String) (ctx : Ctx)
    (intent : StatementIntent) (hnames : pins ctx = none → names ctx = none) :
    RunsOnNamed registry ((Cmd.stmt ctx intent).exec registry pins names) ↔
      (Cmd.stmt ctx intent).Fits registry pins names := by
  unfold Cmd.exec Cmd.Fits connectionFor
  cases hpin : pins ctx with
  | none =>
    refine iff_of_true ?_ fun pin h => by cases h
    rw [hnames hpin]
    split
    · exact runsOnNamed_nil
    · rename_i pool hpool
      refine runsOnNamed_cons.mpr ⟨fun name hname => ?_, runsOnNamed_nil⟩
      rw [Option.or_none] at hname
      exact resolvePool_ofDatabase hpool hname
  | some pin =>
    simp only [Option.some.injEq, forall_eq']
    cases hagree : assertTxDbAgrees intent.db pin.db with
    | error e =>
      refine iff_of_true runsOnNamed_nil ⟨fun hnone => ?_, fun name hname heq => ?_⟩
      · rw [hnone] at hagree
        cases hagree
      · rw [hname, assertTxDbAgrees, if_pos heq] at hagree
        cases hagree
    | ok u =>
      have hname := assertTxDbAgrees_ok.mp ⟨u, hagree⟩
      simp only [Except.map, runsOnNamed_cons, runsOnNamed_nil, and_true]
      cases hdb : intent.db with
      | none => simp
      | some want =>
        have hwant := hname want hdb
        simp [hwant]

mutual

theorem Cmd.exec_iff (c : Cmd) (pins : Ctx → Option PinnedTx) (names : Ctx → Option String)
    (hnames : ∀ ctx, pins ctx = none → names ctx = none) :
    RunsOnNamed registry (c.exec registry pins names) ↔ c.Fits registry pins names := by
  cases c with
  | stmt ctx intent => exact stmt_exec_iff pins names ctx intent (hnames ctx)
  | tx ctx given connection runs =>
    unfold Cmd.exec Cmd.Fits
    cases hpin : pins ctx with
    | some outer =>
      have hjoined := runs.execJoined_iff pins (Function.update names ctx (connection.or (names ctx))) <| by
        intro c hc
        by_cases h : c = ctx
        · rw [h, hpin] at hc
          cases hc
        · rw [Function.update_of_ne h]
          exact hnames c hc
      cases given with
      | none => simpa [assertNestedConnection] using hjoined
      | some conn =>
        by_cases h : conn = outer.opened
        · simpa [assertNestedConnection, h] using hjoined
        · simp [assertNestedConnection, h, runsOnNamed_nil]
    | none =>
      simp only [ConnectionRegistry.pairFor]
      cases hlookup : (registry ctx).lookup (effectiveConnection connection) with
      | none => simp [runsOnNamed_nil]
      | some pair =>
        simp only [Option.some.injEq, forall_eq']
        apply runs.execOpened_iff ctx given connection pair.writer pins names hnames
        intro name hname
        rw [hname] at hlookup
        exact ⟨pair, hlookup, Or.inr rfl⟩

theorem Body.exec_iff (b : Body) (pins : Ctx → Option PinnedTx) (names : Ctx → Option String)
    (hnames : ∀ ctx, pins ctx = none → names ctx = none) :
    RunsOnNamed registry (b.exec registry pins names) ↔ b.Fits registry pins names := by
  cases b with
  | done => exact iff_of_true runsOnNamed_nil trivial
  | next c rest =>
    rw [Body.exec, runsOnNamed_append, Body.Fits]
    exact and_congr (c.exec_iff pins names hnames) (rest.exec_iff pins names hnames)

theorem Runs.execJoined_iff (r : Runs) (pins : Ctx → Option PinnedTx)
    (names : Ctx → Option String) (hnames : ∀ ctx, pins ctx = none → names ctx = none) :
    RunsOnNamed registry (r.execJoined registry pins names) ↔ r.FitsJoined registry pins names := by
  cases r with
  | none => exact iff_of_true runsOnNamed_nil trivial
  | next serial body rest =>
    rw [Runs.execJoined, Runs.FitsJoined]
    exact body.exec_iff pins names hnames

theorem Runs.execOpened_iff (r : Runs) (ctx : Ctx) (given : Option PoolConnection)
    (connection : Option String) (writer : Pool) (pins : Ctx → Option PinnedTx)
    (names : Ctx → Option String) (hnames : ∀ ctx, pins ctx = none → names ctx = none)
    (hwriter : ∀ name, connection = some name → OfDatabase (registry ctx) name writer) :
    RunsOnNamed registry (r.execOpened registry ctx given connection writer pins names) ↔
      r.FitsOpened registry ctx given connection writer pins names := by
  cases r with
  | none => exact iff_of_true runsOnNamed_nil trivial
  | next serial body rest =>
    have hbody := body.exec_iff (Function.update pins ctx (some ⟨given.getD ⟨writer, serial⟩, connection⟩))
      (Function.update names ctx connection) <| by
        intro c hc
        by_cases h : c = ctx
        · simp [h] at hc
        · rw [Function.update_of_ne h] at hc ⊢
          exact hnames c hc
    have hrest := rest.execOpened_iff ctx given connection writer pins names hnames hwriter
    have hbegin : (∀ name, connection = some name →
        OfDatabase (registry ctx) name (given.getD ⟨writer, serial⟩).pool) ↔
        ∀ conn, given = some conn → ∀ name, connection = some name →
          OfDatabase (registry ctx) name conn.pool := by
      cases given with
      | none => exact iff_of_true hwriter fun conn h => by cases h
      | some conn => simp
    rw [Runs.execOpened, Runs.FitsOpened, runsOnNamed_append, runsOnNamed_cons, runsOnNamed_cons,
      hbody, hrest]
    dsimp only
    rw [hbegin]
    tauto

end

/-- A program keeps to the databases it addresses exactly when it fits. -/
theorem program_runsOnNamed_iff (registry : Ctx → ConnectionRegistry) (program : Body) :
    RunsOnNamed registry (program.exec registry (fun _ => none) fun _ => none) ↔
      program.Fits registry (fun _ => none) fun _ => none :=
  program.exec_iff _ _ fun _ _ => rfl

/-- A transaction for `b` nested in one on the default connection runs its body there. -/
theorem nested_runs_elsewhere : ¬ ∀ (registry : Ctx → ConnectionRegistry) (program : Body),
    RunsOnNamed registry (program.exec registry (fun _ => none) fun _ => none) := by
  intro h
  have hsent := h (fun _ => [("default", ⟨0, 0⟩), ("b", ⟨1, 1⟩)])
    (.next (.tx 0 none none (.next 0 (.next (.tx 0 none (some "b")
      (.next 1 (.next (.stmt 0 ⟨true, none, false⟩) .done) .none)) .done) .none)) .done)
    ⟨0, 0, some "b"⟩ (by simp [Body.exec, Cmd.exec, Runs.execOpened, Runs.execJoined,
      ConnectionRegistry.pairFor, effectiveConnection, DEFAULT_CONNECTION, assertNestedConnection,
      connectionFor, assertTxDbAgrees, Except.map]) "b" rfl
  obtain ⟨pair, hpair, hpool⟩ := hsent
  obtain rfl : (⟨1, 1⟩ : ReaderWriterPools) = pair := Option.some.inj hpair
  rcases hpool with hpool | hpool <;> cases hpool

end LiteDb
