import LiteDbModel.Lib.Run

/-!
# Session settings on shared connections

A configured pool sets its session knobs on a connection that it hands out and undoes them
when it takes the connection back. Several configured pools may share the connections of
one pool; what a holder finds on its connection, and which connections are handed out
again, is followed over every order of acquisitions, statements and releases.
-/

namespace LiteDb.SessionPools
set_option autoImplicit false

/-! ## Session statements -/

inductive Driver
  | postgres
  | mysql
  | sqlite
deriving DecidableEq

/-- The fields of `ResolvedConnectionConfig` that a session is set up by. -/
structure ResolvedConnectionConfig where
  driver : Driver := .postgres
  queryTimeout : Int := 0
  searchPath : Option String := none
  charset : Option String := none

/-- A session variable of the server. -/
inductive Knob
  | maxExecutionTime
  | searchPath
  | names
  | clientEncoding
deriving DecidableEq

/-- A knob that is set, or put back to the server's default. -/
structure SessionStatement where
  knob : Knob
  value : Option String
deriving DecidableEq

/-- The statement's text. -/
def SessionStatement.text : SessionStatement → String
  | ⟨.maxExecutionTime, some v⟩ => "SET SESSION max_execution_time = " ++ v
  | ⟨.maxExecutionTime, none⟩ => "SET SESSION max_execution_time = DEFAULT"
  | ⟨.searchPath, some v⟩ => "SET search_path TO " ++ v
  | ⟨.searchPath, none⟩ => "RESET search_path"
  | ⟨.names, some v⟩ => "SET NAMES " ++ v
  | ⟨.names, none⟩ => "SET NAMES DEFAULT"
  | ⟨.clientEncoding, some v⟩ => "SET client_encoding TO " ++ v
  | ⟨.clientEncoding, none⟩ => "RESET client_encoding"

def sessionStatements (config : ResolvedConnectionConfig) : List SessionStatement :=
  if config.driver = .sqlite then []
  else
    (if config.queryTimeout > 0 ∧ config.driver = .mysql then
      [⟨.maxExecutionTime, some (toString config.queryTimeout)⟩] else []) ++
    (match config.searchPath with
      | some path => if config.driver = .postgres then [⟨.searchPath, some path⟩] else []
      | none => []) ++
    (match config.charset with
      | some charset =>
        [⟨if config.driver = .mysql then .names else .clientEncoding, some charset⟩]
      | none => [])

def sessionResetStatements (config : ResolvedConnectionConfig) : List SessionStatement :=
  if config.driver = .sqlite then []
  else
    (if config.queryTimeout > 0 ∧ config.driver = .mysql then [⟨.maxExecutionTime, none⟩] else []) ++
    (match config.searchPath with
      | some _ => if config.driver = .postgres then [⟨.searchPath, none⟩] else []
      | none => []) ++
    (match config.charset with
      | some _ => [⟨if config.driver = .mysql then .names else .clientEncoding, none⟩]
      | none => [])

/-- A session's settings; `none` is the server's default. -/
abbrev Settings := Knob → Option String

def defaults : Settings := fun _ => none

def SessionStatement.apply (st : SessionStatement) (settings : Settings) : Settings :=
  Function.update settings st.knob st.value

/-- The settings that a configuration asks for. -/
def ResolvedConnectionConfig.wanted (config : ResolvedConnectionConfig) : Settings
  | .maxExecutionTime =>
    if config.driver = .mysql ∧ config.queryTimeout > 0 then some (toString config.queryTimeout)
    else none
  | .searchPath => if config.driver = .postgres then config.searchPath else none
  | .names => if config.driver = .mysql then config.charset else none
  | .clientEncoding => if config.driver = .postgres then config.charset else none

/-- Runs the statements up to the one that fails, if one does; the settings, and whether all ran. -/
def runSession (settings : Settings) : List SessionStatement → Option Nat → Settings × Bool
  | [], _ => (settings, true)
  | _ :: _, some 0 => (settings, false)
  | st :: rest, some (k + 1) => runSession (st.apply settings) rest (some k)
  | st :: rest, none => runSession (st.apply settings) rest none

/-- A statement of the list fails. -/
def Fails (stmts : List SessionStatement) (failing : Option Nat) : Prop :=
  ∃ k, failing = some k ∧ k < stmts.length

theorem runSession_ok (settings : Settings) (stmts : List SessionStatement) (failing : Option Nat) :
    (runSession settings stmts failing).2 = true ↔ ¬ Fails stmts failing := by
  induction stmts generalizing settings failing with
  | nil => simp [runSession, Fails]
  | cons st rest ih =>
    cases failing with
    | none => simp [runSession, ih, Fails]
    | some k =>
      cases k with
      | zero => simp [runSession, Fails]
      | succ k => simp [runSession, ih, Fails]

theorem runSession_settings {settings : Settings} {stmts : List SessionStatement}
    {failing : Option Nat} (h : ¬ Fails stmts failing) :
    (runSession settings stmts failing).1 =
      stmts.foldl (fun settings st => st.apply settings) settings := by
  induction stmts generalizing settings failing with
  | nil => rfl
  | cons st rest ih =>
    cases failing with
    | none => exact ih (by simp [Fails])
    | some k =>
      cases k with
      | zero => exact (h ⟨0, rfl, by simp⟩).elim
      | succ k => exact ih fun ⟨k', hk', hlt⟩ => h ⟨k' + 1, by simpa using hk', by simpa using hlt⟩

/-- The session statements bring a fresh session to what the configuration asks for. -/
theorem sessionStatements_settings (config : ResolvedConnectionConfig) :
    (sessionStatements config).foldl (fun settings st => st.apply settings) defaults =
      config.wanted := by
  obtain ⟨driver, queryTimeout, searchPath, charset⟩ := config
  funext knob
  cases driver <;> cases searchPath <;> cases charset <;> cases knob <;>
    by_cases hq : queryTimeout > 0 <;>
    simp [sessionStatements, SessionStatement.apply, ResolvedConnectionConfig.wanted, defaults,
      Function.update, hq]

/-- The reset statements undo them. -/
theorem sessionResetStatements_settings (config : ResolvedConnectionConfig) :
    (sessionResetStatements config).foldl (fun settings st => st.apply settings) config.wanted =
      defaults := by
  obtain ⟨driver, queryTimeout, searchPath, charset⟩ := config
  funext knob
  cases driver <;> cases searchPath <;> cases charset <;> cases knob <;>
    by_cases hq : queryTimeout > 0 <;>
    simp [sessionResetStatements, SessionStatement.apply, ResolvedConnectionConfig.wanted, defaults,
      Function.update, hq]

/-! ## Pools and connections -/

/-- A connection, by identity. -/
abbrev Conn := Nat

/-- The configured pools; each wraps a pool of connections, which several of them may share. -/
structure Deployment where
  config : Nat → ResolvedConnectionConfig
  underlying : Nat → Nat
  /-- The pool that a connection belongs to. -/
  home : Conn → Nat

inductive User
  /-- `connectionFor`'s wrapper: one statement on a connection of its own. -/
  | statement
  /-- One attempt of `withTransactionAsync`. -/
  | transaction
deriving DecidableEq

structure Holder where
  pool : Nat
  user : User
  /-- Statements sent so far. -/
  sent : Nat := 0
  /-- One of them failed. -/
  failed : Bool := false
  /-- One of the transaction's own, `BEGIN`, `COMMIT` or `ROLLBACK`, failed. -/
  controlFailed : Bool := false
deriving DecidableEq

inductive Status
  /-- In its pool, or not opened yet. -/
  | idle
  | held (h : Holder)
  | destroyed
deriving DecidableEq

/-- A connection as it is found. -/
structure Cell where
  status : Status := .idle
  settings : Settings := defaults
  /-- A session statement, a reset or a statement failed on the connection. -/
  failed : Bool := false

abbrev State := Conn → Cell

inductive Act
  /-- The underlying pool gives `c`; the session statement numbered `setup` fails, if there is one. -/
  | acquire (pool : Nat) (user : User) (c : Conn) (setup : Option Nat)
  | exec (c : Conn) (control ok : Bool)
  /-- The user is done: a transaction's attempt was `ok`, or its `ROLLBACK` failed too (`poisoned`). -/
  | release (c : Conn) (ok poisoned : Bool) (reset : Option Nat)

/-- `configuredPool(...).acquire`, or the pool's own where no knob is set. -/
def Cell.acquire (config : ResolvedConnectionConfig) (pool : Nat) (user : User)
    (setup : Option Nat) (cell : Cell) : Cell :=
  let ran := runSession cell.settings (sessionStatements config) setup
  { status := if ran.2 then .held { pool := pool, user := user } else .destroyed
    settings := ran.1
    failed := cell.failed || !ran.2 }

def Cell.exec (h : Holder) (control ok : Bool) (cell : Cell) : Cell :=
  { cell with
    status := .held { h with sent := h.sent + 1, failed := h.failed || !ok
                             controlFailed := h.controlFailed || (control && !ok) }
    failed := cell.failed || !ok }

/-- The `destroy` that the user passes: `release(c)`, and `release(conn, poisoned || !ok)`. -/
def User.destroys (ok poisoned : Bool) : User → Bool
  | .statement => false
  | .transaction => poisoned || !ok

/-- `configuredPool(...).release`, or the pool's own where no knob is set. -/
def Cell.release (config : ResolvedConnectionConfig) (h : Holder) (ok poisoned : Bool)
    (reset : Option Nat) (cell : Cell) : Cell :=
  if h.user.destroys ok poisoned then { cell with status := .destroyed }
  else
    let ran := runSession cell.settings (sessionResetStatements config) reset
    { status := if ran.2 then .idle else .destroyed
      settings := ran.1
      failed := cell.failed || !ran.2 }

/-- A single statement is sent once, and is none of a transaction's own. -/
def Holder.maySend (h : Holder) (control : Bool) : Bool :=
  match h.user with
  | .statement => h.sent = 0 && !control
  | .transaction => true

/-- An attempt is not ok where one of the transaction's own statements failed, and is poisoned only
by a failed one. -/
def Holder.mayEnd (h : Holder) (ok poisoned : Bool) : Bool :=
  match h.user with
  | .statement => h.sent = 1
  | .transaction => (!ok || !h.controlFailed) && (!poisoned || (!ok && h.controlFailed))

variable (d : Deployment)

def step (s : State) : Act → Option State
  | .acquire pool user c setup =>
    if (s c).status = .idle ∧ d.home c = d.underlying pool then
      some (Function.update s c ((s c).acquire (d.config pool) pool user setup))
    else none
  | .exec c control ok =>
    match (s c).status with
    | .held h =>
      if h.maySend control then some (Function.update s c ((s c).exec h control ok)) else none
    | _ => none
  | .release c ok poisoned reset =>
    match (s c).status with
    | .held h =>
      if h.mayEnd ok poisoned then
        some (Function.update s c ((s c).release (d.config h.pool) h ok poisoned reset))
      else none
    | _ => none

theorem step_cases {s t : State} {a : Act} (h : step d s a = some t) :
    (∃ pool user c setup, a = .acquire pool user c setup ∧ (s c).status = .idle ∧
      t = Function.update s c ((s c).acquire (d.config pool) pool user setup)) ∨
    (∃ c control ok hold, a = .exec c control ok ∧ (s c).status = .held hold ∧
      t = Function.update s c ((s c).exec hold control ok)) ∨
    (∃ c ok poisoned reset hold, a = .release c ok poisoned reset ∧ (s c).status = .held hold ∧
      hold.mayEnd ok poisoned = true ∧
      t = Function.update s c ((s c).release (d.config hold.pool) hold ok poisoned reset)) := by
  cases a with
  | acquire pool user c setup =>
    simp only [step] at h
    split at h
    next hidle => exact .inl ⟨pool, user, c, setup, rfl, hidle.1, (Option.some.inj h).symm⟩
    next => exact nomatch h
  | exec c control ok =>
    simp only [step] at h
    split at h
    next hold hheld =>
      split at h
      next => exact .inr (.inl ⟨c, control, ok, hold, rfl, hheld, (Option.some.inj h).symm⟩)
      next => exact nomatch h
    next => exact nomatch h
  | release c ok poisoned reset =>
    simp only [step] at h
    split at h
    next hold hheld =>
      split at h
      next hend =>
        exact .inr (.inr ⟨c, ok, poisoned, reset, hold, rfl, hheld, hend, (Option.some.inj h).symm⟩)
      next => exact nomatch h
    next => exact nomatch h

/-! ## What is promised -/

/-- A holder's connection has its own configuration's settings, and a connection that can be handed
out has those of none. A failure of the holder's is one on its connection. -/
structure Cell.Settled (cell : Cell) : Prop where
  own : ∀ h, cell.status = .held h → cell.settings = (d.config h.pool).wanted
  clean : cell.status = .idle → cell.settings = defaults
  recorded : ∀ h, cell.status = .held h → h.failed = true → cell.failed = true

/-- A connection on which something failed is with the holder it failed for, or destroyed. -/
def Cell.Gone (cell : Cell) : Prop :=
  cell.failed = true → cell.status = .destroyed ∨ ∃ h, cell.status = .held h ∧ h.failed = true

/-- The settings are each holder's own, and what has failed is not handed out again. -/
def Kept (s : State) : Prop :=
  ∀ c, (∀ h, (s c).status = .held h → (s c).settings = (d.config h.pool).wanted) ∧
    ((s c).status = .idle → (s c).settings = defaults) ∧ (s c).Gone

/-- Nothing failed for the holder that is done, or it is a transaction whose attempt did not
succeed, or the reset of its session fails too. -/
def Harmless (s : State) : Act → Prop
  | .acquire _ _ _ _ | .exec _ _ _ => True
  | .release c ok _ reset => ∀ h, (s c).status = .held h →
      h.failed = false ∨ (h.user = .transaction ∧ ok = false) ∨
        Fails (sessionResetStatements (d.config h.pool)) reset

/-! ## One step -/

variable {d}

theorem Cell.Settled.acquire {cell : Cell} (h : cell.Settled d) (hidle : cell.status = .idle)
    (pool : Nat) (user : User) (setup : Option Nat) :
    (cell.acquire (d.config pool) pool user setup).Settled d := by
  constructor
  · intro hold hheld
    simp only [Cell.acquire] at hheld ⊢
    split at hheld
    next hran =>
      obtain rfl := Status.held.inj hheld
      rw [runSession_settings ((runSession_ok _ _ _).mp hran), h.clean hidle]
      exact sessionStatements_settings _
    next => exact nomatch hheld
  · intro hidle'
    simp only [Cell.acquire] at hidle'
    split at hidle' <;> exact nomatch hidle'
  · intro hold hheld hfailed
    simp only [Cell.acquire] at hheld
    split at hheld
    next =>
      obtain rfl := Status.held.inj hheld
      exact nomatch hfailed
    next => exact nomatch hheld

theorem Cell.Settled.exec {cell : Cell} {hold : Holder} (h : cell.Settled d)
    (hheld : cell.status = .held hold) (control ok : Bool) :
    (cell.exec hold control ok).Settled d := by
  constructor
  · intro hold' hheld'
    obtain rfl := Status.held.inj hheld'
    exact h.own hold hheld
  · intro hidle
    exact nomatch hidle
  · intro hold' hheld' hfailed
    obtain rfl := Status.held.inj hheld'
    simp only [Cell.exec, Bool.or_eq_true] at hfailed ⊢
    exact hfailed.imp (h.recorded hold hheld) id

theorem Cell.Settled.release {cell : Cell} {hold : Holder} (h : cell.Settled d)
    (hheld : cell.status = .held hold) (ok poisoned : Bool) (reset : Option Nat) :
    (cell.release (d.config hold.pool) hold ok poisoned reset).Settled d := by
  have hgone : ∀ hold', (cell.release (d.config hold.pool) hold ok poisoned reset).status ≠
      .held hold' := by
    intro hold' heq
    rw [Cell.release] at heq
    split at heq
    · exact nomatch heq
    · simp only at heq
      split at heq <;> exact nomatch heq
  refine ⟨fun hold' heq => (hgone hold' heq).elim, ?_, fun hold' heq => (hgone hold' heq).elim⟩
  intro hidle
  rw [Cell.release] at hidle ⊢
  split at hidle
  next => exact nomatch hidle
  next hdes =>
    rw [if_neg hdes]
    simp only at hidle ⊢
    split at hidle
    next hran =>
      rw [runSession_settings ((runSession_ok _ _ _).mp hran), h.own hold hheld]
      exact sessionResetStatements_settings _
    next => exact nomatch hidle

theorem Cell.Gone.acquire {cell : Cell} (h : cell.Gone) (hidle : cell.status = .idle)
    (config : ResolvedConnectionConfig) (pool : Nat) (user : User) (setup : Option Nat) :
    (cell.acquire config pool user setup).Gone := by
  have hclean : cell.failed = false := by
    cases hf : cell.failed with
    | false => rfl
    | true =>
      rcases h hf with hd | ⟨hold, hh, -⟩
      · rw [hidle] at hd
        exact nomatch hd
      · rw [hidle] at hh
        exact nomatch hh
  intro hfailed
  simp only [Cell.acquire, hclean, Bool.false_or, Bool.not_eq_true'] at hfailed ⊢
  rw [hfailed]
  exact .inl rfl

theorem Cell.Gone.exec {cell : Cell} {hold : Holder} (h : cell.Gone)
    (hheld : cell.status = .held hold) (control ok : Bool) : (cell.exec hold control ok).Gone := by
  intro hfailed
  refine .inr ⟨_, rfl, ?_⟩
  simp only [Cell.exec, Bool.or_eq_true] at hfailed ⊢
  refine hfailed.imp (fun hf => ?_) id
  rcases h hf with hd | ⟨hold', hh, hfail⟩
  · rw [hheld] at hd
    exact nomatch hd
  · rw [hheld] at hh
    obtain rfl := Status.held.inj hh
    exact hfail

/-- A release leaves no failed connection behind exactly when it is harmless. -/
theorem Cell.Gone.release_iff {cell : Cell} {hold : Holder} (hs : cell.Settled d) (h : cell.Gone)
    (hheld : cell.status = .held hold) {ok poisoned : Bool} (hend : hold.mayEnd ok poisoned = true)
    (reset : Option Nat) :
    (cell.release (d.config hold.pool) hold ok poisoned reset).Gone ↔
      hold.failed = false ∨ (hold.user = .transaction ∧ ok = false) ∨
        Fails (sessionResetStatements (d.config hold.pool)) reset := by
  have hfailed : cell.failed = hold.failed := by
    cases hf : cell.failed with
    | false =>
      cases hh : hold.failed with
      | false => rfl
      | true =>
        rw [hs.recorded hold hheld hh] at hf
        exact hf.symm
    | true =>
      rcases h hf with hd | ⟨hold', hh, hfail⟩
      · rw [hheld] at hd
        exact nomatch hd
      · rw [hheld] at hh
        obtain rfl := Status.held.inj hh
        exact hfail.symm
  have hdestroys : hold.user.destroys ok poisoned = true ↔ hold.user = .transaction ∧ ok = false := by
    rw [Holder.mayEnd] at hend
    cases huser : hold.user with
    | statement => simp [User.destroys]
    | transaction =>
      rw [huser] at hend
      cases ok <;> cases poisoned <;> simp_all [User.destroys]
  rw [Cell.release]
  split
  next hdes => exact iff_of_true (fun _ => .inl rfl) (.inr (.inl (hdestroys.mp hdes)))
  next hdes =>
    rw [or_iff_right fun h => hdes (hdestroys.mpr h)]
    cases hran : (runSession cell.settings (sessionResetStatements (d.config hold.pool)) reset).2 with
    | false =>
      have hfails : Fails (sessionResetStatements (d.config hold.pool)) reset := by
        by_contra hnot
        rw [(runSession_ok _ _ _).mpr hnot] at hran
        exact nomatch hran
      refine iff_of_true (fun _ => .inl ?_) (.inr hfails)
      simp [hran]
    | true =>
      rw [or_iff_left ((runSession_ok _ _ _).mp hran)]
      simp only [Cell.Gone, hran, hfailed]
      cases hold.failed <;> simp

/-! ## Runs -/

theorem settled_step {s t : State} {a : Act} (hs : ∀ c, (s c).Settled d) (h : step d s a = some t) :
    ∀ c, (t c).Settled d := by
  have hupdate : ∀ (c' : Conn) (cell : Cell), cell.Settled d →
      ∀ c, (Function.update s c' cell c).Settled d := by
    intro c' cell hcell c
    by_cases hc : c = c'
    · subst hc
      rw [Function.update_self]
      exact hcell
    · rw [Function.update_of_ne hc]
      exact hs c
  rcases step_cases d h with ⟨pool, user, c', setup, -, hidle, rfl⟩ |
    ⟨c', control, ok, hold, -, hheld, rfl⟩ | ⟨c', ok, poisoned, reset, hold, -, hheld, -, rfl⟩
  · exact hupdate c' _ ((hs c').acquire hidle pool user setup)
  · exact hupdate c' _ ((hs c').exec hheld control ok)
  · exact hupdate c' _ ((hs c').release hheld ok poisoned reset)

theorem kept_iff_gone {s : State} (hs : ∀ c, (s c).Settled d) :
    Kept d s ↔ ∀ c, (s c).Gone := by
  constructor
  · intro h c
    exact (h c).2.2
  · intro h c
    exact ⟨(hs c).own, (hs c).clean, h c⟩

theorem kept_step_iff {s t : State} {a : Act} (hs : ∀ c, (s c).Settled d) (hkept : Kept d s)
    (h : step d s a = some t) : Kept d t ↔ Harmless d s a := by
  rw [kept_iff_gone (settled_step hs h)]
  have hgone := (kept_iff_gone hs).mp hkept
  have hupdate : ∀ (c' : Conn) (cell : Cell),
      (∀ c, (Function.update s c' cell c).Gone) ↔ cell.Gone := by
    intro c' cell
    constructor
    · intro hall
      have := hall c'
      rwa [Function.update_self] at this
    · intro hcell c
      by_cases hc : c = c'
      · subst hc
        rw [Function.update_self]
        exact hcell
      · rw [Function.update_of_ne hc]
        exact hgone c
  rcases step_cases d h with ⟨pool, user, c', setup, rfl, hidle, rfl⟩ |
    ⟨c', control, ok, hold, rfl, hheld, rfl⟩ | ⟨c', ok, poisoned, reset, hold, rfl, hheld, hend, rfl⟩
  · rw [hupdate]
    exact iff_of_true ((hgone c').acquire hidle _ pool user setup) trivial
  · rw [hupdate]
    exact iff_of_true ((hgone c').exec hheld control ok) trivial
  · rw [hupdate, (hgone c').release_iff (hs c') hheld hend]
    constructor
    · intro hone hold' hheld'
      rw [hheld] at hheld'
      obtain rfl := Status.held.inj hheld'
      exact hone
    · intro hall
      exact hall hold hheld

/-- In every state of every run the settings are each holder's own and nothing that has failed can
be handed out again, exactly when every release is harmless. -/
theorem kept_along_iff (d : Deployment) (acts : List Act) :
    Run.Along (step d) (Kept d) (fun _ => {}) acts ↔
      Run.Steps (step d) (Harmless d) (fun _ => {}) acts := by
  have hfresh : ∀ c : Conn, ((fun _ => {} : State) c).Settled d := by
    intro c
    constructor
    · intro h hheld
      exact nomatch hheld
    · intro hidle
      rfl
    · intro h hheld
      exact nomatch hheld
  apply Run.along_iff_steps (fun _ _ _ hs h => settled_step hs h)
    (fun _ _ _ hs hkept h => kept_step_iff hs hkept h) hfresh
  exact (kept_iff_gone hfresh).mpr fun c hfailed => nomatch hfailed

/-- A statement that fails outside a transaction leaves its connection in the pool. -/
theorem failed_statement_kept :
    let d : Deployment :=
      { config := fun _ => { charset := some "UTF8" }, underlying := fun _ => 0, home := fun _ => 0 }
    ¬ Run.Along (step d) (Kept d) (fun _ => {})
      [.acquire 0 .statement 7 none, .exec 7 false false, .release 7 false false none] := by
  intro d h
  have hlast := ((h.2 _ rfl).2 _ rfl).2 _ rfl
  have hgone := (hlast 7).2.2 rfl
  rcases hgone with hd | ⟨hold, hh, -⟩
  · exact nomatch hd
  · exact nomatch hh

end LiteDb.SessionPools
