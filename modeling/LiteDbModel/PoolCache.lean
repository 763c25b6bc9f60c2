import LiteDbModel.Lib.Run

/-!
# The pools of the handlers

The drivers of PostgreSQL and MySQL keep their pools in a map, by host, port and database. A handler
takes the pool that is there for its configuration or opens one, and closing it ends what the map
then has for its configuration. What a handler's queries run on is followed over every order of
creating, using and closing handlers.
-/

namespace LiteDb.PoolCache
set_option autoImplicit false

inductive Engine
  | postgres
  | mysql
deriving DecidableEq

structure DBConfig where
  host : Option String := none
  port : Option Nat := none
  database : String
  user : Option String := none
  password : Option String := none
  max : Option ℚ := none
  timeout : Option ℚ := none
  idleTimeoutMillis : Option ℚ := none
  queryTimeout : Option ℚ := none
  keepAlive : Option Bool := none
  keepAliveInitialDelayMillis : Option ℚ := none
deriving DecidableEq

def getPoolKey (config : DBConfig) : String :=
  config.host.getD "undefined" ++ ":" ++ (config.port.map toString).getD "undefined" ++ "/" ++
    config.database

/-- What a pool is opened with; MySQL's pools take no query timeout and no keepalive. -/
structure PoolOptions where
  host : Option String
  port : Option Nat
  database : String
  user : Option String
  password : Option String
  max : ℚ
  connectionTimeoutMillis : ℚ
  idleTimeoutMillis : ℚ
  query_timeout : Option ℚ
  keepAlive : Option Bool
  keepAliveInitialDelayMillis : Option ℚ
deriving DecidableEq

/-- `value || fallback` -/
def orElse (value : Option ℚ) (fallback : ℚ) : ℚ := (value.filter (· ≠ 0)).getD fallback

def poolOptions (engine : Engine) (config : DBConfig) : PoolOptions where
  host := config.host
  port := config.port
  database := config.database
  user := config.user
  password := config.password
  max := orElse config.max 10
  connectionTimeoutMillis := orElse config.timeout 30 * 1000
  idleTimeoutMillis := config.idleTimeoutMillis.getD 10000
  query_timeout := if engine = .postgres then some (orElse config.queryTimeout 30 * 1000) else none
  keepAlive := if engine = .postgres then config.keepAlive else none
  keepAliveInitialDelayMillis :=
    if engine = .postgres then config.keepAliveInitialDelayMillis else none

structure Pool where
  options : PoolOptions
  ended : Bool

structure Handler where
  engine : Engine
  config : DBConfig
  writerConfig : Option DBConfig
  pool : Nat
  writerPool : Option Nat
  closed : Bool

/-- The pool of a query. -/
def Handler.runsOn (h : Handler) (onWriter : Bool) : Nat :=
  if onWriter then h.writerPool.getD h.pool else h.pool

def Handler.configOf (h : Handler) (onWriter : Bool) : DBConfig :=
  if onWriter then h.writerConfig.getD h.config else h.config

/-- The pools that were opened, and the map of each driver. -/
structure State where
  opened : List Pool
  pools : Engine → String → Option Nat
  handlers : List Handler

def init : State := ⟨[], fun _ _ => none, []⟩

/-- `pools.set` and `pools.delete` -/
def setPool (pools : Engine → String → Option Nat) (engine : Engine) (key : String)
    (pool : Option Nat) : Engine → String → Option Nat :=
  Function.update pools engine (Function.update (pools engine) key pool)

def getPool (s : State) (engine : Engine) (config : DBConfig) : State × Nat :=
  match s.pools engine (getPoolKey config) with
  | some pool => (s, pool)
  | none =>
    (⟨s.opened ++ [⟨poolOptions engine config, false⟩],
      setPool s.pools engine (getPoolKey config) (some s.opened.length), s.handlers⟩,
      s.opened.length)

/-- The constructor of a driver. -/
def create (s : State) (engine : Engine) (config : DBConfig) (writerConfig : Option DBConfig) : State :=
  let (s, pool) := getPool s engine config
  match writerConfig with
  | none => { s with handlers := s.handlers ++ [⟨engine, config, none, pool, none, false⟩] }
  | some writer =>
    let (s, writerPool) := getPool s engine writer
    { s with handlers := s.handlers ++ [⟨engine, config, some writer, pool, some writerPool, false⟩] }

def closePool (s : State) (engine : Engine) (config : DBConfig) : State :=
  match s.pools engine (getPoolKey config) with
  | none => s
  | some pool =>
    ⟨s.opened.modify pool fun p => { p with ended := true },
      setPool s.pools engine (getPoolKey config) none, s.handlers⟩

/-- `close` of the handler with the number. -/
def close (s : State) (i : Nat) (h : Handler) : State :=
  let s := closePool s h.engine h.config
  let s := match h.writerConfig with
    | none => s
    | some writer => closePool s h.engine writer
  { s with handlers := s.handlers.set i { h with closed := true } }

inductive Action
  | create (engine : Engine) (config : DBConfig) (writerConfig : Option DBConfig)
  | query (i : Nat) (onWriter : Bool)
  | close (i : Nat)

/-- There is no step for a handler that was not created. -/
def step (s : State) : Action → Option State
  | .create engine config writerConfig => some (create s engine config writerConfig)
  | .query i _ => s.handlers[i]?.map fun _ => s
  | .close i => s.handlers[i]?.map fun h => close s i h

/-! ## What is wanted -/

/-- Every query runs on a pool with the handler's own configuration, and no pool of a handler that is
open was ended. -/
structure Owned (s : State) : Prop where
  options : ∀ h ∈ s.handlers, ∀ onWriter, ∃ p, s.opened[h.runsOn onWriter]? = some p ∧
    p.options = poolOptions h.engine (h.configOf onWriter)
  live : ∀ h ∈ s.handlers, h.closed = false → ∀ onWriter p, s.opened[h.runsOn onWriter]? = some p →
    p.ended = false

/-- The pool that the map has for a configuration. -/
def State.cached (s : State) (engine : Engine) (config : DBConfig) : Option Pool :=
  (s.pools engine (getPoolKey config)).bind fun p => s.opened[p]?

/-- No configuration meets the pool of another one under its key, and no handler is closed while an
open one uses a pool that is under its keys. -/
def Apart (s : State) : Action → Prop
  | .create engine config writerConfig =>
    (∀ p, s.cached engine config = some p → p.options = poolOptions engine config) ∧
    ∀ writer, writerConfig = some writer →
      (getPoolKey writer = getPoolKey config → poolOptions engine writer = poolOptions engine config) ∧
      (getPoolKey writer ≠ getPoolKey config →
        ∀ p, s.cached engine writer = some p → p.options = poolOptions engine writer)
  | .query _ _ => True
  | .close i => ∀ h, s.handlers[i]? = some h → ∀ j g, j ≠ i → s.handlers[j]? = some g →
      g.closed = false → ∀ onWriter onWriter',
        s.pools h.engine (getPoolKey (h.configOf onWriter)) ≠ some (g.runsOn onWriter')

/-! ## One pool -/

theorem setPool_self (pools : Engine → String → Option Nat) (engine : Engine) (key : String)
    (pool : Option Nat) : setPool pools engine key pool engine key = pool := by
  rw [setPool, Function.update_self, Function.update_self]

theorem setPool_of_ne {pools : Engine → String → Option Nat} {engine : Engine} {key : String}
    {pool : Option Nat} {e : Engine} {k : String} (h : e ≠ engine ∨ k ≠ key) :
    setPool pools engine key pool e k = pools e k := by
  rw [setPool]
  by_cases he : e = engine
  · subst he
    have hk : k ≠ key := h.resolve_left fun h => h rfl
    rw [Function.update_self, Function.update_of_ne hk]
  · rw [Function.update_of_ne he]

/-- What taking a pool can do. -/
inductive Gets (s : State) (engine : Engine) (config : DBConfig) : State → Nat → Prop
  | cached {p : Nat} (h : s.pools engine (getPoolKey config) = some p) : Gets s engine config s p
  | opened (h : s.pools engine (getPoolKey config) = none) :
      Gets s engine config ⟨s.opened ++ [⟨poolOptions engine config, false⟩],
        setPool s.pools engine (getPoolKey config) (some s.opened.length), s.handlers⟩ s.opened.length

theorem getPool_gets (s : State) (engine : Engine) (config : DBConfig) :
    Gets s engine config (getPool s engine config).1 (getPool s engine config).2 := by
  rw [getPool]
  split
  next p h => exact .cached h
  next h => exact .opened h

/-- The map has pools that were not ended, and every handler has its pools. -/
structure Sound (s : State) : Prop where
  pools : ∀ e k p, s.pools e k = some p → ∃ q, s.opened[p]? = some q ∧ q.ended = false
  /-- A pool is under one key. -/
  apart : ∀ e k e' k' p, s.pools e k = some p → s.pools e' k' = some p → e = e' ∧ k = k'
  held : ∀ h ∈ s.handlers, ∀ onWriter, ∃ q, s.opened[h.runsOn onWriter]? = some q

theorem sound_init : Sound init := by
  refine ⟨?_, ?_, ?_⟩
  · intro e k p hp
    exact absurd hp (Option.some_ne_none p).symm
  · intro e k e' k' p hp
    exact absurd hp (Option.some_ne_none p).symm
  · intro h hh
    exact absurd hh List.not_mem_nil

section Gets
variable {s t : State} {engine : Engine} {config : DBConfig} {p : Nat} (h : Gets s engine config t p)
include h

theorem Gets.handlers : t.handlers = s.handlers := by
  cases h with
  | cached => rfl
  | opened => rfl

/-- The pools that were there stay as they are. -/
theorem Gets.keeps {i : Nat} {q : Pool} (hq : s.opened[i]? = some q) : t.opened[i]? = some q := by
  cases h with
  | cached => exact hq
  | opened =>
    rw [List.getElem?_append_left (List.getElem?_eq_some_iff.mp hq).1]
    exact hq

/-- What the map has is what it had, or the new pool under the key. -/
theorem Gets.pools {e : Engine} {k : String} {i : Nat} (hi : t.pools e k = some i) :
    s.pools e k = some i ∨ e = engine ∧ k = getPoolKey config ∧ i = s.opened.length ∧
      t.opened[i]? = some ⟨poolOptions engine config, false⟩ := by
  cases h with
  | cached => exact Or.inl hi
  | opened =>
    change setPool s.pools engine (getPoolKey config) _ e k = some i at hi
    by_cases hsame : e = engine ∧ k = getPoolKey config
    · obtain ⟨rfl, rfl⟩ := hsame
      rw [setPool_self] at hi
      obtain rfl := Option.some_inj.mp hi
      exact Or.inr ⟨rfl, rfl, rfl, List.getElem?_concat_length⟩
    · rw [setPool_of_ne (not_and_or.mp hsame)] at hi
      exact Or.inl hi

theorem Gets.sound (hs : Sound s) : Sound t := by
  have hold : ∀ {e : Engine} {k : String} {i : Nat}, s.pools e k = some i → i < s.opened.length := by
    intro e k i hi
    obtain ⟨q, hq, -⟩ := hs.pools e k i hi
    exact (List.getElem?_eq_some_iff.mp hq).1
  refine ⟨?_, ?_, ?_⟩
  · intro e k i hi
    rcases h.pools hi with hi | ⟨-, -, -, hnew⟩
    · obtain ⟨q, hq, hlive⟩ := hs.pools e k i hi
      exact ⟨q, h.keeps hq, hlive⟩
    · exact ⟨_, hnew, rfl⟩
  · intro e k e' k' i hi hi'
    rcases h.pools hi with hi | ⟨he, hk, hlen, -⟩
    · rcases h.pools hi' with hi' | ⟨-, -, hlen, -⟩
      · exact hs.apart e k e' k' i hi hi'
      · exact absurd (hold hi) (by omega)
    · rcases h.pools hi' with hi' | ⟨he', hk', -, -⟩
      · exact absurd (hold hi') (by omega)
      · exact ⟨he.trans he'.symm, hk.trans hk'.symm⟩
  · intro g hg onWriter
    rw [h.handlers] at hg
    obtain ⟨q, hq⟩ := hs.held g hg onWriter
    exact ⟨q, h.keeps hq⟩

/-- The pool has the wanted configuration if the map has no pool of another one under the key. -/
theorem Gets.options (hs : Sound s) : ∃ q, t.opened[p]? = some q ∧ q.ended = false ∧
    (q.options = poolOptions engine config ↔
      ∀ r, s.cached engine config = some r → r.options = poolOptions engine config) := by
  cases h with
  | cached hp =>
    obtain ⟨q, hq, hlive⟩ := hs.pools _ _ _ hp
    refine ⟨q, hq, hlive, ?_⟩
    rw [State.cached, hp, Option.bind_some, hq]
    simp
  | opened hnone =>
    refine ⟨_, List.getElem?_concat_length, rfl, ?_⟩
    rw [State.cached, hnone]
    simp

/-- What the map has afterwards. -/
theorem Gets.cached_other {other : DBConfig} (hne : getPoolKey other ≠ getPoolKey config)
    (hs : Sound s) : t.cached engine other = s.cached engine other := by
  cases h with
  | cached => rfl
  | opened =>
    have hmap : setPool s.pools engine (getPoolKey config) (some s.opened.length) engine
        (getPoolKey other) = s.pools engine (getPoolKey other) := setPool_of_ne (Or.inr hne)
    change (setPool _ _ _ _ _ _).bind _ = (s.pools engine (getPoolKey other)).bind _
    rw [hmap]
    cases hk : s.pools engine (getPoolKey other) with
    | none => rfl
    | some i =>
      obtain ⟨q, hq, -⟩ := hs.pools _ _ _ hk
      rw [Option.bind_some, Option.bind_some,
        List.getElem?_append_left (List.getElem?_eq_some_iff.mp hq).1]

theorem Gets.cached_same {other : DBConfig} (heq : getPoolKey other = getPoolKey config) :
    t.cached engine other = t.opened[p]? := by
  cases h with
  | cached hp => rw [State.cached, heq, hp, Option.bind_some]
  | opened =>
    change (setPool _ _ _ _ _ _).bind _ = _
    rw [heq, setPool_self]
    rfl

end Gets

/-! ## Creating a handler -/

/-- A handler with its pools; the handlers before it have theirs. -/
structure Created (s t : State) (h : Handler) : Prop where
  handlers : t.handlers = s.handlers ++ [h]
  keeps : ∀ (i : Nat) (q : Pool), s.opened[i]? = some q → t.opened[i]? = some q
  sound : Sound t
  live : ∀ onWriter p, t.opened[h.runsOn onWriter]? = some p → p.ended = false
  isOpen : h.closed = false

theorem created_owned {s t : State} {h : Handler} (hc : Created s t h) (hs : Sound s) (ho : Owned s) :
    Owned t ↔ ∀ onWriter, ∃ p, t.opened[h.runsOn onWriter]? = some p ∧
      p.options = poolOptions h.engine (h.configOf onWriter) := by
  constructor
  · intro hot onWriter
    exact hot.options h (by rw [hc.handlers]; simp) onWriter
  · intro hown
    refine ⟨?_, ?_⟩
    · intro g hg onWriter
      rw [hc.handlers] at hg
      rcases List.mem_append.mp hg with hg | hg
      · obtain ⟨p, hp, hoptions⟩ := ho.options g hg onWriter
        exact ⟨p, hc.keeps _ _ hp, hoptions⟩
      · obtain rfl := List.mem_singleton.mp hg
        exact hown onWriter
    · intro g hg hopen onWriter p hp
      rw [hc.handlers] at hg
      rcases List.mem_append.mp hg with hg | hg
      · obtain ⟨q, hq⟩ := hs.held g hg onWriter
        obtain rfl := Option.some_inj.mp ((hc.keeps _ _ hq).symm.trans hp)
        exact ho.live g hg hopen onWriter q hq
      · obtain rfl := List.mem_singleton.mp hg
        exact hc.live onWriter p hp

theorem sound_addHandler {s : State} (hs : Sound s) {h : Handler}
    (hpools : ∀ onWriter, ∃ q, s.opened[h.runsOn onWriter]? = some q) :
    Sound { s with handlers := s.handlers ++ [h] } := by
  refine ⟨hs.pools, hs.apart, ?_⟩
  intro g hg onWriter
  rcases List.mem_append.mp hg with hg | hg
  · exact hs.held g hg onWriter
  · obtain rfl := List.mem_singleton.mp hg
    exact hpools onWriter

section Create
variable {s t u : State} {engine : Engine} {config : DBConfig} {p w : Nat} (hs : Sound s)
  (hp : Gets s engine config t p)
include hs hp

/-- A handler without a writer. -/
theorem created_single :
    Created s { t with handlers := t.handlers ++ [⟨engine, config, none, p, none, false⟩] }
      ⟨engine, config, none, p, none, false⟩ := by
  obtain ⟨q, hq, hlive, -⟩ := hp.options hs
  have hruns : ∀ onWriter, (⟨engine, config, none, p, none, false⟩ : Handler).runsOn onWriter = p := by
    intro onWriter
    cases onWriter <;> rfl
  refine ⟨?_, fun i r => hp.keeps, sound_addHandler (hp.sound hs) ?_, ?_, rfl⟩
  · change t.handlers ++ _ = _
    rw [hp.handlers]
  · intro onWriter
    exact ⟨q, by rw [hruns]; exact hq⟩
  · intro onWriter r hr
    rw [hruns] at hr
    obtain rfl := Option.some_inj.mp (hq.symm.trans hr)
    exact hlive

theorem single_owned (ho : Owned s) :
    Owned { t with handlers := t.handlers ++ [⟨engine, config, none, p, none, false⟩] } ↔
      Apart s (.create engine config none) := by
  rw [created_owned (created_single hs hp) hs ho]
  obtain ⟨q, hq, -, hoptions⟩ := hp.options hs
  rw [Apart, ← hoptions]
  constructor
  · intro h
    obtain ⟨r, hr, hown⟩ := h false
    obtain rfl := Option.some_inj.mp (hq.symm.trans hr)
    exact ⟨hown, fun writer hw => nomatch hw⟩
  · rintro ⟨hown, -⟩ onWriter
    cases onWriter <;> exact ⟨q, hq, hown⟩

variable {writer : DBConfig} (hw : Gets t engine writer u w)
include hw

theorem created_pair : Created s
    { u with handlers := u.handlers ++ [⟨engine, config, some writer, p, some w, false⟩] }
    ⟨engine, config, some writer, p, some w, false⟩ := by
  have ht := hp.sound hs
  obtain ⟨q, hq, hlive, -⟩ := hp.options hs
  obtain ⟨r, hr, hlive', -⟩ := hw.options ht
  refine ⟨?_, fun i x hx => hw.keeps (hp.keeps hx), sound_addHandler (hw.sound ht) ?_, ?_, rfl⟩
  · change u.handlers ++ _ = _
    rw [hw.handlers, hp.handlers]
  · intro onWriter
    cases onWriter with
    | false => exact ⟨q, hw.keeps hq⟩
    | true => exact ⟨r, hr⟩
  · intro onWriter x hx
    cases onWriter with
    | false =>
      obtain rfl := Option.some_inj.mp ((hw.keeps hq).symm.trans hx)
      exact hlive
    | true =>
      obtain rfl := Option.some_inj.mp (hr.symm.trans hx)
      exact hlive'

theorem pair_owned (ho : Owned s) :
    Owned { u with handlers := u.handlers ++ [⟨engine, config, some writer, p, some w, false⟩] } ↔
      Apart s (.create engine config (some writer)) := by
  have ht := hp.sound hs
  rw [created_owned (created_pair hs hp hw) hs ho]
  obtain ⟨q, hq, -, hoptions⟩ := hp.options hs
  obtain ⟨r, hr, -, hoptions'⟩ := hw.options ht
  have hwriter : r.options = poolOptions engine writer ↔
      (getPoolKey writer = getPoolKey config → q.options = poolOptions engine writer) ∧
      (getPoolKey writer ≠ getPoolKey config →
        ∀ x, s.cached engine writer = some x → x.options = poolOptions engine writer) := by
    rw [hoptions']
    by_cases hkey : getPoolKey writer = getPoolKey config
    · rw [hp.cached_same hkey, hq]
      simp [hkey]
    · rw [hp.cached_other hkey hs]
      simp [hkey]
  have hboth : (∀ onWriter, ∃ x, u.opened[(⟨engine, config, some writer, p, some w, false⟩ :
        Handler).runsOn onWriter]? = some x ∧ x.options = poolOptions engine
          ((⟨engine, config, some writer, p, some w, false⟩ : Handler).configOf onWriter)) ↔
      q.options = poolOptions engine config ∧ r.options = poolOptions engine writer := by
    constructor
    · intro h
      obtain ⟨x, hx, hown⟩ := h false
      obtain ⟨y, hy, hown'⟩ := h true
      obtain rfl := Option.some_inj.mp ((hw.keeps hq).symm.trans hx)
      obtain rfl := Option.some_inj.mp (hr.symm.trans hy)
      exact ⟨hown, hown'⟩
    · rintro ⟨hown, hown'⟩ onWriter
      cases onWriter with
      | false => exact ⟨q, hw.keeps hq, hown⟩
      | true => exact ⟨r, hr, hown'⟩
  rw [hboth, Apart, ← hoptions, hwriter]
  constructor
  · rintro ⟨hown, hsame, hother⟩
    refine ⟨hown, ?_⟩
    rintro _ ⟨⟩
    exact ⟨fun hkey => (hsame hkey).symm.trans hown, hother⟩
  · rintro ⟨hown, hrest⟩
    obtain ⟨hsame, hother⟩ := hrest writer rfl
    exact ⟨hown, fun hkey => hown.trans (hsame hkey).symm, hother⟩

end Create

/-! ## Closing a handler -/

/-- Some pools end, and leave the map. -/
structure Ends (s t : State) (ends : Nat → Prop) : Prop where
  handlers : t.handlers = s.handlers
  opened : ∀ (j : Nat) (q : Pool), s.opened[j]? = some q → ∃ q', t.opened[j]? = some q' ∧
    q'.options = q.options ∧ (q'.ended = false ↔ q.ended = false ∧ ¬ ends j)
  pools : ∀ e k j, t.pools e k = some j ↔ s.pools e k = some j ∧ ¬ ends j

theorem closePool_ends {s : State} (hs : Sound s) (engine : Engine) (config : DBConfig) :
    Ends s (closePool s engine config) fun j => s.pools engine (getPoolKey config) = some j := by
  rw [closePool]
  split
  next h =>
    refine ⟨rfl, ?_, ?_⟩
    · intro j q hq
      exact ⟨q, hq, rfl, by simp [h]⟩
    · intro e k j
      simp [h]
  next p h =>
    refine ⟨rfl, ?_, ?_⟩
    · intro j q hq
      have hj : (s.opened.modify p fun q => { q with ended := true })[j]? =
          some (if p = j then { q with ended := true } else q) := by
        rw [List.getElem?_modify, hq]
        split <;> rfl
      refine ⟨_, hj, ?_, ?_⟩
      · split <;> rfl
      · rw [h]
        split
        next heq => simp [heq]
        next hne => simp [hne]
    · intro e k j
      change setPool s.pools engine (getPoolKey config) none e k = some j ↔ _
      by_cases hsame : e = engine ∧ k = getPoolKey config
      · obtain ⟨rfl, rfl⟩ := hsame
        rw [setPool_self, h]
        simp
      · rw [setPool_of_ne (not_and_or.mp hsame), h]
        constructor
        · intro hj
          refine ⟨hj, ?_⟩
          rintro ⟨rfl⟩
          exact hsame (hs.apart e k engine _ _ hj h)
        · exact And.left

theorem Ends.sound {s t : State} {ends : Nat → Prop} (h : Ends s t ends) (hs : Sound s) : Sound t := by
  refine ⟨?_, ?_, ?_⟩
  · intro e k j hj
    obtain ⟨hj, hnot⟩ := (h.pools e k j).mp hj
    obtain ⟨q, hq, hlive⟩ := hs.pools e k j hj
    obtain ⟨q', hq', -, hended⟩ := h.opened j q hq
    exact ⟨q', hq', hended.mpr ⟨hlive, hnot⟩⟩
  · intro e k e' k' j hj hj'
    exact hs.apart e k e' k' j ((h.pools _ _ _).mp hj).1 ((h.pools _ _ _).mp hj').1
  · intro g hg onWriter
    rw [h.handlers] at hg
    obtain ⟨q, hq⟩ := hs.held g hg onWriter
    obtain ⟨q', hq', -⟩ := h.opened _ q hq
    exact ⟨q', hq'⟩

theorem Ends.trans {s t u : State} {a b : Nat → Prop} (h : Ends s t a) (h' : Ends t u b) :
    Ends s u fun j => a j ∨ b j := by
  refine ⟨h'.handlers.trans h.handlers, ?_, ?_⟩
  · intro j q hq
    obtain ⟨r, hr, hoptions, hended⟩ := h.opened j q hq
    obtain ⟨x, hx, hoptions', hended'⟩ := h'.opened j r hr
    refine ⟨x, hx, hoptions'.trans hoptions, ?_⟩
    rw [hended', hended, not_or, and_assoc]
  · intro e k j
    rw [h'.pools, h.pools, not_or, and_assoc]

/-- The pools under the handler's keys end. -/
theorem close_ends {s : State} (hs : Sound s) (i : Nat) (h : Handler) :
    ∃ t, close s i h = { t with handlers := t.handlers.set i { h with closed := true } } ∧
      Ends s t fun j => ∃ onWriter, s.pools h.engine (getPoolKey (h.configOf onWriter)) = some j := by
  have hreader := closePool_ends hs h.engine h.config
  rw [close]
  cases hw : h.writerConfig with
  | none =>
    have hkeys : (fun j => ∃ onWriter, s.pools h.engine (getPoolKey (h.configOf onWriter)) = some j) =
        fun j => s.pools h.engine (getPoolKey h.config) = some j := by
      funext j
      simp [Handler.configOf, hw]
    rw [hkeys]
    exact ⟨_, rfl, hreader⟩
  | some writer =>
    have hwriter := closePool_ends (hreader.sound hs) h.engine writer
    have hkeys : (fun j => ∃ onWriter, s.pools h.engine (getPoolKey (h.configOf onWriter)) = some j) =
        fun j => s.pools h.engine (getPoolKey h.config) = some j ∨
          (closePool s h.engine h.config).pools h.engine (getPoolKey writer) = some j := by
      funext j
      apply propext
      rw [hreader.pools, Bool.exists_bool]
      simp only [Handler.configOf, hw, Bool.false_eq_true, if_false, if_true, Option.getD_some]
      tauto
    rw [hkeys]
    exact ⟨_, rfl, hreader.trans hwriter⟩

theorem close_owned {s : State} (hs : Sound s) (ho : Owned s) {i : Nat} {h : Handler}
    (hi : s.handlers[i]? = some h) : Owned (close s i h) ↔ Apart s (.close i) := by
  obtain ⟨t, hclose, hends⟩ := close_ends hs i h
  rw [hclose]
  have hlt : i < s.handlers.length := (List.getElem?_eq_some_iff.mp hi).1
  have hhandlers : ∀ j g, (t.handlers.set i { h with closed := true })[j]? = some g →
      j = i ∧ g = { h with closed := true } ∨ j ≠ i ∧ s.handlers[j]? = some g := by
    intro j g hg
    rw [hends.handlers] at hg
    by_cases hj : j = i
    · subst hj
      rw [List.getElem?_set_self hlt] at hg
      exact Or.inl ⟨rfl, (Option.some_inj.mp hg).symm⟩
    · rw [List.getElem?_set_ne (Ne.symm hj)] at hg
      exact Or.inr ⟨hj, hg⟩
  constructor
  · intro hown h' hi' j g hj hg hopen onWriter onWriter' hpool
    obtain rfl := Option.some_inj.mp (hi.symm.trans hi')
    obtain ⟨q, hq⟩ := hs.held g (List.mem_of_getElem? hg) onWriter'
    obtain ⟨q', hq', -, hended⟩ := hends.opened _ q hq
    have hmem : g ∈ t.handlers.set i { h with closed := true } := by
      apply List.mem_of_getElem? (i := j)
      rw [hends.handlers, List.getElem?_set_ne (Ne.symm hj)]
      exact hg
    exact (hended.mp (hown.live g hmem hopen onWriter' q' hq')).2 ⟨onWriter, hpool⟩
  · intro hapart
    refine ⟨?_, ?_⟩
    · intro g hg onWriter
      obtain ⟨j, hj⟩ := List.mem_iff_getElem?.mp hg
      have hold : ∃ g' ∈ s.handlers, g'.runsOn onWriter = g.runsOn onWriter ∧
          poolOptions g'.engine (g'.configOf onWriter) = poolOptions g.engine (g.configOf onWriter) := by
        rcases hhandlers j g hj with ⟨rfl, rfl⟩ | ⟨-, hg⟩
        · exact ⟨h, List.mem_of_getElem? hi, rfl, rfl⟩
        · exact ⟨g, List.mem_of_getElem? hg, rfl, rfl⟩
      obtain ⟨g', hg', hruns, hsame⟩ := hold
      obtain ⟨p, hp, hoptions⟩ := ho.options g' hg' onWriter
      obtain ⟨q, hq, hkept, -⟩ := hends.opened _ p hp
      rw [← hruns, ← hsame]
      exact ⟨q, hq, hkept.trans hoptions⟩
    · intro g hg hopen onWriter q' hq'
      obtain ⟨j, hj⟩ := List.mem_iff_getElem?.mp hg
      rcases hhandlers j g hj with ⟨-, rfl⟩ | ⟨hne, hg⟩
      · exact nomatch hopen
      · obtain ⟨q, hq, -⟩ := ho.options g (List.mem_of_getElem? hg) onWriter
        obtain ⟨r, hr, -, hended⟩ := hends.opened _ q hq
        obtain rfl := Option.some_inj.mp (hr.symm.trans hq')
        refine hended.mpr ⟨ho.live g (List.mem_of_getElem? hg) hopen onWriter q hq, ?_⟩
        rintro ⟨onWriter', hpool⟩
        exact hapart h hi j g hne hg hopen onWriter' onWriter hpool

theorem close_sound {s : State} (hs : Sound s) (i : Nat) {h : Handler} (hh : h ∈ s.handlers) :
    Sound (close s i h) := by
  obtain ⟨t, hclose, hends⟩ := close_ends hs i h
  rw [hclose]
  have ht := hends.sound hs
  refine ⟨ht.pools, ht.apart, ?_⟩
  intro g hg onWriter
  rcases List.mem_or_eq_of_mem_set hg with hg | rfl
  · exact ht.held g hg onWriter
  · rw [← hends.handlers] at hh
    exact ht.held h hh onWriter

/-! ## Every order -/

theorem create_sound {s : State} (hs : Sound s) (engine : Engine) (config : DBConfig)
    (writerConfig : Option DBConfig) : Sound (create s engine config writerConfig) := by
  have hp := getPool_gets s engine config
  cases writerConfig with
  | none => exact (created_single hs hp).sound
  | some writer => exact (created_pair hs hp (getPool_gets _ engine writer)).sound

theorem create_owned {s : State} (hs : Sound s) (ho : Owned s) (engine : Engine) (config : DBConfig)
    (writerConfig : Option DBConfig) :
    Owned (create s engine config writerConfig) ↔ Apart s (.create engine config writerConfig) := by
  have hp := getPool_gets s engine config
  cases writerConfig with
  | none => exact single_owned hs hp ho
  | some writer => exact pair_owned hs hp (getPool_gets _ engine writer) ho

theorem step_sound (s : State) (a : Action) (t : State) (hs : Sound s) (h : step s a = some t) :
    Sound t := by
  cases a with
  | create engine config writerConfig =>
    obtain rfl := Option.some_inj.mp h
    exact create_sound hs engine config writerConfig
  | query i onWriter =>
    obtain ⟨g, -, rfl⟩ := Option.map_eq_some_iff.mp h
    exact hs
  | close i =>
    obtain ⟨g, hg, rfl⟩ := Option.map_eq_some_iff.mp h
    exact close_sound hs i (List.mem_of_getElem? hg)

theorem step_owned (s : State) (a : Action) (t : State) (hs : Sound s) (ho : Owned s)
    (h : step s a = some t) : Owned t ↔ Apart s a := by
  cases a with
  | create engine config writerConfig =>
    obtain rfl := Option.some_inj.mp h
    exact create_owned hs ho engine config writerConfig
  | query i onWriter =>
    obtain ⟨g, -, rfl⟩ := Option.map_eq_some_iff.mp h
    exact iff_of_true ho trivial
  | close i =>
    obtain ⟨g, hg, rfl⟩ := Option.map_eq_some_iff.mp h
    exact close_owned hs ho hg

theorem owned_init : Owned init := by
  refine ⟨?_, ?_⟩
  · intro h hh
    exact absurd hh List.not_mem_nil
  · intro h hh
    exact absurd hh List.not_mem_nil

/-- Over any order of creating, using and closing handlers, every query runs on a pool of its
handler's own configuration and no pool ends under an open handler exactly when no two
configurations meet under one key and no handler is closed while another one uses its pools. -/
theorem pools_owned_iff (actions : List Action) :
    Run.Along step Owned init actions ↔ Run.Steps step Apart init actions :=
  Run.along_iff_steps step_sound step_owned sound_init owned_init

/-- Two users of one database. -/
def appConfig : DBConfig :=
  { host := some "db", port := some 5432, database := "shop", user := some "app" }

def adminConfig : DBConfig := { appConfig with user := some "admin" }

theorem admin_as_app : ¬ Run.Along step Owned init
    [.create .postgres appConfig none, .create .postgres adminConfig none, .query 1 false,
      .close 0] := by
  intro h
  obtain ⟨-, h⟩ := h
  obtain ⟨-, h⟩ := h _ rfl
  obtain ⟨hown, -⟩ := h _ rfl
  obtain ⟨p, hp, hoptions⟩ := hown.options ⟨.postgres, adminConfig, none, 0, none, false⟩
    (List.mem_cons_of_mem _ List.mem_cons_self) false
  have hp : some (⟨poolOptions .postgres appConfig, false⟩ : Pool) = some p := hp
  obtain rfl := Option.some_inj.mp hp
  exact absurd (congrArg PoolOptions.user hoptions) (by decide)

end LiteDb.PoolCache
