import Mathlib.Data.Option.Basic
import Mathlib.Logic.Function.Basic

/-!
# The SCP runtime of a family of classes

The runtime is cached in a static property of whichever class asks for it, and read along the
prototype chain. What the classes of one database base resolve to, and where their statements run,
is followed over every order of uses, transactions and reconfigurations.
-/

namespace LiteDb.ScpRuntime
set_option autoImplicit false

/-- A class below the base, by its path from it; the base is the empty one. -/
abbrev ClassPath := List Nat

structure RuntimeContext (Config : Type) where
  id : Nat
  config : Config
deriving DecidableEq

/-- The static property `_scpRuntime`; `false` is a configuration without a runtime. -/
inductive Slot (Config : Type)
  | null
  | false
  | runtime (rt : RuntimeContext Config)

/-- A transaction of the family: the runtime that its pin belongs to, and its own connection. -/
structure Tx where
  pinned : Option Nat
  connection : Nat
  depth : Nat

inductive Place
  | connection (conn : Nat)
  | pool (runtime : Nat)
  | handler
deriving DecidableEq

/-- What a use or a statement resolved, beside the configurations at the time. A statement has the
connection of the transaction around it, and where it ran. -/
structure Event (Config : Type) where
  epoch : Nat
  config : Option Config
  handlerConfig : Option Config
  runtime : Option (RuntimeContext Config)
  statement : Option (Option Nat × Place)

structure State (Config : Type) where
  config : Option Config
  /-- The configuration of the handler that the v1 code takes. -/
  handlerConfig : Option Config
  /-- The properties that a class has of its own. -/
  scpRuntime : ClassPath → Option (Slot Config)
  scpRuntimeGen : ClassPath → Option Nat
  generation : Nat
  fresh : Nat
  transactions : Nat → Option Tx
  /-- The reconfigurations so far. -/
  epoch : Nat
  log : List (Event Config)

inductive Action (Config : Type)
  | use (c : ClassPath)
  | statement (flow : Nat) (c : ClassPath)
  | transaction (flow : Nat) (c : ClassPath)
  | settle (flow : Nat)
  | setConfig (config : Config)
  | closeAllPools

/-- A property along the prototype chain, up to the base. -/
def inherited {α : Type} (own : ClassPath → Option α) : ClassPath → Option α
  | [] => own []
  | n :: c => (own (n :: c)).or (inherited own c)

section Family
variable {Config : Type}

/-- `DBModel` has no configuration before `setConfig`. -/
def start (config : Option Config) : State Config where
  config := config
  handlerConfig := config
  scpRuntime := fun c => if c = [] then some .null else none
  scpRuntimeGen := fun _ => none
  generation := 0
  fresh := 0
  transactions := fun _ => none
  epoch := 0
  log := []

-- whether pools can be built of a configuration: not of SQLite, nor without the driver's package
variable (scp : Config → Bool)

def buildScpRuntime (c : ClassPath) (s : State Config) :
    Option (RuntimeContext Config) × State Config :=
  match s.config.filter scp with
  | none => (none, { s with scpRuntime := Function.update s.scpRuntime c (some .false) })
  | some config => (some ⟨s.fresh, config⟩, { s with
      scpRuntime := Function.update s.scpRuntime c (some (.runtime ⟨s.fresh, config⟩))
      scpRuntimeGen := Function.update s.scpRuntimeGen c (some s.generation)
      fresh := s.fresh + 1 })

def getScpRuntime (c : ClassPath) (s : State Config) :
    Option (RuntimeContext Config) × State Config :=
  match inherited s.scpRuntime c with
  | some .false => (none, s)
  | some (.runtime rt) =>
    if inherited s.scpRuntimeGen c = some s.generation then (some rt, s)
    else buildScpRuntime scp c s
  | _ => buildScpRuntime scp c s

/-- The transaction's connection for a statement on its runtime, or of the v1 code in its scope. -/
def placeOf (rt : Option (RuntimeContext Config)) (tx : Option Tx) : Place :=
  match rt, tx with
  | some rt, some tx => if tx.pinned = some rt.id then .connection tx.connection else .pool rt.id
  | some rt, none => .pool rt.id
  | none, some tx => .connection tx.connection
  | none, none => .handler

def State.record (s : State Config) (rt : Option (RuntimeContext Config))
    (statement : Option (Option Nat × Place)) : State Config :=
  { s with log := ⟨s.epoch, s.config, s.handlerConfig, rt, statement⟩ :: s.log }

-- whether the base is `DBModel`, whose handler `setConfig` replaces
variable (isDBModel : Bool)

def step (s : State Config) : Action Config → State Config
  | .use c => (getScpRuntime scp c s).2.record (getScpRuntime scp c s).1 none
  | .statement flow c =>
    let rt := (getScpRuntime scp c s).1
    let tx := s.transactions flow
    (getScpRuntime scp c s).2.record rt (some (tx.map Tx.connection, placeOf rt tx))
  | .transaction flow c =>
    match s.transactions flow with
    | some tx =>
      -- a nested transaction joins
      let nested : Tx := { tx with depth := tx.depth + 1 }
      { s with transactions := Function.update s.transactions flow (some nested) }
    | none =>
      let rt := (getScpRuntime scp c s).1
      let s := (getScpRuntime scp c s).2.record rt none
      let tx : Tx := ⟨rt.map RuntimeContext.id, s.fresh, 0⟩
      { s with
        transactions := Function.update s.transactions flow (some tx)
        fresh := s.fresh + 1 }
  | .settle flow =>
    match s.transactions flow with
    | some tx =>
      let rest := if tx.depth = 0 then none else some { tx with depth := tx.depth - 1 }
      { s with transactions := Function.update s.transactions flow rest }
    | none => s
  | .setConfig config => { s with
      config := some config
      handlerConfig := if isDBModel then some config else s.handlerConfig
      scpRuntime := Function.update s.scpRuntime [] (some .null)
      epoch := s.epoch + 1 }
  | .closeAllPools => { s with generation := s.generation + 1, epoch := s.epoch + 1 }

def run (s : State Config) (actions : List (Action Config)) : State Config :=
  actions.foldl (step scp isDBModel) s

/-! ## What is promised -/

/-- Between two reconfigurations all classes resolve to one runtime. It is built from the
configuration of the time, which the handler has as well, and a statement in a transaction runs on
the transaction's own connection. -/
structure Coherent (log : List (Event Config)) : Prop where
  one : ∀ e ∈ log, ∀ e' ∈ log, e.epoch = e'.epoch → e.runtime = e'.runtime
  current : ∀ e ∈ log,
    e.runtime.map RuntimeContext.config = e.config.filter scp ∧ e.handlerConfig = e.config
  owned : ∀ e ∈ log, ∀ conn place, e.statement = some (some conn, place) →
    place = .connection conn

/-- What the base has at hand, if it need not build it. -/
def State.cached (s : State Config) : Option (Option (RuntimeContext Config)) :=
  match s.scpRuntime [] with
  | some .false => some none
  | some (.runtime rt) => if s.scpRuntimeGen [] = some s.generation then some (some rt) else none
  | _ => none

/-- The base is the first to use a configuration; nothing is reconfigured inside a transaction, and
only `DBModel` is given another configuration. -/
def Meets (s : State Config) : Action Config → Prop
  | .use c => c = [] ∨ s.cached.isSome
  | .statement _ c => c = [] ∨ s.cached.isSome
  | .transaction flow c => (s.transactions flow).isSome ∨ c = [] ∨ s.cached.isSome
  | .settle _ => True
  | .setConfig config =>
    (∀ flow, s.transactions flow = none) ∧ (isDBModel = true ∨ s.handlerConfig = some config)
  | .closeAllPools => ∀ flow, s.transactions flow = none

/-- Every step of the run meets the condition. -/
def MeetsAll : State Config → List (Action Config) → Prop
  | _, [] => True
  | s, a :: actions => Meets isDBModel s a ∧ MeetsAll (step scp isDBModel s a) actions

end Family

/-! ## Resolving through the base -/

section Resolving
variable {Config : Type} {scp : Config → Bool} {isDBModel : Bool} {s : State Config}

/-- What holds while the base is the first to use every configuration. -/
structure Inv (scp : Config → Bool) (s : State Config) : Prop where
  alone : ∀ c, c ≠ [] → s.scpRuntime c = none ∧ s.scpRuntimeGen c = none
  handler : s.handlerConfig = s.config
  built : ∀ g ∈ s.scpRuntimeGen [], g ≤ s.generation
  slot : ∀ rt, s.cached = some rt → rt.map RuntimeContext.config = s.config.filter scp
  epochs : ∀ e ∈ s.log, e.epoch ≤ s.epoch
  answered : ∀ e ∈ s.log, e.epoch = s.epoch → s.cached = some e.runtime
  opened : ∀ flow tx, s.transactions flow = some tx →
    ∃ rt, s.cached = some rt ∧ tx.pinned = rt.map RuntimeContext.id
  coherent : Coherent scp s.log

theorem inherited_base {α : Type} {own : ClassPath → Option α} (h : ∀ c, c ≠ [] → own c = none)
    (c : ClassPath) : inherited own c = own [] := by
  induction c with
  | nil => rfl
  | cons n c ih => rw [inherited, h _ (List.cons_ne_nil n c), Option.none_or, ih]

/-- What a class has at hand is what the base has. -/
theorem getScpRuntime_cached {rt : Option (RuntimeContext Config)}
    (halone : ∀ c, c ≠ [] → s.scpRuntime c = none ∧ s.scpRuntimeGen c = none)
    (h : s.cached = some rt) (c : ClassPath) : getScpRuntime scp c s = (rt, s) := by
  have hslot := inherited_base (fun c hc => (halone c hc).1) c
  have hgen := inherited_base (fun c hc => (halone c hc).2) c
  rw [getScpRuntime, hslot, hgen]
  rw [State.cached] at h
  cases hown : s.scpRuntime [] with
  | none =>
    rw [hown] at h
    cases h
  | some slot =>
    rw [hown] at h
    cases slot with
    | null => cases h
    | false =>
      obtain rfl := Option.some_inj.mp h
      rfl
    | runtime rt' =>
      dsimp only at h ⊢
      split at h
      next hlive =>
        obtain rfl := Option.some_inj.mp h
        rw [if_pos hlive]
      next => cases h

theorem getScpRuntime_build (h : s.cached = none) :
    getScpRuntime scp [] s = buildScpRuntime scp [] s := by
  rw [getScpRuntime, inherited, inherited]
  rw [State.cached] at h
  cases hown : s.scpRuntime [] with
  | none => rfl
  | some slot =>
    rw [hown] at h
    cases slot with
    | null => rfl
    | false => cases h
    | runtime rt =>
      dsimp only at h ⊢
      split at h
      next => cases h
      next hstale => rw [if_neg hstale]

/-- The rest of the state is as it was. -/
structure Framed (s s' : State Config) : Prop where
  config : s'.config = s.config
  handlerConfig : s'.handlerConfig = s.handlerConfig
  transactions : s'.transactions = s.transactions
  epoch : s'.epoch = s.epoch
  log : s'.log = s.log

variable (scp) in
theorem build_framed (c : ClassPath) (s : State Config) :
    Framed s (buildScpRuntime scp c s).2 := by
  rw [buildScpRuntime]
  split
  · exact ⟨rfl, rfl, rfl, rfl, rfl⟩
  · exact ⟨rfl, rfl, rfl, rfl, rfl⟩

theorem build_built (hbuilt : ∀ g ∈ s.scpRuntimeGen [], g ≤ s.generation) :
    ∀ g ∈ (buildScpRuntime scp [] s).2.scpRuntimeGen [],
      g ≤ (buildScpRuntime scp [] s).2.generation := by
  rw [buildScpRuntime]
  split
  · exact hbuilt
  · intro g hg
    have hgen : Function.update s.scpRuntimeGen [] (some s.generation) [] = some g := hg
    rw [Function.update_self] at hgen
    obtain rfl := Option.some_inj.mp hgen
    exact Nat.le_refl _

variable (scp) in
theorem build_alone (s : State Config) {c : ClassPath} (hc : c ≠ []) :
    (buildScpRuntime scp [] s).2.scpRuntime c = s.scpRuntime c ∧
      (buildScpRuntime scp [] s).2.scpRuntimeGen c = s.scpRuntimeGen c := by
  rw [buildScpRuntime]
  split
  · exact ⟨Function.update_of_ne hc _ _, rfl⟩
  · exact ⟨Function.update_of_ne hc _ _, Function.update_of_ne hc _ _⟩

variable (scp) in
/-- The base has what it builds, and builds it from its configuration. -/
theorem build_cached (s : State Config) :
    (buildScpRuntime scp [] s).2.cached = some (buildScpRuntime scp [] s).1 ∧
      (buildScpRuntime scp [] s).1.map RuntimeContext.config = s.config.filter scp := by
  rw [buildScpRuntime]
  split
  · next h =>
    rw [h]
    exact ⟨by simp [State.cached], rfl⟩
  · next config h =>
    rw [h]
    exact ⟨by simp [State.cached], rfl⟩

/-- A use that meets the condition leaves the base with what it resolved. -/
theorem getScpRuntime_spec (hinv : Inv scp s) {c : ClassPath} (hc : c = [] ∨ s.cached.isSome) :
    ∃ rt s', getScpRuntime scp c s = (rt, s') ∧ Framed s s' ∧ s'.cached = some rt ∧
      (∀ rt', s.cached = some rt' → rt' = rt) ∧
      rt.map RuntimeContext.config = s.config.filter scp ∧
      (∀ c, c ≠ [] → s'.scpRuntime c = none ∧ s'.scpRuntimeGen c = none) ∧
      ∀ g ∈ s'.scpRuntimeGen [], g ≤ s'.generation := by
  cases hcached : s.cached with
  | some rt =>
    refine ⟨rt, s, getScpRuntime_cached hinv.alone hcached c, ⟨rfl, rfl, rfl, rfl, rfl⟩, hcached,
      ?_, hinv.slot rt hcached, hinv.alone, hinv.built⟩
    intro rt' h
    exact (Option.some_inj.mp h).symm
  | none =>
    have hbase : c = [] := by
      rcases hc with hc | hc
      · exact hc
      · rw [hcached] at hc
        cases hc
    subst hbase
    obtain ⟨hown, hconfig⟩ := build_cached scp s
    refine ⟨(buildScpRuntime scp [] s).1, (buildScpRuntime scp [] s).2,
      getScpRuntime_build hcached, build_framed scp [] s,
      hown, ?_, hconfig, ?_,
      build_built hinv.built⟩
    · intro rt' h
      cases h
    · intro c hc
      obtain ⟨hslot, hgen⟩ := build_alone scp s hc
      rw [hslot, hgen]
      exact hinv.alone c hc

end Resolving
/-! ## Every run -/

section Runs
variable {Config : Type} {scp : Config → Bool} {isDBModel : Bool} {s : State Config}

theorem start_inv (scp : Config → Bool) (config : Option Config) : Inv scp (start config) where
  alone := fun _ hc => ⟨if_neg hc, rfl⟩
  handler := rfl
  built := fun _ h => by cases h
  slot := fun _ h => by cases h
  epochs := List.forall_mem_nil _
  answered := List.forall_mem_nil _
  opened := fun _ _ h => by cases h
  coherent := ⟨List.forall_mem_nil _, List.forall_mem_nil _, List.forall_mem_nil _⟩

/-- What is resolved is of a piece with what was resolved before. -/
theorem coherent_cons (hinv : Inv scp s) {rt : Option (RuntimeContext Config)}
    {statement : Option (Option Nat × Place)} (hcached : ∀ rt', s.cached = some rt' → rt' = rt)
    (hconfig : rt.map RuntimeContext.config = s.config.filter scp)
    (howned : ∀ conn place, statement = some (some conn, place) → place = .connection conn) :
    Coherent scp (⟨s.epoch, s.config, s.handlerConfig, rt, statement⟩ :: s.log) := by
  have hsame : ∀ e ∈ s.log, e.epoch = s.epoch → e.runtime = rt :=
    fun e he hepoch => hcached _ (hinv.answered e he hepoch)
  refine ⟨?_, ?_, ?_⟩
  · intro e he e' he' hepoch
    rcases List.mem_cons.mp he with rfl | he
    · rcases List.mem_cons.mp he' with rfl | he'
      · rfl
      · exact (hsame e' he' hepoch.symm).symm
    · rcases List.mem_cons.mp he' with rfl | he'
      · exact hsame e he hepoch
      · exact hinv.coherent.one e he e' he' hepoch
  · intro e he
    rcases List.mem_cons.mp he with rfl | he
    · exact ⟨hconfig, hinv.handler⟩
    · exact hinv.coherent.current e he
  · intro e he
    rcases List.mem_cons.mp he with rfl | he
    · exact howned
    · exact hinv.coherent.owned e he

/-- A use that meets the condition is recorded. -/
theorem record_inv (hinv : Inv scp s) {c : ClassPath} (hc : c = [] ∨ s.cached.isSome)
    (statement : Option (RuntimeContext Config) → Option (Option Nat × Place))
    (howned : ∀ rt, (∀ rt', s.cached = some rt' → rt' = rt) → ∀ conn place,
      statement rt = some (some conn, place) → place = .connection conn) :
    let resolved := getScpRuntime scp c s
    let s' := resolved.2.record resolved.1 (statement resolved.1)
    Inv scp s' ∧ s'.cached = some resolved.1 ∧ s'.transactions = s.transactions := by
  obtain ⟨rt, s', heq, hframe, hown, hbefore, hconfig, halone, hbuilt⟩ :=
    getScpRuntime_spec hinv hc
  rw [heq]
  intro resolved s''
  have hlog : s''.log = ⟨s.epoch, s.config, s.handlerConfig, rt, statement rt⟩ :: s.log := by
    show (⟨s'.epoch, s'.config, s'.handlerConfig, rt, statement rt⟩ :: s'.log : List _) = _
    rw [hframe.epoch, hframe.config, hframe.handlerConfig, hframe.log]
  have hcached : s''.cached = some rt := hown
  have hepoch : s''.epoch = s.epoch := hframe.epoch
  refine ⟨⟨halone, ?_, hbuilt, ?_, ?_, ?_, ?_, ?_⟩, hcached, hframe.transactions⟩
  · show s'.handlerConfig = s'.config
    rw [hframe.handlerConfig, hframe.config]
    exact hinv.handler
  · intro rt' h
    rw [hcached] at h
    obtain rfl := Option.some_inj.mp h
    show _ = s'.config.filter scp
    rw [hframe.config]
    exact hconfig
  · rw [hlog, hepoch]
    exact List.forall_mem_cons.mpr ⟨Nat.le_refl _, hinv.epochs⟩
  · rw [hlog, hepoch, hcached]
    refine List.forall_mem_cons.mpr ⟨fun _ => rfl, ?_⟩
    intro e he hsame
    rw [hbefore _ (hinv.answered e he hsame)]
  · intro flow tx htx
    have htx' : s.transactions flow = some tx := by
      rw [← hframe.transactions]
      exact htx
    obtain ⟨rt', hrt, hpinned⟩ := hinv.opened flow tx htx'
    rw [hcached, ← hbefore rt' hrt]
    exact ⟨rt', rfl, hpinned⟩
  · rw [hlog]
    exact coherent_cons hinv hbefore hconfig (howned rt hbefore)

theorem placeOf_owned {rt : Option (RuntimeContext Config)} {tx : Tx}
    (h : tx.pinned = rt.map RuntimeContext.id) :
    placeOf rt (some tx) = .connection tx.connection := by
  cases rt with
  | none => rfl
  | some rt => exact if_pos h

/-- Transactions that are opened on what the base has at hand. -/
theorem transactions_inv (hinv : Inv scp s) {transactions : Nat → Option Tx} {fresh : Nat}
    (hopened : ∀ flow tx, transactions flow = some tx →
      ∃ rt, s.cached = some rt ∧ tx.pinned = rt.map RuntimeContext.id) :
    Inv scp { s with transactions := transactions, fresh := fresh } :=
  ⟨hinv.alone, hinv.handler, hinv.built, hinv.slot, hinv.epochs, hinv.answered, hopened,
    hinv.coherent⟩

/-- One transaction changes, or is closed. -/
theorem update_opened (hinv : Inv scp s) {flow : Nat} {changed : Option Tx}
    (h : ∀ tx ∈ changed, ∃ rt, s.cached = some rt ∧ tx.pinned = rt.map RuntimeContext.id) :
    ∀ flow' tx, Function.update s.transactions flow changed flow' = some tx →
      ∃ rt, s.cached = some rt ∧ tx.pinned = rt.map RuntimeContext.id := by
  intro flow' tx htx
  by_cases hflow : flow' = flow
  · subst hflow
    rw [Function.update_self] at htx
    exact h tx htx
  · rw [Function.update_of_ne hflow] at htx
    exact hinv.opened flow' tx htx

/-- A new epoch begins; nothing is open, and nothing was resolved in it. -/
theorem reconfigured_inv {s' : State Config} (hinv : Inv scp s)
    (halone : ∀ c, c ≠ [] → s'.scpRuntime c = none ∧ s'.scpRuntimeGen c = none)
    (hhandler : s'.handlerConfig = s'.config)
    (hbuilt : ∀ g ∈ s'.scpRuntimeGen [], g ≤ s'.generation)
    (hslot : ∀ rt, s'.cached = some rt → rt.map RuntimeContext.config = s'.config.filter scp)
    (hepoch : s'.epoch = s.epoch + 1) (hlog : s'.log = s.log)
    (hclosed : ∀ flow, s'.transactions flow = none) : Inv scp s' := by
  refine ⟨halone, hhandler, hbuilt, hslot, ?_, ?_, ?_, ?_⟩
  · rw [hlog, hepoch]
    exact fun e he => Nat.le_succ_of_le (hinv.epochs e he)
  · rw [hlog, hepoch]
    intro e he h
    have hle := hinv.epochs e he
    omega
  · intro flow tx htx
    rw [hclosed] at htx
    cases htx
  · rw [hlog]
    exact hinv.coherent

theorem step_inv (hinv : Inv scp s) {a : Action Config} (ha : Meets isDBModel s a) :
    Inv scp (step scp isDBModel s a) := by
  cases a with
  | use c =>
    refine (record_inv hinv ha (fun _ => none) ?_).1
    intro rt _ conn place h
    cases h
  | statement flow c =>
    refine (record_inv hinv ha (fun rt => some
      ((s.transactions flow).map Tx.connection, placeOf rt (s.transactions flow))) ?_).1
    intro rt hbefore conn place h
    obtain ⟨hconn, rfl⟩ := Prod.mk.inj (Option.some_inj.mp h)
    obtain ⟨tx, htx, rfl⟩ := Option.map_eq_some_iff.mp hconn
    obtain ⟨rt', hrt, hpinned⟩ := hinv.opened flow tx htx
    rw [htx]
    rw [hbefore rt' hrt] at hpinned
    exact placeOf_owned hpinned
  | transaction flow c =>
    rw [step]
    cases htx : s.transactions flow with
    | some tx =>
      refine transactions_inv hinv (update_opened hinv ?_)
      rintro _ ⟨⟩
      exact hinv.opened flow tx htx
    | none =>
      have hc : c = [] ∨ s.cached.isSome := by
        rcases ha with ha | ha
        · rw [htx] at ha
          cases ha
        · exact ha
      obtain ⟨hinv', hcached, -⟩ := record_inv hinv hc (fun _ => none) fun _ _ _ _ h => by
        cases h
      refine transactions_inv hinv' (update_opened hinv' ?_)
      rintro _ ⟨⟩
      exact ⟨_, hcached, rfl⟩
  | settle flow =>
    rw [step]
    cases htx : s.transactions flow with
    | none => exact hinv
    | some tx =>
      refine transactions_inv hinv (update_opened hinv ?_)
      intro tx' htx'
      split at htx'
      · cases htx'
      · obtain rfl := Option.some_inj.mp htx'
        exact hinv.opened flow tx htx
  | setConfig config =>
    obtain ⟨hclosed, hhandler⟩ := ha
    have hcached : (step scp isDBModel s (.setConfig config)).cached = none := by
      simp [step, State.cached]
    refine reconfigured_inv hinv ?_ ?_ hinv.built ?_ rfl rfl hclosed
    · intro c hc
      exact ⟨(Function.update_of_ne hc _ _).trans (hinv.alone c hc).1, (hinv.alone c hc).2⟩
    · show (if isDBModel then some config else s.handlerConfig) = some config
      rcases hhandler with hdb | hsame
      · rw [hdb, if_pos rfl]
      · rw [hsame, ite_self]
    · intro rt h
      rw [hcached] at h
      cases h
  | closeAllPools =>
    refine reconfigured_inv hinv hinv.alone hinv.handler
      (fun g hg => Nat.le_succ_of_le (hinv.built g hg)) ?_ rfl rfl ha
    intro rt h
    apply hinv.slot
    -- a runtime of an older generation is not at hand
    rw [State.cached] at h ⊢
    cases hown : s.scpRuntime [] with
    | none =>
      rw [show (step scp isDBModel s .closeAllPools).scpRuntime [] = none from hown] at h
      cases h
    | some slot =>
      rw [show (step scp isDBModel s .closeAllPools).scpRuntime [] = some slot from hown] at h
      cases slot with
      | null => cases h
      | false => exact h
      | runtime rt' =>
        dsimp only at h
        split at h
        next hgen =>
          have hle : s.generation + 1 ≤ s.generation := hinv.built _ hgen
          omega
        next => cases h

theorem run_inv {actions : List (Action Config)} (hinv : Inv scp s)
    (h : MeetsAll scp isDBModel s actions) : Inv scp (run scp isDBModel s actions) := by
  induction actions generalizing s with
  | nil => exact hinv
  | cons a actions ih => exact ih (step_inv hinv h.1) h.2

/-- In every run in which the base is the first to use each configuration, and is not reconfigured
inside a transaction, the classes share one runtime of the current configuration and the statements
of a transaction run on its connection. -/
theorem run_coherent (scp : Config → Bool) (isDBModel : Bool) (config : Option Config)
    (actions : List (Action Config)) (h : MeetsAll scp isDBModel (start config) actions) :
    Coherent scp (run scp isDBModel (start config) actions).log :=
  (run_inv (start_inv scp config) h).coherent

end Runs
/-- The base is used first, here by its transaction, and again after it was reconfigured. -/
theorem base_first_coherent :
    let actions := [.transaction 0 [], .statement 0 [0], .statement 0 [1, 0], .settle 0,
      .setConfig 1, .use [], .statement 0 [0]]
    Coherent (fun _ => true) (run (fun _ => true) true (start (some 0)) actions).log := by
  intro actions
  refine run_coherent (fun _ => true) true (some 0) actions ⟨?_, ?_, ?_, ?_, ?_, ?_, ?_, ?_⟩
  · exact Or.inr (Or.inl rfl)
  · exact Or.inr rfl
  · exact Or.inr rfl
  · exact trivial
  · refine ⟨?_, Or.inl rfl⟩
    intro flow
    by_cases hflow : flow = 0
    · subst hflow
      rfl
    · exact (Function.update_of_ne hflow _ _).trans (Function.update_of_ne hflow _ _)
  · exact Or.inl rfl
  · exact Or.inr rfl
  · exact trivial

/-- A model that is used before its base has a runtime of its own, so that its statement runs
outside the base's transaction. -/
theorem model_first_escapes :
    ¬ Coherent (fun _ : Nat => true) (run (fun _ => true) true (start (some 0))
      [.use [0], .transaction 0 [], .statement 0 [0]]).log := by
  intro h
  have hevent : ⟨0, some 0, some 0, some ⟨0, 0⟩, some (some 2, .pool 0)⟩ ∈
      (run (fun _ : Nat => true) true (start (some 0))
        [.use [0], .transaction 0 [], .statement 0 [0]]).log := List.mem_cons_self
  exact absurd (h.owned _ hevent 2 (.pool 0) rfl) (by decide)

end LiteDb.ScpRuntime
