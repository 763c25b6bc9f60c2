import LiteDbModel.Lib.Keyed
import LiteDbModel.Middleware

/-!
# Scopes of Rust middleware

Statement hooks and method hooks stand in two stacks of scopes, one pair for each thread, over two
registries of the process. A run is given by its history, newest event first; a scope is known by
the length of the history at its entry.
-/

namespace LiteDb.RustMiddleware
set_option autoImplicit false
open Middleware (MethodKind)

/-- A hook around a call of `next`. -/
abbrev Hook (α β : Type) := α → (α → β) → β

/-! ## Registries -/

structure SharedDescriptor (α β : Type) where
  token : Nat
  sql : Option (Hook α β)
  /-- Whether there is a factory of states. -/
  freshState : Bool

/-- A method hook is kept with the type of the results it is for. -/
structure MethodEntry (γ δ τ : Type) where
  kind : MethodKind
  result : τ
  hook : Hook γ δ

/-- The stack, and the states by their tokens; a state is its allocation. -/
structure ScopeRegistry (α β : Type) where
  stack : List (SharedDescriptor α β) := []
  states : List (Nat × Nat) := []

namespace ScopeRegistry
variable {α β : Type}

def push (reg : ScopeRegistry α β) (d : SharedDescriptor α β) : ScopeRegistry α β :=
  { reg with stack := reg.stack ++ [d] }

def sqlHooks (reg : ScopeRegistry α β) : List (Hook α β) := reg.stack.filterMap (·.sql)

def hasFactory (reg : ScopeRegistry α β) (token : Nat) : Bool :=
  ((reg.stack.find? fun d => d.token = token).map (·.freshState)).getD false

/-- The state of a token in this scope: the one there is, or `fresh` where there is a factory. -/
def stateFor (reg : ScopeRegistry α β) (fresh token : Nat) : Option Nat × ScopeRegistry α β :=
  match reg.states.lookup token with
  | some s => (some s, reg)
  | none =>
    if reg.hasFactory token then
      (some fresh, { reg with states := reg.states ++ [(token, fresh)] })
    else (none, reg)

def resetStateFor (reg : ScopeRegistry α β) (fresh token : Nat) : ScopeRegistry α β :=
  if reg.hasFactory token then { reg with states := Keyed.put token fresh reg.states } else reg

/-- The stack is copied, the states are not. -/
def copy (reg : ScopeRegistry α β) : ScopeRegistry α β := { stack := reg.stack }

end ScopeRegistry

/-! ## The process -/

inductive Act (α β γ δ τ : Type)
  /-- `with_middleware_scope_opts` -/
  | enter (inherit : Bool)
  /-- The scope's guard is dropped, by a return or a panic. -/
  | leave
  | useMiddleware (d : SharedDescriptor α β)
  | registerMethodHook (e : MethodEntry γ δ τ)
  | readState (token : Nat)
  | resetState (token : Nat)
  | clearMiddlewares

structure Event (α β γ δ τ : Type) where
  thread : Nat
  act : Act α β γ δ τ

abbrev History (α β γ δ τ : Type) := List (Event α β γ δ τ)

/-- The two stacks of a thread, innermost scope first. -/
structure Scopes (α β γ δ τ : Type) where
  registry : List (ScopeRegistry α β) := []
  methods : List (List (MethodEntry γ δ τ)) := []

structure Process (α β γ δ τ : Type) where
  global : ScopeRegistry α β := {}
  methodGlobal : List (MethodEntry γ δ τ) := []
  threads : Nat → Scopes α β γ δ τ := fun _ => {}
  /-- The next state that is allocated. -/
  fresh : Nat := 0

section Process
variable {α β γ δ τ : Type}

namespace Process

def setScopes (p : Process α β γ δ τ) (thread : Nat) (scopes : Scopes α β γ δ τ) :
    Process α β γ δ τ := { p with threads := Function.update p.threads thread scopes }

/-- `with_current` -/
def current (p : Process α β γ δ τ) (thread : Nat) : ScopeRegistry α β :=
  (p.threads thread).registry.head?.getD p.global

/-- `with_current_mut`, with what is there afterwards. -/
def setCurrent (p : Process α β γ δ τ) (thread : Nat) (reg : ScopeRegistry α β) :
    Process α β γ δ τ :=
  match (p.threads thread).registry with
  | [] => { p with global := reg }
  | _ :: outer => p.setScopes thread { p.threads thread with registry := reg :: outer }

def enter (p : Process α β γ δ τ) (thread : Nat) (inherit : Bool) : Process α β γ δ τ :=
  let seed := if inherit then (p.current thread).copy else {}
  p.setScopes thread
    { registry := seed :: (p.threads thread).registry
      methods := [] :: (p.threads thread).methods }

def leave (p : Process α β γ δ τ) (thread : Nat) : Process α β γ δ τ :=
  p.setScopes thread
    { registry := (p.threads thread).registry.tail
      methods := (p.threads thread).methods.tail }

def registerMethodHook (p : Process α β γ δ τ) (thread : Nat) (e : MethodEntry γ δ τ) :
    Process α β γ δ τ :=
  match (p.threads thread).methods with
  | [] => { p with methodGlobal := p.methodGlobal ++ [e] }
  | top :: outer => p.setScopes thread { p.threads thread with methods := (top ++ [e]) :: outer }

/-- The process after a read of a state. -/
def readState (p : Process α β γ δ τ) (thread token : Nat) : Process α β γ δ τ :=
  { p.setCurrent thread ((p.current thread).stateFor p.fresh token).2 with fresh := p.fresh + 1 }

def resetState (p : Process α β γ δ τ) (thread token : Nat) : Process α β γ δ τ :=
  { p.setCurrent thread ((p.current thread).resetStateFor p.fresh token) with fresh := p.fresh + 1 }

def step (p : Process α β γ δ τ) (e : Event α β γ δ τ) : Process α β γ δ τ :=
  match e.act with
  | .enter inherit => p.enter e.thread inherit
  | .leave => p.leave e.thread
  | .useMiddleware d => p.setCurrent e.thread ((p.current e.thread).push d)
  | .registerMethodHook m => p.registerMethodHook e.thread m
  | .readState token => p.readState e.thread token
  | .resetState token => p.resetState e.thread token
  | .clearMiddlewares => { p with global := {} }

/-- The process after a history. -/
def after : History α β γ δ τ → Process α β γ δ τ
  | [] => {}
  | e :: h => (after h).step e

/-- `active_sql_hooks` -/
def activeSqlHooks (p : Process α β γ δ τ) (thread : Nat) : List (Hook α β) :=
  (p.current thread).sqlHooks

/-- `wrap_ambient` -/
def wrapAmbient (p : Process α β γ δ τ) (thread : Nat) (terminal : α → β) (call : α) : β :=
  Middleware.wrap (p.activeSqlHooks thread) terminal call

variable [DecidableEq τ]

/-- `current_method_hooks`: the hooks of the kind that are for results of the type. -/
def currentMethodHooks (p : Process α β γ δ τ) (thread : Nat) (kind : MethodKind) (result : τ) :
    List (Hook γ δ) :=
  (((p.threads thread).methods.head?.getD p.methodGlobal).filter fun e =>
    e.kind = kind ∧ e.result = result).map (·.hook)

/-- `run_method` -/
def runMethod (p : Process α β γ δ τ) (thread : Nat) (kind : MethodKind) (result : τ)
    (core : γ → δ) (args : γ) : δ :=
  Middleware.wrap (p.currentMethodHooks thread kind result) core args

end Process

/-! ## What is registered where -/

/-- The scopes of a thread that are open, innermost first, each with whether it inherits and the
history at its entry. -/
def openScopes (thread : Nat) : History α β γ δ τ → List (Bool × History α β γ δ τ)
  | [] => []
  | e :: h =>
    if e.thread = thread then
      match e.act with
      | .enter inherit => (inherit, h) :: openScopes thread h
      | .leave => (openScopes thread h).tail
      | _ => openScopes thread h
    else openScopes thread h

/-- The innermost scope of a thread, none outside of any. -/
def scopeOf (thread : Nat) (h : History α β γ δ τ) : Option Nat :=
  (openScopes thread h).head?.map (·.2.length)

/-- What an event registers, for one level of hooks. -/
inductive Registers (D : Type)
  | one (d : D)
  /-- What the application registered is gone. -/
  | clear
  | nothing

def sqlLevel : Act α β γ δ τ → Registers (SharedDescriptor α β)
  | .useMiddleware d => .one d
  | .clearMiddlewares => .clear
  | _ => .nothing

def methodLevel : Act α β γ δ τ → Registers (MethodEntry γ δ τ)
  | .registerMethodHook e => .one e
  | _ => .nothing

variable {D : Type} (level : Act α β γ δ τ → Registers D)

/-- The registrations made in a scope itself, in their order. -/
def registeredIn (scope : Option Nat) : History α β γ δ τ → List D
  | [] => []
  | e :: h =>
    match level e.act with
    | .one d =>
      if scopeOf e.thread h = scope then registeredIn scope h ++ [d] else registeredIn scope h
    | .clear => if scope = none then [] else registeredIn scope h
    | .nothing => registeredIn scope h

/-- What a scope sees: what the scope around it saw when it was entered, then its own. -/
def visible : List (Bool × History α β γ δ τ) → History α β γ δ τ → List D
  | [], h => registeredIn level none h
  | (inherit, entry) :: outer, h =>
    (if inherit then visible outer entry else []) ++ registeredIn level (some entry.length) h

end Process

/-! ## Open scopes -/

section Scopes
variable {α β γ δ τ : Type} {thread : Nat} {h : History α β γ δ τ}

/-- An open scope was entered by its own thread. -/
theorem openScopes_entered {s : Bool × History α β γ δ τ} (hs : s ∈ openScopes thread h) :
    ⟨thread, .enter s.1⟩ :: s.2 <:+ h := by
  induction h with
  | nil => cases hs
  | cons e h ih =>
    have hold : s ∈ openScopes thread h → ⟨thread, .enter s.1⟩ :: s.2 <:+ e :: h :=
      fun hs => (ih hs).trans (List.suffix_cons e h)
    obtain ⟨u, act⟩ := e
    unfold openScopes at hs
    split at hs
    · next hthread =>
      split at hs
      · next inherit hact =>
        rcases List.mem_cons.mp hs with rfl | hs
        · dsimp only at hthread hact
          rw [← hthread, hact]
        · exact hold hs
      · exact hold (List.mem_of_mem_tail hs)
      · exact hold hs
    · exact hold hs

theorem openScopes_length {s : Bool × History α β γ δ τ} (hs : s ∈ openScopes thread h) :
    s.2.length < h.length := (openScopes_entered hs).length_le

theorem scopeOf_lt {n : Nat} (hn : scopeOf thread h = some n) : n < h.length := by
  obtain ⟨s, hs, rfl⟩ := Option.map_eq_some_iff.mp hn
  exact openScopes_length (List.mem_of_mem_head? hs)

/-- An inner scope was entered after the ones around it. -/
theorem openScopes_later : (openScopes thread h).Pairwise fun s t => t.2.length < s.2.length := by
  induction h with
  | nil => exact List.Pairwise.nil
  | cons e h ih =>
    unfold openScopes
    split
    · split
      · exact List.pairwise_cons.mpr ⟨fun s hs => openScopes_length hs, ih⟩
      · exact ih.tail
      · exact ih
    · exact ih

/-- A scope belongs to one thread. -/
theorem openScopes_thread {thread' : Nat} {s t : Bool × History α β γ δ τ}
    (hs : s ∈ openScopes thread h) (ht : t ∈ openScopes thread' h)
    (hlen : s.2.length = t.2.length) : thread = thread' := by
  have hsuffix := List.suffix_of_suffix_length_le (openScopes_entered hs) (openScopes_entered ht)
    (by simp [hlen])
  have heq := hsuffix.eq_of_length (by simp [hlen])
  exact congrArg Event.thread (List.cons.inj heq).1

end Scopes

/-! ## Registrations -/

section Registrations
variable {α β γ δ τ D : Type} {level : Act α β γ δ τ → Registers D}

/-- Nothing is registered in a scope before it is entered. -/
theorem registeredIn_before (h : History α β γ δ τ) {n : Nat} (hn : h.length ≤ n) :
    registeredIn level (some n) h = [] := by
  induction h with
  | nil => rfl
  | cons e h ih =>
    have hlt : h.length < n := hn
    have hrest := ih hlt.le
    unfold registeredIn
    split
    · rw [if_neg, hrest]
      intro hscope
      have := scopeOf_lt hscope
      omega
    · rw [if_neg nofun, hrest]
    · exact hrest

theorem registeredIn_nothing {e : Event α β γ δ τ} (he : level e.act = .nothing)
    (scope : Option Nat) (h : History α β γ δ τ) :
    registeredIn level scope (e :: h) = registeredIn level scope h := by
  rw [registeredIn, he]

theorem registeredIn_one {e : Event α β γ δ τ} {d : D} (he : level e.act = .one d)
    (scope : Option Nat) (h : History α β γ δ τ) : registeredIn level scope (e :: h) =
      if scopeOf e.thread h = scope then registeredIn level scope h ++ [d]
      else registeredIn level scope h := by
  rw [registeredIn, he]

/-- What is seen in a scope's chain is fixed but for its own registrations. -/
theorem visible_cons (s : Bool × History α β γ δ τ) (outer : List (Bool × History α β γ δ τ))
    {e : Event α β γ δ τ} {h : History α β γ δ τ}
    (he : registeredIn level (some s.2.length) (e :: h) = registeredIn level (some s.2.length) h) :
    visible level (s :: outer) (e :: h) = visible level (s :: outer) h := by
  obtain ⟨inherit, entry⟩ := s
  rw [visible, visible, he]

end Registrations

/-! ## States -/

section States
variable {α β γ δ τ : Type}

/-- An event that may allocate a state for a token. -/
def Act.allocates (token : Nat) : Act α β γ δ τ → Prop
  | .readState t => t = token
  | .resetState t => t = token
  | _ => False

/-- The state was allocated for the token in the scope, by an event of the history. -/
def Owned (h : History α β γ δ τ) (scope : Option Nat) (token state : Nat) : Prop :=
  ∃ e h₀, e :: h₀ <:+ h ∧ e.act.allocates token ∧ (Process.after h₀).fresh = state ∧
    scopeOf e.thread h₀ = scope

theorem Owned.cons {h : History α β γ δ τ} {scope : Option Nat} {token state : Nat}
    (ho : Owned h scope token state) (e : Event α β γ δ τ) : Owned (e :: h) scope token state := by
  obtain ⟨e₀, h₀, hsuffix, hrest⟩ := ho
  exact ⟨e₀, h₀, hsuffix.trans (List.suffix_cons e h), hrest⟩

theorem setCurrent_fresh (p : Process α β γ δ τ) (thread : Nat) (reg : ScopeRegistry α β) :
    (p.setCurrent thread reg).fresh = p.fresh := by
  unfold Process.setCurrent
  split <;> rfl

theorem registerMethodHook_fresh (p : Process α β γ δ τ) (thread : Nat) (e : MethodEntry γ δ τ) :
    (p.registerMethodHook thread e).fresh = p.fresh := by
  unfold Process.registerMethodHook
  split <;> rfl

theorem fresh_step (p : Process α β γ δ τ) (e : Event α β γ δ τ) : p.fresh ≤ (p.step e).fresh := by
  unfold Process.step
  split
  · exact le_rfl
  · exact le_rfl
  · rw [setCurrent_fresh]
  · rw [registerMethodHook_fresh]
  · exact Nat.le_succ _
  · exact Nat.le_succ _
  · exact le_rfl

theorem fresh_allocates {p : Process α β γ δ τ} {e : Event α β γ δ τ} {token : Nat}
    (he : e.act.allocates token) : p.fresh < (p.step e).fresh := by
  unfold Process.step
  split
  · next h => rw [h] at he; exact he.elim
  · next h => rw [h] at he; exact he.elim
  · next h => rw [h] at he; exact he.elim
  · next h => rw [h] at he; exact he.elim
  · exact Nat.lt_succ_self _
  · exact Nat.lt_succ_self _
  · next h => rw [h] at he; exact he.elim

theorem fresh_mono {h h' : History α β γ δ τ} (hs : h <:+ h') :
    (Process.after h).fresh ≤ (Process.after h').fresh := by
  induction h' with
  | nil => rw [List.suffix_nil.mp hs]
  | cons e h' ih =>
    rcases List.suffix_cons_iff.mp hs with rfl | hs
    · exact le_rfl
    · exact (ih hs).trans (fresh_step _ e)

/-- An allocation is before another one, or the same. -/
theorem allocation_unique {h : History α β γ δ τ} {e e' : Event α β γ δ τ}
    {h₀ h₁ : History α β γ δ τ} {token token' : Nat} (hs : e :: h₀ <:+ h) (hs' : e' :: h₁ <:+ h)
    (he : e.act.allocates token) (he' : e'.act.allocates token')
    (hfresh : (Process.after h₀).fresh = (Process.after h₁).fresh) : e :: h₀ = e' :: h₁ := by
  rcases List.suffix_or_suffix_of_suffix hs hs' with hle | hle
  · rcases List.suffix_cons_iff.mp hle with heq | hlt
    · exact heq
    · have hless := fresh_allocates (p := Process.after h₀) he
      have hmono := fresh_mono hlt
      exact absurd hmono (by rw [Process.after, ← hfresh]; omega)
  · rcases List.suffix_cons_iff.mp hle with heq | hlt
    · exact heq.symm
    · have hless := fresh_allocates (p := Process.after h₁) he'
      have hmono := fresh_mono hlt
      exact absurd hmono (by rw [Process.after, hfresh]; omega)

/-- A state has one scope and one token. -/
theorem Owned.unique {h : History α β γ δ τ} {scope scope' : Option Nat} {token token' state : Nat}
    (ho : Owned h scope token state) (ho' : Owned h scope' token' state) :
    scope = scope' ∧ token = token' := by
  obtain ⟨e, h₀, hs, he, hfresh, rfl⟩ := ho
  obtain ⟨e', h₁, hs', he', hfresh', rfl⟩ := ho'
  have heq := allocation_unique hs hs' he he' (hfresh.trans hfresh'.symm)
  obtain ⟨rfl, rfl⟩ := List.cons.inj heq
  refine ⟨rfl, ?_⟩
  unfold Act.allocates at he
  split at he
  · next hact =>
    rw [hact] at he'
    exact he.symm.trans he'
  · next hact =>
    rw [hact] at he'
    exact he.symm.trans he'
  · exact he.elim

end States

/-! ## The stacks of a run -/

section Run
variable {α β γ δ τ : Type}

/-- A registry is the scope's: what the scope sees, and states of its own. -/
structure Registry (h : History α β γ δ τ) (chain : List (Bool × History α β γ δ τ))
    (reg : ScopeRegistry α β) : Prop where
  stack : reg.stack = visible sqlLevel chain h
  states : ∀ p ∈ reg.states, Owned h (chain.head?.map (·.2.length)) p.1 p.2

/-- The registries of a thread are those of its open scopes. -/
inductive Registries (h : History α β γ δ τ) :
    List (ScopeRegistry α β) → List (Bool × History α β γ δ τ) → Prop
  | nil : Registries h [] []
  | cons {reg : ScopeRegistry α β} {regs : List (ScopeRegistry α β)}
    {s : Bool × History α β γ δ τ} {outer : List (Bool × History α β γ δ τ)} :
    Registry h (s :: outer) reg → Registries h regs outer → Registries h (reg :: regs) (s :: outer)

def methodsOf (h : History α β γ δ τ) (chain : List (Bool × History α β γ δ τ)) :
    List (List (MethodEntry γ δ τ)) :=
  chain.map fun s => registeredIn methodLevel (some s.2.length) h

/-- The process stands where its history says. -/
structure Stands (h : History α β γ δ τ) (p : Process α β γ δ τ) : Prop where
  global : Registry h [] p.global
  methodGlobal : p.methodGlobal = registeredIn methodLevel none h
  registries : ∀ thread, Registries h (p.threads thread).registry (openScopes thread h)
  methods : ∀ thread, (p.threads thread).methods = methodsOf h (openScopes thread h)

variable {h : History α β γ δ τ} {p : Process α β γ δ τ}

theorem Registry.cons {chain : List (Bool × History α β γ δ τ)} {reg : ScopeRegistry α β}
    (hr : Registry h chain reg) {e : Event α β γ δ τ}
    (he : visible sqlLevel chain (e :: h) = visible sqlLevel chain h) :
    Registry (e :: h) chain reg where
  stack := hr.stack.trans he.symm
  states := fun q hq => (hr.states q hq).cons e

theorem Registries.grow {regs : List (ScopeRegistry α β)}
    {chain : List (Bool × History α β γ δ τ)} (hr : Registries h regs chain)
    {e : Event α β γ δ τ} (he : ∀ s ∈ chain, registeredIn sqlLevel (some s.2.length) (e :: h) =
      registeredIn sqlLevel (some s.2.length) h) : Registries (e :: h) regs chain := by
  induction hr with
  | nil => exact .nil
  | cons hreg _ ih =>
    refine .cons (hreg.cons (visible_cons _ _ (he _ List.mem_cons_self))) (ih ?_)
    exact fun s hs => he s (List.mem_cons_of_mem _ hs)

/-- What `with_current` gives is the registry of the innermost scope. -/
theorem Stands.current (hp : Stands h p) (thread : Nat) :
    Registry h (openScopes thread h) (p.current thread) := by
  have hregs := hp.registries thread
  unfold Process.current
  cases hr : (p.threads thread).registry with
  | nil =>
    rw [hr] at hregs
    generalize openScopes thread h = chain at hregs ⊢
    cases hregs
    exact hp.global
  | cons reg regs =>
    rw [hr] at hregs
    generalize openScopes thread h = chain at hregs ⊢
    cases hregs with
    | cons hreg _ => exact hreg

/-- An event that opens and closes no scope. -/
def Event.Inside (e : Event α β γ δ τ) : Prop :=
  (∀ inherit, e.act ≠ .enter inherit) ∧ e.act ≠ .leave

theorem openScopes_inside {e : Event α β γ δ τ} (he : e.Inside) (thread : Nat) :
    openScopes thread (e :: h) = openScopes thread h := by
  rw [openScopes]
  split
  · split
    · next inherit hact => exact absurd hact (he.1 inherit)
    · next hact => exact absurd hact he.2
    · rfl
  · rfl

/-- The scopes around the innermost one of a thread, and those of other threads, are others. -/
theorem scopeOf_ne {thread thread' : Nat} {s t : Bool × History α β γ δ τ}
    {outer : List (Bool × History α β γ δ τ)} (hs : openScopes thread h = s :: outer)
    (ht : t ∈ openScopes thread' h) (hother : thread' ≠ thread ∨ t ∈ outer) :
    scopeOf thread h ≠ some t.2.length := by
  rw [scopeOf, hs, List.head?_cons, Option.map_some]
  intro heq
  have hlen := Option.some.inj heq
  rcases hother with hne | hmem
  · have hmem : s ∈ openScopes thread h := by rw [hs]; exact List.mem_cons_self
    exact hne (openScopes_thread hmem ht hlen).symm
  · have hlater := hs ▸ (openScopes_later : (openScopes thread h).Pairwise _)
    have hlt := (List.pairwise_cons.mp hlater).1 t hmem
    omega

/-- A registration in the innermost scope leaves the chains of the others. -/
theorem registeredIn_other {D : Type} {level : Act α β γ δ τ → Registers D} {e : Event α β γ δ τ}
    {t : Bool × History α β γ δ τ} (h₀ : scopeOf e.thread h ≠ some t.2.length) :
    registeredIn level (some t.2.length) (e :: h) = registeredIn level (some t.2.length) h := by
  cases hact : level e.act with
  | one d => rw [registeredIn_one hact, if_neg h₀]
  | clear => rw [registeredIn, hact]; exact if_neg nofun
  | nothing => exact registeredIn_nothing hact _ h

/-- A new registry of the innermost scope. -/
theorem Stands.setCurrent (hp : Stands h p) {e : Event α β γ δ τ} (he : e.Inside)
    (hmethod : methodLevel e.act = .nothing) {reg : ScopeRegistry α β}
    (hglobal : registeredIn sqlLevel none (e :: h) =
      if scopeOf e.thread h = none then reg.stack else registeredIn sqlLevel none h)
    (hreg : Registry (e :: h) (openScopes e.thread h) reg) :
    Stands (e :: h) (p.setCurrent e.thread reg) := by
  have hopen := openScopes_inside (h := h) he
  have hmethods : ∀ chain : List (Bool × History α β γ δ τ),
      methodsOf (e :: h) chain = methodsOf h chain := by
    intro chain
    exact List.map_congr_left fun s _ => registeredIn_nothing hmethod _ h
  have hregs := hp.registries e.thread
  unfold Process.setCurrent
  cases hr : (p.threads e.thread).registry with
  | nil =>
    have hnil : openScopes e.thread h = [] := by
      rw [hr] at hregs
      generalize openScopes e.thread h = chain at hregs ⊢
      cases hregs
      rfl
    have hnone : scopeOf e.thread h = none := by rw [scopeOf, hnil]; rfl
    refine ⟨by rwa [hnil] at hreg, ?_, fun thread => ?_, fun thread => ?_⟩
    · exact hp.methodGlobal.trans (registeredIn_nothing hmethod none h).symm
    · rw [hopen]
      refine (hp.registries thread).grow fun t _ => registeredIn_other ?_
      rw [hnone]
      exact nofun
    · rw [hopen, hmethods]
      exact hp.methods thread
  | cons old regs =>
    rw [hr] at hregs
    obtain ⟨s, outer, hchain, houter⟩ : ∃ s outer, openScopes e.thread h = s :: outer ∧
        Registries h regs outer := by
      generalize openScopes e.thread h = chain at hregs ⊢
      cases hregs with
      | cons _ hrest => exact ⟨_, _, rfl, hrest⟩
    have hsome : scopeOf e.thread h ≠ none := by rw [scopeOf, hchain]; exact nofun
    rw [if_neg hsome] at hglobal
    have hother : ∀ thread', thread' ≠ e.thread → ∀ t ∈ openScopes thread' h,
        registeredIn sqlLevel (some t.2.length) (e :: h) =
          registeredIn sqlLevel (some t.2.length) h :=
      fun thread' hne t ht => registeredIn_other (scopeOf_ne hchain ht (Or.inl hne))
    refine ⟨hp.global.cons hglobal, ?_, fun thread => ?_, fun thread => ?_⟩
    · exact hp.methodGlobal.trans (registeredIn_nothing hmethod none h).symm
    · rw [hopen]
      by_cases ht : thread = e.thread
      · subst ht
        simp only [Process.setScopes, Function.update_self]
        rw [hchain] at hreg ⊢
        refine .cons hreg (houter.grow fun t ht => registeredIn_other ?_)
        exact scopeOf_ne hchain (by rw [hchain]; exact List.mem_cons_of_mem s ht) (Or.inr ht)
      · simp only [Process.setScopes, Function.update_of_ne ht]
        exact (hp.registries thread).grow (hother thread ht)
    · rw [hopen, hmethods]
      by_cases ht : thread = e.thread
      · subst ht
        simp only [Process.setScopes, Function.update_self]
        exact hp.methods e.thread
      · simp only [Process.setScopes, Function.update_of_ne ht]
        exact hp.methods thread

theorem stateFor_stack (reg : ScopeRegistry α β) (fresh token : Nat) :
    (reg.stateFor fresh token).2.stack = reg.stack := by
  unfold ScopeRegistry.stateFor
  split
  · rfl
  · split <;> rfl

theorem resetStateFor_stack (reg : ScopeRegistry α β) (fresh token : Nat) :
    (reg.resetStateFor fresh token).stack = reg.stack := by
  unfold ScopeRegistry.resetStateFor
  split <;> rfl

/-- The states after a read are those before and the one of the token. -/
theorem mem_stateFor {reg : ScopeRegistry α β} {fresh token : Nat} {q : Nat × Nat}
    (hq : q ∈ (reg.stateFor fresh token).2.states) : q ∈ reg.states ∨ q = (token, fresh) := by
  unfold ScopeRegistry.stateFor at hq
  split at hq
  · exact Or.inl hq
  · split at hq
    · exact (List.mem_append.mp hq).imp_right List.mem_singleton.mp
    · exact Or.inl hq

theorem mem_resetStateFor {reg : ScopeRegistry α β} {fresh token : Nat} {q : Nat × Nat}
    (hq : q ∈ (reg.resetStateFor fresh token).states) : q ∈ reg.states ∨ q = (token, fresh) := by
  unfold ScopeRegistry.resetStateFor at hq
  split at hq
  · exact (Keyed.mem_put hq).symm
  · exact Or.inl hq

/-- An event that registers nothing and allocates a state at most. -/
theorem Stands.setStates (hp : Stands h p) {e : Event α β γ δ τ} (he : e.Inside)
    (hsql : sqlLevel e.act = .nothing) (hmethod : methodLevel e.act = .nothing) {token : Nat}
    (halloc : e.act.allocates token) (hfresh : (Process.after h).fresh = p.fresh)
    {reg : ScopeRegistry α β} (hstack : reg.stack = (p.current e.thread).stack)
    (hstates : ∀ q ∈ reg.states, q ∈ (p.current e.thread).states ∨ q = (token, p.fresh)) :
    Stands (e :: h) (p.setCurrent e.thread reg) := by
  have hcurrent := hp.current e.thread
  have hvisible : visible sqlLevel (openScopes e.thread h) (e :: h) =
      visible sqlLevel (openScopes e.thread h) h := by
    cases openScopes e.thread h with
    | nil => exact registeredIn_nothing hsql none h
    | cons s outer => exact visible_cons s outer (registeredIn_nothing hsql _ h)
  refine hp.setCurrent he hmethod ?_ ⟨?_, ?_⟩
  · rw [registeredIn_nothing hsql]
    split
    · next hnone =>
      have hnil : openScopes e.thread h = [] := by
        cases hchain : openScopes e.thread h with
        | nil => rfl
        | cons s outer =>
          rw [scopeOf, hchain] at hnone
          cases hnone
      have hstack' := hcurrent.stack
      rw [hnil] at hstack'
      rw [hstack, hstack', visible]
    · rfl
  · rw [hstack, hvisible]
    exact hcurrent.stack
  · intro q hq
    rcases hstates q hq with hq | rfl
    · exact (hcurrent.states q hq).cons e
    · exact ⟨e, h, List.suffix_rfl, halloc, hfresh, rfl⟩

end Run

/-! ## Steps -/

section Step
variable {α β γ δ τ : Type} {h : History α β γ δ τ} {p : Process α β γ δ τ}
  {e : Event α β γ δ τ}

theorem Stands.withFresh (hp : Stands h p) (n : Nat) : Stands h { p with fresh := n } :=
  ⟨hp.global, hp.methodGlobal, hp.registries, hp.methods⟩

theorem scopeOf_none {thread : Nat} : scopeOf thread h = none ↔ openScopes thread h = [] := by
  rw [scopeOf, Option.map_eq_none_iff, List.head?_eq_none_iff]

/-- A registration stands behind what its scope sees. -/
theorem visible_registered {d : SharedDescriptor α β} (he : sqlLevel e.act = .one d) :
    visible sqlLevel (openScopes e.thread h) (e :: h) =
      visible sqlLevel (openScopes e.thread h) h ++ [d] := by
  cases hchain : openScopes e.thread h with
  | nil =>
    rw [visible, visible, registeredIn_one he, if_pos (scopeOf_none.mpr hchain)]
  | cons s outer =>
    obtain ⟨inherit, entry⟩ := s
    have hscope : scopeOf e.thread h = some entry.length := by rw [scopeOf, hchain]; rfl
    rw [visible, visible, registeredIn_one he, if_pos hscope, List.append_assoc]

theorem stands_use (hp : Stands h p) {d : SharedDescriptor α β}
    (hact : e.act = .useMiddleware d) :
    Stands (e :: h) (p.setCurrent e.thread ((p.current e.thread).push d)) := by
  have hcurrent := hp.current e.thread
  have he : sqlLevel e.act = .one d := by rw [hact]; rfl
  have hstack : ((p.current e.thread).push d).stack =
      visible sqlLevel (openScopes e.thread h) (e :: h) := by
    rw [visible_registered he, ← hcurrent.stack]
    rfl
  have hinside : e.Inside := by
    rw [Event.Inside, hact]
    exact ⟨fun _ => nofun, nofun⟩
  refine hp.setCurrent hinside (by rw [hact]; rfl) ?_
    ⟨hstack, fun q hq => (hcurrent.states q hq).cons _⟩
  by_cases hnone : scopeOf e.thread h = none
  · rw [if_pos hnone, hstack, scopeOf_none.mp hnone, visible]
  · rw [if_neg hnone, registeredIn_one he, if_neg hnone]

/-- What is around an event that registers nothing is as it was. -/
theorem Registries.quiet {regs : List (ScopeRegistry α β)}
    {chain : List (Bool × History α β γ δ τ)} (hr : Registries h regs chain)
    (he : sqlLevel e.act = .nothing) : Registries (e :: h) regs chain :=
  hr.grow fun _ _ => registeredIn_nothing he _ h

theorem methodsOf_quiet (he : methodLevel e.act = .nothing)
    (chain : List (Bool × History α β γ δ τ)) : methodsOf (e :: h) chain = methodsOf h chain :=
  List.map_congr_left fun _ _ => registeredIn_nothing he _ h

theorem stands_enter (hp : Stands h p) {inherit : Bool} (hact : e.act = .enter inherit) :
    Stands (e :: h) (p.enter e.thread inherit) := by
  have hsql : sqlLevel e.act = .nothing := by rw [hact]; rfl
  have hmethod : methodLevel e.act = .nothing := by rw [hact]; rfl
  have hopen : openScopes e.thread (e :: h) = (inherit, h) :: openScopes e.thread h := by
    rw [openScopes, if_pos rfl, hact]
  have hothers : ∀ thread ≠ e.thread, openScopes thread (e :: h) = openScopes thread h :=
    fun thread ht => by rw [openScopes, if_neg (Ne.symm ht)]
  refine ⟨hp.global.cons (registeredIn_nothing hsql none h),
    hp.methodGlobal.trans (registeredIn_nothing hmethod none h).symm, fun thread => ?_,
    fun thread => ?_⟩
  · by_cases ht : thread = e.thread
    · subst ht
      simp only [Process.enter, Process.setScopes, Function.update_self, hopen]
      refine .cons ⟨?_, ?_⟩ ((hp.registries e.thread).quiet hsql)
      · rw [visible, registeredIn_nothing hsql, registeredIn_before h le_rfl, List.append_nil]
        cases inherit with
        | true => exact (hp.current e.thread).stack
        | false => rfl
      · cases inherit <;> exact fun q hq => absurd hq List.not_mem_nil
    · simp only [Process.enter, Process.setScopes, Function.update_of_ne ht, hothers thread ht]
      exact (hp.registries thread).quiet hsql
  · by_cases ht : thread = e.thread
    · subst ht
      simp only [Process.enter, Process.setScopes, Function.update_self, hopen]
      rw [methodsOf_quiet hmethod, methodsOf, List.map_cons, registeredIn_before h le_rfl,
        hp.methods e.thread, methodsOf]
    · simp only [Process.enter, Process.setScopes, Function.update_of_ne ht, hothers thread ht]
      rw [methodsOf_quiet hmethod]
      exact hp.methods thread

theorem stands_leave (hp : Stands h p) (hact : e.act = .leave) :
    Stands (e :: h) (p.leave e.thread) := by
  have hsql : sqlLevel e.act = .nothing := by rw [hact]; rfl
  have hmethod : methodLevel e.act = .nothing := by rw [hact]; rfl
  have hopen : openScopes e.thread (e :: h) = (openScopes e.thread h).tail := by
    rw [openScopes, if_pos rfl, hact]
  have hothers : ∀ thread ≠ e.thread, openScopes thread (e :: h) = openScopes thread h :=
    fun thread ht => by rw [openScopes, if_neg (Ne.symm ht)]
  refine ⟨hp.global.cons (registeredIn_nothing hsql none h),
    hp.methodGlobal.trans (registeredIn_nothing hmethod none h).symm, fun thread => ?_,
    fun thread => ?_⟩
  · by_cases ht : thread = e.thread
    · subst ht
      simp only [Process.leave, Process.setScopes, Function.update_self, hopen]
      have hregs := (hp.registries e.thread).quiet hsql
      generalize openScopes e.thread h = chain at hregs ⊢
      generalize (p.threads e.thread).registry = regs at hregs ⊢
      cases hregs with
      | nil => exact .nil
      | cons _ hrest => exact hrest
    · simp only [Process.leave, Process.setScopes, Function.update_of_ne ht, hothers thread ht]
      exact (hp.registries thread).quiet hsql
  · by_cases ht : thread = e.thread
    · subst ht
      simp only [Process.leave, Process.setScopes, Function.update_self, hopen]
      rw [methodsOf_quiet hmethod, hp.methods e.thread, methodsOf, methodsOf, List.map_tail]
    · simp only [Process.leave, Process.setScopes, Function.update_of_ne ht, hothers thread ht]
      rw [methodsOf_quiet hmethod]
      exact hp.methods thread

theorem stands_method (hp : Stands h p) {m : MethodEntry γ δ τ}
    (hact : e.act = .registerMethodHook m) :
    Stands (e :: h) (p.registerMethodHook e.thread m) := by
  have hsql : sqlLevel e.act = .nothing := by rw [hact]; rfl
  have he : methodLevel e.act = .one m := by rw [hact]; rfl
  have hinside : e.Inside := by
    rw [Event.Inside, hact]
    exact ⟨fun _ => nofun, nofun⟩
  have hopen := openScopes_inside (h := h) hinside
  have hmethods := hp.methods e.thread
  unfold Process.registerMethodHook
  cases hm : (p.threads e.thread).methods with
  | nil =>
    have hnil : openScopes e.thread h = [] := by
      rw [hm] at hmethods
      exact List.map_eq_nil_iff.mp hmethods.symm
    have hnone := scopeOf_none.mpr hnil
    refine ⟨hp.global.cons (registeredIn_nothing hsql none h), ?_, fun thread => ?_,
      fun thread => ?_⟩
    · rw [registeredIn_one he, if_pos hnone, ← hp.methodGlobal]
    · rw [hopen]
      exact (hp.registries thread).quiet hsql
    · rw [hopen]
      refine (hp.methods thread).trans (List.map_congr_left fun s _ => ?_)
      rw [registeredIn_one he, if_neg (by rw [hnone]; exact nofun)]
  | cons top rest =>
    obtain ⟨s, outer, hchain⟩ : ∃ s outer, openScopes e.thread h = s :: outer := by
      cases hchain : openScopes e.thread h with
      | nil =>
        rw [hm, hchain] at hmethods
        cases hmethods
      | cons s outer => exact ⟨s, outer, rfl⟩
    have hscope : scopeOf e.thread h = some s.2.length := by rw [scopeOf, hchain]; rfl
    rw [hm, hchain, methodsOf, List.map_cons] at hmethods
    obtain ⟨htop, hrest⟩ := List.cons.inj hmethods
    have hother : ∀ thread', ∀ t ∈ openScopes thread' h, thread' ≠ e.thread ∨ t ∈ outer →
        registeredIn methodLevel (some t.2.length) (e :: h) =
          registeredIn methodLevel (some t.2.length) h :=
      fun thread' t ht hne => registeredIn_other (scopeOf_ne hchain ht hne)
    refine ⟨hp.global.cons (registeredIn_nothing hsql none h), ?_, fun thread => ?_,
      fun thread => ?_⟩
    · rw [registeredIn_one he, if_neg (by rw [hscope]; exact nofun)]
      exact hp.methodGlobal
    · rw [hopen]
      by_cases ht : thread = e.thread
      · subst ht
        simp only [Process.setScopes, Function.update_self]
        exact (hp.registries e.thread).quiet hsql
      · simp only [Process.setScopes, Function.update_of_ne ht]
        exact (hp.registries thread).quiet hsql
    · rw [hopen]
      by_cases ht : thread = e.thread
      · subst ht
        simp only [Process.setScopes, Function.update_self]
        rw [hchain, methodsOf, List.map_cons, registeredIn_one he, if_pos hscope, htop, hrest]
        refine congrArg _ (List.map_congr_left fun t ht => (hother e.thread t ?_ (Or.inr ht)).symm)
        rw [hchain]
        exact List.mem_cons_of_mem s ht
      · simp only [Process.setScopes, Function.update_of_ne ht]
        refine (hp.methods thread).trans (List.map_congr_left fun t ht' => ?_)
        exact (hother thread t ht' (Or.inl ht)).symm

theorem stands_clear (hp : Stands h p) (hact : e.act = .clearMiddlewares) :
    Stands (e :: h) { p with global := {} } := by
  have hmethod : methodLevel e.act = .nothing := by rw [hact]; rfl
  have hsql : sqlLevel e.act = .clear := by rw [hact]; rfl
  have hinside : e.Inside := by
    rw [Event.Inside, hact]
    exact ⟨fun _ => nofun, nofun⟩
  have hopen := openScopes_inside (h := h) hinside
  refine ⟨⟨?_, fun q hq => absurd hq List.not_mem_nil⟩,
    hp.methodGlobal.trans (registeredIn_nothing hmethod none h).symm, fun thread => ?_,
    fun thread => ?_⟩
  · rw [visible, registeredIn, hsql]
    exact (if_pos rfl).symm
  · rw [hopen]
    refine (hp.registries thread).grow fun s _ => ?_
    rw [registeredIn, hsql]
    exact if_neg nofun
  · rw [hopen, methodsOf_quiet hmethod]
    exact hp.methods thread

/-- Every run stands where its history says. -/
theorem stands_after (h : History α β γ δ τ) : Stands h (Process.after h) := by
  induction h with
  | nil =>
    refine ⟨⟨rfl, fun q hq => absurd hq List.not_mem_nil⟩, rfl, fun _ => .nil, fun _ => rfl⟩
  | cons e h ih =>
    rw [Process.after, Process.step]
    cases hact : e.act with
    | enter inherit => exact stands_enter ih hact
    | leave => exact stands_leave ih hact
    | useMiddleware d => exact stands_use ih hact
    | registerMethodHook m => exact stands_method ih hact
    | clearMiddlewares => exact stands_clear ih hact
    | readState token =>
      have hinside : e.Inside := by
        rw [Event.Inside, hact]
        exact ⟨fun _ => nofun, nofun⟩
      refine Stands.withFresh (ih.setStates hinside (by rw [hact]; rfl) (by rw [hact]; rfl)
        (by rw [hact]; rfl) rfl (stateFor_stack _ _ _) fun q hq => mem_stateFor hq) _
    | resetState token =>
      have hinside : e.Inside := by
        rw [Event.Inside, hact]
        exact ⟨fun _ => nofun, nofun⟩
      refine Stands.withFresh (ih.setStates hinside (by rw [hact]; rfl) (by rw [hact]; rfl)
        (by rw [hact]; rfl) rfl (resetStateFor_stack _ _ _) fun q hq => mem_resetStateFor hq) _

end Step

/-! ## The hooks that run -/

section Scoped
variable {α β γ δ τ : Type}

/-- The state that a thread is given for a token. -/
def stateRead (h : History α β γ δ τ) (thread token : Nat) : Option Nat :=
  (((Process.after h).current thread).stateFor (Process.after h).fresh token).1

/-- The method hooks of the innermost scope itself. -/
def ownMethods (thread : Nat) (h : History α β γ δ τ) : List (MethodEntry γ δ τ) :=
  registeredIn methodLevel (scopeOf thread h) h

/-- The method hooks of the innermost scope and, where it inherits, those seen around it. -/
def inheritedMethods (thread : Nat) (h : History α β γ δ τ) : List (MethodEntry γ δ τ) :=
  visible methodLevel (openScopes thread h) h

variable {h : History α β γ δ τ}

theorem wrap_eq_chain {α β : Type} (hooks : List (Hook α β)) (next : α → β) (call : α) :
    Middleware.wrap hooks next call = Onion.chain hooks next call := by
  unfold Middleware.wrap
  split
  · next hempty =>
    rw [List.isEmpty_iff.mp hempty]
    rfl
  · rfl

/-- What is registered in a scope was registered there. -/
theorem mem_registeredIn {D : Type} {level : Act α β γ δ τ → Registers D} {scope : Option Nat}
    {d : D} (hd : d ∈ registeredIn level scope h) :
    ∃ e h₀, e :: h₀ <:+ h ∧ level e.act = .one d ∧ scopeOf e.thread h₀ = scope := by
  induction h with
  | nil => cases hd
  | cons e h ih =>
    have hold : d ∈ registeredIn level scope h →
        ∃ e₀ h₀, e₀ :: h₀ <:+ e :: h ∧ level e₀.act = .one d ∧ scopeOf e₀.thread h₀ = scope := by
      intro hd
      obtain ⟨e₀, h₀, hsuffix, hrest⟩ := ih hd
      exact ⟨e₀, h₀, hsuffix.trans (List.suffix_cons e h), hrest⟩
    unfold registeredIn at hd
    split at hd
    · next d' hact =>
      split at hd
      · next hscope =>
        rcases List.mem_append.mp hd with hd | hd
        · exact hold hd
        · exact ⟨e, h, List.suffix_rfl, by rw [hact, List.mem_singleton.mp hd], hscope⟩
      · exact hold hd
    · split at hd
      · cases hd
      · exact hold hd
    · exact hold hd

/-- What a chain of scopes sees was registered in one of them, or for the application. -/
theorem mem_visible {D : Type} {level : Act α β γ δ τ → Registers D} {d : D}
    {chain : List (Bool × History α β γ δ τ)} {H : History α β γ δ τ} (hs : h <:+ H)
    (hchain : ∀ s ∈ chain, s.2 <:+ H) (hd : d ∈ visible level chain h) :
    ∃ e h₀, e :: h₀ <:+ H ∧ level e.act = .one d ∧
      (scopeOf e.thread h₀ = none ∨ ∃ s ∈ chain, scopeOf e.thread h₀ = some s.2.length) := by
  induction chain generalizing h with
  | nil =>
    obtain ⟨e, h₀, hsuffix, hact, hscope⟩ := mem_registeredIn hd
    exact ⟨e, h₀, hsuffix.trans hs, hact, Or.inl hscope⟩
  | cons s outer ih =>
    obtain ⟨inherit, entry⟩ := s
    rw [visible, List.mem_append] at hd
    rcases hd with hd | hd
    · cases inherit with
      | false => cases hd
      | true =>
        obtain ⟨e, h₀, hsuffix, hact, hscope⟩ := ih (hchain _ List.mem_cons_self)
          (fun s hs => hchain s (List.mem_cons_of_mem _ hs)) hd
        refine ⟨e, h₀, hsuffix, hact, hscope.imp_right ?_⟩
        rintro ⟨s, hs, hlen⟩
        exact ⟨s, List.mem_cons_of_mem _ hs, hlen⟩
    · obtain ⟨e, h₀, hsuffix, hact, hscope⟩ := mem_registeredIn hd
      exact ⟨e, h₀, hsuffix.trans hs, hact, Or.inr ⟨_, List.mem_cons_self, hscope⟩⟩

theorem openScopes_suffix {thread : Nat} {s : Bool × History α β γ δ τ}
    (hs : s ∈ openScopes thread h) : s.2 <:+ h :=
  (List.suffix_cons _ _).trans (openScopes_entered hs)

theorem sqlLevel_one {act : Act α β γ δ τ} {d : SharedDescriptor α β}
    (h : sqlLevel act = .one d) : act = .useMiddleware d := by
  cases act <;> cases h
  rfl

theorem methodLevel_one {act : Act α β γ δ τ} {m : MethodEntry γ δ τ}
    (h : methodLevel act = .one m) : act = .registerMethodHook m := by
  cases act <;> cases h
  rfl

/-- The hooks of an operation are those of the innermost scope itself. -/
theorem currentMethods_eq (h : History α β γ δ τ) (thread : Nat) :
    ((Process.after h).threads thread).methods.head?.getD (Process.after h).methodGlobal =
      ownMethods thread h := by
  have hp := stands_after h
  rw [hp.methods thread, hp.methodGlobal, methodsOf, ownMethods, scopeOf]
  cases openScopes thread h <;> rfl

/-- A state that is read was allocated for its token in its scope. -/
theorem stateRead_owned {thread token state : Nat} (hread : stateRead h thread token = some state) :
    Owned (⟨thread, .readState token⟩ :: h) (scopeOf thread h) token state := by
  have hcurrent := (stands_after h).current thread
  unfold stateRead ScopeRegistry.stateFor at hread
  split at hread
  · next hlookup =>
    cases hread
    have hmem : (token, state) ∈ ((Process.after h).current thread).states :=
      Keyed.mem_of_lookup hlookup
    exact (hcurrent.states _ hmem).cons _
  · split at hread
    · cases hread
      exact ⟨_, h, List.suffix_rfl, rfl, rfl, rfl⟩
    · cases hread

theorem Owned.mono {H : History α β γ δ τ} {scope : Option Nat} {token state : Nat}
    (ho : Owned h scope token state) (hs : h <:+ H) : Owned H scope token state := by
  obtain ⟨e, h₀, hsuffix, hrest⟩ := ho
  exact ⟨e, h₀, hsuffix.trans hs, hrest⟩

variable [DecidableEq τ]

/-- After a history, a statement runs through the hooks that its scope sees and an operation
through the method hooks given; a hook that is seen was registered in an open scope or for the
application; and no state is read in two scopes, or for two middlewares. -/
structure Scoped (methodsSeen : Nat → History α β γ δ τ → List (MethodEntry γ δ τ))
    (h : History α β γ δ τ) : Prop where
  statements : ∀ thread terminal call, (Process.after h).wrapAmbient thread terminal call =
    Onion.chain ((visible sqlLevel (openScopes thread h) h).filterMap (·.sql)) terminal call
  operations : ∀ thread kind result core args,
    (Process.after h).runMethod thread kind result core args =
      Onion.chain (((methodsSeen thread h).filter fun e =>
        e.kind = kind ∧ e.result = result).map (·.hook)) core args
  inside : ∀ thread, ∀ d ∈ visible sqlLevel (openScopes thread h) h,
    ∃ e h₀, e :: h₀ <:+ h ∧ e.act = .useMiddleware d ∧
      (scopeOf e.thread h₀ = none ∨
        ∃ s ∈ openScopes thread h, scopeOf e.thread h₀ = some s.2.length)
  methodsInside : ∀ thread, ∀ m ∈ methodsSeen thread h,
    ∃ e h₀, e :: h₀ <:+ h ∧ e.act = .registerMethodHook m ∧
      (scopeOf e.thread h₀ = none ∨
        ∃ s ∈ openScopes thread h, scopeOf e.thread h₀ = some s.2.length)
  states : ∀ thread token h₀ thread' token' h₁ state,
    ⟨thread, .readState token⟩ :: h₀ <:+ h → ⟨thread', .readState token'⟩ :: h₁ <:+ h →
    stateRead h₀ thread token = some state → stateRead h₁ thread' token' = some state →
    scopeOf thread h₀ = scopeOf thread' h₁ ∧ token = token'

end Scoped

/-- A method hook of the application that answers in place of the operation. -/
def answering : MethodEntry Unit Nat Unit := ⟨.find, (), fun _ _ => 1⟩

/-- The hook is registered for the application, then a scope is entered. -/
def enteredAfterwards : History Unit Unit Unit Nat Unit :=
  [⟨0, .enter true⟩, ⟨0, .registerMethodHook answering⟩]

end LiteDb.RustMiddleware
