import LiteDbModel.Lib.Onion
import LiteDbModel.Lib.Run

/-!
# Middleware

`use` appends a descriptor and returns a function that takes it out again by identity.
What is registered is compared with the registrations whose own function has not been
called, over every sequence of registrations and calls. The hooks of a registry are then
composed around statements and operations, and each scope has a registry of its own.
-/

namespace LiteDb.Middleware
set_option autoImplicit false

variable {δ : Type}

/-! ## Registering -/

/-- `Registry.use`; the descriptors are object references. -/
def Registry.use (stack : List δ) (mw : δ) : List δ := stack ++ [mw]

/-- `DBModel.use`, on `_middlewares`. -/
def DBModel.use (middlewares : List δ) (mw : δ) : List δ := middlewares ++ [mw]

inductive Surface
  | registry
  | dbModel
deriving DecidableEq

def Surface.use : Surface → List δ → δ → List δ
  | .registry => Registry.use
  | .dbModel => DBModel.use

theorem Surface.use_eq (surface : Surface) (stack : List δ) (mw : δ) :
    surface.use stack mw = stack ++ [mw] := by
  cases surface <;> rfl

/-! ## Registrations and their functions -/

inductive Call (δ : Type)
  | use (mw : δ)
  /-- The function that the `i`-th registration returned. -/
  | unregister (i : Nat)

/-- The stack, with the registrations made and the functions called so far. -/
structure Registrations (δ : Type) where
  stack : List δ := []
  issued : List δ := []
  called : List Nat := []

/-- The registrations of a list, counted from `n`, whose own function has not been called. -/
def kept (called : List Nat) (issued : List δ) (n : Nat) : List δ :=
  ((issued.zipIdx n).filter fun r => r.2 ∉ called).map Prod.fst

/-- The registrations whose own function has not been called, in their order. -/
def Registrations.live (s : Registrations δ) : List δ := kept s.called s.issued 0

/-- Those of them that were made before the `i`-th registration. -/
def Registrations.before (s : Registrations δ) (i : Nat) : List δ :=
  kept s.called (s.issued.take i) 0

/-- Only functions that were returned have been called. -/
def Registrations.Called (s : Registrations δ) : Prop := ∀ i ∈ s.called, i < s.issued.length

theorem kept_append (called : List Nat) (xs ys : List δ) (n : Nat) :
    kept called (xs ++ ys) n = kept called xs n ++ kept called ys (n + xs.length) := by
  rw [kept, List.zipIdx_append, List.filter_append, List.map_append]
  rfl

theorem kept_cons_called {called : List Nat} {issued : List δ} {n i : Nat}
    (h : i < n ∨ n + issued.length ≤ i) : kept (i :: called) issued n = kept called issued n := by
  rw [kept, kept]
  congr 1
  apply List.filter_congr
  intro r hr
  have hle := List.le_snd_of_mem_zipIdx hr
  have hlt := List.snd_lt_add_of_mem_zipIdx hr
  have hne : r.2 ≠ i := by omega
  simp [hne]

theorem kept_singleton (called : List Nat) (mw : δ) (n : Nat) :
    kept called [mw] n = if n ∈ called then [] else [mw] := by
  by_cases h : n ∈ called <;> simp [kept, h]

/-- The live registrations around one that has been made. -/
theorem Registrations.live_split {s : Registrations δ} {i : Nat} {mw : δ}
    (h : s.issued[i]? = some mw) :
    s.live = s.before i ++ (if i ∈ s.called then [] else [mw]) ++
      kept s.called (s.issued.drop (i + 1)) (i + 1) := by
  obtain ⟨hi, hmw⟩ := List.getElem?_eq_some_iff.mp h
  have hsplit : s.issued = s.issued.take i ++ [mw] ++ s.issued.drop (i + 1) := by
    rw [← hmw, List.take_append_getElem, List.take_append_drop]
  have hlen : (s.issued.take i).length = i := by
    rw [List.length_take]
    omega
  calc s.live = kept s.called (s.issued.take i ++ [mw] ++ s.issued.drop (i + 1)) 0 := by
        rw [← hsplit, live]
    _ = _ := by
        rw [kept_append, kept_append, kept_singleton, List.length_append, hlen, before]
        simp

theorem append_singleton_eq_cons_iff {l : List δ} {a : δ} : l ++ [a] = a :: l ↔ ∀ d ∈ l, d = a := by
  constructor
  · intro h
    induction l with
    | nil => simp
    | cons b l ih =>
      obtain ⟨rfl, hrest⟩ := List.cons.inj h
      intro d hd
      rcases List.mem_cons.mp hd with rfl | hd
      · rfl
      · exact ih hrest d hd
  · intro h
    rw [List.eq_replicate_of_mem h, ← List.replicate_succ', List.replicate_succ]

theorem Registrations.live_use {s : Registrations δ} (hs : s.Called) (stack : List δ) (mw : δ) :
    ({ s with stack := stack, issued := s.issued ++ [mw] } : Registrations δ).live
      = s.live ++ [mw] := by
  have hnew : s.issued.length ∉ s.called := by
    intro h
    have := hs _ h
    omega
  simp only [live]
  rw [kept_append, kept_singleton, Nat.zero_add, if_neg hnew]

theorem Registrations.live_unregister {s : Registrations δ} {i : Nat} {mw : δ}
    (h : s.issued[i]? = some mw) (stack : List δ) :
    ({ s with stack := stack, called := i :: s.called } : Registrations δ).live
      = s.before i ++ kept s.called (s.issued.drop (i + 1)) (i + 1) := by
  have hmade := live_split (s := { s with stack := stack, called := i :: s.called }) h
  have hi := (List.getElem?_eq_some_iff.mp h).1
  rw [hmade, if_pos (by simp), List.append_nil]
  simp only [before]
  rw [kept_cons_called (Or.inr (by rw [List.length_take]; omega)),
    kept_cons_called (Or.inl (by omega))]

variable [DecidableEq δ]

/-! ## Taking a descriptor out -/

/-- `indexOf`, then `splice`. -/
def removeFirst (stack : List δ) (mw : δ) : List δ :=
  match stack.idxOf? mw with
  | none => stack
  | some i => stack.eraseIdx i

theorem removeFirst_eq (stack : List δ) (mw : δ) : removeFirst stack mw = stack.erase mw := by
  rw [List.erase_eq_eraseIdx, removeFirst]
  cases stack.idxOf? mw <;> rfl

/-- The function that `Registry.use` returns. -/
def Registry.unregister (stack : List δ) (mw : δ) : List δ := removeFirst stack mw

/-- The function that `DBModel.use` returns. -/
def DBModel.unregister (middlewares : List δ) (mw : δ) : List δ := removeFirst middlewares mw

def Surface.unregister : Surface → List δ → δ → List δ
  | .registry => Registry.unregister
  | .dbModel => DBModel.unregister

theorem Surface.unregister_eq (surface : Surface) (stack : List δ) (mw : δ) :
    surface.unregister stack mw = stack.erase mw := by
  cases surface <;> exact removeFirst_eq stack mw

theorem erase_eq_self_iff {l : List δ} {mw : δ} : l.erase mw = l ↔ mw ∉ l := by
  constructor
  · intro h hm
    have hlen := List.length_erase_of_mem hm
    have hpos := List.length_pos_of_mem hm
    rw [h] at hlen
    omega
  · exact List.erase_of_not_mem

/-- The first occurrence is as good as a later one where only equal entries stand between. -/
theorem erase_append_cons_iff {front back : List δ} {mw : δ} :
    (front ++ mw :: back).erase mw = front ++ back ↔
      ∀ d ∈ front.dropWhile (fun d => d ≠ mw), d = mw := by
  induction front with
  | nil => simp
  | cons a front ih =>
    by_cases ha : a = mw
    · subst ha
      have hdrop : (a :: front).dropWhile (fun d => d ≠ a) = a :: front := by simp
      rw [hdrop, List.cons_append, List.erase_cons_head, List.forall_mem_cons,
        and_iff_right rfl, ← append_singleton_eq_cons_iff]
      constructor
      · intro h
        have h' : (front ++ [a]) ++ back = (a :: front) ++ back := by simpa using h
        exact List.append_cancel_right h'
      · intro h
        have h' : (front ++ [a]) ++ back = (a :: front) ++ back := by rw [h]
        simpa using h'
    · have hdrop : (a :: front).dropWhile (fun d => d ≠ mw) = front.dropWhile (fun d => d ≠ mw) := by
        simp [ha]
      rw [hdrop, ← ih, List.cons_append, List.erase_cons_tail (by simpa using ha),
        List.cons_append, List.cons_inj_right]

/-! ## Runs -/

def Registrations.step (surface : Surface) (s : Registrations δ) :
    Call δ → Option (Registrations δ)
  | .use mw => some { s with stack := surface.use s.stack mw, issued := s.issued ++ [mw] }
  | .unregister i => s.issued[i]?.map fun mw =>
      { s with stack := surface.unregister s.stack mw, called := i :: s.called }

/-- Taking out the first of the equal descriptors is taking out the call's own: on a first call no
other descriptor stands between the two, on a later one none is left. -/
def Registrations.Harmless (s : Registrations δ) : Call δ → Prop
  | .use _ => True
  | .unregister i => ∀ mw, s.issued[i]? = some mw →
      if i ∈ s.called then mw ∉ s.live
      else ∀ d ∈ (s.before i).dropWhile (fun d => d ≠ mw), d = mw

theorem Registrations.called_step {surface : Surface} {s t : Registrations δ} {c : Call δ}
    (hs : s.Called) (h : s.step surface c = some t) : t.Called := by
  cases c with
  | use mw =>
    obtain rfl := Option.some.inj h
    intro i hi
    have := hs i hi
    simp only [List.length_append, List.length_singleton]
    omega
  | unregister i =>
    obtain ⟨mw, hmw, rfl⟩ := Option.map_eq_some_iff.mp h
    intro j hj
    rcases List.mem_cons.mp hj with rfl | hj
    · exact (List.getElem?_eq_some_iff.mp hmw).1
    · exact hs j hj

/-- What one call does to a stack that is right. -/
theorem Registrations.step_iff {surface : Surface} {s t : Registrations δ} {c : Call δ}
    (hs : s.Called) (hstack : s.stack = s.live) (h : s.step surface c = some t) :
    t.stack = t.live ↔ s.Harmless c := by
  cases c with
  | use mw =>
    obtain rfl := Option.some.inj h
    simp only [Harmless, iff_true]
    rw [live_use hs, surface.use_eq, hstack]
  | unregister i =>
    obtain ⟨mw, hmw, rfl⟩ := Option.map_eq_some_iff.mp h
    have hharm : s.Harmless (.unregister i) ↔ if i ∈ s.called then mw ∉ s.live
        else ∀ d ∈ (s.before i).dropWhile (fun d => d ≠ mw), d = mw := by
      constructor
      · intro hall
        exact hall mw hmw
      · intro hone mw' hmw'
        obtain rfl := Option.some.inj (hmw.symm.trans hmw')
        exact hone
    rw [hharm, live_unregister hmw, surface.unregister_eq, hstack]
    have hlive := live_split hmw
    split
    next hc =>
      rw [if_pos hc, List.append_nil] at hlive
      rw [← hlive]
      exact erase_eq_self_iff
    next hc =>
      rw [if_neg hc, List.append_assoc, List.singleton_append] at hlive
      rw [hlive]
      exact erase_append_cons_iff

/-- Whether the stack holds the live registrations in every state of the run. -/
def RegisteredAlong (surface : Surface) (calls : List (Call δ)) : Prop :=
  Run.Along (Registrations.step surface) (fun s => s.stack = s.live) {} calls

/-- Along every run the stack is right exactly when each call of a function is harmless. -/
theorem registered_iff (surface : Surface) (calls : List (Call δ)) :
    RegisteredAlong surface calls ↔
      Run.Steps (Registrations.step surface) Registrations.Harmless {} calls := by
  have hcalled : ∀ (s : Registrations δ) c t, s.Called → s.step surface c = some t → t.Called :=
    fun s c t hs h => Registrations.called_step hs h
  have hiff : ∀ (s : Registrations δ) c t, s.Called → s.stack = s.live → s.step surface c = some t →
      (t.stack = t.live ↔ s.Harmless c) :=
    fun s c t hs hstack h => Registrations.step_iff hs hstack h
  apply Run.along_iff_steps hcalled hiff
  · intro i hi
    exact nomatch hi
  · rfl

/-- The first function called twice takes out the second registration too. -/
theorem twice_called :
    ¬ RegisteredAlong .registry [Call.use 0, Call.use 0, Call.unregister 0, Call.unregister 0] ∧
      ¬ RegisteredAlong .dbModel [Call.use 0, Call.use 0, Call.unregister 0, Call.unregister 0] := by
  have hlost : ([] : List Nat) ≠ [0] := by simp
  constructor
  · intro h
    exact hlost ((((h.2 _ rfl).2 _ rfl).2 _ rfl).2 _ rfl)
  · intro h
    exact hlost ((((h.2 _ rfl).2 _ rfl).2 _ rfl).2 _ rfl)

/-! ## The composed chain -/

inductive MethodKind
  | find
  | findOne
  | findById
  | count
  | create
  | createMany
  | update
  | updateMany
  | delete
  | query
deriving DecidableEq

/-- What a descriptor holds. -/
structure Descriptor (SqlHook MethodHook : Type) where
  sql : Option SqlHook
  methods : MethodKind → Option MethodHook

section Hooks
variable {H M : Type} (deref : δ → Descriptor H M)

def Registry.sqlHooks (stack : List δ) : List H := stack.filterMap fun mw => (deref mw).sql

def Registry.methodHooks (kind : MethodKind) (stack : List δ) : List M :=
  stack.filterMap fun mw => (deref mw).methods kind

end Hooks

/-- `MiddlewareChain.wrap`, of a statement with its parameters. -/
def wrap {α β : Type} (stack : List (α → (α → β) → β)) (next : α → β) (call : α) : β :=
  if stack.isEmpty then next call else Onion.chain stack next call

def runMethod {Model α β : Type} (hooks : List (Model → (α → β) → α → β)) (model : Model)
    (core : α → β) (args : α) : β :=
  if hooks.isEmpty then core args
  else Onion.chain (hooks.map fun hook args inner => hook model inner args) core args

section Composed
variable {S R W : Type}
open Onion

/-- `wrap` over hooks that are logged. -/
def wrapLogged (hooks : List (S → Prog S R W)) (next : S → Traced S R W) : S → Traced S R W :=
  wrap (observeFrom 0 hooks) next

/-- `runMethod` over hooks that are logged. -/
def runMethodLogged {Model : Type} (model : Model) (hooks : List (Model → S → Prog S R W))
    (core : S → Traced S R W) : S → Traced S R W :=
  runMethod (hooks.zipIdx.map fun h model inner args => observed h.2 (h.1 model) args inner)
    model core

/-- Hooks composed around a call, the first registered outermost. -/
structure Composed {H : Type} (body : H → S → Prog S R W)
    (compose : List H → (S → Traced S R W) → S → Traced S R W) : Prop where
  /-- Without hooks it is the plain execution. -/
  empty : ∀ next, compose [] next = next
  /-- Every call of `next` enters the next hook once, and nothing else enters one. -/
  proper : ∀ hooks execute s w,
    Proper hooks.length 0 s (compose hooks (plain execute) s w).1
  /-- Hooks that call `next` once are entered once each, in the order of their registration, around
  one call of the hook after them. -/
  once : ∀ outer inner, (∀ hook ∈ outer, ∀ s, (body hook s).Once) → ∀ execute s w,
    ∃ opening s' log, (compose (outer ++ inner) (plain execute) s w).1 =
        opening ++ log ++ (List.range outer.length).reverse.map .leave ∧
      entered opening = List.range outer.length ∧
      Proper (outer ++ inner).length outer.length s' log
  /-- However often a hook calls `next`, the hooks outside it do what they do around a call that
  gives the same answers. -/
  outer : ∀ outer inner execute s w,
    let whole := compose (outer ++ inner) (plain execute) s w
    let alone := compose outer (silent (compose inner (plain execute))) s w
    whole.2 = alone.2 ∧
      whole.1.filter (Event.below outer.length) = alone.1.filter (Event.below outer.length)

theorem chain_composed {H : Type} (body : H → S → Prog S R W) :
    Composed body fun hooks => chain (observeFrom 0 (hooks.map body)) := by
  constructor
  · intro next
    rfl
  · intro hooks execute s w
    apply chain_proper execute
    rw [Nat.zero_add, List.length_map]
  · intro outer inner h execute s w
    have hbody : ∀ hook ∈ outer.map body, ∀ s, (hook s).Once := by
      intro hook hmem
      obtain ⟨mw, hmw, rfl⟩ := List.mem_map.mp hmem
      exact h mw hmw
    obtain ⟨opening, s', w', hlog, hentered⟩ := chain_once hbody
      (chain (observeFrom outer.length (inner.map body)) (plain execute)) 0 s w
    rw [List.length_map, ← List.range_eq_range'] at hlog hentered
    refine ⟨opening, s', _, ?_, hentered, chain_proper execute (inner.map body) ?_ s' w'⟩
    · rw [List.map_append, observeFrom_append, Nat.zero_add, chain_append, List.length_map]
      exact hlog
    · rw [List.length_append, List.length_map]
  · intro outer inner execute s w
    have houter := chain_outer execute (outer.map body) (inner.map body) s w
    rw [← List.map_append, List.length_map] at houter
    exact houter

theorem wrapLogged_composed : Composed (S := S) (R := R) (W := W) (fun hook => hook) wrapLogged := by
  have heq : wrapLogged (S := S) (R := R) (W := W) =
      fun hooks => chain (observeFrom 0 (hooks.map fun hook => hook)) := by
    funext hooks next s
    cases hooks with
    | nil => rfl
    | cons hook hooks =>
      rw [List.map_id']
      rfl
  rw [heq]
  exact chain_composed _

theorem runMethodLogged_composed {Model : Type} (model : Model) :
    Composed (S := S) (R := R) (W := W) (fun hook => hook model) (runMethodLogged model) := by
  have heq : runMethodLogged (S := S) (R := R) (W := W) model =
      fun hooks => chain (observeFrom 0 (hooks.map fun hook => hook model)) := by
    funext hooks core args
    cases hooks with
    | nil => rfl
    | cons hook hooks =>
      rw [runMethodLogged, runMethod, if_neg (by simp), observeFrom, List.zipIdx_map,
        List.map_map, List.map_map]
      rfl
  rw [heq]
  exact chain_composed _

end Composed

/-! ## Scopes -/

/-- The registries of the process (the first one) and of the scopes opened so far, with the scope
that each was copied from. -/
structure Scopes (δ : Type) where
  registries : List (List δ) := [[]]
  copiedFrom : List (Option Nat) := [none]

inductive Act (δ : Type)
  /-- `withMiddlewareScope`, called in scope `i`. -/
  | scope (i : Nat) (inherit : Bool)
  | use (i : Nat) (mw : δ)
  /-- The function that a registration in scope `i` returned, wherever it is called. -/
  | unregister (i : Nat) (mw : δ)
  | remove (i : Nat) (mw : δ)
  | clear (i : Nat)

def Scopes.registry (s : Scopes δ) (i : Nat) : List δ := (s.registries[i]?).getD []

/-- What an act does to the registry of scope `b`. -/
def Act.on (b : Nat) (stack : List δ) : Act δ → List δ
  | .scope _ _ => stack
  | .use i mw => if i = b then Registry.use stack mw else stack
  | .unregister i mw => if i = b then Registry.unregister stack mw else stack
  | .remove i mw => if i = b then removeFirst stack mw else stack
  | .clear i => if i = b then [] else stack

def Scopes.step (s : Scopes δ) : Act δ → Scopes δ
  | .scope i inherit =>
      if i < s.registries.length then
        { registries := s.registries ++ [if inherit then s.registry i else []]
          copiedFrom := s.copiedFrom ++ [if inherit then some i else none] }
      else s
  | act => { s with registries := s.registries.mapIdx fun b stack => act.on b stack }

def Scopes.run (acts : List (Act δ)) : Scopes δ := acts.foldl Scopes.step {}

/-- Scope `b` is `a`, or its registry goes back to a copy of that of `a`. -/
inductive Inherits (copiedFrom : List (Option Nat)) (a : Nat) : Nat → Prop
  | refl : Inherits copiedFrom a a
  | copy {p b : Nat} (hb : copiedFrom[b]? = some (some p)) (hp : Inherits copiedFrom a p) :
      Inherits copiedFrom a b

theorem Inherits.append {copiedFrom : List (Option Nat)} {a b : Nat}
    (h : Inherits copiedFrom a b) (more : List (Option Nat)) :
    Inherits (copiedFrom ++ more) a b := by
  induction h with
  | refl => exact .refl
  | @copy p b hb _ ih =>
    refine .copy ?_ ih
    rw [List.getElem?_append_left (List.getElem?_eq_some_iff.mp hb).1]
    exact hb

theorem Scopes.step_length (s : Scopes δ) (act : Act δ) :
    s.registries.length ≤ (s.step act).registries.length := by
  cases act with
  | scope i inherit =>
    rw [step]
    split
    · rw [List.length_append]
      omega
    · exact Nat.le_refl _
  | _ => simp [step]

/-- An act changes a registry only where it is one of that scope's own. -/
theorem Scopes.step_registry {s : Scopes δ} {b : Nat} (hb : b < s.registries.length)
    (act : Act δ) : (s.step act).registry b = act.on b (s.registry b) := by
  cases act with
  | scope i inherit =>
    rw [step]
    split
    · rw [registry, registry, List.getElem?_append_left hb]
      rfl
    · rfl
  | _ =>
    simp only [step, registry, List.getElem?_mapIdx, List.getElem?_eq_getElem hb, Option.map_some,
      Option.getD_some]

theorem Scopes.run_registry {s : Scopes δ} {b : Nat} (hb : b < s.registries.length)
    (acts : List (Act δ)) :
    (acts.foldl step s).registry b = acts.foldl (fun stack act => act.on b stack) (s.registry b) := by
  induction acts generalizing s with
  | nil => rfl
  | cons act acts ih =>
    rw [List.foldl_cons, List.foldl_cons, ih (Nat.lt_of_lt_of_le hb (s.step_length act)),
      step_registry hb]

theorem Act.mem_on {b : Nat} {stack : List δ} {act : Act δ} {mw : δ} (h : mw ∈ act.on b stack) :
    mw ∈ stack ∨ act = .use b mw := by
  cases act with
  | scope i inherit => exact .inl h
  | clear i =>
    simp only [on] at h
    split at h
    · exact nomatch h
    · exact .inl h
  | use i d =>
    simp only [on] at h
    split at h
    next hi =>
      rcases List.mem_append.mp h with h | h
      · exact .inl h
      · obtain rfl := List.mem_singleton.mp h
        exact .inr (by rw [hi])
    next => exact .inl h
  | unregister i d | remove i d =>
    simp only [on, Registry.unregister, removeFirst_eq] at h
    split at h
    · exact .inl (List.mem_of_mem_erase h)
    · exact .inl h

theorem Scopes.step_copiedFrom (s : Scopes δ) (act : Act δ) :
    ∃ more, (s.step act).copiedFrom = s.copiedFrom ++ more := by
  cases act with
  | scope i inherit =>
    rw [step]
    split
    · exact ⟨_, rfl⟩
    · exact ⟨[], (List.append_nil _).symm⟩
  | _ => exact ⟨[], (List.append_nil _).symm⟩

theorem Scopes.run_concat (acts : List (Act δ)) (act : Act δ) :
    run (acts ++ [act]) = (run acts).step act := by
  rw [run, List.foldl_append]
  rfl

theorem Scopes.run_lengths (acts : List (Act δ)) :
    (run acts).registries.length = (run acts).copiedFrom.length := by
  induction acts using List.reverseRecOn with
  | nil => rfl
  | append_singleton acts act ih =>
    rw [run_concat]
    cases act with
    | scope i inherit =>
      rw [step]
      split
      · rw [List.length_append, List.length_append, ih]
        rfl
      · exact ih
    | _ => simpa [step] using ih

/-- What is registered in a scope was registered in it, or in one that it goes back to. -/
theorem Scopes.registered_by {acts : List (Act δ)} {b : Nat} {mw : δ}
    (h : mw ∈ (run acts).registry b) :
    ∃ c, Act.use c mw ∈ acts ∧ Inherits (run acts).copiedFrom c b := by
  induction acts using List.reverseRecOn generalizing b with
  | nil => cases b <;> exact nomatch h
  | append_singleton acts act ih =>
    obtain ⟨more, hmore⟩ := (run acts).step_copiedFrom act
    have hold : ∀ b, mw ∈ (run acts).registry b →
        ∃ c, Act.use c mw ∈ acts ++ [act] ∧ Inherits (run (acts ++ [act])).copiedFrom c b := by
      intro b hb
      obtain ⟨c, hc, hfrom⟩ := ih hb
      rw [run_concat, hmore]
      exact ⟨c, List.mem_append_left _ hc, hfrom.append more⟩
    rw [run_concat] at h
    by_cases hb : b < (run acts).registries.length
    · rw [step_registry hb] at h
      rcases Act.mem_on h with h | rfl
      · exact hold b h
      · exact ⟨b, by simp, .refl⟩
    · cases act with
      | scope i inherit =>
        rw [step] at h
        split at h
        next hi =>
          rw [registry, List.getElem?_append_right (by omega)] at h
          have hlast : b = (run acts).registries.length := by
            by_contra hne
            rw [List.getElem?_eq_none (by simp; omega)] at h
            exact nomatch h
          cases inherit with
          | false =>
            rw [hlast, Nat.sub_self] at h
            exact nomatch h
          | true =>
            rw [hlast, Nat.sub_self] at h
            obtain ⟨c, hc, hfrom⟩ := hold i h
            refine ⟨c, hc, .copy ?_ hfrom⟩
            rw [run_concat, step, if_pos hi, hlast, run_lengths]
            simp
        next => exact hold b h
      | _ =>
        have hnone : (run acts).registries.length ≤ b := by omega
        simp only [step, registry, List.getElem?_mapIdx, List.getElem?_eq_none hnone,
          Option.map_none, Option.getD_none] at h
        exact nomatch h

/-- What is registered in one scope stays out of the others. -/
structure Isolated (δ : Type) [DecidableEq δ] : Prop where
  /-- Whatever the other scopes do, a registry is what its scope's own acts make of it. -/
  own : ∀ (acts later : List (Act δ)) b, b < (Scopes.run acts).registries.length →
    (Scopes.run (acts ++ later)).registry b =
      later.foldl (fun stack act => act.on b stack) ((Scopes.run acts).registry b)
  /-- What is registered in scope `a` only is not found in a scope that does not go back to `a`. -/
  invisible : ∀ (acts : List (Act δ)) a b mw, (∀ c, Act.use c mw ∈ acts → c = a) →
    ¬ Inherits (Scopes.run acts).copiedFrom a b → mw ∉ (Scopes.run acts).registry b

theorem scopes_isolated : Isolated δ := by
  constructor
  · intro acts later b hb
    rw [Scopes.run, List.foldl_append]
    exact Scopes.run_registry hb later
  · intro acts a b mw honly hfrom hmem
    obtain ⟨c, hc, hinherits⟩ := Scopes.registered_by hmem
    obtain rfl := honly c hc
    exact hfrom hinherits

/-- Hooks compose in the order of their registration around statements and operations, and each
scope composes its own. -/
theorem middleware_chain {S A R W Model : Type}
    (deref : δ → Descriptor (S → Onion.Prog S R W) (Model → A → Onion.Prog A R W)) :
    (∀ stack mw, Registry.sqlHooks deref (Registry.use stack mw) =
        Registry.sqlHooks deref stack ++ (deref mw).sql.toList) ∧
      (∀ kind stack mw, Registry.methodHooks deref kind (Registry.use stack mw) =
        Registry.methodHooks deref kind stack ++ ((deref mw).methods kind).toList) ∧
      Composed (S := S) (R := R) (W := W) (fun hook => hook) wrapLogged ∧
      (∀ model : Model,
        Composed (S := A) (R := R) (W := W) (fun hook => hook model) (runMethodLogged model)) ∧
      Isolated δ := by
  refine ⟨?_, ?_, wrapLogged_composed, runMethodLogged_composed, scopes_isolated⟩
  · intro stack mw
    rw [Registry.sqlHooks, Registry.use, List.filterMap_append]
    cases h : (deref mw).sql <;> simp [Registry.sqlHooks, h]
  · intro kind stack mw
    rw [Registry.methodHooks, Registry.use, List.filterMap_append]
    cases h : (deref mw).methods kind <;> simp [Registry.methodHooks, h]

end LiteDb.Middleware
