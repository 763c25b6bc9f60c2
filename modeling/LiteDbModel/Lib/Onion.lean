import Mathlib

/-!
# Hooks around a call

A hook is given a call and the function that goes on with it. Hooks compose into one
function with the first of them outermost. A hook's body is a program that may go on any
number of times; what is logged of a composition shows which hook was entered when.
-/

namespace Onion
set_option autoImplicit false

/-! ## Composition -/

section Chain
variable {α β : Type}

/-- The first hook is the outermost. -/
def chain (hooks : List (α → (α → β) → β)) (next : α → β) : α → β :=
  hooks.foldr (fun hook inner a => hook a inner) next

theorem chain_append (xs ys : List (α → (α → β) → β)) (next : α → β) :
    chain (xs ++ ys) next = chain xs (chain ys next) := by
  rw [chain, List.foldr_append]
  rfl

end Chain

variable {S R W : Type}

/-! ## Bodies of hooks -/

/-- The body of a hook; a result may be an error that was thrown. -/
inductive Prog (S R W : Type)
  | done (r : R)
  /-- Reads the world and changes it. -/
  | touch (f : W → W) (k : W → Prog S R W)
  /-- Calls `next` and goes on with what it returned. -/
  | next (s : S) (k : R → Prog S R W)

/-- The body does not call `next`. -/
def Prog.Quiet : Prog S R W → Prop
  | .done _ => True
  | .touch _ k => ∀ w, (k w).Quiet
  | .next _ _ => False

/-- The body calls `next` once, whatever it reads and is answered. -/
def Prog.Once : Prog S R W → Prop
  | .done _ => False
  | .touch _ k => ∀ w, (k w).Once
  | .next _ k => ∀ r, (k r).Quiet

inductive Event (S : Type)
  | enter (level : Nat) (s : S)
  /-- The hook of a level calls its `next`. -/
  | forward (level : Nat) (s : S)
  | leave (level : Nat)
  /-- The call that the hooks stand around. -/
  | execute (s : S)
deriving DecidableEq

/-- The log, the result and the world after. -/
abbrev Traced (S R W : Type) := W → List (Event S) × R × W

def Prog.run (level : Nat) (next : S → Traced S R W) : Prog S R W → Traced S R W
  | .done r => fun w => ([], r, w)
  | .touch f k => fun w => (k w).run level next (f w)
  | .next s k => fun w =>
      let inner := next s w
      let rest := (k inner.2.1).run level next inner.2.2
      (.forward level s :: inner.1 ++ rest.1, rest.2)

/-- A hook that logs that it is entered and left. -/
def observed (level : Nat) (hook : S → Prog S R W) (s : S) (next : S → Traced S R W) :
    Traced S R W := fun w =>
  let body := (hook s).run level next w
  (.enter level s :: body.1 ++ [.leave level], body.2)

/-- Hooks with their levels, the first at level `i`. -/
def observeFrom (i : Nat) (hooks : List (S → Prog S R W)) :
    List (S → (S → Traced S R W) → Traced S R W) :=
  (hooks.zipIdx i).map fun h => observed h.2 h.1

/-- The call itself, with its log. -/
def plain (execute : S → W → R × W) (s : S) : Traced S R W := fun w =>
  ([.execute s], execute s w)

theorem observeFrom_cons (i : Nat) (hook : S → Prog S R W) (hooks : List (S → Prog S R W)) :
    observeFrom i (hook :: hooks) = observed i hook :: observeFrom (i + 1) hooks := by
  rw [observeFrom, List.zipIdx_cons, List.map_cons]
  rfl

theorem observeFrom_append (i : Nat) (xs ys : List (S → Prog S R W)) :
    observeFrom i (xs ++ ys) = observeFrom i xs ++ observeFrom (i + xs.length) ys := by
  rw [observeFrom, List.zipIdx_append, List.map_append]
  rfl

theorem chain_cons (i : Nat) (hook : S → Prog S R W) (hooks : List (S → Prog S R W))
    (next : S → Traced S R W) : chain (observeFrom i (hook :: hooks)) next =
      fun s => observed i hook s (chain (observeFrom (i + 1) hooks) next) := by
  rw [observeFrom_cons]
  rfl

/-! ## Every call of `next` enters the next hook once -/

/-- The log of one call of level `i`, where `n` hooks stand around the execution: each call of
`next` is followed by the whole log of one call of the next level, with the statement it was given,
and no hook is entered otherwise. -/
inductive Proper (n : Nat) : Nat → S → List (Event S) → Prop
  | execute (s : S) : Proper n n s [.execute s]
  | hook {i : Nat} (s : S) (calls : List (S × List (Event S))) (hi : i < n)
      (hcalls : ∀ c ∈ calls, Proper n (i + 1) c.1 c.2) :
      Proper n i s
        (.enter i s :: calls.flatMap (fun c => .forward i c.1 :: c.2) ++ [.leave i])

theorem Prog.run_calls (level : Nat) {next : S → Traced S R W} {P : S → List (Event S) → Prop}
    (hnext : ∀ s w, P s (next s w).1) (p : Prog S R W) (w : W) :
    ∃ calls : List (S × List (Event S)), (∀ c ∈ calls, P c.1 c.2) ∧
      (p.run level next w).1 = calls.flatMap fun c => .forward level c.1 :: c.2 := by
  induction p generalizing w with
  | done r => exact ⟨[], by simp, rfl⟩
  | touch f k ih => exact ih w (f w)
  | next s k ih =>
    obtain ⟨calls, hP, hlog⟩ := ih (next s w).2.1 (next s w).2.2
    refine ⟨(s, (next s w).1) :: calls, ?_, ?_⟩
    · intro c hc
      rcases List.mem_cons.mp hc with rfl | hc
      · exact hnext s w
      · exact hP c hc
    · rw [List.flatMap_cons, ← hlog]
      rfl

theorem chain_proper (execute : S → W → R × W) {n i : Nat} (hooks : List (S → Prog S R W))
    (hn : i + hooks.length = n) (s : S) (w : W) :
    Proper n i s (chain (observeFrom i hooks) (plain execute) s w).1 := by
  induction hooks generalizing i s w with
  | nil =>
    obtain rfl : i = n := hn
    exact .execute s
  | cons hook hooks ih =>
    rw [List.length_cons] at hn
    rw [chain_cons]
    obtain ⟨calls, hcalls, hlog⟩ := Prog.run_calls i
      (fun s w => ih (by omega : i + 1 + hooks.length = n) s w) (hook s) w
    simp only [observed]
    rw [hlog]
    exact .hook s calls (by omega) hcalls

/-! ## Hooks that call `next` once -/

/-- The levels entered, in order. -/
def entered (log : List (Event S)) : List Nat :=
  log.filterMap fun
    | .enter level _ => some level
    | _ => none

theorem Prog.run_quiet (level : Nat) (next : S → Traced S R W) {p : Prog S R W} (h : p.Quiet)
    (w : W) : (p.run level next w).1 = [] := by
  induction p generalizing w with
  | done r => rfl
  | touch f k ih => exact ih w (h w) (f w)
  | next s k ih => exact h.elim

theorem Prog.run_once (level : Nat) (next : S → Traced S R W) {p : Prog S R W} (h : p.Once)
    (w : W) : ∃ s' w', (p.run level next w).1 = .forward level s' :: (next s' w').1 := by
  induction p generalizing w with
  | done r => exact h.elim
  | touch f k ih => exact ih w (h w) (f w)
  | next s k ih =>
    refine ⟨s, w, ?_⟩
    have hrest := Prog.run_quiet level next (h (next s w).2.1) (next s w).2.2
    simp only [Prog.run]
    rw [hrest, List.append_nil]

/-- Hooks that call `next` once are entered once each, in their order, around one call of what
they stand around, and left in the opposite order. -/
theorem chain_once {hooks : List (S → Prog S R W)} (h : ∀ hook ∈ hooks, ∀ s, (hook s).Once)
    (next : S → Traced S R W) (i : Nat) (s : S) (w : W) :
    ∃ opening s' w', (chain (observeFrom i hooks) next s w).1 =
        opening ++ (next s' w').1 ++ (List.range' i hooks.length).reverse.map .leave ∧
      entered opening = List.range' i hooks.length := by
  induction hooks generalizing i s w with
  | nil => exact ⟨[], s, w, by simp [chain, observeFrom], rfl⟩
  | cons hook hooks ih =>
    have hrest : ∀ hook ∈ hooks, ∀ s, (hook s).Once := fun h' hh => h h' (List.mem_cons_of_mem _ hh)
    obtain ⟨s₁, w₁, hbody⟩ := Prog.run_once i
      (chain (observeFrom (i + 1) hooks) next) (h hook List.mem_cons_self s) w
    obtain ⟨opening, s', w', hlog, hentered⟩ := ih hrest (i + 1) s₁ w₁
    refine ⟨.enter i s :: .forward i s₁ :: opening, s', w', ?_, ?_⟩
    · rw [chain_cons]
      simp only [observed]
      rw [hbody, hlog, List.length_cons, List.range'_succ, List.reverse_cons, List.map_append]
      simp
    · rw [List.length_cons, List.range'_succ, ← hentered]
      rfl

/-! ## What a hook does to the hooks outside it -/

/-- The event is one of a level below `k`. -/
def Event.below (k : Nat) : Event S → Bool
  | .enter level _ | .forward level _ | .leave level => level < k
  | .execute _ => false

/-- The same answers, with nothing logged. -/
def silent (next : S → Traced S R W) (s : S) : Traced S R W := fun w => ([], (next s w).2)

/-- Two continuations with the same answers and the same part of the log. -/
def Alike (p : Event S → Bool) (f g : S → Traced S R W) : Prop :=
  ∀ s w, (f s w).2 = (g s w).2 ∧ (f s w).1.filter p = (g s w).1.filter p

theorem Prog.run_alike {p : Event S → Bool} {f g : S → Traced S R W} (h : Alike p f g)
    (level : Nat) (body : Prog S R W) (w : W) :
    (body.run level f w).2 = (body.run level g w).2 ∧
      (body.run level f w).1.filter p = (body.run level g w).1.filter p := by
  induction body generalizing w with
  | done r => exact ⟨rfl, rfl⟩
  | touch t k ih => exact ih w (t w)
  | next s k ih =>
    obtain ⟨hres, hlog⟩ := h s w
    obtain ⟨hres', hlog'⟩ := ih (g s w).2.1 (g s w).2.2
    simp only [Prog.run]
    rw [hres]
    refine ⟨hres', ?_⟩
    simp only [List.cons_append, List.filter_cons, List.filter_append, hlog, hlog']

theorem chain_alike {p : Event S → Bool} {f g : S → Traced S R W} (h : Alike p f g) (i : Nat)
    (hooks : List (S → Prog S R W)) :
    Alike p (chain (observeFrom i hooks) f) (chain (observeFrom i hooks) g) := by
  induction hooks generalizing i with
  | nil => exact h
  | cons hook hooks ih =>
    intro s w
    obtain ⟨hres, hlog⟩ := Prog.run_alike (ih (i + 1)) i (hook s) w
    rw [chain_cons, chain_cons]
    simp only [observed]
    refine ⟨hres, ?_⟩
    simp only [List.cons_append, List.filter_cons, List.filter_append, hlog]

theorem Prog.run_answer {f g : S → Traced S R W} (h : ∀ s w, (f s w).2 = (g s w).2) (i j : Nat)
    (body : Prog S R W) (w : W) : (body.run i f w).2 = (body.run j g w).2 := by
  induction body generalizing w with
  | done r => rfl
  | touch t k ih => exact ih w (t w)
  | next s k ih =>
    simp only [Prog.run]
    rw [h s w]
    exact ih (g s w).2.1 (g s w).2.2

/-- The answers do not depend on how the levels are counted. -/
theorem chain_answer (next : S → Traced S R W) (i j : Nat) (hooks : List (S → Prog S R W)) (s : S)
    (w : W) :
    (chain (observeFrom i hooks) next s w).2 = (chain (observeFrom j hooks) next s w).2 := by
  induction hooks generalizing i j s w with
  | nil => rfl
  | cons hook hooks ih =>
    rw [chain_cons, chain_cons]
    exact Prog.run_answer (fun s w => ih (i + 1) (j + 1) s w) i j (hook s) w

theorem Proper.above {n i : Nat} {s : S} {log : List (Event S)} (h : Proper n i s log) {k : Nat}
    (hk : k ≤ i) : log.filter (Event.below k) = [] := by
  induction h with
  | execute s => rfl
  | @hook i s calls hi hcalls ih =>
    rw [List.filter_eq_nil_iff]
    intro e he
    simp only [List.cons_append, List.mem_cons, List.mem_append, List.mem_flatMap,
      List.not_mem_nil, or_false] at he
    rcases he with rfl | ⟨c, hc, he⟩ | rfl
    · simp only [Event.below, decide_eq_true_eq]
      omega
    · rcases he with rfl | he
      · simp only [Event.below, decide_eq_true_eq]
        omega
      · exact List.filter_eq_nil_iff.mp (ih c hc (by omega)) e he
    · simp only [Event.below, decide_eq_true_eq]
      omega

/-- What the outer hooks do depends on the inner ones through the answers to their calls only. -/
theorem chain_outer (execute : S → W → R × W) (outer inner : List (S → Prog S R W)) (s : S)
    (w : W) :
    let whole := chain (observeFrom 0 (outer ++ inner)) (plain execute) s w
    let alone := chain (observeFrom 0 outer)
      (silent (chain (observeFrom 0 inner) (plain execute))) s w
    whole.2 = alone.2 ∧
      whole.1.filter (Event.below outer.length) = alone.1.filter (Event.below outer.length) := by
  have hsplit : chain (observeFrom 0 (outer ++ inner)) (plain execute) =
      chain (observeFrom 0 outer) (chain (observeFrom outer.length inner) (plain execute)) := by
    rw [observeFrom_append, Nat.zero_add, chain_append]
  rw [hsplit]
  apply chain_alike
  intro s' w'
  refine ⟨chain_answer (plain execute) outer.length 0 inner s' w', ?_⟩
  rw [(chain_proper execute inner rfl s' w').above (Nat.le_refl _)]
  rfl

end Onion
