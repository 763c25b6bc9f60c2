import Mathlib

/-!
# Computations with exits

A computation over a state ends with a value, an error or a panic, and leaves a
state on every exit. `ensuring` runs a cleanup on all of them; `wp` is what a
computation establishes of its exit and the state it leaves.
-/

namespace Exit
set_option autoImplicit false

inductive Outcome (ε α : Type)
  | value (a : α)
  | error (e : ε)
  | panic

def Comp (σ ε α : Type) := σ → Outcome ε α × σ

namespace Comp
variable {σ ε α β : Type}

/-- Go on with the value; an error or a panic leaves the rest out. -/
def andThen (x : Comp σ ε α) (f : α → Comp σ ε β) : Comp σ ε β := fun s =>
  match x s with
  | (.value a, s') => f a s'
  | (.error e, s') => (.error e, s')
  | (.panic, s') => (.panic, s')

instance : Monad (Comp σ ε) where
  pure a := fun s => (.value a, s)
  bind := andThen

def fail (e : ε) : Comp σ ε α := fun s => (.error e, s)

def panicking : Comp σ ε α := fun s => (.panic, s)

def update (f : σ → σ) : Comp σ ε Unit := fun s => (.value (), f s)

/-- The exit as a value. -/
def attempt (x : Comp σ ε α) : Comp σ ε (Outcome ε α) := fun s => (.value (x s).1, (x s).2)

/-- The cleanup runs however the computation ends. -/
def ensuring (x : Comp σ ε α) (cleanup : σ → σ) : Comp σ ε α := fun s => ((x s).1, cleanup (x s).2)

/-- The computation, begun in a state, ends so that the postcondition holds. -/
def wp (x : Comp σ ε α) (post : Outcome ε α → σ → Prop) (s : σ) : Prop := post (x s).1 (x s).2

variable {x : Comp σ ε α} {f : α → Comp σ ε β} {s : σ}

@[simp] theorem wp_pure {a : α} {post : Outcome ε α → σ → Prop} :
    wp (pure a : Comp σ ε α) post s ↔ post (.value a) s := Iff.rfl

@[simp] theorem wp_fail {e : ε} {post : Outcome ε α → σ → Prop} :
    wp (fail e : Comp σ ε α) post s ↔ post (.error e) s := Iff.rfl

@[simp] theorem wp_panicking {post : Outcome ε α → σ → Prop} :
    wp (panicking : Comp σ ε α) post s ↔ post .panic s := Iff.rfl

@[simp] theorem wp_update {g : σ → σ} {post : Outcome ε Unit → σ → Prop} :
    wp (update g : Comp σ ε Unit) post s ↔ post (.value ()) (g s) := Iff.rfl

@[simp] theorem wp_attempt {post : Outcome ε (Outcome ε α) → σ → Prop} :
    wp (attempt x) post s ↔ wp x (fun r => post (.value r)) s := Iff.rfl

@[simp] theorem wp_ensuring {cleanup : σ → σ} {post : Outcome ε α → σ → Prop} :
    wp (ensuring x cleanup) post s ↔ wp x (fun r s' => post r (cleanup s')) s := Iff.rfl

/-- The postcondition of the first part of a sequence. -/
def before (f : α → Comp σ ε β) (post : Outcome ε β → σ → Prop) : Outcome ε α → σ → Prop
  | .value a, s => wp (f a) post s
  | .error e, s => post (.error e) s
  | .panic, s => post .panic s

theorem wp_bind {post : Outcome ε β → σ → Prop} :
    wp (x >>= f) post s ↔ wp x (before f post) s := by
  change post (andThen x f s).1 (andThen x f s).2 ↔ before f post (x s).1 (x s).2
  rw [andThen]
  rcases x s with ⟨_ | _ | _, s'⟩ <;> exact Iff.rfl

/-- What follows an attempt goes on from its exit. -/
theorem wp_attempt_bind {g : Outcome ε α → Comp σ ε β} {post : Outcome ε β → σ → Prop} :
    wp (attempt x >>= g) post s ↔ wp x (fun r => wp (g r) post) s := by
  rw [wp_bind, wp_attempt]
  exact Iff.rfl

theorem wp_mono {post post' : Outcome ε α → σ → Prop} (hpost : ∀ r s', post r s' → post' r s')
    (h : wp x post s) : wp x post' s :=
  hpost _ _ h

end Comp

/-! ## Results without a state -/

section Except
variable {ε α β : Type}

theorem bind_ok_iff {x : Except ε α} {f : α → Except ε β} {b : β} :
    (x >>= f) = .ok b ↔ ∃ a, x = .ok a ∧ f a = .ok b := by
  cases x with
  | error e => simp [bind, Except.bind]
  | ok a => simp [bind, Except.bind]

theorem mapM_ok_iff {f : α → Except ε β} {as : List α} {bs : List β} :
    as.mapM f = .ok bs ↔ List.Forall₂ (fun a b => f a = .ok b) as bs := by
  induction as generalizing bs with
  | nil =>
    rw [List.mapM_nil, List.forall₂_nil_left_iff]
    constructor
    · intro h
      exact (Except.ok.inj h).symm
    · rintro rfl
      rfl
  | cons a as ih =>
    rw [List.mapM_cons, bind_ok_iff, List.forall₂_cons_left_iff]
    apply exists_congr
    intro b
    constructor
    · rintro ⟨hb, hrest⟩
      obtain ⟨bs', hbs, hout⟩ := bind_ok_iff.mp hrest
      exact ⟨bs', hb, ih.mp hbs, (Except.ok.inj hout).symm⟩
    · rintro ⟨bs', hb, hbs, rfl⟩
      exact ⟨hb, bind_ok_iff.mpr ⟨bs', ih.mpr hbs, rfl⟩⟩

/-- A function whose results are known by a condition and a value, mapped over a list. -/
theorem mapM_ok_of {f : α → Except ε β} {defined : α → Prop} {value : α → β}
    (h : ∀ a b, f a = .ok b ↔ defined a ∧ b = value a) {as : List α} {bs : List β} :
    as.mapM f = .ok bs ↔ (∀ a ∈ as, defined a) ∧ bs = as.map value := by
  rw [mapM_ok_iff]
  simp only [h]
  constructor
  · intro hall
    induction hall with
    | nil => exact ⟨fun a ha => absurd ha List.not_mem_nil, rfl⟩
    | cons hab _ ih =>
      obtain ⟨hrest, rfl⟩ := ih
      obtain ⟨ha, rfl⟩ := hab
      exact ⟨List.forall_mem_cons.mpr ⟨ha, hrest⟩, rfl⟩
  · intro hall
    obtain ⟨hdefined, rfl⟩ := hall
    rw [List.forall₂_map_right_iff, List.forall₂_same]
    exact fun a ha => ⟨hdefined a ha, rfl⟩

end Except

end Exit
