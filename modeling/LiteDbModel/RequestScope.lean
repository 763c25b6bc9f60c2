import Mathlib

/-!
# The middleware instances of a request

A scope holds the instances that its request has made so far. `X.run` opens a scope of the same
request: it starts with a copy of the instances of the scope around it, without the one of `X`.
Scopes are numbered in the order in which they are opened, and a request may go on in several of
them at a time; a number that no scope has stands for a place outside every scope.
-/

namespace LiteDb.RequestScope
set_option autoImplicit false

variable {Cls : Type} [DecidableEq Cls]

structure State (Cls : Type) where
  /-- `middlewares` of each scope. -/
  scopes : List (Cls → Option Nat)
  /-- The instances made so far. -/
  created : Nat

def init : State Cls := ⟨[], 0⟩

/-- The instance of the class, and the number of the new one where there is none. -/
def getCurrentContext (s : State Cls) (scope : Nat) (cls : Cls) : State Cls × Nat :=
  match s.scopes[scope]? with
  | none => (⟨s.scopes, s.created + 1⟩, s.created)
  | some middlewares =>
    match middlewares cls with
    | some inst => (s, inst)
    | none => (⟨s.scopes.set scope (Function.update middlewares cls (some s.created)),
        s.created + 1⟩, s.created)

/-- The instances that a new scope starts with. -/
def openedWith (s : State Cls) (scope : Nat) : Option Cls → Cls → Option Nat
  | none => fun _ => none
  | some cls =>
    match s.scopes[scope]? with
    | none => fun _ => none
    | some enclosing => Function.update enclosing cls none

/-- `X.run`, and `Middleware.run` where no class is given. -/
def run (s : State Cls) (scope : Nat) (cls : Option Cls) : State Cls :=
  ⟨s.scopes ++ [openedWith s scope cls], s.created⟩

inductive Call (Cls : Type)
  | getCurrentContext (cls : Cls)
  | run (cls : Option Cls)

/-- A call, and the scope in which it is made. -/
structure Event (Cls : Type) where
  scope : Nat
  call : Call Cls

def after (s : State Cls) (e : Event Cls) : State Cls :=
  match e.call with
  | .getCurrentContext cls => (getCurrentContext s e.scope cls).1
  | .run cls => run s e.scope cls

def reached (es : List (Event Cls)) : State Cls := es.foldl after init

/-! ## What is shared -/

/-- The scope from which on a class has its own instance: the last one of its own `run`, or else the
request's. -/
def openedHome (homes : List (Cls → Nat)) (scope : Nat) : Option Cls → Cls → Nat
  | none => fun _ => homes.length
  | some cls =>
    match homes[scope]? with
    | none => fun _ => homes.length
    | some enclosing => Function.update enclosing cls homes.length

def homeStep (homes : List (Cls → Nat)) (e : Event Cls) : List (Cls → Nat) :=
  match e.call with
  | .getCurrentContext _ => homes
  | .run cls => homes ++ [openedHome homes e.scope cls]

def homes (es : List (Event Cls)) : List (Cls → Nat) := es.foldl homeStep []

/-- The home of the class at a scope. -/
def homeAt (es : List (Event Cls)) (scope : Nat) (cls : Cls) : Option Nat :=
  (homes es)[scope]?.map (· cls)

/-- An instance as it was handed out. -/
structure Access (Cls : Type) where
  scope : Nat
  cls : Cls
  inst : Nat

/-- The instance was handed out within a scope. -/
def Accessed (es : List (Event Cls)) (a : Access Cls) : Prop :=
  ∃ before rest, es = before ++ ⟨a.scope, .getCurrentContext a.cls⟩ :: rest ∧
    a.scope < (reached before).scopes.length ∧
    (getCurrentContext (reached before) a.scope a.cls).2 = a.inst

/-- A class has one instance for each of its homes, wherever in them it is asked for. -/
def OneInstance (es : List (Event Cls)) : Prop :=
  ∀ a b, Accessed es a → Accessed es b → a.cls = b.cls →
    (a.inst = b.inst ↔ homeAt es a.scope a.cls = homeAt es b.scope a.cls)

/-- The scopes that are opened from those of the list, other than by a `run` of the class. -/
def spreadStep (cls : Cls) (p : Nat × List Nat) (e : Event Cls) : Nat × List Nat :=
  match e.call with
  | .getCurrentContext _ => p
  | .run none => (p.1 + 1, p.2)
  | .run (some c) => (p.1 + 1, if c ≠ cls ∧ e.scope ∈ p.2 then p.1 :: p.2 else p.2)

/-- The scope and those that the calls open from it, the next of them having the number `n`. -/
def spread (cls : Cls) (n scope : Nat) (es : List (Event Cls)) : List Nat :=
  (es.foldl (spreadStep cls) (n, [scope])).2

/-- Once a class was asked for in a home, it is asked for there only in the scope where that was and
in scopes that were opened from it later. -/
def AskedOutermost (es : List (Event Cls)) : Prop :=
  ∀ before s cls mid t rest,
    es = before ++ ⟨s, .getCurrentContext cls⟩ :: (mid ++ ⟨t, .getCurrentContext cls⟩ :: rest) →
    s < (homes before).length →
    (∀ earlier r more, before = earlier ++ ⟨r, .getCurrentContext cls⟩ :: more →
      homeAt earlier r cls ≠ homeAt before s cls) →
    homeAt (before ++ ⟨s, .getCurrentContext cls⟩ :: mid) t cls = homeAt before s cls →
    t ∈ spread cls (homes before).length s mid

/-! ## One call -/

/-- The instance that a scope holds. -/
def State.held (s : State Cls) (scope : Nat) (cls : Cls) : Option Nat := s.scopes[scope]?.bind (· cls)

omit [DecidableEq Cls] in
theorem held_of_le {s : State Cls} {t : Nat} (h : s.scopes.length ≤ t) (cls : Cls) :
    s.held t cls = none := by
  rw [State.held, List.getElem?_eq_none h]
  rfl

omit [DecidableEq Cls] in
theorem lt_of_held {s : State Cls} {t i : Nat} {cls : Cls} (h : s.held t cls = some i) :
    t < s.scopes.length := by
  by_contra hle
  rw [held_of_le (Nat.le_of_not_lt hle)] at h
  exact nomatch h

/-- What asking for an instance can do. -/
inductive Gets (s : State Cls) (scope : Nat) (cls : Cls) : State Cls → Nat → Prop
  | outside (h : s.scopes.length ≤ scope) :
      Gets s scope cls ⟨s.scopes, s.created + 1⟩ s.created
  | same {i : Nat} (h : s.held scope cls = some i) : Gets s scope cls s i
  | made {t : State Cls} (hlt : scope < s.scopes.length) (h : s.held scope cls = none)
      (hlen : t.scopes.length = s.scopes.length) (hcreated : t.created = s.created + 1)
      (hself : t.held scope cls = some s.created)
      (hother : ∀ u c, u ≠ scope ∨ c ≠ cls → t.held u c = s.held u c) :
      Gets s scope cls t s.created

theorem getCurrentContext_gets (s : State Cls) (scope : Nat) (cls : Cls) :
    Gets s scope cls (getCurrentContext s scope cls).1 (getCurrentContext s scope cls).2 := by
  rw [getCurrentContext]
  split
  next h => exact .outside (List.getElem?_eq_none_iff.mp h)
  next middlewares h =>
    obtain ⟨hlt, -⟩ := List.getElem?_eq_some_iff.mp h
    have hheld : s.held scope cls = middlewares cls := by
      rw [State.held, h]
      rfl
    split
    next i hi => exact .same (hheld.trans hi)
    next hnone =>
      refine .made hlt (hheld.trans hnone) List.length_set rfl ?_ ?_
      · rw [State.held, List.getElem?_set_self hlt]
        exact Function.update_self cls (some s.created) middlewares
      · intro u c hne
        by_cases hu : u = scope
        · subst hu
          have hc : c ≠ cls := hne.resolve_left (fun h => h rfl)
          rw [State.held, State.held, List.getElem?_set_self hlt, h]
          exact Function.update_of_ne hc _ _
        · rw [State.held, State.held, List.getElem?_set_ne (Ne.symm hu)]

section Gets
variable {s t : State Cls} {scope i : Nat} {cls : Cls} (h : Gets s scope cls t i)
include h

omit [DecidableEq Cls] in
theorem Gets.length : t.scopes.length = s.scopes.length := by
  cases h with
  | outside => rfl
  | same => rfl
  | made _ _ hlen => exact hlen

omit [DecidableEq Cls] in
theorem Gets.le_created : s.created ≤ t.created := by
  cases h with
  | outside => exact Nat.le_succ _
  | same => exact Nat.le_refl _
  | made _ _ _ hcreated =>
    rw [hcreated]
    exact Nat.le_succ _

/-- What a scope held it keeps. -/
theorem Gets.keeps {u j : Nat} {c : Cls} (hu : s.held u c = some j) : t.held u c = some j := by
  cases h with
  | outside => exact hu
  | same => exact hu
  | made _ hnone _ _ _ hother =>
    rw [hother u c, hu]
    by_contra hne
    obtain ⟨hu', hc'⟩ := not_or.mp hne
    obtain rfl := not_not.mp hu'
    obtain rfl := not_not.mp hc'
    rw [hu] at hnone
    exact nomatch hnone

/-- What a scope holds it held before, or it is the instance that was made. -/
theorem Gets.held {u j : Nat} {c : Cls} (hu : t.held u c = some j) :
    s.held u c = some j ∨ u = scope ∧ c = cls ∧ j = s.created ∧ s.held scope cls = none := by
  cases h with
  | outside => exact Or.inl hu
  | same => exact Or.inl hu
  | made _ hnone _ _ hself hother =>
    by_cases hsame : u = scope ∧ c = cls
    · obtain ⟨rfl, rfl⟩ := hsame
      rw [hself] at hu
      exact Or.inr ⟨rfl, rfl, (Option.some_inj.mp hu).symm, hnone⟩
    · left
      rw [← hu, hother u c]
      by_cases hu : u = scope
      · exact Or.inr fun hc => hsame ⟨hu, hc⟩
      · exact Or.inl hu

omit [DecidableEq Cls] in
/-- Within a scope the answer is what the scope then holds. -/
theorem Gets.answer (hlt : scope < s.scopes.length) : t.held scope cls = some i := by
  cases h with
  | outside hle => exact absurd hlt (Nat.not_lt.mpr hle)
  | same h => exact h
  | made _ _ _ _ hself => exact hself

end Gets

theorem held_run_old {s : State Cls} {t : Nat} (h : t < s.scopes.length) (scope : Nat)
    (opener : Option Cls) (cls : Cls) : (run s scope opener).held t cls = s.held t cls := by
  rw [run, State.held, State.held, List.getElem?_append_left h]

theorem length_run (s : State Cls) (scope : Nat) (opener : Option Cls) :
    (run s scope opener).scopes.length = s.scopes.length + 1 := by
  rw [run, List.length_append, List.length_singleton]

theorem held_run_new (s : State Cls) (scope : Nat) (opener : Option Cls) (cls : Cls) :
    (run s scope opener).held s.scopes.length cls = openedWith s scope opener cls := by
  rw [run, State.held, List.getElem?_concat_length]
  rfl

/-- The new scope has the instances of the one around it, but that of the class whose `run` it is. -/
theorem openedWith_eq_some {s : State Cls} {scope i : Nat} {opener : Option Cls} {cls : Cls} :
    openedWith s scope opener cls = some i ↔
      ∃ c, opener = some c ∧ c ≠ cls ∧ s.held scope cls = some i := by
  cases opener with
  | none => simp [openedWith]
  | some c =>
    rw [openedWith, State.held]
    cases hs : s.scopes[scope]? with
    | none => simp
    | some enclosing =>
      by_cases hc : cls = c
      · subst hc
        simp
      · simp [Function.update_of_ne hc, Ne.symm hc]

section Homes
variable (es : List (Event Cls)) (scope : Nat)

theorem homes_snoc_get (cls : Cls) :
    homes (es ++ [⟨scope, .getCurrentContext cls⟩]) = homes es := by
  rw [homes, List.foldl_append]
  rfl

theorem homes_snoc_run (opener : Option Cls) :
    homes (es ++ [⟨scope, .run opener⟩]) = homes es ++ [openedHome (homes es) scope opener] := by
  rw [homes, List.foldl_append]
  rfl

theorem length_homes : (homes es).length = (reached es).scopes.length := by
  induction es using List.reverseRecOn with
  | nil => rfl
  | append_singleton es e ih =>
    obtain ⟨scope, call⟩ := e
    have hreached : reached (es ++ [⟨scope, call⟩]) = after (reached es) ⟨scope, call⟩ := by
      rw [reached, List.foldl_append]
      rfl
    rw [hreached]
    cases call with
    | getCurrentContext cls =>
      rw [homes_snoc_get, ih]
      exact (getCurrentContext_gets (reached es) scope cls).length.symm
    | run opener => rw [homes_snoc_run, List.length_append, ih, after, length_run, List.length_singleton]

end Homes

theorem reached_snoc (es : List (Event Cls)) (e : Event Cls) :
    reached (es ++ [e]) = after (reached es) e := by
  rw [reached, List.foldl_append]
  rfl

theorem homeAt_snoc {es : List (Event Cls)} {t : Nat} (ht : t < (homes es).length) (e : Event Cls)
    (cls : Cls) : homeAt (es ++ [e]) t cls = homeAt es t cls := by
  obtain ⟨scope, call⟩ := e
  cases call with
  | getCurrentContext c => rw [homeAt, homes_snoc_get, homeAt]
  | run opener => rw [homeAt, homes_snoc_run, List.getElem?_append_left ht, homeAt]

/-- A home stays where it is. -/
theorem homeAt_append {es : List (Event Cls)} {t : Nat} (ht : t < (homes es).length)
    (rest : List (Event Cls)) (cls : Cls) : homeAt (es ++ rest) t cls = homeAt es t cls := by
  induction rest using List.reverseRecOn with
  | nil => rw [List.append_nil]
  | append_singleton rest e ih =>
    have hlt : t < (homes (es ++ rest)).length := by
      apply Nat.lt_of_lt_of_le ht
      rw [homes, homes, List.foldl_append]
      clear ih ht
      generalize es.foldl homeStep [] = l
      induction rest using List.reverseRecOn with
      | nil => exact Nat.le_refl _
      | append_singleton rest e ih =>
        rw [List.foldl_append]
        apply ih.trans
        change _ ≤ (homeStep _ e).length
        rw [homeStep]
        split
        next => exact Nat.le_refl _
        next =>
          rw [List.length_append]
          exact Nat.le_add_right _ _
    rw [← List.append_assoc, homeAt_snoc hlt, ih]

/-- The home of a class in a new scope. -/
theorem homeAt_new (es : List (Event Cls)) (scope : Nat) (opener : Option Cls) (cls : Cls) :
    homeAt (es ++ [⟨scope, .run opener⟩]) (homes es).length cls =
      some (openedHome (homes es) scope opener cls) := by
  rw [homeAt, homes_snoc_run, List.getElem?_concat_length]
  rfl

theorem openedHome_of_ne {es : List (Event Cls)} {scope : Nat} {c cls : Cls} (hc : c ≠ cls)
    (ht : scope < (homes es).length) :
    some (openedHome (homes es) scope (some c) cls) = homeAt es scope cls := by
  rw [openedHome, homeAt, List.getElem?_eq_getElem ht]
  exact congrArg some (Function.update_of_ne (Ne.symm hc) _ _)

/-! ## The instances -/

/-- What the scopes hold after the calls. -/
structure Sound (es : List (Event Cls)) (s : State Cls) : Prop where
  made : ∀ t cls i, s.held t cls = some i → i < s.created
  /-- An instance is one of one class, in one home. -/
  apart : ∀ t u cls c i, s.held t cls = some i → s.held u c = some i →
    cls = c ∧ homeAt es t cls = homeAt es u cls
  asked : ∀ t cls i, s.held t cls = some i → ∃ earlier r more,
    es = earlier ++ ⟨r, .getCurrentContext cls⟩ :: more ∧ homeAt earlier r cls = homeAt es t cls

theorem sound_get {es : List (Event Cls)} {s t : State Cls} {scope i : Nat} {cls : Cls}
    (hs : Sound es s) (hlen : (homes es).length = s.scopes.length) (h : Gets s scope cls t i) :
    Sound (es ++ [⟨scope, .getCurrentContext cls⟩]) t := by
  have hhome : ∀ u c, homeAt (es ++ [⟨scope, .getCurrentContext cls⟩]) u c = homeAt es u c := by
    intro u c
    rw [homeAt, homes_snoc_get, homeAt]
  have hnew : ∀ u c j, t.held u c = some j → s.held scope cls = none → j = s.created →
      u = scope ∧ c = cls := by
    intro u c j hu hnone hj
    rcases h.held hu with hold | ⟨hu, hc, -, -⟩
    · have := hs.made u c j hold
      omega
    · exact ⟨hu, hc⟩
  refine ⟨?_, ?_, ?_⟩
  · intro u c j hu
    rcases h.held hu with hold | ⟨rfl, rfl, rfl, hnone⟩
    · exact Nat.lt_of_lt_of_le (hs.made u c j hold) h.le_created
    · cases h with
      | outside => exact Nat.lt_succ_self _
      | same hsome =>
        rw [hnone] at hsome
        exact nomatch hsome
      | made _ _ _ hcreated =>
        rw [hcreated]
        exact Nat.lt_succ_self _
  · intro u v c d j hu hv
    rw [hhome, hhome]
    rcases h.held hu with hold | ⟨rfl, rfl, hj, hnone⟩
    · rcases h.held hv with hold' | ⟨-, -, hj, hnone⟩
      · exact hs.apart u v c d j hold hold'
      · have := hs.made u c j hold
        omega
    · obtain ⟨rfl, rfl⟩ := hnew v d j hv hnone hj
      exact ⟨rfl, rfl⟩
  · intro u c j hu
    rw [hhome]
    rcases h.held hu with hold | ⟨rfl, rfl, -, -⟩
    · obtain ⟨earlier, r, more, rfl, hr⟩ := hs.asked u c j hold
      exact ⟨earlier, r, more ++ [⟨scope, .getCurrentContext cls⟩], by simp, hr⟩
    · exact ⟨es, u, [], rfl, rfl⟩

theorem sound_run {es : List (Event Cls)} {s : State Cls} (hs : Sound es s)
    (hlen : (homes es).length = s.scopes.length) (scope : Nat) (opener : Option Cls) :
    Sound (es ++ [⟨scope, .run opener⟩]) (run s scope opener) := by
  -- a scope after the call holds what an old scope with the same home held
  have hfrom : ∀ t cls i, (run s scope opener).held t cls = some i →
      ∃ u, s.held u cls = some i ∧
        homeAt (es ++ [⟨scope, .run opener⟩]) t cls = homeAt es u cls := by
    intro t cls i ht
    have hlt := lt_of_held ht
    rw [length_run] at hlt
    by_cases hold : t < s.scopes.length
    · refine ⟨t, ?_, homeAt_snoc (by omega) _ _⟩
      rwa [held_run_old hold] at ht
    · obtain rfl : t = s.scopes.length := by omega
      rw [held_run_new, openedWith_eq_some] at ht
      obtain ⟨c, rfl, hc, hheld⟩ := ht
      refine ⟨scope, hheld, ?_⟩
      rw [← hlen, homeAt_new]
      exact openedHome_of_ne hc (by rw [hlen]; exact lt_of_held hheld)
  refine ⟨?_, ?_, ?_⟩
  · intro t cls i ht
    obtain ⟨u, hu, -⟩ := hfrom t cls i ht
    exact hs.made u cls i hu
  · intro t t' cls c i ht ht'
    obtain ⟨u, hu, hhome⟩ := hfrom t cls i ht
    obtain ⟨u', hu', hhome'⟩ := hfrom t' c i ht'
    obtain ⟨rfl, hsame⟩ := hs.apart u u' cls c i hu hu'
    exact ⟨rfl, by rw [hhome, hhome', hsame]⟩
  · intro t cls i ht
    obtain ⟨u, hu, hhome⟩ := hfrom t cls i ht
    obtain ⟨earlier, r, more, rfl, hr⟩ := hs.asked u cls i hu
    exact ⟨earlier, r, more ++ [⟨scope, .run opener⟩], by simp, by rw [hr, hhome]⟩

theorem sound_reached (es : List (Event Cls)) : Sound es (reached es) := by
  induction es using List.reverseRecOn with
  | nil => exact ⟨nofun, nofun, nofun⟩
  | append_singleton es e ih =>
    obtain ⟨scope, call⟩ := e
    rw [reached_snoc]
    cases call with
    | getCurrentContext cls => exact sound_get ih (length_homes es) (getCurrentContext_gets _ _ _)
    | run opener => exact sound_run ih (length_homes es) scope opener

/-! ## How far an instance gets -/

/-- An instance is in the scopes that were opened from the one where it was made. -/
structure Spreads (s : State Cls) (cls : Cls) (i : Nat) (p : Nat × List Nat) : Prop where
  count : p.1 = s.scopes.length
  holders : ∀ t, s.held t cls = some i ↔ t ∈ p.2
  made : i < s.created

theorem spreads_after {s : State Cls} {cls : Cls} {i : Nat} {p : Nat × List Nat}
    (h : Spreads s cls i p) (e : Event Cls) : Spreads (after s e) cls i (spreadStep cls p e) := by
  obtain ⟨scope, call⟩ := e
  cases call with
  | getCurrentContext asked =>
    have hgets := getCurrentContext_gets s scope asked
    refine ⟨h.count.trans hgets.length.symm, ?_, Nat.lt_of_lt_of_le h.made hgets.le_created⟩
    intro t
    rw [spreadStep, ← h.holders]
    constructor
    · intro ht
      rcases hgets.held ht with hold | ⟨-, -, hi, -⟩
      · exact hold
      · have := h.made
        omega
    · exact hgets.keeps
  | run opener =>
    have hcount : (spreadStep cls p ⟨scope, .run opener⟩).1 = p.1 + 1 := by
      cases opener <;> rfl
    have hmem : ∀ t, t ∈ (spreadStep cls p ⟨scope, .run opener⟩).2 ↔
        t ∈ p.2 ∨ t = p.1 ∧ ∃ c, opener = some c ∧ c ≠ cls ∧ scope ∈ p.2 := by
      intro t
      cases opener with
      | none => simp [spreadStep]
      | some c =>
        simp only [spreadStep]
        split
        next hin => simp [hin, or_comm]
        next hout =>
          constructor
          · exact Or.inl
          · rintro (ht | ⟨-, d, hd, hne, hscope⟩)
            · exact ht
            · obtain rfl := Option.some_inj.mp hd
              exact absurd ⟨hne, hscope⟩ hout
    refine ⟨?_, ?_, h.made⟩
    · rw [hcount, h.count]
      exact (length_run s scope opener).symm
    · intro t
      rw [hmem]
      change (run s scope opener).held t cls = some i ↔ _
      by_cases hold : t < s.scopes.length
      · rw [held_run_old hold, h.holders, h.count]
        constructor
        · exact Or.inl
        · rintro (ht | ⟨rfl, -⟩)
          · exact ht
          · exact absurd hold (Nat.lt_irrefl _)
      · have hnot : t ∉ p.2 := fun ht => hold (lt_of_held ((h.holders t).mpr ht))
        by_cases hnew : t = s.scopes.length
        · subst hnew
          rw [held_run_new, openedWith_eq_some, h.count, h.holders]
          simp [hnot]
        · have hle : (run s scope opener).scopes.length ≤ t := by
            rw [length_run]
            omega
          rw [held_of_le hle, h.count]
          simp [hnot, hnew]

theorem spreads_run {s : State Cls} {cls : Cls} {i : Nat} {p : Nat × List Nat}
    (h : Spreads s cls i p) (es : List (Event Cls)) :
    Spreads (es.foldl after s) cls i (es.foldl (spreadStep cls) p) := by
  induction es generalizing s p with
  | nil => exact h
  | cons e es ih => exact ih (spreads_after h e)

/-- The first access in a home makes an instance; it spreads from its scope. -/
theorem spreads_first {before : List (Event Cls)} {s : Nat} {cls : Cls}
    (hs : s < (homes before).length)
    (hfirst : ∀ earlier r more, before = earlier ++ ⟨r, .getCurrentContext cls⟩ :: more →
      homeAt earlier r cls ≠ homeAt before s cls) :
    Spreads (after (reached before) ⟨s, .getCurrentContext cls⟩) cls
      (getCurrentContext (reached before) s cls).2 ((homes before).length, [s]) := by
  have hsound := sound_reached before
  have hlen := length_homes before
  rw [hlen] at hs
  have hnone : (reached before).held s cls = none := by
    cases hheld : (reached before).held s cls with
    | none => rfl
    | some i =>
      obtain ⟨earlier, r, more, heq, hhome⟩ := hsound.asked s cls i hheld
      exact absurd hhome (hfirst earlier r more heq)
  have hgets := getCurrentContext_gets (reached before) s cls
  refine ⟨hlen.trans hgets.length.symm, ?_, ?_⟩
  · intro t
    rw [List.mem_singleton]
    constructor
    · intro ht
      rcases hgets.held ht with hold | ⟨rfl, -, -, -⟩
      · exfalso
        have hlt := hsound.made t cls _ hold
        generalize hi : (getCurrentContext (reached before) s cls).2 = i at hgets hlt
        generalize (getCurrentContext (reached before) s cls).1 = u at hgets
        cases hgets with
        | outside => exact Nat.lt_irrefl _ hlt
        | same hsame =>
          rw [hnone] at hsame
          exact nomatch hsame
        | made => exact Nat.lt_irrefl _ hlt
      · rfl
    · rintro rfl
      exact hgets.answer hs
  · have hheld := hgets.answer hs
    exact (sound_get hsound hlen hgets).made s cls _ hheld

/-! ## One instance -/

omit [DecidableEq Cls] in
/-- An answer that is no new instance was held before. -/
theorem Gets.held_of_lt {s t : State Cls} {scope i : Nat} {cls : Cls} (h : Gets s scope cls t i)
    (hi : i < s.created) : s.held scope cls = some i := by
  cases h with
  | outside => exact absurd hi (Nat.lt_irrefl _)
  | same h => exact h
  | made => exact absurd hi (Nat.lt_irrefl _)

theorem held_keeps {s : State Cls} {t i : Nat} {cls : Cls} (h : s.held t cls = some i)
    (es : List (Event Cls)) : (es.foldl after s).held t cls = some i := by
  induction es generalizing s with
  | nil => exact h
  | cons e es ih =>
    apply ih
    obtain ⟨scope, call⟩ := e
    cases call with
    | getCurrentContext asked => exact (getCurrentContext_gets s scope asked).keeps h
    | run opener =>
      change (run s scope opener).held t cls = some i
      rw [held_run_old (lt_of_held h)]
      exact h

theorem reached_append (es fs : List (Event Cls)) : reached (es ++ fs) = fs.foldl after (reached es) :=
  List.foldl_append

theorem Accessed.held {es : List (Event Cls)} {a : Access Cls} (h : Accessed es a) :
    (reached es).held a.scope a.cls = some a.inst := by
  obtain ⟨before, rest, rfl, hlt, hinst⟩ := h
  rw [reached_append, ← hinst]
  exact held_keeps ((getCurrentContext_gets _ _ _).answer hlt) rest

theorem lt_of_homeAt {es : List (Event Cls)} {t h : Nat} {cls : Cls} (ht : homeAt es t cls = some h) :
    t < (homes es).length := by
  obtain ⟨home, hhome, -⟩ := Option.map_eq_some_iff.mp ht
  exact (List.getElem?_eq_some_iff.mp hhome).1

theorem homeAt_isSome {es : List (Event Cls)} {t : Nat} (ht : t < (homes es).length) (cls : Cls) :
    ∃ h, homeAt es t cls = some h :=
  ⟨_, by rw [homeAt, List.getElem?_eq_getElem ht]; rfl⟩

/-- Before an access in a home there is a first one. -/
theorem exists_first (cls : Cls) (before : List (Event Cls)) (s : Nat)
    (hs : s < (homes before).length) : ∃ earlier r more,
      before ++ [⟨s, .getCurrentContext cls⟩] = earlier ++ ⟨r, .getCurrentContext cls⟩ :: more ∧
      r < (homes earlier).length ∧ homeAt earlier r cls = homeAt before s cls ∧
      ∀ earlier' r' more', earlier = earlier' ++ ⟨r', .getCurrentContext cls⟩ :: more' →
        homeAt earlier' r' cls ≠ homeAt earlier r cls := by
  induction hn : before.length using Nat.strong_induction_on generalizing before s with
  | _ n ih =>
    by_cases hfirst : ∀ earlier r more, before = earlier ++ ⟨r, .getCurrentContext cls⟩ :: more →
        homeAt earlier r cls ≠ homeAt before s cls
    · exact ⟨before, s, [], rfl, hs, rfl, hfirst⟩
    · push Not at hfirst
      obtain ⟨earlier, r, more, heq, hhome⟩ := hfirst
      obtain ⟨h, hh⟩ := homeAt_isSome hs cls
      have hr : r < (homes earlier).length := lt_of_homeAt (hhome.trans hh)
      have hlen : earlier.length < n := by
        rw [← hn, heq, List.length_append, List.length_cons]
        omega
      obtain ⟨earlier', r', more', heq', hr', hhome', hfirst'⟩ := ih earlier.length hlen earlier r hr rfl
      refine ⟨earlier', r', more' ++ more ++ [⟨s, .getCurrentContext cls⟩], ?_, hr',
        hhome'.trans hhome, hfirst'⟩
      have hsplit : before = earlier ++ [⟨r, .getCurrentContext cls⟩] ++ more := by
        rw [heq, List.append_assoc, List.singleton_append]
      rw [hsplit, heq']
      simp

/-- Where a class is asked for outermost first, its home has the instance that was made first. -/
theorem AskedOutermost.inst_eq {es before rest : List (Event Cls)} {s : Nat} {cls : Cls}
    (h : AskedOutermost es) (hes : es = before ++ ⟨s, .getCurrentContext cls⟩ :: rest)
    (hs : s < (homes before).length)
    (hfirst : ∀ earlier r more, before = earlier ++ ⟨r, .getCurrentContext cls⟩ :: more →
      homeAt earlier r cls ≠ homeAt before s cls)
    {t i : Nat} (ha : Accessed es ⟨t, cls, i⟩) (hhome : homeAt es t cls = homeAt before s cls) :
    i = (getCurrentContext (reached before) s cls).2 := by
  obtain ⟨before', rest', hes', hlt, hinst⟩ := ha
  simp only at hes' hlt hinst
  rw [← length_homes] at hlt
  have hhome' : homeAt before' t cls = homeAt before s cls := by
    rw [← hhome, hes', homeAt_append hlt]
  rcases List.append_eq_append_iff.mp (hes.symm.trans hes') with ⟨mid, hmid, hrest⟩ | ⟨mid, hmid, hrest⟩
  · cases mid with
    | nil =>
      rw [List.append_nil] at hmid
      subst hmid
      obtain ⟨hevent, -⟩ := List.cons.inj hrest
      obtain ⟨rfl, -⟩ := Event.mk.inj hevent
      exact hinst.symm
    | cons e mid =>
      obtain ⟨rfl, hrest⟩ := List.cons.inj hrest
      subst hmid
      have hmem : t ∈ spread cls (homes before).length s mid :=
        h before s cls mid t rest' (by rw [hes, hrest, List.cons_append]) hs hfirst hhome'
      have hspread := spreads_run (spreads_first hs hfirst) mid
      have hheld := (hspread.holders t).mpr hmem
      have hreached : reached (before ++ ⟨s, .getCurrentContext cls⟩ :: mid) =
          mid.foldl after (after (reached before) ⟨s, .getCurrentContext cls⟩) := reached_append _ _
      rw [length_homes, hreached] at hlt
      rw [hreached] at hinst
      have hkept := (getCurrentContext_gets (mid.foldl after (after (reached before)
        ⟨s, .getCurrentContext cls⟩)) t cls)
      have hanswer := hkept.answer hlt
      rw [hkept.keeps hheld, hinst] at hanswer
      exact (Option.some_inj.mp hanswer).symm
  · cases mid with
    | nil =>
      rw [List.append_nil] at hmid
      subst hmid
      obtain ⟨hevent, -⟩ := List.cons.inj hrest
      obtain ⟨rfl, -⟩ := Event.mk.inj hevent
      exact hinst.symm
    | cons e mid =>
      obtain ⟨rfl, -⟩ := List.cons.inj hrest
      exact absurd hhome' (hfirst before' t mid hmid)

/-- A request has one instance of each class, and a fresh one in each of the class's own scopes,
exactly when no class is asked for in a nested scope first and outside of it later. -/
theorem oneInstance_iff (es : List (Event Cls)) : OneInstance es ↔ AskedOutermost es := by
  constructor
  · intro h before s cls mid t rest hes hs hfirst hhome
    obtain ⟨home, hsome⟩ := homeAt_isSome hs cls
    have ht := lt_of_homeAt (hhome.trans hsome)
    have hes' : es = (before ++ ⟨s, .getCurrentContext cls⟩ :: mid) ++
        ⟨t, .getCurrentContext cls⟩ :: rest := by rw [hes, List.append_assoc, List.cons_append]
    let made := (getCurrentContext (reached before) s cls).2
    let later := (getCurrentContext
      (reached (before ++ ⟨s, .getCurrentContext cls⟩ :: mid)) t cls).2
    have hfst : Accessed es ⟨s, cls, made⟩ := ⟨before, _, hes, by rwa [← length_homes], rfl⟩
    have hsnd : Accessed es ⟨t, cls, later⟩ := ⟨_, rest, hes', by rwa [← length_homes], rfl⟩
    have hhomes : homeAt es s cls = homeAt es t cls := by
      rw [hes', homeAt_append ht, hhome, List.append_assoc, homeAt_append hs]
    have hsame : made = later := (h _ _ hfst hsnd rfl).mpr hhomes
    have hspread := spreads_run (spreads_first hs hfirst) mid
    have hgets := getCurrentContext_gets (mid.foldl after (after (reached before)
      ⟨s, .getCurrentContext cls⟩)) t cls
    have hanswer : (getCurrentContext (mid.foldl after (after (reached before)
        ⟨s, .getCurrentContext cls⟩)) t cls).2 = made := by
      rw [hsame]
      change _ = (getCurrentContext (reached (before ++ _)) t cls).2
      rw [reached_append]
      rfl
    rw [hanswer] at hgets
    exact (hspread.holders t).mp (hgets.held_of_lt hspread.made)
  · intro h a b ha hb hcls
    obtain ⟨t, cls, i⟩ := a
    obtain ⟨u, c, j⟩ := b
    obtain rfl : cls = c := hcls
    constructor
    · rintro rfl
      exact ((sound_reached es).apart t u cls cls i ha.held hb.held).2
    · intro hhome
      obtain ⟨before, rest, hes, hlt, hinst⟩ := id ha
      rw [← length_homes] at hlt
      obtain ⟨earlier, r, more, hsplit, hr, hhome', hfirst⟩ := exists_first cls before t hlt
      have hes' : es = earlier ++ ⟨r, .getCurrentContext cls⟩ :: (more ++ rest) := by
        rw [hes, ← List.cons_append, ← List.append_assoc, ← hsplit, List.append_assoc]
        rfl
      have hta : homeAt es t cls = homeAt earlier r cls := by
        rw [hhome', hes, homeAt_append hlt]
      have hi := h.inst_eq hes' hr hfirst ha hta
      have hj := h.inst_eq hes' hr hfirst hb (hhome.symm.trans hta)
      exact hi.trans hj.symm

/-- A logger that is asked for first inside the run of another middleware, and then outside of it. -/
def loggedInside : List (Event String) :=
  [⟨0, .run none⟩, ⟨0, .run (some "Tracer")⟩, ⟨1, .getCurrentContext "Logger"⟩,
    ⟨0, .getCurrentContext "Logger"⟩]

theorem logger_twice : ¬ OneInstance loggedInside := by
  intro h
  have hinner : Accessed loggedInside ⟨1, "Logger", 0⟩ :=
    ⟨[⟨0, .run none⟩, ⟨0, .run (some "Tracer")⟩], [⟨0, .getCurrentContext "Logger"⟩], rfl,
      by decide, rfl⟩
  have houter : Accessed loggedInside ⟨0, "Logger", 1⟩ :=
    ⟨[⟨0, .run none⟩, ⟨0, .run (some "Tracer")⟩, ⟨1, .getCurrentContext "Logger"⟩], [], rfl,
      by decide, rfl⟩
  have hsame := (h _ _ hinner houter rfl).mpr (by decide)
  exact absurd hsame (by decide)

end LiteDb.RequestScope
