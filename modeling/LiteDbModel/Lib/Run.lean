import Mathlib

/-!
# Runs of a step function and their logs

A step function takes the actions of a list one after the other; a property that
every step keeps holds after every run. `Logged` says of a log that each of its
entries was right given the entries before it.
-/

namespace Run
set_option autoImplicit false

variable {σ α : Type}

/-- The state after the actions, or `none` where one of them cannot be taken. -/
def run (step : σ → α → Option σ) : σ → List α → Option σ
  | s, [] => some s
  | s, a :: as => (step s a).bind fun s' => run step s' as

/-- What every step keeps holds after every run. -/
theorem invariant {step : σ → α → Option σ} {inv : σ → Prop}
    (hstep : ∀ s a s', inv s → step s a = some s' → inv s') {s s' : σ} {as : List α}
    (hs : inv s) (h : run step s as = some s') : inv s' := by
  induction as generalizing s with
  | nil =>
    obtain rfl := Option.some.inj h
    exact hs
  | cons a as ih =>
    obtain ⟨t, ht, hrest⟩ := Option.bind_eq_some_iff.mp h
    exact ih (hstep s a t hs ht) hrest

/-- Every state on the way has the property. -/
def Along (step : σ → α → Option σ) (P : σ → Prop) : σ → List α → Prop
  | s, [] => P s
  | s, a :: as => P s ∧ ∀ t, step s a = some t → Along step P t as

/-- Every step that is taken is allowed. -/
def Steps (step : σ → α → Option σ) (ok : σ → α → Prop) : σ → List α → Prop
  | _, [] => True
  | s, a :: as => ∀ t, step s a = some t → ok s a ∧ Steps step ok t as

/-- Where a step keeps the property exactly when it is allowed, a run does too. -/
theorem along_iff_steps {step : σ → α → Option σ} {inv P : σ → Prop} {ok : σ → α → Prop}
    (hinv : ∀ s a t, inv s → step s a = some t → inv t)
    (hstep : ∀ s a t, inv s → P s → step s a = some t → (P t ↔ ok s a)) {s : σ} {as : List α}
    (hs : inv s) (hP : P s) : Along step P s as ↔ Steps step ok s as := by
  induction as generalizing s with
  | nil => exact iff_of_true hP trivial
  | cons a as ih =>
    rw [Along, Steps, and_iff_right hP]
    apply forall_congr'
    intro t
    apply imp_congr_right
    intro ht
    have ht' := hinv s a t hs ht
    constructor
    · intro h
      have hPt : P t := by
        cases as with
        | nil => exact h
        | cons b bs => exact h.1
      exact ⟨(hstep s a t hs hP ht).mp hPt, (ih ht' hPt).mp h⟩
    · rintro ⟨hok, hrest⟩
      exact (ih ht' ((hstep s a t hs hP ht).mpr hok)).mpr hrest

/-- Each entry is right given those before it. -/
def Logged (ok : List α → α → Prop) (log : List α) : Prop :=
  ∀ before e after, log = before ++ e :: after → ok before e

theorem Logged.nil {ok : List α → α → Prop} : Logged ok [] := by
  intro before e after h
  simp at h

theorem logged_append {ok : List α → α → Prop} {log : List α} {e : α} :
    Logged ok (log ++ [e]) ↔ Logged ok log ∧ ok log e := by
  constructor
  · intro h
    refine ⟨fun before d after heq => h before d (after ++ [e]) (by simp [heq]), h log e [] rfl⟩
  · rintro ⟨hlog, he⟩ before d after heq
    rcases List.eq_nil_or_concat after with rfl | ⟨after', d', rfl⟩
    · obtain ⟨rfl, hd⟩ := List.append_inj' heq rfl
      obtain rfl : e = d := by simpa using hd
      exact he
    · have hsplit : log ++ [e] = (before ++ d :: after') ++ [d'] := by
        rw [heq]
        simp
      exact hlog before d after' (List.append_inj' hsplit rfl).1

theorem logged_append_list {ok : List α → α → Prop} {log new : List α} (h : Logged ok log)
    (hnew : ∀ before e after, new = before ++ e :: after → ok (log ++ before) e) :
    Logged ok (log ++ new) := by
  induction new using List.reverseRecOn with
  | nil => simpa using h
  | append_singleton new e ih =>
    rw [← List.append_assoc]
    refine logged_append.mpr ⟨ih fun before d after heq => ?_, hnew new e [] rfl⟩
    exact hnew before d (after ++ [e]) (by simp [heq])

end Run
