import Mathlib

/-!
# Texts with slots

A template is a list of texts and slots. Written with one mark for every slot it is a text
with holes; filling the holes from left to right puts each slot's own text in its place,
provided that the texts between the slots do not contain the mark.
-/

namespace Template
set_option autoImplicit false

inductive Part (σ α : Type)
  | text (s : List α)
  | slot (v : σ)

variable {σ τ α : Type}

def Part.render (f : σ → List α) : Part σ α → List α
  | .text s => s
  | .slot v => f v

def Part.slot? : Part σ α → Option σ
  | .text _ => none
  | .slot v => some v

/-- The text in which each slot stands as `f` writes it. -/
def render (f : σ → List α) (ps : List (Part σ α)) : List α := ps.flatMap (Part.render f)

def slots (ps : List (Part σ α)) : List σ := ps.filterMap Part.slot?

/-- The text of a template with one mark for every slot. -/
def marked (mark : α) (ps : List (Part σ α)) : List α := render (fun _ => [mark]) ps

/-- The texts do not contain the mark. -/
def Clear (mark : α) (ps : List (Part σ α)) : Prop := ∀ s, Part.text s ∈ ps → mark ∉ s

/-- The parts of several templates with a text between them. -/
def sepBy (sep : List α) (ts : List (List (Part σ α))) : List (Part σ α) :=
  [Part.text sep].intercalate ts

variable [DecidableEq α]

/-- Fill the marks of a text from left to right. -/
def fill (mark : α) : List α → List (List α) → Option (List α)
  | [], [] => some []
  | [], _ :: _ => none
  | c :: cs, [] => if c = mark then none else (fill mark cs []).map fun rest => c :: rest
  | c :: cs, t :: ts =>
    if c = mark then (fill mark cs ts).map fun rest => t ++ rest
    else (fill mark cs (t :: ts)).map fun rest => c :: rest

omit [DecidableEq α] in
theorem render_append (f : σ → List α) (ps qs : List (Part σ α)) :
    render f (ps ++ qs) = render f ps ++ render f qs := List.flatMap_append

omit [DecidableEq α] in
theorem slots_append (ps qs : List (Part σ α)) : slots (ps ++ qs) = slots ps ++ slots qs :=
  List.filterMap_append

omit [DecidableEq α] in
theorem render_sepBy (f : σ → List α) (sep : List α) (ts : List (List (Part σ α))) :
    render f (sepBy sep ts) = sep.intercalate (ts.map (render f)) := by
  induction ts with
  | nil => rfl
  | cons t ts ih =>
    rcases ts with _ | ⟨u, ts⟩
    · simp [sepBy, List.intercalate_singleton]
    · rw [sepBy, List.intercalate_cons_cons, render_append, render_append, ← sepBy, ih,
        List.map_cons, List.map_cons, List.map_cons, List.intercalate_cons_cons]
      simp [render, Part.render]

omit [DecidableEq α] in
theorem slots_sepBy (sep : List α) (ts : List (List (Part σ α))) :
    slots (sepBy sep ts) = ts.flatMap slots := by
  induction ts with
  | nil => rfl
  | cons t ts ih =>
    rcases ts with _ | ⟨u, ts⟩
    · simp [sepBy, List.intercalate_singleton]
    · rw [sepBy, List.intercalate_cons_cons, slots_append, slots_append, ← sepBy, ih,
        List.flatMap_cons]
      simp [slots, Part.slot?]

omit [DecidableEq α] in
theorem clear_append {mark : α} {ps qs : List (Part σ α)} :
    Clear mark (ps ++ qs) ↔ Clear mark ps ∧ Clear mark qs := by
  constructor
  · intro h
    exact ⟨fun s hs => h s (List.mem_append_left _ hs), fun s hs => h s (List.mem_append_right _ hs)⟩
  · rintro ⟨hp, hq⟩ s hs
    exact (List.mem_append.mp hs).elim (hp s) (hq s)

omit [DecidableEq α] in
theorem clear_sepBy {mark : α} {sep : List α} (hsep : mark ∉ sep) {ts : List (List (Part σ α))}
    (h : ∀ t ∈ ts, Clear mark t) : Clear mark (sepBy sep ts) := by
  induction ts with
  | nil => exact fun s hs => nomatch hs
  | cons t ts ih =>
    have hrest := ih fun u hu => h u (List.mem_cons_of_mem t hu)
    rcases ts with _ | ⟨u, ts⟩
    · simpa [sepBy, List.intercalate_singleton] using h t List.mem_cons_self
    · rw [sepBy, List.intercalate_cons_cons, ← sepBy, clear_append, clear_append]
      refine ⟨⟨h t List.mem_cons_self, ?_⟩, hrest⟩
      intro s hs
      have hs' : s = sep := by simpa using hs
      rw [hs']
      exact hsep

theorem fill_text (mark : α) {s : List α} (h : mark ∉ s) (rest : List α) (ts : List (List α)) :
    fill mark (s ++ rest) ts = (fill mark rest ts).map fun r => s ++ r := by
  induction s with
  | nil => simp
  | cons c s ih =>
    have hc : c ≠ mark := fun heq => h (heq ▸ List.mem_cons_self)
    have hstep : fill mark (c :: (s ++ rest)) ts =
        (fill mark (s ++ rest) ts).map fun r => c :: r := by
      cases ts with
      | nil => rw [fill, if_neg hc]
      | cons t ts => rw [fill, if_neg hc]
    rw [List.cons_append, hstep, ih fun hmem => h (List.mem_cons_of_mem c hmem), Option.map_map]
    rfl

/-- Filled with its slots' texts, a marked template is the text it stands for. -/
theorem fill_marked (mark : α) (f : σ → List α) {ps : List (Part σ α)} (h : Clear mark ps) :
    fill mark (marked mark ps) ((slots ps).map f) = some (render f ps) := by
  induction ps with
  | nil => rfl
  | cons p ps ih =>
    have hrest := ih fun s hs => h s (List.mem_cons_of_mem p hs)
    cases p with
    | text s =>
      have htext : marked mark (Part.text s :: ps) = s ++ marked mark ps := rfl
      have hslots : slots (Part.text s :: ps) = slots ps := rfl
      rw [htext, hslots, fill_text mark (h s List.mem_cons_self), hrest]
      rfl
    | slot v =>
      have htext : marked mark (Part.slot v :: ps) = mark :: marked mark ps := rfl
      have hslots : slots (Part.slot v :: ps) = v :: slots ps := rfl
      rw [htext, hslots, List.map_cons, fill, if_pos rfl, hrest]
      rfl

/-- The marks of a marked template are its slots and those in its texts. -/
theorem count_marked (mark : α) (ps : List (Part σ α)) :
    (marked mark ps).count mark = (slots ps).length + (render (fun _ => []) ps).count mark := by
  induction ps with
  | nil => rfl
  | cons p ps ih =>
    cases p with
    | text s =>
      have htext : marked mark (Part.text s :: ps) = s ++ marked mark ps := rfl
      have hslots : slots (Part.text s :: ps) = slots ps := rfl
      have hplain : render (fun _ : σ => []) (Part.text s :: ps) = s ++ render (fun _ => []) ps := rfl
      rw [htext, hslots, hplain, List.count_append, List.count_append, ih]
      omega
    | slot v =>
      have htext : marked mark (Part.slot v :: ps) = mark :: marked mark ps := rfl
      have hslots : slots (Part.slot v :: ps) = v :: slots ps := rfl
      have hplain : render (fun _ : σ => []) (Part.slot v :: ps) = render (fun _ => []) ps := rfl
      rw [htext, hslots, hplain, List.count_cons_self, ih, List.length_cons]
      omega

end Template
