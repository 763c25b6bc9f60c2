import LiteDbModel.Lib.Json

/-!
# Rewriting and joining texts

`replaceAll` is the global replacement of a regular expression: leftmost
matches, one after the other, each replaced by what the matcher gives for it.
Texts joined by a separator are equal when they are cut alike at it.
-/

namespace Text
set_option autoImplicit false

/-- `\s` of a regular expression, which is also what `trim` takes off. -/
def isSpace (c : Char) : Bool :=
  c = '\t' || c = '\n' || c = '\x0b' || c = '\x0c' || c = '\r' || c = ' ' || c = '\u00a0' ||
  c = '\u1680' || ('\u2000' ≤ c && c ≤ '\u200a') || c = '\u2028' || c = '\u2029' || c = '\u202f' ||
  c = '\u205f' || c = '\u3000' || c = '\ufeff'

/-- A match at the head of a text: its replacement and its length. -/
abbrev Matcher := List Char → Option (List Char × Nat)

/-- Replace every match; the count is what is left of the current one. -/
def replaceAll (m : Matcher) : Nat → List Char → List Char
  | _, [] => []
  | k + 1, _ :: cs => replaceAll m k cs
  | 0, c :: cs =>
    match m (c :: cs) with
    | some (r, n) => r ++ replaceAll m (n - 1) cs
    | none => c :: replaceAll m 0 cs

variable {m : Matcher}

theorem replaceAll_skip (l rest : List Char) :
    replaceAll m l.length (l ++ rest) = replaceAll m 0 rest := by
  induction l with
  | nil => rfl
  | cons c l ih => exact ih

theorem replaceAll_match {l rest r : List Char} {c : Char}
    (h : m (c :: (l ++ rest)) = some (r, l.length + 1)) :
    replaceAll m 0 (c :: (l ++ rest)) = r ++ replaceAll m 0 rest := by
  simp only [replaceAll, h, Nat.add_sub_cancel, replaceAll_skip]

theorem replaceAll_no_match {c : Char} {cs : List Char} (h : m (c :: cs) = none) :
    replaceAll m 0 (c :: cs) = c :: replaceAll m 0 cs := by
  simp only [replaceAll, h]

/-- No match starts at the character. -/
def Passes (m : Matcher) (c : Char) : Prop := ∀ cs, m (c :: cs) = none

theorem replaceAll_pass {l : List Char} (h : ∀ c ∈ l, Passes m c) (rest : List Char) :
    replaceAll m 0 (l ++ rest) = l ++ replaceAll m 0 rest := by
  induction l with
  | nil => rfl
  | cons c l ih =>
    rw [List.cons_append, replaceAll_no_match (h c List.mem_cons_self _),
      ih fun d hd => h d (List.mem_cons_of_mem c hd)]
    rfl

/-- The text `t` becomes `t'` wherever it stands in front of an admitted rest. -/
def Rewrites (m : Matcher) (ok : List Char → Prop) (t t' : List Char) : Prop :=
  ∀ rest, ok rest → replaceAll m 0 (t ++ rest) = t' ++ replaceAll m 0 rest

/-! ## The first characters of a text -/

/-- The text does not begin with a character of the kind. -/
def Stops (p : Char → Bool) (l : List Char) : Prop := ∀ c ∈ l.head?, p c = false

theorem takeWhile_stop {p : Char → Bool} {w r : List Char} (hw : ∀ c ∈ w, p c = true)
    (hr : Stops p r) : (w ++ r).takeWhile p = w := by
  rw [List.takeWhile_append_of_pos hw]
  cases r with
  | nil => exact List.append_nil w
  | cons c r => rw [List.takeWhile_cons_of_neg (by simp [hr c rfl]), List.append_nil]

theorem dropWhile_stop {p : Char → Bool} {w r : List Char} (hw : ∀ c ∈ w, p c = true)
    (hr : Stops p r) : (w ++ r).dropWhile p = r := by
  rw [List.dropWhile_append_of_pos hw]
  cases r with
  | nil => rfl
  | cons c r => rw [List.dropWhile_cons_of_neg (by simp [hr c rfl])]

theorem stops_append {p : Char → Bool} {l : List Char} (hne : l ≠ []) (h : Stops p l)
    (r : List Char) : Stops p (l ++ r) := by
  cases l with
  | nil => exact absurd rfl hne
  | cons c l => exact h

theorem stops_of_forall {p : Char → Bool} {l : List Char} (h : ∀ c ∈ l, p c = false) :
    Stops p l := by
  cases l with
  | nil => exact fun c hc => nomatch hc
  | cons c l =>
    intro d hd
    exact h d (List.mem_of_mem_head? hd)

theorem stops_dropWhile {p : Char → Bool} (l : List Char) : Stops p (l.dropWhile p) := by
  intro c hc
  cases h : l.dropWhile p with
  | nil =>
    rw [h] at hc
    exact nomatch hc
  | cons d r =>
    have hne : l.dropWhile p ≠ [] := by
      rw [h]
      exact List.cons_ne_nil d r
    have hhead := List.head_dropWhile_not p hne
    simp only [h, List.head_cons] at hhead
    rw [h, List.head?_cons, Option.mem_some_iff] at hc
    rw [← hc]
    exact hhead

/-! ## Joined texts -/

/-- A part of a text has the text's characters. -/
theorem mem_of_mem_splitOnP {α : Type} {p : α → Bool} {l run : List α} {x : α}
    (hr : run ∈ l.splitOnP p) (hx : x ∈ run) : x ∈ l := by
  induction l generalizing run with
  | nil =>
    obtain rfl : run = [] := by simpa using hr
    cases hx
  | cons y l ih =>
    rw [List.splitOnP_cons_eq_if_modifyHead] at hr
    split at hr
    · rcases List.mem_cons.mp hr with rfl | hr
      · cases hx
      · exact List.mem_cons_of_mem y (ih hr hx)
    · cases hs : l.splitOnP p with
      | nil => exact absurd hs (List.splitOnP_ne_nil p l)
      | cons head rest =>
        rw [hs] at hr ih
        rcases List.mem_cons.mp hr with rfl | hr
        · rcases List.mem_cons.mp hx with rfl | hx
          · exact List.mem_cons_self
          · exact List.mem_cons_of_mem y (ih List.mem_cons_self hx)
        · exact List.mem_cons_of_mem y (ih (List.mem_cons_of_mem head hr) hx)

theorem splitOn_intercalate_flatMap (sep : Char) {ts : List (List Char)} (h : ts ≠ []) :
    ([sep].intercalate ts).splitOn sep = ts.flatMap fun t => t.splitOn sep := by
  induction ts with
  | nil => exact absurd rfl h
  | cons t ts ih =>
    rcases ts with _ | ⟨t', ts⟩
    · simp [List.intercalate_singleton]
    · rw [List.intercalate_cons_cons, List.append_assoc, List.singleton_append,
        List.splitOn_append_cons_self, ih (List.cons_ne_nil t' ts), ← List.flatMap_cons]

theorem intercalate_eq_iff (sep : Char) {ts us : List (List Char)} (ht : ts ≠ []) (hu : us ≠ []) :
    [sep].intercalate ts = [sep].intercalate us ↔
      (ts.flatMap fun t => t.splitOn sep) = us.flatMap fun u => u.splitOn sep := by
  rw [← splitOn_intercalate_flatMap sep ht, ← splitOn_intercalate_flatMap sep hu]
  constructor
  · intro h
    rw [h]
  · intro h
    have hback : ∀ l : List Char, [sep].intercalate (l.splitOn sep) = l := by
      intro l
      exact List.intercalate_splitOn sep
    rw [← hback ([sep].intercalate ts), h, hback]

end Text

namespace Json.Doc
set_option autoImplicit false
open Text

variable {α : Type} {m : Matcher} {ok : List Char → Prop}
  {lt lt' : α → List Char} {kt kt' : String → List Char}

/-- The rewriting `m` acts on each leaf and key alone and leaves the punctuation as it is. -/
structure TokenWise (m : Matcher) (ok : List Char → Prop) (lt lt' : α → List Char)
    (kt kt' : String → List Char) : Prop where
  leaf : ∀ a, Rewrites m ok (lt a) (lt' a)
  key : ∀ k, Rewrites m ok (kt k) (kt' k)
  pass : ∀ c, c ∈ ['[', ']', '{', '}', ',', ':'] → Passes m c
  admits : ∀ c, c ∈ [']', '}', ',', ':'] → ∀ cs, ok (c :: cs)

variable (h : TokenWise m ok lt lt' kt kt')

include h in
theorem textElems_admits (xs : List (Doc α)) (rest : List Char) :
    ok (textElems lt kt xs ++ rest) := by
  cases xs with
  | nil => exact h.admits ']' (by simp) _
  | cons x xs => exact h.admits ',' (by simp) _

include h in
theorem textMembers_admits (ps : List (String × Doc α)) (rest : List Char) :
    ok (textMembers lt kt ps ++ rest) := by
  rcases ps with _ | ⟨⟨k, x⟩, ps⟩
  · exact h.admits '}' (by simp) _
  · exact h.admits ',' (by simp) _

include h

mutual
/-- A rewriting that acts on each token alone rewrites the document token by token. -/
theorem rewrites_text : (t : Doc α) → Rewrites m ok (text lt kt t) (text lt' kt' t)
  | leaf a => h.leaf a
  | arr [] => by
    intro rest _
    exact replaceAll_pass (l := ['[', ']']) (by simp [h.pass]) rest
  | arr (x :: xs) => by
    intro rest _
    simp only [text, List.cons_append, List.append_assoc]
    rw [replaceAll_no_match (h.pass '[' (by simp) _),
      rewrites_text x _ (textElems_admits h xs rest), replaceAll_textElems xs rest]
  | obj [] => by
    intro rest _
    exact replaceAll_pass (l := ['{', '}']) (by simp [h.pass]) rest
  | obj ((k, x) :: ps) => by
    intro rest _
    simp only [text, List.cons_append, List.append_assoc]
    rw [replaceAll_no_match (h.pass '{' (by simp) _), h.key k _ (h.admits ':' (by simp) _),
      replaceAll_no_match (h.pass ':' (by simp) _), rewrites_text x _ (textMembers_admits h ps rest),
      replaceAll_textMembers ps rest]

theorem replaceAll_textElems : (xs : List (Doc α)) → (rest : List Char) →
    replaceAll m 0 (textElems lt kt xs ++ rest) = textElems lt' kt' xs ++ replaceAll m 0 rest
  | [], rest => replaceAll_no_match (h.pass ']' (by simp) rest)
  | x :: xs, rest => by
    simp only [textElems, List.cons_append, List.append_assoc]
    rw [replaceAll_no_match (h.pass ',' (by simp) _), rewrites_text x _ (textElems_admits h xs rest),
      replaceAll_textElems xs rest]

theorem replaceAll_textMembers : (ps : List (String × Doc α)) → (rest : List Char) →
    replaceAll m 0 (textMembers lt kt ps ++ rest) = textMembers lt' kt' ps ++ replaceAll m 0 rest
  | [], rest => replaceAll_no_match (h.pass '}' (by simp) rest)
  | (k, x) :: ps, rest => by
    simp only [textMembers, List.cons_append, List.append_assoc]
    rw [replaceAll_no_match (h.pass ',' (by simp) _), h.key k _ (h.admits ':' (by simp) _),
      replaceAll_no_match (h.pass ':' (by simp) _), rewrites_text x _ (textMembers_admits h ps rest),
      replaceAll_textMembers ps rest]
end

end Json.Doc
