import LiteDbModel.Lib.Text

/-!
# Reading a text from its front

Words in any case, blanks and the blanks around a text, with what is left behind them.
-/

namespace Scan
set_option autoImplicit false
open Text (isSpace Stops stops_append stops_of_forall stops_dropWhile takeWhile_stop dropWhile_stop)

/-- `\w` of a regular expression. -/
def isWordChar (c : Char) : Bool :=
  ('a' ≤ c && c ≤ 'z') || ('A' ≤ c && c ≤ 'Z') || ('0' ≤ c && c ≤ '9') || c = '_'

/-- A word in any case at the head, taken off. -/
def dropWord (word : List Char) (cs : List Char) : Option (List Char) :=
  if (cs.take word.length).map Char.toLower = word then some (cs.drop word.length) else none

/-- `\s+`, taken off. -/
def dropSpaces : List Char → Option (List Char)
  | [] => none
  | c :: cs => if isSpace c then some (cs.dropWhile isSpace) else none

def trim (cs : List Char) : List Char :=
  ((cs.dropWhile Text.isSpace).reverse.dropWhile Text.isSpace).reverse

/-! ## Characters -/

theorem space_range {c : Char} (h : isSpace c = true) : c.toNat ≤ 32 ∨ 160 ≤ c.toNat := by
  simp only [isSpace, Bool.or_eq_true, Bool.and_eq_true, decide_eq_true_eq] at h
  rcases h with (((((((((((((h | h) | h) | h) | h) | h) | h) | h) | h) | h) | h) | h) | h) | h) | h
  case inl.inl.inl.inl.inl.inl.inr =>
    have hle : '\u2000'.toNat ≤ c.toNat := h.1
    have hval : '\u2000'.toNat = 8192 := rfl
    omega
  all_goals subst h; decide

theorem wordChar_range {c : Char} (h : isWordChar c = true) : 48 ≤ c.toNat ∧ c.toNat ≤ 122 := by
  simp only [isWordChar, Bool.or_eq_true, Bool.and_eq_true, decide_eq_true_eq] at h
  have hval : 'a'.toNat = 97 ∧ 'z'.toNat = 122 ∧ 'A'.toNat = 65 ∧ 'Z'.toNat = 90 ∧
      '0'.toNat = 48 ∧ '9'.toNat = 57 := ⟨rfl, rfl, rfl, rfl, rfl, rfl⟩
  rcases h with ((h | h) | h) | h
  · have h₁ : 'a'.toNat ≤ c.toNat := h.1
    have h₂ : c.toNat ≤ 'z'.toNat := h.2
    omega
  · have h₁ : 'A'.toNat ≤ c.toNat := h.1
    have h₂ : c.toNat ≤ 'Z'.toNat := h.2
    omega
  · have h₁ : '0'.toNat ≤ c.toNat := h.1
    have h₂ : c.toNat ≤ '9'.toNat := h.2
    omega
  · subst h
    decide

theorem toLower_of_space {c : Char} (h : isSpace c = true) : c.toLower = c := by
  have hrange := space_range h
  rw [Char.toLower]
  split
  next hc =>
    have h₁ : 'A'.toNat ≤ c.toNat := hc.1
    have h₂ : c.toNat ≤ 'Z'.toNat := hc.2
    have hval : 'A'.toNat = 65 ∧ 'Z'.toNat = 90 := ⟨rfl, rfl⟩
    omega
  next => rfl

theorem toLower_eq_or (c : Char) : c.toLower = c ∨ 97 ≤ c.toLower.toNat := by
  rw [Char.toLower]
  split
  next hc =>
    right
    have h₁ : 'A'.toNat ≤ c.toNat := hc.1
    have h₂ : c.toNat ≤ 'Z'.toNat := hc.2
    have hval : 'A'.toNat = 65 ∧ 'Z'.toNat = 90 := ⟨rfl, rfl⟩
    have hsum : (c.val + ('a'.val - 'A'.val)).toNat = c.toNat + 32 := by
      rw [UInt32.toNat_add]
      have hdiff : ('a'.val - 'A'.val).toNat = 32 := rfl
      rw [hdiff]
      exact Nat.mod_eq_of_lt (by
        have : c.val.toNat = c.toNat := rfl
        omega)
    show 97 ≤ (c.val + ('a'.val - 'A'.val)).toNat
    omega
  next => exact Or.inl rfl

/-- Only a capital becomes another character. -/
theorem eq_of_toLower_eq {c d : Char} (h : c.toLower = d) (hd : d.toNat < 97) : c = d := by
  rcases toLower_eq_or c with hsame | hletter
  · rw [← hsame, h]
  · rw [h] at hletter
    omega
/-! ## Words and blanks at the front -/

/-- A text that neither begins nor ends with a blank. -/
def Trimmed (l : List Char) : Prop := Stops isSpace l ∧ Stops isSpace l.reverse

def Blank (l : List Char) : Prop := ∀ c ∈ l, isSpace c = true

theorem trim_blank {b b' l : List Char} (hb : Blank b) (hb' : Blank b') (hl : Trimmed l) :
    trim (b ++ (l ++ b')) = l := by
  rw [trim, List.dropWhile_append_of_pos hb]
  cases l with
  | nil =>
    have hnil : ([] ++ b').dropWhile isSpace = [] := List.dropWhile_eq_nil_iff.mpr hb'
    rw [hnil]
    rfl
  | cons c l =>
    have hdrop : (c :: l ++ b').dropWhile isSpace = c :: l ++ b' := by
      rw [List.cons_append, List.dropWhile_cons_of_neg (by simp [hl.1 c rfl])]
    rw [hdrop, List.reverse_append, dropWhile_stop (fun d hd => hb' d (List.mem_reverse.mp hd)) hl.2,
      List.reverse_reverse]

theorem trim_trimmed {l : List Char} (hl : Trimmed l) : trim l = l := by
  have hnil : Blank [] := fun _ hc => nomatch hc
  have h := trim_blank hnil hnil hl
  rwa [List.append_nil] at h

/-- Every text is its trimmed part between blanks. -/
theorem exists_trim (l : List Char) : ∃ b b', Blank b ∧ Blank b' ∧ Trimmed (trim l) ∧
    l = b ++ (trim l ++ b') := by
  have hfront : l = l.takeWhile isSpace ++ l.dropWhile isSpace :=
    List.takeWhile_append_dropWhile.symm
  generalize hm : l.dropWhile isSpace = m at hfront
  have hback : m = trim l ++ (m.reverse.takeWhile isSpace).reverse := by
    rw [trim, hm, ← List.reverse_append, List.takeWhile_append_dropWhile, List.reverse_reverse]
  refine ⟨l.takeWhile isSpace, (m.reverse.takeWhile isSpace).reverse, ?_, ?_, ⟨?_, ?_⟩, ?_⟩
  · exact fun c hc => List.mem_takeWhile_imp hc
  · exact fun c hc => List.mem_takeWhile_imp (List.mem_reverse.mp hc)
  · have hstop : Stops isSpace m := hm ▸ stops_dropWhile l
    rw [hback] at hstop
    intro c hc
    apply hstop c
    rw [List.head?_append, Option.mem_def.mp hc]
    rfl
  · rw [trim, List.reverse_reverse]
    exact stops_dropWhile _
  · rw [← hback]
    exact hfront

/-- A text without the blanks at its end. -/
theorem exists_trimEnd (l : List Char) : ∃ r b, l = r ++ b ∧ Blank b ∧ Stops isSpace r.reverse := by
  refine ⟨(l.reverse.dropWhile isSpace).reverse, (l.reverse.takeWhile isSpace).reverse, ?_, ?_, ?_⟩
  · rw [← List.reverse_append, List.takeWhile_append_dropWhile, List.reverse_reverse]
  · exact fun c hc => List.mem_takeWhile_imp (List.mem_reverse.mp hc)
  · rw [List.reverse_reverse]
    exact stops_dropWhile _

theorem dropSpaces_append {b r : List Char} (hne : b ≠ []) (hb : Blank b) (hr : Stops isSpace r) :
    dropSpaces (b ++ r) = some r := by
  obtain ⟨c, b, rfl⟩ := List.exists_cons_of_ne_nil hne
  rw [List.cons_append, dropSpaces, if_pos (hb c List.mem_cons_self),
    dropWhile_stop (fun d hd => hb d (List.mem_cons_of_mem c hd)) hr]

theorem dropWord_append {word w : List Char} (h : w.map Char.toLower = word) (r : List Char) :
    dropWord word (w ++ r) = some r := by
  have hlen : word.length = w.length := by rw [← h, List.length_map]
  rw [dropWord, hlen, List.take_left, List.drop_left, if_pos h]

/-- A word's first letter, lower-cased, is no blank. -/
theorem stops_word {word w : List Char} (h : w.map Char.toLower = word) (hne : word ≠ [])
    (hword : Stops isSpace word) (r : List Char) : w ≠ [] ∧ Stops isSpace (w ++ r) := by
  cases w with
  | nil => exact absurd h.symm hne
  | cons c w =>
    refine ⟨List.cons_ne_nil c w, ?_⟩
    intro d hd
    obtain rfl : c = d := Option.some_inj.mp hd
    by_contra hspace
    have hc : isSpace c = true := by simpa using hspace
    have hfalse := hword c (by rw [← h, List.map_cons, toLower_of_space hc]; rfl)
    rw [hc] at hfalse
    exact nomatch hfalse

theorem dropWord_some {word cs r : List Char} (h : dropWord word cs = some r) :
    ∃ w, cs = w ++ r ∧ w.map Char.toLower = word := by
  rw [dropWord] at h
  split at h
  next hword =>
    refine ⟨cs.take word.length, ?_, hword⟩
    rw [← Option.some_inj.mp h, List.take_append_drop]
  next => exact nomatch h

theorem dropSpaces_some {cs r : List Char} (h : dropSpaces cs = some r) :
    ∃ c t, cs = c :: t ∧ isSpace c = true ∧ r = cs.dropWhile isSpace := by
  cases cs with
  | nil => exact nomatch h
  | cons c cs =>
    rw [dropSpaces] at h
    split at h
    next hc =>
      refine ⟨c, cs, rfl, hc, ?_⟩
      rw [← Option.some_inj.mp h, List.dropWhile_cons_of_pos hc]
    next => exact nomatch h

/-! ## The last occurrence of a text -/

def lastIndexOf (pat : List Char) : List Char → Option Nat
  | [] => if pat = [] then some 0 else none
  | c :: cs =>
    match lastIndexOf pat cs with
    | some i => some (i + 1)
    | none => if pat <+: c :: cs then some 0 else none

theorem lastIndexOf_eq_none_iff {pat cs : List Char} :
    lastIndexOf pat cs = none ↔ ¬ pat <:+: cs := by
  induction cs with
  | nil =>
    rw [lastIndexOf, List.infix_nil]
    split <;> simp_all
  | cons c cs ih =>
    rw [lastIndexOf, List.infix_cons_iff, not_or]
    cases hrest : lastIndexOf pat cs with
    | some i =>
      have hlater : pat <:+: cs := by
        by_contra hno
        rw [ih.mpr hno] at hrest
        exact nomatch hrest
      simp [hlater]
    | none =>
      have hno := ih.mp hrest
      by_cases hpre : pat <+: c :: cs <;> simp [hpre, hno]

theorem lastIndexOf_prefix {pat cs : List Char} {i : Nat} (h : lastIndexOf pat cs = some i) :
    pat <+: cs.drop i := by
  induction cs generalizing i with
  | nil =>
    rw [lastIndexOf] at h
    split at h
    next hpat =>
      rw [hpat]
      exact List.nil_prefix
    next => cases h
  | cons c cs ih =>
    rw [lastIndexOf] at h
    split at h
    next j hj =>
      cases h
      exact ih hj
    next =>
      split at h
      next hpre =>
        cases h
        exact hpre
      next => cases h

theorem lastIndexOf_append {pat r : List Char} {i : Nat} (h : lastIndexOf pat r = some i)
    (l : List Char) : lastIndexOf pat (l ++ r) = some (l.length + i) := by
  induction l with
  | nil => rw [List.nil_append, h, List.length_nil, Nat.zero_add]
  | cons c l ih =>
    rw [List.cons_append, lastIndexOf, ih, List.length_cons]
    simp only [Option.some.injEq]
    omega

/-- A known occurrence is the last one unless there is a later one. -/
theorem lastIndexOf_known {pat r : List Char} {c : Char} (h : pat <+: c :: r) (l : List Char) :
    ∃ i, lastIndexOf pat (l ++ c :: r) = some (l.length + i) ∧ (i = 0 ↔ ¬ pat <:+: r) := by
  cases hrest : lastIndexOf pat r with
  | none =>
    have hhere : lastIndexOf pat (c :: r) = some 0 := by simp only [lastIndexOf, hrest, h, if_true]
    exact ⟨0, lastIndexOf_append hhere l, by simp [lastIndexOf_eq_none_iff.mp hrest]⟩
  | some i =>
    have hhere : lastIndexOf pat (c :: r) = some (i + 1) := by simp only [lastIndexOf, hrest]
    refine ⟨i + 1, lastIndexOf_append hhere l, ?_⟩
    have hlater : pat <:+: r := by
      by_contra hno
      rw [lastIndexOf_eq_none_iff.mpr hno] at hrest
      exact nomatch hrest
    simp [hlater]

/-- A text is cut at the first occurrence of a character in one way. -/
theorem cut_inj {d : Char} {l₁ l₂ t₁ t₂ : List Char} (h₁ : d ∉ l₁) (h₂ : d ∉ l₂)
    (h : l₁ ++ d :: t₁ = l₂ ++ d :: t₂) : l₁ = l₂ ∧ t₁ = t₂ := by
  have hbefore : ∀ {l : List Char}, d ∉ l → ∀ t, (l ++ d :: t).takeWhile (fun c => c ≠ d) = l := by
    intro l hl t
    apply takeWhile_stop
    · intro c hc
      simp only [ne_eq, decide_not, Bool.not_eq_true', decide_eq_false_iff_not]
      rintro rfl
      exact hl hc
    · intro c hc
      obtain rfl : d = c := Option.some_inj.mp hc
      simp
  have hl : l₁ = l₂ := by rw [← hbefore h₁ t₁, h, hbefore h₂]
  subst hl
  exact ⟨rfl, (List.cons.inj (List.append_cancel_left h)).2⟩

end Scan
