import Mathlib

/-!
# The lexical structure of SQL text

`Mode` is the scanner's state: code, string literals and quoted identifiers
with doubled quotes, line comments and nested block comments. A character is
live when it is read in code. `numbered` writes the live question marks of a
text as `$1`, `$2`, … and `refs` reads such references back.
-/

namespace SqlText
set_option autoImplicit false

inductive Mode
  | code
  /-- Code after a minus or a slash, which may open a comment. -/
  | dash
  | slash
  | single
  | double
  | back
  | line
  | block (depth : Nat)
  | blockStar (depth : Nat)
  | blockSlash (depth : Nat)
deriving DecidableEq

namespace Mode

def live : Mode → Bool
  | code | dash | slash => true
  | _ => false

/-- The mode after a character of code. -/
def open' (c : Char) : Mode :=
  if c = '\'' then single
  else if c = '"' then double
  else if c = '`' then back
  else if c = '-' then dash
  else if c = '/' then slash
  else code

def step : Mode → Char → Mode
  | code, c => open' c
  | dash, c => if c = '-' then line else open' c
  | slash, c => if c = '*' then block 0 else open' c
  | single, c => if c = '\'' then code else single
  | double, c => if c = '"' then code else double
  | back, c => if c = '`' then code else back
  | line, c => if c = '\n' then code else line
  | block d, c => if c = '*' then blockStar d else if c = '/' then blockSlash d else block d
  | blockStar d, c =>
    if c = '/' then (if d = 0 then code else block (d - 1))
    else if c = '*' then blockStar d
    else block d
  | blockSlash d, c =>
    if c = '*' then block (d + 1) else if c = '/' then blockSlash d else block d

def run (m : Mode) (cs : List Char) : Mode := cs.foldl step m

@[simp] theorem run_nil (m : Mode) : m.run [] = m := rfl

@[simp] theorem run_cons (m : Mode) (c : Char) (cs : List Char) :
    m.run (c :: cs) = (m.step c).run cs := rfl

theorem run_append (m : Mode) (cs ds : List Char) : m.run (cs ++ ds) = (m.run cs).run ds :=
  List.foldl_append

/-- A character that opens nothing leaves code in code. -/
theorem step_plain {m : Mode} (hm : m.live = true) {c : Char}
    (hc : c ≠ '\'' ∧ c ≠ '"' ∧ c ≠ '`' ∧ c ≠ '-' ∧ c ≠ '/' ∧ c ≠ '*') : m.step c = code := by
  obtain ⟨h1, h2, h3, h4, h5, h6⟩ := hc
  have ho : open' c = code := by simp [open', h1, h2, h3, h4, h5]
  cases m with
  | code => exact ho
  | dash => simp [step, h4, ho]
  | slash => simp [step, h6, ho]
  | _ => cases hm

/-- The mode without the memory of the last character. -/
def settle : Mode → Mode
  | code | dash | slash => code
  | blockStar d | blockSlash d => block d
  | m => m

@[simp] theorem settle_settle (m : Mode) : m.settle.settle = m.settle := by
  cases m <;> rfl

theorem settle_of_live {m : Mode} (h : m.live = true) : m.settle = code := by
  cases m with
  | code | dash | slash => rfl
  | _ => cases h

@[simp] theorem live_settle (m : Mode) : m.settle.live = m.live := by
  cases m <;> rfl

/-- A character that ends no line comment and opens or closes nothing. -/
def Inert (c : Char) : Prop :=
  c ≠ '\'' ∧ c ≠ '"' ∧ c ≠ '`' ∧ c ≠ '-' ∧ c ≠ '/' ∧ c ≠ '*' ∧ c ≠ '\n'

instance (c : Char) : Decidable (Inert c) := inferInstanceAs (Decidable (_ ∧ _))

theorem step_inert (m : Mode) {c : Char} (h : Inert c) : m.step c = m.settle := by
  obtain ⟨h1, h2, h3, h4, h5, h6, h7⟩ := h
  have ho : open' c = code := by simp [open', h1, h2, h3, h4, h5]
  cases m with
  | code | dash | slash => simp [step, settle, h4, h6, ho]
  | single => simp [step, settle, h1]
  | double => simp [step, settle, h2]
  | back => simp [step, settle, h3]
  | line => simp [step, settle, h7]
  | block d => simp [step, settle, h5, h6]
  | blockStar d => simp [step, settle, h5, h6]
  | blockSlash d => simp [step, settle, h5, h6]

theorem run_inert (m : Mode) {cs : List Char} (hne : cs ≠ []) (h : ∀ c ∈ cs, Inert c) :
    m.run cs = m.settle := by
  induction cs generalizing m with
  | nil => exact absurd rfl hne
  | cons c cs ih =>
    rw [run_cons, step_inert m (h c List.mem_cons_self)]
    cases cs with
    | nil => rfl
    | cons d ds =>
      rw [ih m.settle (by simp) fun e he => h e (List.mem_cons_of_mem c he), settle_settle]

end Mode

/-! ## Marked texts -/

/-- Each character with whether it is live. -/
abbrev Marked := List (Char × Bool)

def mark (m : Mode) : List Char → Marked
  | [] => []
  | c :: cs => (c, m.live) :: mark (m.step c) cs

def Marked.text (a : Marked) : List Char := a.map Prod.fst

@[simp] theorem text_mark (m : Mode) (cs : List Char) : (mark m cs).text = cs := by
  induction cs generalizing m with
  | nil => rfl
  | cons c cs ih =>
    simp only [mark, Marked.text, List.map_cons] at ih ⊢
    rw [ih]

theorem mark_append (m : Mode) (cs ds : List Char) :
    mark m (cs ++ ds) = mark m cs ++ mark (m.run cs) ds := by
  induction cs generalizing m with
  | nil => rfl
  | cons c cs ih => simp only [List.cons_append, mark, ih, Mode.run_cons]

/-- The number of live question marks. -/
def holes (a : Marked) : Nat := a.count ('?', true)

/-- The number of question marks in literals, quoted identifiers and comments. -/
def deads (a : Marked) : Nat := a.count ('?', false)

theorem count_text (a : Marked) : a.text.count '?' = holes a + deads a := by
  induction a with
  | nil => rfl
  | cons x a ih =>
    obtain ⟨c, l⟩ := x
    simp only [Marked.text, List.map_cons, List.count_cons, holes, deads] at ih ⊢
    rw [ih]
    by_cases hc : c = '?' <;> cases l <;> simp [hc] <;> omega

/-! ## Numbered references -/

/-- Write the live question marks as `$(k+1)`, `$(k+2)`, …, in order. -/
def numbered : Nat → Marked → List Char
  | _, [] => []
  | k, (c, l) :: a =>
    if c = '?' ∧ l = true then '$' :: (Nat.toDigits 10 (k + 1) ++ numbered (k + 1) a)
    else c :: numbered k a

/-- The state of reading a reference: outside, after the dollar, in its digits. -/
inductive Phase
  | none
  | dollar
  | num (n : Nat)

def Phase.emit : Phase → List Nat
  | num n => [n]
  | _ => []

def Phase.digit (c : Char) : Phase → Phase
  | none => none
  | dollar => num (c.toNat - 48)
  | num n => num (10 * n + (c.toNat - 48))

/-- The numbers of the `$`-references among the live characters, in order. -/
def refs : Phase → Marked → List Nat
  | p, [] => p.emit
  | p, (c, l) :: a =>
    if l = true ∧ c.isDigit = true then refs (p.digit c) a
    else if l = true ∧ c = '$' then p.emit ++ refs .dollar a
    else p.emit ++ refs .none a

/-- Some live `$` or question mark has a live digit right after it. -/
def stray : Bool → Marked → Bool
  | _, [] => false
  | armed, (c, l) :: a =>
    (armed && l && c.isDigit) || stray (l && (c == '$' || c == '?')) a

@[simp] theorem holes_cons (c : Char) (l : Bool) (a : Marked) :
    holes ((c, l) :: a) = holes a + if c = '?' ∧ l = true then 1 else 0 := by
  simp [holes, List.count_cons]

@[simp] theorem holes_nil : holes [] = 0 := rfl

@[simp] theorem deads_nil : deads [] = 0 := rfl

@[simp] theorem deads_append (a b : Marked) : deads (a ++ b) = deads a + deads b :=
  List.count_append

@[simp] theorem text_append (a b : Marked) :
    Marked.text (a ++ b) = Marked.text a ++ Marked.text b := List.map_append

@[simp] theorem holes_append (a b : Marked) : holes (a ++ b) = holes a + holes b :=
  List.count_append

def Phase.armed : Phase → Bool
  | none => false
  | _ => true

def Phase.positive : Phase → Prop
  | num n => 0 < n
  | _ => True

theorem digit_plain {c : Char} (h : c.isDigit = true) :
    c ≠ '\'' ∧ c ≠ '"' ∧ c ≠ '`' ∧ c ≠ '-' ∧ c ≠ '/' ∧ c ≠ '*' := by
  have hne : ∀ d : Char, ¬ d.isDigit = true → c ≠ d := by
    rintro d hd rfl
    exact hd h
  exact ⟨hne _ (by decide), hne _ (by decide), hne _ (by decide), hne _ (by decide),
    hne _ (by decide), hne _ (by decide)⟩

theorem mark_digits {ds : List Char} (h : ∀ c ∈ ds, c.isDigit = true) :
    mark .code ds = ds.map (fun c => (c, true)) ∧ Mode.code.run ds = .code := by
  induction ds with
  | nil => exact ⟨rfl, rfl⟩
  | cons c ds ih =>
    have hstep := Mode.step_plain (m := .code) rfl (digit_plain (h c List.mem_cons_self))
    obtain ⟨hm, hr⟩ := ih fun d hd => h d (List.mem_cons_of_mem c hd)
    exact ⟨by simp [mark, hstep, hm, Mode.live], by simp [hstep, hr]⟩

theorem refs_digits {ds : List Char} (h : ∀ c ∈ ds, c.isDigit = true) (n : Nat) (a : Marked) :
    refs (.num n) (ds.map (fun c => (c, true)) ++ a) = refs (.num (Nat.ofDigitChars 10 ds n)) a := by
  induction ds generalizing n with
  | nil => rfl
  | cons c ds ih =>
    have hc := h c List.mem_cons_self
    simp only [List.map_cons, List.cons_append, refs, hc, and_self, if_true, Phase.digit]
    rw [ih fun d hd => h d (List.mem_cons_of_mem c hd)]
    simp [Nat.ofDigitChars]

/-- A written reference reads as its number, which the characters behind it may extend. -/
theorem refs_reference (k : Nat) (a : Marked) :
    refs .dollar ((Nat.toDigits 10 k).map (fun c => (c, true)) ++ a) = refs (.num k) a := by
  have hall : ∀ c ∈ Nat.toDigits 10 k, c.isDigit = true := fun c hc =>
    Nat.isDigit_of_mem_toDigits (by decide) (by decide) hc
  have hval : Nat.ofDigitChars 10 (Nat.toDigits 10 k) 0 = k := Nat.ofDigitChars_ten_toDigits
  cases hd : Nat.toDigits 10 k with
  | nil => exact absurd hd Nat.toDigits_ne_nil
  | cons c ds =>
    rw [hd] at hall hval
    have hc := hall c List.mem_cons_self
    simp only [List.map_cons, List.cons_append, refs, hc, and_self, if_true, Phase.digit]
    rw [refs_digits fun d hd => hall d (List.mem_cons_of_mem c hd)]
    rw [← hval]
    simp [Nat.ofDigitChars]

/-- The references of a numbered text, read from the mode it starts in. -/
def numberedRefs (p : Phase) (m : Mode) (k : Nat) (cs : List Char) : List Nat :=
  refs p (mark m (numbered k (mark m cs)))

theorem numberedRefs_nil (p : Phase) (m : Mode) (k : Nat) : numberedRefs p m k [] = p.emit := by
  cases p <;> rfl

theorem numberedRefs_hole (p : Phase) {m : Mode} (hm : m.live = true) (k : Nat) (cs : List Char) :
    numberedRefs p m k ('?' :: cs) = p.emit ++ numberedRefs (.num (k + 1)) .code (k + 1) cs := by
  have hq : m.step '?' = .code := Mode.step_plain hm (by decide)
  have hd : m.step '$' = .code := Mode.step_plain hm (by decide)
  have hall : ∀ c ∈ Nat.toDigits 10 (k + 1), c.isDigit = true := fun c hc =>
    Nat.isDigit_of_mem_toDigits (by decide) (by decide) hc
  obtain ⟨hmark, hrun⟩ := mark_digits hall
  unfold numberedRefs
  simp only [mark, hm, hq, numbered, and_self, if_true, hd]
  rw [mark_append, hmark, hrun]
  simp only [refs, show ('$' : Char).isDigit = false from rfl, Bool.false_eq_true, and_false,
    if_false, and_self, if_true]
  rw [refs_reference]

theorem numberedRefs_cons (p : Phase) {m : Mode} {c : Char} (hc : ¬ (c = '?' ∧ m.live = true))
    (k : Nat) (cs : List Char) :
    numberedRefs p m k (c :: cs) =
      if m.live = true ∧ c.isDigit = true then numberedRefs (p.digit c) (m.step c) k cs
      else if m.live = true ∧ c = '$' then p.emit ++ numberedRefs .dollar (m.step c) k cs
      else p.emit ++ numberedRefs .none (m.step c) k cs := by
  unfold numberedRefs
  simp only [mark, numbered, hc, if_false, refs]

theorem refs_num_head (n : Nat) (a : Marked) : ∃ w t, refs (.num n) a = w :: t ∧ n ≤ w := by
  induction a generalizing n with
  | nil => exact ⟨n, [], rfl, Nat.le_refl n⟩
  | cons x a ih =>
    obtain ⟨c, l⟩ := x
    simp only [refs, Phase.digit, Phase.emit]
    split
    · obtain ⟨w, t, hw, hle⟩ := ih (10 * n + (c.toNat - 48))
      exact ⟨w, t, hw, by omega⟩
    split
    · exact ⟨n, _, rfl, Nat.le_refl n⟩
    · exact ⟨n, _, rfl, Nat.le_refl n⟩

theorem emit_digit_length (p : Phase) (c : Char) : p.emit.length ≤ (p.digit c).emit.length := by
  cases p <;> simp [Phase.emit, Phase.digit]

theorem numberedRefs_length (p : Phase) (m : Mode) (k : Nat) (cs : List Char) :
    p.emit.length + holes (mark m cs) ≤ (numberedRefs p m k cs).length := by
  induction cs generalizing p m k with
  | nil => simp [numberedRefs_nil, mark]
  | cons c cs ih =>
    by_cases hc : c = '?' ∧ m.live = true
    · obtain ⟨rfl, hm⟩ := hc
      have hq : m.step '?' = .code := Mode.step_plain hm (by decide)
      have := ih (.num (k + 1)) .code (k + 1)
      rw [numberedRefs_hole p hm]
      simp only [mark, hm, hq, holes_cons, and_self, if_true, List.length_append, Phase.emit,
        List.length_singleton] at this ⊢
      omega
    · rw [numberedRefs_cons p hc]
      simp only [mark, holes_cons, hc, if_false, Nat.add_zero]
      split
      · have := ih (p.digit c) (m.step c) k
        have := emit_digit_length p c
        omega
      split
      · have := ih .dollar (m.step c) k
        simp only [List.length_append]
        omega
      · have := ih .none (m.step c) k
        simp only [List.length_append]
        omega

/-- The references of a numbered text are `1 … n` iff no live `$` or hole runs into a digit. -/
theorem numberedRefs_eq_iff (p : Phase) (hp : p.positive) (m : Mode) (k : Nat) (cs : List Char) :
    numberedRefs p m k cs = p.emit ++ List.range' (k + 1) (holes (mark m cs)) ↔
      stray p.armed (mark m cs) = false := by
  induction cs generalizing p m k with
  | nil => simp [numberedRefs_nil, mark, stray]
  | cons c cs ih =>
    by_cases hc : c = '?' ∧ m.live = true
    · obtain ⟨rfl, hm⟩ := hc
      have hq : m.step '?' = .code := Mode.step_plain hm (by decide)
      have hih := ih (.num (k + 1)) (Nat.succ_pos k) .code (k + 1)
      rw [numberedRefs_hole p hm]
      simp only [mark, hm, hq, holes_cons, and_self, if_true, List.range'_succ, stray]
      simp only [Phase.emit, Phase.armed, List.singleton_append] at hih
      simpa using hih
    · rw [numberedRefs_cons p hc]
      simp only [mark, holes_cons, hc, if_false, Nat.add_zero, stray]
      split
      · rename_i h
        obtain ⟨hl, hdig⟩ := h
        have hnd : (c == '$' || c == '?') = false := by
          have : c ≠ '$' ∧ c ≠ '?' := by
            constructor <;> (rintro rfl; exact absurd hdig (by decide))
          simp [this]
        simp only [hl, hdig, hnd, Bool.and_true, Bool.and_false, Bool.or_eq_false_iff]
        cases p with
        | none =>
          have := ih .none trivial (m.step c) k
          simpa [Phase.digit, Phase.emit, Phase.armed] using this
        | dollar =>
          have hlen := numberedRefs_length (Phase.digit c .dollar) (m.step c) k cs
          constructor
          · intro h
            rw [h] at hlen
            simp only [Phase.emit, Phase.digit, List.length_singleton, List.nil_append,
              List.length_range'] at hlen
            omega
          · rintro ⟨h, _⟩
            cases h
        | num n =>
          obtain ⟨w, t, hw, hle⟩ := refs_num_head (10 * n + (c.toNat - 48))
            (mark (m.step c) (numbered k (mark (m.step c) cs)))
          constructor
          · intro h
            have hpos : 0 < n := hp
            rw [Phase.digit, numberedRefs, hw] at h
            simp only [Phase.emit, List.singleton_append, List.cons.injEq] at h
            omega
          · rintro ⟨h, _⟩
            cases h
      · rename_i hnd
        have hgap : (p.armed && m.live && c.isDigit) = false := by
          cases hl : m.live <;> cases hd : c.isDigit <;> simp_all
        rw [hgap, Bool.false_or]
        split
        · rename_i h
          obtain ⟨hl, rfl⟩ := h
          have := ih .dollar trivial (m.step '$') k
          simpa [hl, Phase.emit, Phase.armed] using this
        · rename_i h
          have hnot : (m.live && (c == '$' || c == '?')) = false := by
            cases hl : m.live <;> simp_all
          rw [hnot]
          have := ih .none trivial (m.step c) k
          simpa [Phase.emit, Phase.armed] using this

/-! ## Text that holds no reference -/

/-- Some characters, none of which opens, closes or refers to anything. -/
structure Mute (x : List Char) : Prop where
  ne : x ≠ []
  inert : ∀ c ∈ x, Mode.Inert c
  plain : ∀ c ∈ x, c ≠ '?' ∧ c ≠ '$' ∧ c.isDigit = false

/-- A reference ends before mute text, and none begins in it. -/
theorem refs_mute {x : List Char} (h : Mute x) (p : Phase) (m : Mode) (t : List Char) :
    refs p (mark m (x ++ t)) = p.emit ++ refs .none (mark m.settle t) := by
  obtain ⟨hne, hinert, hplain⟩ := h
  induction x generalizing p m with
  | nil => exact absurd rfl hne
  | cons c x ih =>
    obtain ⟨hc, hx⟩ := List.forall_mem_cons.mp hplain
    have hstep := Mode.step_inert m (hinert c List.mem_cons_self)
    rw [List.cons_append, mark, refs, if_neg (by simp [hc.2.2]), if_neg (by simp [hc.2.1]), hstep]
    cases x with
    | nil => rfl
    | cons d x =>
      have hrest := ih .none m.settle (List.cons_ne_nil d x)
        (fun e he => hinert e (List.mem_cons_of_mem c he)) hx
      rw [hrest, Mode.settle_settle]
      rfl

theorem refs_swap {x y : List Char} (hx : Mute x) (hy : Mute y) (h t : List Char) (p : Phase)
    (m : Mode) : refs p (mark m (h ++ x ++ t)) = refs p (mark m (h ++ y ++ t)) := by
  induction h generalizing p m with
  | nil =>
    rw [List.nil_append, List.nil_append, refs_mute hx, refs_mute hy]
  | cons c h ih =>
    simp only [List.cons_append, mark, refs, ih]

theorem run_swap {x y : List Char} (hx : Mute x) (hy : Mute y) (h t : List Char) (m : Mode) :
    m.run (h ++ x ++ t) = m.run (h ++ y ++ t) := by
  rw [Mode.run_append, Mode.run_append, Mode.run_inert _ hx.ne hx.inert, Mode.run_append,
    Mode.run_append, Mode.run_inert _ hy.ne hy.inert]

/-- A live dollar begins a reference, whatever stands before it. -/
theorem refs_append_dollar (p : Phase) (a b : Marked) :
    refs p (a ++ ('$', true) :: b) = refs p a ++ refs .dollar b := by
  induction a generalizing p with
  | nil =>
    simp only [List.nil_append, refs, show ('$' : Char).isDigit = false from rfl, Bool.false_eq_true,
      and_false, if_false, and_self, if_true]
  | cons x a ih =>
    obtain ⟨c, l⟩ := x
    simp only [List.cons_append, refs, ih]
    split
    · rfl
    · split
      · rw [List.append_assoc]
      · rw [List.append_assoc]

theorem holes_of_not_mem {cs : List Char} (h : '?' ∉ cs) (m : Mode) : holes (mark m cs) = 0 := by
  have hcount := count_text (mark m cs)
  rw [text_mark, List.count_eq_zero_of_not_mem h] at hcount
  omega

end SqlText
