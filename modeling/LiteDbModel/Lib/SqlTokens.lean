import Mathlib

/-!
# The tokens of a SQL text

A scanner for the comments, literals and quoted identifiers of a SQL dialect: it reads one
character at a time and gives the words and symbols that stand in code. A word of plain
characters that is a token is delimited by characters that are not plain.
-/

namespace SqlTokens
set_option autoImplicit false

inductive Token
  | word (w : List Char)
  /-- A literal or a quoted identifier. -/
  | quoted
  | symbol (c : Char)
deriving DecidableEq

/-- What a dialect's scanner does. -/
structure Syntax where
  /-- The character that closes what this one opens. -/
  quote : Char → Option Char
  /-- A backslash in what this character closes takes the next one with it. -/
  escapes : Char → Bool
  /-- `E'…'` has backslashes. -/
  escapeString : Bool
  dollarQuotes : Bool
  hashComments : Bool
  /-- `--` is a comment only before a space. -/
  dashSpace : Bool
  lineEnd : Char → Bool
  nestedComments : Bool
  /-- The content of `/*! … */` is code. -/
  executableComments : Bool

def isSpace (c : Char) : Bool :=
  c = ' ' || c = '\t' || c = '\n' || c = '\x0b' || c = '\x0c' || c = '\r'

def isPlain (c : Char) : Bool :=
  ('a' ≤ c && c ≤ 'z') || ('A' ≤ c && c ≤ 'Z') || ('0' ≤ c && c ≤ '9') || c = '_'

/-- A character of a word. -/
def isIdent (c : Char) : Bool := isPlain c || c = '$' || 128 ≤ c.toNat

inductive Mode
  /-- Code, between tokens. -/
  | code
  | word (w : List Char)
  | dash
  | dashes
  | slash
  /-- A star of an executable comment. -/
  | star
  | line
  | opened
  | block (depth : Nat) (last : Char)
  | quote (close : Char) (escapes : Bool)
  | escaped (close : Char)
  | closed (close : Char) (escapes : Bool)
  | tag (t : List Char)
  | body (t : List Char) (seen : Option (List Char))

/-- The mode, and whether it is inside an executable comment. -/
structure State where
  mode : Mode
  inside : Bool

/-- A character of code that belongs to no token yet. -/
def openAt (S : Syntax) (inside : Bool) (c : Char) : Mode × List Token :=
  if isSpace c then (.code, [])
  else if c = '$' && S.dollarQuotes then (.tag [], [])
  else if isIdent c then (.word [c], [])
  else if c = '-' then (.dash, [])
  else if c = '/' then (.slash, [])
  else if c = '*' && inside then (.star, [])
  else if c = '#' && S.hashComments then (.line, [])
  else match S.quote c with
    | some close => (.quote close (S.escapes close), [])
    | none => (.code, [.symbol c])

/-- The tokens before those of a character of code. -/
def after (ts : List Token) (p : Mode × List Token) : Mode × List Token := (p.1, ts ++ p.2)

def inComment (S : Syntax) (depth : Nat) (last c : Char) : Mode × List Token :=
  if last = '*' && c = '/' then (if depth = 0 then .code else .block (depth - 1) ' ', [])
  else if S.nestedComments && last = '/' && c = '*' then (.block (depth + 1) ' ', [])
  else (.block depth c, [])

def stepMode (S : Syntax) (inside : Bool) : Mode → Char → Mode × List Token
  | .code, c => openAt S inside c
  | .word w, c =>
    if isIdent c then (.word (w ++ [c]), [])
    else if S.escapeString && (w = ['e'] || w = ['E']) && c = '\'' then (.quote '\'' true, [])
    else after [.word w] (openAt S inside c)
  | .dash, c =>
    if c = '-' then (if S.dashSpace then .dashes else .line, [])
    else after [.symbol '-'] (openAt S inside c)
  | .dashes, c =>
    if S.lineEnd c then (.code, [])
    else if isSpace c then (.line, [])
    else if c = '-' then (.dashes, [.symbol '-'])
    else after [.symbol '-', .symbol '-'] (openAt S inside c)
  | .slash, c => if c = '*' then (.opened, []) else after [.symbol '/'] (openAt S inside c)
  | .star, c => if c = '/' then (.code, []) else after [.symbol '*'] (openAt S inside c)
  | .line, c => if S.lineEnd c then (.code, []) else (.line, [])
  | .opened, c => if c = '!' && S.executableComments then (.code, []) else inComment S 0 ' ' c
  | .block depth last, c => inComment S depth last c
  | .quote close escapes, c =>
    if escapes && c = '\\' then (.escaped close, [])
    else if c = close then (.closed close escapes, [])
    else (.quote close escapes, [])
  | .escaped close, _ => (.quote close true, [])
  | .closed close escapes, c =>
    if c = close && S.quote close = some close then (.quote close escapes, [])
    else after [.quoted] (openAt S inside c)
  | .tag t, c =>
    if c = '$' then (if t.head?.any Char.isDigit then .tag [] else .body t none, [])
    else if isIdent c then (.tag (t ++ [c]), [])
    else after [.symbol '$'] (openAt S inside c)
  | .body t seen, c =>
    if c = '$' then (if seen = some t then (.code, [.quoted]) else (.body t (some []), []))
    else (.body t (seen.map (· ++ [c])), [])

/-- `/*!` opens an executable comment and `*/` closes it. -/
def stepInside (S : Syntax) (s : State) (c : Char) : Bool :=
  match s.mode with
  | .opened => s.inside || (c = '!' && S.executableComments)
  | .star => s.inside && c ≠ '/'
  | _ => s.inside

def step (S : Syntax) (s : State) (c : Char) : State × List Token :=
  let (mode, ts) := stepMode S s.inside s.mode c
  (⟨mode, stepInside S s c⟩, ts)

/-- The tokens that end with the text. -/
def finish : Mode → List Token
  | .word w => [.word w]
  | .dash => [.symbol '-']
  | .dashes => [.symbol '-', .symbol '-']
  | .slash => [.symbol '/']
  | .star => [.symbol '*']
  | .closed _ _ => [.quoted]
  | .tag _ => [.symbol '$']
  | _ => []

def scan (S : Syntax) : State → List Char → List Token
  | s, [] => finish s.mode
  | s, c :: cs => (step S s c).2 ++ scan S (step S s c).1 cs

def tokens (S : Syntax) (text : List Char) : List Token := scan S ⟨.code, false⟩ text

/-! ## Words stand apart -/

/-- No plain character comes right before what follows. -/
def Edge (pre : List Char) : Prop := ∀ c ∈ pre.getLast?, isPlain c = false

def Standing (w text : List Char) : Prop :=
  ∃ pre post, text = pre ++ w ++ post ∧ Edge pre ∧ ∀ c ∈ post.head?, isPlain c = false

/-- What closes a quotation or ends a line is no plain character. -/
structure Syntax.WellFormed (S : Syntax) : Prop where
  closes : ∀ c close, S.quote c = some close → isPlain close = false
  ends : ∀ c, S.lineEnd c = true → isPlain c = false

/-- What the mode says of the characters read. -/
def Sound (read : List Char) : Mode → Prop
  | .word w => ∃ pre, read = pre ++ w ∧ Edge pre
  | .quote close _ | .escaped close => isPlain close = false
  | .closed close _ => isPlain close = false ∧ Edge read
  | .code | .dash | .dashes | .slash | .star => Edge read
  | _ => True

theorem edge_nil : Edge [] := by
  intro c hc
  cases hc

theorem edge_append {read : List Char} {c : Char} (hc : isPlain c = false) : Edge (read ++ [c]) := by
  intro d hd
  rw [List.getLast?_append, List.getLast?_singleton] at hd
  obtain rfl : c = d := by simpa using hd
  exact hc

theorem plain_of_not_ident {c : Char} (h : ¬ isIdent c = true) : isPlain c = false := by
  rw [isIdent, Bool.or_assoc, Bool.or_eq_true, not_or] at h
  simpa using h.1

variable {S : Syntax} {inside : Bool} {read : List Char}

theorem sound_openAt (hS : S.WellFormed) {c : Char} (h : isIdent c = true → Edge read) :
    Sound (read ++ [c]) (openAt S inside c).1 := by
  unfold openAt
  by_cases hspace : isSpace c = true
  · rw [if_pos hspace]
    apply edge_append
    simp only [isSpace, Bool.or_eq_true, decide_eq_true_eq] at hspace
    rcases hspace with ((((rfl | rfl) | rfl) | rfl) | rfl) | rfl <;> rfl
  rw [if_neg hspace]
  by_cases hdollar : (c = '$' && S.dollarQuotes) = true
  · rw [if_pos hdollar]
    trivial
  rw [if_neg hdollar]
  by_cases hident : isIdent c = true
  · rw [if_pos hident]
    exact ⟨read, rfl, h hident⟩
  rw [if_neg hident]
  have hedge : Edge (read ++ [c]) := edge_append (plain_of_not_ident hident)
  split
  · exact hedge
  split
  · exact hedge
  split
  · exact hedge
  split
  · trivial
  cases hq : S.quote c with
  | some close => exact hS.closes c close hq
  | none => exact hedge

theorem word_not_mem_openAt {c : Char} {w : List Char} : Token.word w ∉ (openAt S inside c).2 := by
  unfold openAt
  repeat' split
  all_goals simp

theorem sound_inComment {depth : Nat} {last c : Char} :
    Sound (read ++ [c]) (inComment S depth last c).1 := by
  unfold inComment
  split
  next h =>
    obtain rfl : c = '/' := by
      simp only [Bool.and_eq_true, decide_eq_true_eq] at h
      exact h.2
    split
    · exact edge_append rfl
    · trivial
  · split
    · trivial
    · trivial

theorem word_not_mem_inComment {depth : Nat} {last c : Char} {w : List Char} :
    Token.word w ∉ (inComment S depth last c).2 := by
  unfold inComment
  repeat' split
  all_goals simp

/-- What a step leaves, and the word that it gives: one of plain characters ends before another. -/
structure StepSound (read : List Char) (c : Char) (p : Mode × List Token) : Prop where
  mode : Sound (read ++ [c]) p.1
  words : ∀ w, .word w ∈ p.2 → isPlain c = false ∧ ∃ pre, read = pre ++ w ∧ Edge pre

theorem stepSound_quiet {c : Char} {m : Mode} (h : Sound (read ++ [c]) m) : StepSound read c (m, []) where
  mode := h
  words w hw := by cases hw

theorem stepSound_openAt (hS : S.WellFormed) {c : Char} (h : isIdent c = true → Edge read) :
    StepSound read c (openAt S inside c) where
  mode := sound_openAt hS h
  words _ hw := absurd hw word_not_mem_openAt

theorem stepSound_after {c : Char} {ts : List Token} {p : Mode × List Token}
    (h : StepSound read c p) (hts : ∀ w, Token.word w ∉ ts) : StepSound read c (after ts p) where
  mode := h.mode
  words w hw := by
    rcases List.mem_append.mp hw with hw | hw
    · exact absurd hw (hts w)
    · exact h.words w hw

theorem stepSound_inComment {depth : Nat} {last c : Char} :
    StepSound read c (inComment S depth last c) where
  mode := sound_inComment
  words _ hw := absurd hw word_not_mem_inComment

theorem stepSound_word (hS : S.WellFormed) {w : List Char} {c : Char} (h : Sound read (.word w)) :
    StepSound read c (stepMode S inside (.word w) c) := by
  rw [stepMode]
  by_cases hident : isIdent c = true
  · rw [if_pos hident]
    obtain ⟨pre, rfl, hpre⟩ := h
    exact stepSound_quiet ⟨pre, by simp, hpre⟩
  rw [if_neg hident]
  have hplain := plain_of_not_ident hident
  split
  · exact stepSound_quiet rfl
  · constructor
    · exact sound_openAt hS fun hc => absurd hc hident
    · intro v hv
      rcases List.mem_append.mp hv with hv | hv
      · obtain rfl : v = w := by simpa using hv
        exact ⟨hplain, h⟩
      · exact absurd hv word_not_mem_openAt

theorem stepSound (hS : S.WellFormed) {m : Mode} {c : Char} (h : Sound read m) :
    StepSound read c (stepMode S inside m c) := by
  cases m with
  | code => exact stepSound_openAt hS fun _ => h
  | word w => exact stepSound_word hS h
  | dash =>
    rw [stepMode]
    split
    next hc =>
      subst hc
      apply stepSound_quiet
      split
      · exact edge_append rfl
      · trivial
    next => exact stepSound_after (stepSound_openAt hS fun _ => h) (by simp)
  | dashes =>
    rw [stepMode]
    split
    next hc => exact stepSound_quiet (edge_append (hS.ends c hc))
    split
    · exact stepSound_quiet trivial
    split
    next hc =>
      subst hc
      exact ⟨edge_append rfl, by simp⟩
    next => exact stepSound_after (stepSound_openAt hS fun _ => h) (by simp)
  | slash =>
    rw [stepMode]
    split
    · exact stepSound_quiet trivial
    · exact stepSound_after (stepSound_openAt hS fun _ => h) (by simp)
  | star =>
    rw [stepMode]
    split
    next hc =>
      subst hc
      exact stepSound_quiet (edge_append rfl)
    next => exact stepSound_after (stepSound_openAt hS fun _ => h) (by simp)
  | line =>
    rw [stepMode]
    split
    next hc => exact stepSound_quiet (edge_append (hS.ends c hc))
    next => exact stepSound_quiet trivial
  | opened =>
    rw [stepMode]
    split
    next hc =>
      obtain rfl : c = '!' := by
        simp only [Bool.and_eq_true, decide_eq_true_eq] at hc
        exact hc.1
      exact stepSound_quiet (edge_append rfl)
    next => exact stepSound_inComment
  | block depth last => exact stepSound_inComment
  | quote close escapes =>
    rw [stepMode]
    split
    · exact stepSound_quiet h
    split
    next hc =>
      subst hc
      exact stepSound_quiet ⟨h, edge_append h⟩
    next => exact stepSound_quiet h
  | escaped close => exact stepSound_quiet h
  | closed close escapes =>
    rw [stepMode]
    split
    · exact stepSound_quiet h.1
    · exact stepSound_after (stepSound_openAt hS fun _ => h.2) (by simp)
  | tag t =>
    rw [stepMode]
    split
    · apply stepSound_quiet
      split
      · trivial
      · trivial
    split
    · exact stepSound_quiet trivial
    next hident => exact stepSound_after (stepSound_openAt hS fun hc => absurd hc hident) (by simp)
  | body t seen =>
    rw [stepMode]
    split
    next hc =>
      subst hc
      split
      · exact ⟨edge_append rfl, by simp⟩
      · exact stepSound_quiet trivial
    · exact stepSound_quiet trivial

theorem standing_finish {m : Mode} (h : Sound read m) {w : List Char} (hw : .word w ∈ finish m) :
    Standing w read := by
  cases m with
  | word v =>
    obtain rfl : w = v := by simpa [finish] using hw
    obtain ⟨pre, rfl, hpre⟩ := h
    exact ⟨pre, [], by simp, hpre, by simp⟩
  | _ => simp [finish] at hw

theorem standing_scan (hS : S.WellFormed) {w : List Char} (text : List Char) {s : State}
    (h : Sound read s.mode) (hw : .word w ∈ scan S s text) : Standing w (read ++ text) := by
  induction text generalizing read s with
  | nil => simpa using standing_finish h hw
  | cons c cs ih =>
    have hstep : StepSound read c (stepMode S s.inside s.mode c) := stepSound hS h
    rcases List.mem_append.mp hw with hw | hw
    · obtain ⟨hc, pre, rfl, hpre⟩ := hstep.words w hw
      exact ⟨pre, c :: cs, rfl, hpre, by simpa using hc⟩
    · simpa using ih hstep.mode hw

theorem standing_of_mem (hS : S.WellFormed) {w text : List Char} (hw : .word w ∈ tokens S text) :
    Standing w text := by
  have h : Sound [] Mode.code := edge_nil
  simpa using standing_scan hS text (s := ⟨.code, false⟩) h hw

/-- A word that stands apart is one of the runs of plain characters. -/
theorem Standing.mem_splitOnP {w text : List Char} (h : Standing w text)
    (hw : ∀ c ∈ w, isPlain c = true) : w ∈ text.splitOnP fun c => !isPlain c := by
  obtain ⟨pre, post, rfl, hpre, hpost⟩ := h
  have hright : w ∈ (w ++ post).splitOnP fun c => !isPlain c := by
    cases post with
    | nil =>
      rw [List.append_nil, List.splitOnP_eq_singleton]
      · exact List.mem_singleton_self w
      · intro c hc
        simp [hw c hc]
    | cons d post =>
      have hd : isPlain d = false := hpost d rfl
      rw [List.splitOnP_append_cons_of_forall_mem _ _ (by simp [hd])]
      · exact List.mem_cons_self
      · intro c hc
        simp [hw c hc]
  rcases List.eq_nil_or_concat pre with rfl | ⟨pre, d, rfl⟩
  · exact hright
  · have hd : isPlain d = false := hpre d (by simp)
    have happ : pre ++ [d] ++ w ++ post = pre ++ d :: (w ++ post) := by simp
    rw [List.concat_eq_append, happ, List.splitOnP_append_cons _ _ (by simp [hd])]
    exact List.mem_append_right _ hright

/-! ## The first word -/

theorem scan_ident {w v : List Char} {c : Char} (hc : isIdent c = true) :
    scan S ⟨.word w, inside⟩ (c :: v) = scan S ⟨.word (w ++ [c]), inside⟩ v := by
  simp [scan, step, stepMode, stepInside, hc]

theorem scan_idents (u : List Char) (hu : ∀ c ∈ u, isIdent c = true) {w v : List Char} :
    scan S ⟨.word w, inside⟩ (u ++ v) = scan S ⟨.word (w ++ u), inside⟩ v := by
  induction u generalizing w with
  | nil => simp
  | cons c u ih =>
    rw [List.cons_append, scan_ident (hu c List.mem_cons_self),
      ih fun d hd => hu d (List.mem_cons_of_mem c hd)]
    simp

theorem scan_word_end {w v : List Char} (hv : ∀ c ∈ v.head?, isIdent c = false)
    (he : w ≠ ['e']) (hE : w ≠ ['E']) : ∃ ts, scan S ⟨.word w, inside⟩ v = .word w :: ts := by
  cases v with
  | nil => exact ⟨[], rfl⟩
  | cons c v =>
    have hc : isIdent c = false := hv c rfl
    simp [scan, step, stepMode, hc, he, hE, after]

theorem tokens_space {c : Char} (hc : isSpace c = true) (cs : List Char) :
    tokens S (c :: cs) = tokens S cs := by
  simp [tokens, scan, step, stepMode, openAt, stepInside, hc]

theorem isSpace_of_ident {c : Char} (h : isIdent c = true) : isSpace c = false := by
  by_contra hs
  simp only [isSpace, Bool.or_eq_true, decide_eq_true_eq, Bool.not_eq_false] at hs
  rcases hs with ((((rfl | rfl) | rfl) | rfl) | rfl) | rfl <;> cases h

theorem tokens_word {c : Char} {cs : List Char} (hc : isIdent c = true) (hd : c ≠ '$')
    (he : c :: cs.takeWhile isIdent ≠ ['e']) (hE : c :: cs.takeWhile isIdent ≠ ['E']) :
    ∃ ts, tokens S (c :: cs) = .word (c :: cs.takeWhile isIdent) :: ts := by
  have hopen : tokens S (c :: cs) = scan S ⟨.word [c], false⟩ cs := by
    simp [tokens, scan, step, stepMode, openAt, stepInside, isSpace_of_ident hc, hd, hc]
  have hword : scan S ⟨.word [c], false⟩ (cs.takeWhile isIdent ++ cs.dropWhile isIdent) =
      scan S ⟨.word ([c] ++ cs.takeWhile isIdent), false⟩ (cs.dropWhile isIdent) :=
    scan_idents _ fun d h => List.mem_takeWhile_imp h
  rw [List.takeWhile_append_dropWhile] at hword
  rw [hopen, hword]
  apply scan_word_end _ he hE
  intro d h
  have hn := List.head?_dropWhile_not isIdent cs
  rw [Option.mem_def] at h
  rw [h] at hn
  exact hn

end SqlTokens
