import LiteDbModel.Lib.SqlTokens
import LiteDbModel.WithWriter

/-!
# Read-only statements

`isReadOnlyStatement` looks for words in the raw text. A statement that writes is one of the
dialect's grammar: a data or a definition statement, a query with an `INTO`, a `WITH` whose
statement or whose common table expressions write, an `EXPLAIN ANALYZE` of one that writes.
-/

namespace LiteDb.ReadOnly
set_option autoImplicit false
open SqlTokens WriterScope

/-! ## Statements of a text -/

def sqlSyntax : Dialect → Syntax
  | .postgres =>
    { quote := fun c => if c = '\'' || c = '"' then some c else none
      escapes := fun _ => false
      escapeString := true
      dollarQuotes := true
      hashComments := false
      dashSpace := false
      lineEnd := fun c => c = '\n' || c = '\r'
      nestedComments := true
      executableComments := false }
  | .mysql =>
    { quote := fun c => if c = '\'' || c = '"' || c = '`' then some c else none
      escapes := fun c => c ≠ '`'
      escapeString := false
      dollarQuotes := false
      hashComments := true
      dashSpace := true
      lineEnd := fun c => c = '\n'
      nestedComments := false
      executableComments := true }
  | .sqlite =>
    { quote := fun c =>
        if c = '\'' || c = '"' || c = '`' then some c else if c = '[' then some ']' else none
      escapes := fun _ => false
      escapeString := false
      dollarQuotes := false
      hashComments := false
      dashSpace := false
      lineEnd := fun c => c = '\n'
      nestedComments := false
      executableComments := false }

def lowered : Token → Token
  | .word w => .word (w.map Char.toLower)
  | .quoted => .quoted
  | .symbol c => .symbol c

def sqlTokens (d : Dialect) (sql : List Char) : List Token := (SqlTokens.tokens (sqlSyntax d) sql).map lowered

def kw (word : String) : Token := .word word.toList

def statements (d : Dialect) (sql : List Char) : List (List Token) :=
  (sqlTokens d sql).splitOnP (· = .symbol ';')

/-! ## Statements that write -/

/-- The commands that write rows. -/
def dataWords : Dialect → List String
  | .postgres => ["insert", "update", "delete", "merge"]
  | .mysql => ["insert", "update", "delete", "replace"]
  | .sqlite => ["insert", "update", "delete", "replace"]

/-- Those that a `WITH` may precede. -/
def withWords : Dialect → List String
  | .postgres => ["insert", "update", "delete", "merge"]
  | .mysql => ["update", "delete"]
  | .sqlite => ["insert", "update", "delete", "replace"]

def ddlWords : List String := ["create", "alter", "drop", "truncate", "rename"]

def queryWords : List String := ["select", "values", "table"]

def Balanced (ts : List Token) : Prop :=
  ts.count (.symbol '(') = ts.count (.symbol ')') ∧
    ∀ pre, pre <+: ts → pre.count (.symbol ')') ≤ pre.count (.symbol '(')

/-- `name [(columns)] AS [[NOT] MATERIALIZED] (body)` -/
def IsCte (body ts : List Token) : Prop :=
  ∃ name columns materialized, Balanced body ∧
    (columns = [] ∨ ∃ names, Balanced names ∧ columns = .symbol '(' :: names ++ [.symbol ')']) ∧
    materialized ∈ [[], [kw "materialized"], [kw "not", kw "materialized"]] ∧
    ts = name :: columns ++ kw "as" :: materialized ++ .symbol '(' :: body ++ [.symbol ')']

/-- The common table expressions of a `WITH`, and their bodies. -/
inductive Ctes : List (List Token) → List Token → Prop
  | last {body ts : List Token} : IsCte body ts → Ctes [body] ts
  | more {body ts rest : List Token} {bodies : List (List Token)} : IsCte body ts →
    Ctes bodies rest → Ctes (body :: bodies) (ts ++ .symbol ',' :: rest)

/-- An `INTO` that names no column and fills no variable. -/
def HasInto (ts : List Token) : Prop :=
  ∃ before target rest, ts = before ++ kw "into" :: target :: rest ∧ target ≠ .symbol '@' ∧
    ∀ t ∈ before.getLast?, t ≠ kw "as" ∧ t ≠ .symbol '.'

/-- A data or query statement that writes, by one of the commands or by an `INTO`. -/
inductive Writes (d : Dialect) (commands : List String) : List Token → Prop
  | command {w : String} {rest : List Token} : w ∈ commands → Writes d commands (kw w :: rest)
  | into {w : String} {rest : List Token} : d ≠ .sqlite → w ∈ queryWords → HasInto rest →
    Writes d commands (kw w :: rest)
  | paren {st : List Token} : Writes d commands st → Writes d commands (.symbol '(' :: st)
  | main {recursive ctes st : List Token} {bodies : List (List Token)} :
    recursive = [] ∨ recursive = [kw "recursive"] → Ctes bodies ctes →
    (∀ w ∈ dataWords d, st.head? = some (kw w) → w ∈ withWords d) → Writes d commands st →
    Writes d commands (kw "with" :: recursive ++ ctes ++ st)
  | body {recursive ctes st body : List Token} {bodies : List (List Token)} : d = .postgres →
    recursive = [] ∨ recursive = [kw "recursive"] → Ctes bodies ctes → body ∈ bodies →
    Writes d commands body → Writes d commands (kw "with" :: recursive ++ ctes ++ st)

/-- `ANALYZE` before the statement, which is then executed. -/
def Analyzes : Dialect → List Token → Prop
  | .postgres, options =>
    options ∈ [[kw "analyze"], [kw "analyze", kw "verbose"]] ∨
      ∃ before rest, Balanced (before ++ rest) ∧
        options = .symbol '(' :: before ++ kw "analyze" :: rest ++ [.symbol ')'] ∧
        ∀ t ∈ rest.head?, t ∉ [kw "false", kw "off", kw "0"]
  | .mysql, options =>
    options = [kw "analyze"] ∨
      ∃ format, options = [kw "analyze", kw "format", .symbol '=', .word format]
  | .sqlite, _ => False

/-- The words that ask for a plan; SQLite's never executes. -/
def explainWords : Dialect → List String
  | .postgres => ["explain"]
  | .mysql => ["explain", "describe", "desc"]
  | .sqlite => []

inductive StatementWrites (d : Dialect) (commands : List String) : List Token → Prop
  | query {st : List Token} : Writes d commands st → StatementWrites d commands st
  | ddl {w : String} {rest : List Token} : w ∈ ddlWords → StatementWrites d commands (kw w :: rest)
  | explain {w : String} {options st : List Token} : w ∈ explainWords d → Analyzes d options →
    StatementWrites d commands st → StatementWrites d commands (kw w :: options ++ st)

/-- One of the text's statements writes. -/
def Modifies (d : Dialect) (sql : List Char) : Prop :=
  ∃ st ∈ statements d sql, StatementWrites d (dataWords d) st

/-! ## What the scan of words sees -/

def scannedWords : List String := ["insert", "update", "delete", "merge"]

def unscannedWords (d : Dialect) : List String := (dataWords d).filter (· ∉ scannedWords)

section Scan
variable {d : Dialect} {commands : List String} {st : List Token}

theorem Ctes.subset {bodies : List (List Token)} {ctes body : List Token} (h : Ctes bodies ctes)
    (hb : body ∈ bodies) : body ⊆ ctes := by
  have hcte : ∀ {body ts : List Token}, IsCte body ts → body ⊆ ts := by
    rintro body ts ⟨name, columns, materialized, -, -, -, rfl⟩
    intro t ht
    simp [ht]
  induction h with
  | last hc =>
    obtain rfl : body = _ := List.mem_singleton.mp hb
    exact hcte hc
  | more hc _ ih =>
    rcases List.mem_cons.mp hb with rfl | hb
    · exact List.Subset.trans (hcte hc) (List.subset_append_left _ _)
    · intro t ht
      apply List.mem_append_right
      exact List.mem_cons_of_mem _ (ih hb ht)

theorem Writes.mono {more : List String} (hsub : commands ⊆ more) (h : Writes d commands st) :
    Writes d more st := by
  induction h with
  | command hw => exact .command (hsub hw)
  | into hd hw hi => exact .into hd hw hi
  | paren _ ih => exact .paren ih
  | main hr hc hs _ ih => exact .main hr hc hs ih
  | body hd hr hc hb _ ih => exact .body hd hr hc hb ih

theorem StatementWrites.mono {more : List String} (hsub : commands ⊆ more)
    (h : StatementWrites d commands st) : StatementWrites d more st := by
  induction h with
  | query hw => exact .query (hw.mono hsub)
  | ddl hw => exact .ddl hw
  | explain hw ho _ ih => exact .explain hw ho ih

/-- A command of the scan is a word of the statement, wherever it stands in it. -/
theorem Writes.scanned (scan : List String) (h : Writes d commands st) :
    Writes d (commands.filter (· ∉ scan)) st ∨ ∃ w ∈ scan, kw w ∈ st := by
  induction h with
  | @command w rest hw =>
    by_cases hs : w ∈ scan
    · exact .inr ⟨w, hs, List.mem_cons_self⟩
    · exact .inl (.command (by simpa [hs] using hw))
  | into hd hw hi => exact .inl (.into hd hw hi)
  | paren _ ih =>
    rcases ih with ih | ⟨w, hw, hm⟩
    · exact .inl (.paren ih)
    · exact .inr ⟨w, hw, List.mem_cons_of_mem _ hm⟩
  | main hr hc hs _ ih =>
    rcases ih with ih | ⟨w, hw, hm⟩
    · exact .inl (.main hr hc hs ih)
    · exact .inr ⟨w, hw, List.mem_append_right _ hm⟩
  | body hd hr hc hb _ ih =>
    rcases ih with ih | ⟨w, hw, hm⟩
    · exact .inl (.body hd hr hc hb ih)
    · refine .inr ⟨w, hw, ?_⟩
      apply List.mem_append_left
      exact List.mem_append_right _ (hc.subset hb hm)

theorem StatementWrites.scanned (scan : List String) (h : StatementWrites d commands st) :
    StatementWrites d (commands.filter (· ∉ scan)) st ∨ ∃ w ∈ scan, kw w ∈ st := by
  induction h with
  | query hw =>
    rcases hw.scanned scan with hw | hw
    · exact .inl (.query hw)
    · exact .inr hw
  | ddl hw => exact .inl (.ddl hw)
  | explain hw ho _ ih =>
    rcases ih with ih | ⟨w, hs, hm⟩
    · exact .inl (.explain hw ho ih)
    · exact .inr ⟨w, hs, List.mem_append_right _ hm⟩

theorem sqlSyntax_wellFormed (d : Dialect) : (sqlSyntax d).WellFormed := by
  constructor
  · intro c close h
    cases d with
    | postgres =>
      obtain ⟨rfl | rfl, rfl⟩ : (c = '\'' ∨ c = '"') ∧ c = close := by simpa [sqlSyntax] using h
      · rfl
      · rfl
    | mysql =>
      obtain ⟨(rfl | rfl) | rfl, rfl⟩ : ((c = '\'' ∨ c = '"') ∨ c = '`') ∧ c = close := by
        simpa [sqlSyntax] using h
      · rfl
      · rfl
      · rfl
    | sqlite =>
      simp only [sqlSyntax] at h
      split at h
      next hc =>
        obtain rfl : c = close := Option.some.inj h
        simp only [Bool.or_eq_true, decide_eq_true_eq] at hc
        rcases hc with (rfl | rfl) | rfl
        · rfl
        · rfl
        · rfl
      next =>
        split at h
        · obtain rfl := Option.some.inj h
          rfl
        · cases h
  · intro c h
    cases d with
    | postgres =>
      obtain rfl | rfl : c = '\n' ∨ c = '\r' := by simpa [sqlSyntax] using h
      · rfl
      · rfl
    | mysql =>
      obtain rfl : c = '\n' := by simpa [sqlSyntax] using h
      rfl
    | sqlite =>
      obtain rfl : c = '\n' := by simpa [sqlSyntax] using h
      rfl

theorem plain_of_toLower {c : Char} (h : isPlain c.toLower = true) : isPlain c = true := by
  by_cases hu : c.isUpper = true
  · have hr : 'A' ≤ c ∧ c ≤ 'Z' := by simpa [Char.isUpper, Char.le_def] using hu
    simp [isPlain, hr]
  · rwa [Char.toLower_eq_of_not_isUpper (by simpa using hu)] at h

/-- Every keyword among a text's tokens is seen, whatever comments and literals stand around it. -/
theorem hasWord_of_mem {sql : List Char} {w : String} (hplain : ∀ c ∈ w.toList, isPlain c = true)
    (hw : kw w ∈ sqlTokens d sql) : hasWord [w] sql = true := by
  obtain ⟨t, ht, hl⟩ := List.mem_map.mp hw
  cases t with
  | quoted => cases hl
  | symbol c => cases hl
  | word v =>
    have hv : v.map Char.toLower = w.toList := Token.word.inj hl
    have hvp : ∀ c ∈ v, isPlain c = true := by
      intro c hc
      apply plain_of_toLower
      apply hplain
      rw [← hv]
      exact List.mem_map_of_mem hc
    have hrun := (standing_of_mem (sqlSyntax_wellFormed d) ht).mem_splitOnP hvp
    simp only [hasWord, List.any_eq_true]
    exact ⟨v, hrun, w, List.mem_singleton_self w, by simpa [isWord] using hv⟩

end Scan

/-! ## The first statement -/

section First
variable {d : Dialect} {sql : List Char}

def first (d : Dialect) (sql : List Char) : List Token := (statements d sql).headD []

def later (d : Dialect) (sql : List Char) : List (List Token) := (statements d sql).tail

theorem statements_eq : statements d sql = first d sql :: later d sql := by
  cases h : statements d sql with
  | nil => exact absurd h (List.splitOnP_ne_nil _ _)
  | cons st rest => simp [first, later, h]

/-- The first word of the text, where a pattern finds one of `heads` there: it begins with the word found
or with a space that only the pattern takes for one. -/
def Begins (heads : List String) (v : List Char) : Prop :=
  (∃ h ∈ heads, h.toList <+: v) ∨ ∃ c ∈ v.head?, 128 ≤ c.toNat

theorem plain_prefix_ident (cs : List Char) : cs.takeWhile isPlain <+: cs.takeWhile isIdent := by
  induction cs with
  | nil => exact List.prefix_rfl
  | cons c cs ih =>
    by_cases hc : isPlain c = true
    · have hident : isIdent c = true := by simp [isIdent, hc]
      rw [List.takeWhile_cons_of_pos hc, List.takeWhile_cons_of_pos hident]
      exact List.cons_prefix_cons.mpr ⟨rfl, ih⟩
    · rw [List.takeWhile_cons_of_neg hc]
      exact List.nil_prefix

theorem begins_word {heads : List String} {c : Char} {cs : List Char} (hc : isPlain c = true)
    (hlen : ∀ h ∈ heads, 1 < h.toList.length)
    (hs : (heads.any fun w => isWord w ((c :: cs).takeWhile isPlain)) = true) :
    ∃ v ts, sqlTokens d (c :: cs) = .word v :: ts ∧ Begins heads v := by
  obtain ⟨h, hh, hrun⟩ := List.any_eq_true.mp hs
  have hw : ((c :: cs).takeWhile isPlain).map Char.toLower = h.toList := by simpa [isWord] using hrun
  rw [List.takeWhile_cons_of_pos hc] at hw
  have hident : isIdent c = true := by simp [isIdent, hc]
  have hpre : cs.takeWhile isPlain <+: cs.takeWhile isIdent := plain_prefix_ident cs
  have hlong : (c :: cs.takeWhile isIdent).length ≠ 1 := by
    have h1 := hlen h hh
    rw [← hw, List.length_map, List.length_cons] at h1
    have h2 := hpre.length_le
    rw [List.length_cons]
    omega
  have hd : c ≠ '$' := by
    rintro rfl
    cases hc
  have hne : ∀ e, c :: cs.takeWhile isIdent ≠ [e] := by
    intro e he
    rw [he] at hlong
    exact hlong rfl
  obtain ⟨ts, hts⟩ := tokens_word (S := sqlSyntax d) hident hd (hne 'e') (hne 'E')
  refine ⟨(c :: cs.takeWhile isIdent).map Char.toLower, ts.map lowered, ?_, ?_⟩
  · simp [sqlTokens, hts, lowered]
  · left
    refine ⟨h, hh, ?_⟩
    rw [← hw]
    exact ((List.cons_prefix_cons).mpr ⟨rfl, hpre⟩).map Char.toLower

/-- The spaces of a pattern that SQL takes for letters. -/
theorem wide_of_space {c : Char} (hc : Text.isSpace c = true) (hsql : isSpace c = false) :
    128 ≤ c.toNat := by
  by_contra hlow
  have hne : ∀ d : Char, 128 ≤ d.toNat → c ≠ d := by
    rintro d hd rfl
    exact hlow hd
  have hle : ¬ '\u2000' ≤ c := by
    intro h
    have hn : 0x2000 ≤ c.toNat := h
    omega
  simp only [isSpace, Bool.or_eq_false_iff, decide_eq_false_iff_not] at hsql
  simp [Text.isSpace, hsql, hle, hne '\u00a0' (by decide), hne '\u1680' (by decide),
    hne '\u2028' (by decide), hne '\u2029' (by decide), hne '\u202f' (by decide),
    hne '\u205f' (by decide), hne '\u3000' (by decide), hne '\ufeff' (by decide)] at hc

theorem toLower_wide {c : Char} (h : 128 ≤ c.toNat) : c.toLower = c := by
  apply Char.toLower_eq_of_not_isUpper
  intro hu
  simp only [Char.isUpper, decide_eq_true_eq] at hu
  have hz : c.toNat ≤ 90 := hu.2
  omega

theorem begins_first {heads : List String} (hlen : ∀ h ∈ heads, 1 < h.toList.length)
    (hs : startsWith heads sql = true) :
    ∃ v ts, sqlTokens d sql = .word v :: ts ∧ Begins heads v := by
  induction sql with
  | nil =>
    obtain ⟨h, hh, hrun⟩ := List.any_eq_true.mp hs
    have h0 : [] = h.toList := by simpa [isWord] using hrun
    have h1 := hlen h hh
    rw [← h0] at h1
    cases h1
  | cons c cs ih =>
    by_cases hspace : Text.isSpace c = true
    · cases hsql : isSpace c with
      | true =>
        have hrest : startsWith heads cs = true := by simpa [startsWith, hspace] using hs
        simpa [sqlTokens, tokens_space hsql] using ih hrest
      | false =>
        have hwide := wide_of_space hspace hsql
        have hident : isIdent c = true := by simp [isIdent, hwide]
        have hne : ∀ e : Char, e.toNat < 128 → c ≠ e := by
          rintro e he rfl
          omega
        obtain ⟨ts, hts⟩ : ∃ ts, SqlTokens.tokens (sqlSyntax d) (c :: cs) =
            .word (c :: cs.takeWhile isIdent) :: ts :=
          tokens_word hident (hne '$' (by decide))
            (fun he => hne 'e' (by decide) (List.cons.inj he).1)
            (fun he => hne 'E' (by decide) (List.cons.inj he).1)
        refine ⟨(c :: cs.takeWhile isIdent).map Char.toLower, ts.map lowered, ?_, .inr ?_⟩
        · simp [sqlTokens, hts, lowered]
        · simpa [toLower_wide hwide] using hwide
    · have hrun : ((c :: cs).dropWhile Text.isSpace) = c :: cs := by simp [hspace]
      have hs' : (heads.any fun w => isWord w ((c :: cs).takeWhile isPlain)) = true := by
        rw [startsWith, hrun] at hs
        exact hs
      apply begins_word _ hlen hs'
      by_contra hc
      obtain ⟨h, hh, hword⟩ := List.any_eq_true.mp hs'
      rw [List.takeWhile_cons_of_neg hc] at hword
      have h0 : [] = h.toList := by simpa [isWord] using hword
      have h1 := hlen h hh
      rw [← h0] at h1
      cases h1

/-- No keyword that `heads` do not begin is the first word. -/
theorem Begins.ne_keyword {heads : List String} {v : List Char} (h : Begins heads v) {k : String}
    (hk : ∀ c ∈ k.toList, c.toNat < 128) (hn : ∀ w ∈ heads, ¬ w.toList <+: k.toList) :
    v ≠ k.toList := by
  rintro rfl
  rcases h with ⟨w, hw, hpre⟩ | ⟨c, hc, hwide⟩
  · exact hn w hw hpre
  · have hlow := hk c (List.mem_of_mem_head? hc)
    omega

theorem first_of_word {v : List Char} {ts : List Token} (h : sqlTokens d sql = .word v :: ts) :
    ∃ ts', first d sql = .word v :: ts' := by
  have hs : statements d sql = (ts.splitOnP (· = .symbol ';')).modifyHead (.word v :: ·) := by
    rw [statements, h, List.splitOnP_cons_eq_if_modifyHead]
    rfl
  cases hts : ts.splitOnP (· = .symbol ';') with
  | nil => exact absurd hts (List.splitOnP_ne_nil _ _)
  | cons st rest =>
    rw [hts] at hs
    exact ⟨st, by rw [first, hs]; rfl⟩

theorem mem_sqlTokens {t : Token} (h : t ∈ first d sql) : t ∈ sqlTokens d sql := by
  have hf : first d sql ∈ statements d sql := by
    rw [statements_eq]
    exact List.mem_cons_self
  exact Text.mem_of_mem_splitOnP hf h

end First

/-! ## Which reads only read -/

section Reads
variable {d : Dialect} {commands : List String} {v : List Char} {ts : List Token}

/-- How a statement that begins with a word may write. -/
theorem Writes.word_cases (h : Writes d commands (.word v :: ts)) :
    (∃ w ∈ commands, v = w.toList) ∨ v = "with".toList ∨
      d ≠ .sqlite ∧ (∃ w ∈ queryWords, v = w.toList) ∧ HasInto ts := by
  generalize hst : Token.word v :: ts = st at h
  cases h with
  | @command w rest hw => exact .inl ⟨w, hw, Token.word.inj (List.cons.inj hst).1⟩
  | @into w rest hd hw hi =>
    obtain ⟨hv, rfl⟩ := List.cons.inj hst
    exact .inr (.inr ⟨hd, ⟨w, hw, Token.word.inj hv⟩, hi⟩)
  | paren _ => cases (List.cons.inj hst).1
  | main _ _ _ _ => exact .inr (.inl (Token.word.inj (List.cons.inj hst).1))
  | body _ _ _ _ _ => exact .inr (.inl (Token.word.inj (List.cons.inj hst).1))

theorem StatementWrites.word_cases (h : StatementWrites d commands (.word v :: ts)) :
    Writes d commands (.word v :: ts) ∨ (∃ w ∈ ddlWords, v = w.toList) ∨
      ∃ w ∈ explainWords d, v = w.toList := by
  generalize hst : Token.word v :: ts = st at h
  cases h with
  | query hw => exact .inl hw
  | @ddl w rest hw => exact .inr (.inl ⟨w, hw, Token.word.inj (List.cons.inj hst).1⟩)
  | @explain w options st hw _ _ => exact .inr (.inr ⟨w, hw, Token.word.inj (List.cons.inj hst).1⟩)

def keywords (d : Dialect) : List String := "with" :: dataWords d ++ ddlWords ++ explainWords d

theorem ascii_keywords {k : String} (hk : k ∈ keywords d) : ∀ c ∈ k.toList, c.toNat < 128 := by
  have h : ∀ k ∈ keywords d, (k.toList.all fun c => c.toNat < 128) = true := by
    cases d <;> decide
  simpa using h k hk

theorem heads_keywords {w k : String} (hw : w ∈ ["select", "show", "pragma", "values", "table"])
    (hk : k ∈ keywords d) : ¬ w.toList <+: k.toList := by
  have h : ∀ w ∈ ["select", "show", "pragma", "values", "table"], ∀ k ∈ keywords d,
      w.toList.isPrefixOf k.toList = false := by
    cases d <;> decide
  rw [← List.isPrefixOf_iff_prefix, h w hw k hk]
  exact Bool.false_ne_true

/-- The statement of a text that begins with a query's word writes by an `INTO` alone. -/
theorem first_query {sql : List Char}
    (hs : startsWith ["select", "show", "pragma", "values", "table"] sql = true)
    (h : StatementWrites d (dataWords d) (first d sql)) :
    StatementWrites d (unscannedWords d) (first d sql) := by
  obtain ⟨v, ts, htok, hv⟩ := begins_first (d := d) (by decide) hs
  obtain ⟨ts', hfirst⟩ := first_of_word htok
  have hne : ∀ k ∈ keywords d, v ≠ k.toList := fun k hk =>
    hv.ne_keyword (ascii_keywords hk) fun w hw => heads_keywords hw hk
  rw [hfirst] at h ⊢
  rcases h.word_cases with h | ⟨w, hw, rfl⟩ | ⟨w, hw, rfl⟩
  · rcases h.word_cases with ⟨w, hw, rfl⟩ | rfl | ⟨hd, ⟨w, hw, rfl⟩, hi⟩
    · exact absurd rfl (hne w (by simp [keywords, hw]))
    · exact absurd rfl (hne "with" (by simp [keywords]))
    · exact .query (.into hd hw hi)
  · exact absurd rfl (hne w (by simp [keywords, hw]))
  · exact absurd rfl (hne w (by simp [keywords, hw]))

/-- A scanned word anywhere in the text refuses a `WITH` or an `EXPLAIN`. -/
theorem first_scanned {sql : List Char} (hs : hasWord scannedWords sql = false)
    (h : StatementWrites d (dataWords d) (first d sql)) :
    StatementWrites d (unscannedWords d) (first d sql) := by
  rcases h.scanned scannedWords with h | ⟨w, hw, hm⟩
  · exact h
  · have hplain : ∀ w ∈ scannedWords, w.toList.all isPlain = true := by decide
    have hword := hasWord_of_mem (by simpa using hplain w hw) (mem_sqlTokens hm)
    simp only [hasWord, List.any_eq_true] at hword
    obtain ⟨run, hrun, w', hw', hword⟩ := hword
    obtain rfl : w' = w := List.mem_singleton.mp hw'
    have : hasWord scannedWords sql = true := by
      simp only [hasWord, List.any_eq_true]
      exact ⟨run, hrun, w', hw, hword⟩
    simp [hs] at this

/-- The words of the text make it a write. -/
def TakenForWrite (sql : List Char) : Prop :=
  if startsWith ["with", "explain"] sql then hasWord scannedWords sql = true
  else startsWith ["select", "show", "pragma", "values", "table"] sql = false ∨
    hasWord ["returning"] sql = true

theorem takenForWrite_iff {sql : List Char} : TakenForWrite sql ↔ isReadOnlyStatement sql = false := by
  unfold TakenForWrite isReadOnlyStatement
  split
  · simp [scannedWords]
  · simp [or_iff_not_imp_left]

end Reads

end LiteDb.ReadOnly
