import LiteDbModel.Lib.Scan
import LiteDbModel.ReadOnlyStatement

/-!
# Statements of the SQLite driver

`SqliteConnection.query` and `SqliteDriver.execute` each look at the upper-cased
text to choose between `all` and `run`. Whether a statement returns rows is said
by its tokens: a query, an `EXPLAIN`, a `PRAGMA` that answers, a write with a
`RETURNING` clause.
-/

namespace LiteDb.SqliteStatements
set_option autoImplicit false
open SqlTokens ReadOnly

/-! ## The two tests -/

/-- `toUpperCase` of a character; of those beyond ASCII only the ones that have Latin letters in
their upper case are changed. -/
def upperChar (c : Char) : List Char :=
  match c with
  | '\u00df' => ['S', 'S']
  | '\u0131' => ['I']
  | '\u0149' => ['\u02bc', 'N']
  | '\u017f' => ['S']
  | '\u01f0' => ['J', '\u030c']
  | '\u1e96' => ['H', '\u0331']
  | '\u1e97' => ['T', '\u0308']
  | '\u1e98' => ['W', '\u030a']
  | '\u1e99' => ['Y', '\u030a']
  | '\u1e9a' => ['A', '\u02be']
  | '\ufb00' => ['F', 'F']
  | '\ufb01' => ['F', 'I']
  | '\ufb02' => ['F', 'L']
  | '\ufb03' => ['F', 'F', 'I']
  | '\ufb04' => ['F', 'F', 'L']
  | '\ufb05' => ['S', 'T']
  | '\ufb06' => ['S', 'T']
  | c => [c.toUpper]

/-- `sql.trim().toUpperCase()` -/
def normalizedSql (sql : List Char) : List Char := (Scan.trim sql).flatMap upperChar

/-- `normalizedSql.startsWith(word)` -/
def startsWith (word : String) (sql : List Char) : Bool := word.toList.isPrefixOf (normalizedSql sql)

/-- `normalizedSql.includes(word)` -/
def includes (word : String) (sql : List Char) : Bool := decide (word.toList <:+: normalizedSql sql)

/-- What `SqliteConnection.query` runs with `all`. -/
def queryReturnsRows (sql : List Char) : Bool :=
  let isSelectLike := startsWith "SELECT" sql || includes "RETURNING" sql
  let isWithSelect := startsWith "WITH" sql && !includes "UPDATE" sql && !includes "DELETE" sql
  isSelectLike || isWithSelect

/-- What `SqliteDriver.execute` runs with `all`. -/
def executeReturnsRows (sql : List Char) : Bool :=
  startsWith "SELECT" sql || startsWith "WITH" sql || includes "RETURNING" sql

/-! ## The statement of a text -/

inductive Kind
  | select
  | values
  | explain
  | pragma (answers : Bool)
  | write (returning : Bool)
  /-- A `WITH` before a `SELECT` or `VALUES`. -/
  | withQuery
  | withWrite (returning : Bool)
  /-- A definition, a transaction or a maintenance statement. -/
  | other

def Kind.returnsRows : Kind → Bool
  | .select | .values | .explain | .withQuery => true
  | .pragma answers => answers
  | .write returning | .withWrite returning => returning
  | .other => false

def otherWords : List String :=
  ["create", "alter", "drop", "begin", "commit", "end", "rollback", "savepoint", "release", "attach",
    "detach", "vacuum", "analyze", "reindex"]

/-- `RETURNING` is reserved: it is the clause, unless it names a parameter. -/
def HasReturning (ts : List Token) : Prop :=
  ∃ before after, ts = before ++ kw "returning" :: after ∧
    ∀ t ∈ before.getLast?, t ≠ .symbol ':' ∧ t ≠ .symbol '@'

variable (pragmaAnswers : List Token → Bool)

/-- The statements of SQLite's grammar; it takes no query in parentheses. Which pragmas answer is
SQLite's own. -/
inductive IsStatement : Kind → List Token → Prop
  | select {rest : List Token} : IsStatement .select (kw "select" :: rest)
  | values {rest : List Token} : IsStatement .values (kw "values" :: rest)
  | explain {rest : List Token} : IsStatement .explain (kw "explain" :: rest)
  | pragma {rest : List Token} : IsStatement (.pragma (pragmaAnswers rest)) (kw "pragma" :: rest)
  | write {w : String} {rest : List Token} {returning : Bool} : w ∈ dataWords .sqlite →
    (returning = true ↔ HasReturning rest) → IsStatement (.write returning) (kw w :: rest)
  | withQuery {recursive ctes rest : List Token} {bodies : List (List Token)} {w : String} :
    recursive = [] ∨ recursive = [kw "recursive"] → Ctes bodies ctes → w ∈ ["select", "values"] →
    IsStatement .withQuery (kw "with" :: recursive ++ ctes ++ kw w :: rest)
  | withWrite {recursive ctes rest : List Token} {bodies : List (List Token)} {w : String}
    {returning : Bool} : recursive = [] ∨ recursive = [kw "recursive"] → Ctes bodies ctes →
    w ∈ withWords .sqlite → (returning = true ↔ HasReturning rest) →
    IsStatement (.withWrite returning) (kw "with" :: recursive ++ ctes ++ kw w :: rest)
  | other {w : String} {rest : List Token} : w ∈ otherWords → IsStatement .other (kw w :: rest)

/-- The text is one statement, which `prepare` accepts. -/
def Prepares (sql : List Char) (k : Kind) : Prop :=
  ∃ st, (statements .sqlite sql).filter (· ≠ []) = [st] ∧ IsStatement pragmaAnswers k st

/-- Both take the text for what its statement is. -/
def Classified (sql : List Char) (k : Kind) : Prop :=
  queryReturnsRows sql = executeReturnsRows sql ∧ queryReturnsRows sql = k.returnsRows

/-- What the text of a statement of each kind has to show. -/
def Shown (sql : List Char) : Kind → Prop
  | .select => startsWith "SELECT" sql = true ∨ includes "RETURNING" sql = true
  | .values => includes "RETURNING" sql = true
  | .explain => includes "RETURNING" sql = true
  | .pragma answers => includes "RETURNING" sql = answers
  | .write returning => returning = true ∨ includes "RETURNING" sql = false
  | .withQuery => includes "RETURNING" sql = true ∨ startsWith "WITH" sql = true ∧
      includes "UPDATE" sql = false ∧ includes "DELETE" sql = false
  | .withWrite returning => returning = true ∨
      includes "RETURNING" sql = false ∧ startsWith "WITH" sql = false
  | .other => includes "RETURNING" sql = false

/-! ## Upper case -/

theorem upperChar_ascii {c : Char} (h : c.toNat < 128) : upperChar c = [c.toUpper] := by
  unfold upperChar
  split
  all_goals first | rfl | exact absurd h (by decide)

theorem plain_ascii {c : Char} (h : isPlain c = true) : c.toNat < 128 := by
  have hrange := Scan.wordChar_range (c := c) h
  omega

theorem plain_not_space {c : Char} (h : isPlain c = true) : Text.isSpace c = false := by
  by_contra hs
  have hword := Scan.wordChar_range (c := c) h
  rcases Scan.space_range (c := c) (by simpa using hs) with hlow | hhigh
  · omega
  · omega

theorem plain_of_toUpper {c : Char} (h : isPlain c.toUpper = true) : isPlain c = true := by
  by_cases hl : c.isLower = true
  · have hr : 'a' ≤ c ∧ c ≤ 'z' := by simpa [Char.isLower, Char.le_def] using hl
    simp [isPlain, hr]
  · rwa [Char.toUpper_eq_of_not_isLower hl] at h

theorem upperChar_other {c : Char} (h : isIdent c = false) :
    upperChar c = [c.toUpper] ∧ isPlain c.toUpper = false := by
  have hparts : (isPlain c = false ∧ ¬ c = '$') ∧ ¬ 128 ≤ c.toNat := by
    simpa [isIdent] using h
  obtain ⟨⟨hplain, -⟩, hlow⟩ := hparts
  refine ⟨upperChar_ascii (by omega), ?_⟩
  by_contra hup
  rw [plain_of_toUpper (by simpa using hup)] at hplain
  cases hplain

theorem upper_plain {u : List Char} (hu : ∀ c ∈ u, isPlain c = true) :
    u.flatMap upperChar = u.map Char.toUpper := by
  induction u with
  | nil => rfl
  | cons c u ih =>
    rw [List.flatMap_cons, upperChar_ascii (plain_ascii (hu c List.mem_cons_self)),
      ih fun d hd => hu d (List.mem_cons_of_mem c hd)]
    rfl

/-- A word of letters at the head of the text is at the head of the text's own first word. -/
theorem prefix_of_word {u r w : List Char} (hu : ∀ c ∈ u, isPlain c = true)
    (hr : ∀ c ∈ r.head?, isIdent c = false) (hw : ∀ c ∈ w, isPlain c = true)
    (h : w <+: (u ++ r).flatMap upperChar) : w <+: u.map Char.toUpper := by
  induction u generalizing w with
  | nil =>
    cases w with
    | nil => exact List.nil_prefix
    | cons x w =>
      cases r with
      | nil => exact absurd h (by simp)
      | cons c r =>
        obtain ⟨hc, hplain⟩ := upperChar_other (hr c rfl)
        rw [List.nil_append, List.flatMap_cons, hc, List.singleton_append] at h
        obtain ⟨rfl, -⟩ := List.cons_prefix_cons.mp h
        rw [hw _ List.mem_cons_self] at hplain
        cases hplain
  | cons c u ih =>
    cases w with
    | nil => exact List.nil_prefix
    | cons x w =>
      rw [List.cons_append, List.flatMap_cons,
        upperChar_ascii (plain_ascii (hu c List.mem_cons_self)), List.singleton_append] at h
      obtain ⟨rfl, hrest⟩ := List.cons_prefix_cons.mp h
      exact List.cons_prefix_cons.mpr ⟨rfl, ih (fun d hd => hu d (List.mem_cons_of_mem c hd))
        (fun d hd => hw d (List.mem_cons_of_mem _ hd)) hrest⟩

/-! ## Trimming -/

def trimEnd (cs : List Char) : List Char := (cs.reverse.dropWhile Text.isSpace).reverse

theorem trimEnd_append {u : List Char} (hu : ∀ c ∈ u, Text.isSpace c = false) (r : List Char) :
    trimEnd (u ++ r) = u ++ trimEnd r := by
  have hkeep : u.reverse.dropWhile Text.isSpace = u.reverse :=
    List.dropWhile_eq_self_iff.mpr fun hlen => by
      simpa using hu _ (List.mem_reverse.mp (List.getElem_mem hlen))
  rw [trimEnd, List.reverse_append, List.dropWhile_append, trimEnd]
  split
  · rename_i hnil
    rw [List.isEmpty_iff.mp hnil, hkeep]
    simp
  · simp

theorem trimEnd_prefix (r : List Char) : trimEnd r <+: r := by
  rw [trimEnd]
  have h := (List.dropWhile_suffix Text.isSpace (l := r.reverse))
  simpa using List.reverse_prefix.mpr h

theorem trim_of_head {c : Char} {cs : List Char} (h : Text.isSpace c = false) :
    Scan.trim (c :: cs) = trimEnd (c :: cs) := by
  rw [Scan.trim, List.dropWhile_cons_of_neg (by simp [h]), trimEnd]

theorem infix_trim {v : List Char} (hne : v ≠ []) (hv : ∀ c ∈ v, Text.isSpace c = false)
    (pre post : List Char) : v <:+: Scan.trim (pre ++ v ++ post) := by
  obtain ⟨c, v', rfl⟩ := List.exists_cons_of_ne_nil hne
  have hstart : ∃ pre', (pre ++ (c :: v') ++ post).dropWhile Text.isSpace = pre' ++ (c :: v') ++ post := by
    rw [List.append_assoc, List.dropWhile_append, List.cons_append,
      List.dropWhile_cons_of_neg (by simp [hv c List.mem_cons_self])]
    split
    · exact ⟨[], rfl⟩
    · exact ⟨pre.dropWhile Text.isSpace, by simp⟩
  obtain ⟨pre', hpre⟩ := hstart
  have hend : ∃ pre'' post', trimEnd (pre' ++ (c :: v') ++ post) = pre'' ++ (c :: v') ++ post' := by
    rw [trimEnd, List.reverse_append, List.reverse_append, List.dropWhile_append]
    split
    · rw [List.dropWhile_append]
      have hkeep : (c :: v').reverse.dropWhile Text.isSpace = (c :: v').reverse :=
        List.dropWhile_eq_self_iff.mpr fun hlen => by
          simpa using hv _ (List.mem_reverse.mp (List.getElem_mem hlen))
      rw [hkeep, if_neg (by simp)]
      exact ⟨pre', [], by simp⟩
    · exact ⟨pre', (post.reverse.dropWhile Text.isSpace).reverse, by simp⟩
  obtain ⟨pre'', post', hpost⟩ := hend
  refine ⟨pre'', post', ?_⟩
  rw [Scan.trim, hpre]
  exact hpost.symm

/-! ## The first word -/

/-- The text's first token is a word, and as far as it is a keyword it begins with the one tested. -/
def FirstWord (word : String) (sql : List Char) : Prop :=
  ∃ v ts, sqlTokens .sqlite sql = .word v :: ts ∧ ∀ k : String, (∀ c ∈ k.toList, isPlain c = true) →
    v = k.toList → word.toList <+: k.toList.map Char.toUpper

theorem firstWord_run {word : String} (hw : ∀ c ∈ word.toList, isPlain c = true)
    {c : Char} {cs : List Char} (hc : isIdent c = true) (hd : c ≠ '$')
    (he : c :: cs.takeWhile isIdent ≠ ['e']) (hE : c :: cs.takeWhile isIdent ≠ ['E'])
    (h : Text.isSpace c = false → word.toList <+: (trimEnd (c :: cs)).flatMap upperChar) :
    FirstWord word (c :: cs) := by
  obtain ⟨ts, hts⟩ := tokens_word (S := sqlSyntax .sqlite) hc hd he hE
  refine ⟨(c :: cs.takeWhile isIdent).map Char.toLower, ts.map lowered, ?_, ?_⟩
  · simp [sqlTokens, hts, lowered]
  · intro k hk hv
    have hplain : ∀ d ∈ c :: cs.takeWhile isIdent, isPlain d = true := by
      intro d hd
      apply plain_of_toLower
      apply hk
      rw [← hv]
      exact List.mem_map_of_mem hd
    have hspace : Text.isSpace c = false := plain_not_space (hplain c List.mem_cons_self)
    have htext := h hspace
    have hsplit : c :: cs = (c :: cs.takeWhile isIdent) ++ cs.dropWhile isIdent := by
      rw [List.cons_append, List.takeWhile_append_dropWhile]
    rw [hsplit, trimEnd_append fun d hd => plain_not_space (hplain d hd)] at htext
    have hpre := prefix_of_word hplain (r := trimEnd (cs.dropWhile isIdent)) ?_ hw htext
    · have hup : (c :: cs.takeWhile isIdent).map Char.toUpper = k.toList.map Char.toUpper := by
        rw [← hv, List.map_map]
        apply List.map_congr_left
        intro d _
        exact (Char.toUpper_toLower_eq_toUpper d).symm
      rwa [hup] at hpre
    · intro d hd
      have hhead : d ∈ (cs.dropWhile isIdent).head? := by
        obtain ⟨rest, hrest⟩ := trimEnd_prefix (cs.dropWhile isIdent)
        rw [← hrest, List.head?_append, Option.mem_def.mp hd]
        rfl
      have hn := List.head?_dropWhile_not isIdent cs
      rw [Option.mem_def.mp hhead] at hn
      exact hn

/-- What begins a text that is tested for a word of capitals. -/
theorem ident_of_upper {c x : Char} {rest : List Char} (h : upperChar c = x :: rest)
    (hx : isPlain x = true) : isIdent c = true := by
  by_contra hc
  obtain ⟨hup, hplain⟩ := upperChar_other (c := c) (by simpa using hc)
  rw [hup] at h
  obtain ⟨rfl, -⟩ := List.cons.inj h
  rw [hx] at hplain
  cases hplain

theorem upperChar_ne_nil (c : Char) : upperChar c ≠ [] := by
  unfold upperChar
  split
  all_goals simp

theorem firstWord_of_startsWith {word : String} (hw : ∀ c ∈ word.toList, isPlain c = true)
    (hne : word.toList ≠ []) (hhead : word.toList.head? ≠ some 'E') {sql : List Char}
    (h : startsWith word sql = true) : FirstWord word sql := by
  obtain ⟨x, rest, hword⟩ := List.exists_cons_of_ne_nil hne
  have hx : x ≠ 'E' := by
    rintro rfl
    exact hhead (by rw [hword]; rfl)
  rw [startsWith, List.isPrefixOf_iff_prefix] at h
  induction sql with
  | nil =>
    rw [hword] at h
    exact absurd h (by simp [normalizedSql, Scan.trim])
  | cons c cs ih =>
    by_cases hspace : Text.isSpace c = true
    · have htrim : normalizedSql (c :: cs) = normalizedSql cs := by
        rw [normalizedSql, Scan.trim, List.dropWhile_cons_of_pos hspace]
        rfl
      cases hsql : isSpace c with
      | true =>
        rw [htrim] at h
        obtain ⟨v, ts, hts, hv⟩ := ih h
        exact ⟨v, ts, by rw [sqlTokens, tokens_space hsql]; exact hts, hv⟩
      | false =>
        have hwide := wide_of_space hspace hsql
        have hne : ∀ e : Char, e.toNat < 128 → c ≠ e := by
          rintro e he rfl
          omega
        refine firstWord_run hw (by simp [isIdent, hwide]) (hne '$' (by decide)) ?_ ?_ ?_
        · exact fun he => hne 'e' (by decide) (List.cons.inj he).1
        · exact fun he => hne 'E' (by decide) (List.cons.inj he).1
        · exact fun hs => absurd hspace (by simp [hs])
    · have hs : Text.isSpace c = false := by simpa using hspace
      rw [normalizedSql, trim_of_head hs] at h
      have hkeep : trimEnd (c :: cs) = c :: trimEnd cs :=
        trimEnd_append (u := [c]) (by simpa using hs) cs
      obtain ⟨y, ys, hy⟩ := List.exists_cons_of_ne_nil (upperChar_ne_nil c)
      have hxy : x = y := by
        rw [hkeep, List.flatMap_cons, hy, hword] at h
        exact (List.cons_prefix_cons.mp h).1
      subst hxy
      have hplain : isPlain x = true := hw x (by rw [hword]; exact List.mem_cons_self)
      have hne : ∀ e : Char, upperChar e = ['E'] → c ≠ e := by
        rintro e he rfl
        rw [he] at hy
        exact hx (List.cons.inj hy).1.symm
      refine firstWord_run hw (ident_of_upper hy hplain) ?_ ?_ ?_ fun _ => h
      · rintro rfl
        obtain ⟨rfl, -⟩ := List.cons.inj ((upperChar_ascii (by decide)).symm.trans hy)
        cases hplain
      · exact fun he => hne 'e' (upperChar_ascii (by decide)) (List.cons.inj he).1
      · exact fun hE => hne 'E' (upperChar_ascii (by decide)) (List.cons.inj hE).1
/-! ## What the statement says of its text -/

def Kind.heads : Kind → List String
  | .select => ["select"]
  | .values => ["values"]
  | .explain => ["explain"]
  | .pragma _ => ["pragma"]
  | .write _ => dataWords .sqlite
  | .withQuery | .withWrite _ => ["with"]
  | .other => otherWords

variable {pragmaAnswers : List Token → Bool} {sql : List Char} {k : Kind}

theorem IsStatement.head {st : List Token} (h : IsStatement pragmaAnswers k st) :
    ∃ w ∈ k.heads, ∃ rest, st = kw w :: rest := by
  cases h with
  | select => exact ⟨"select", List.mem_cons_self, _, rfl⟩
  | values => exact ⟨"values", List.mem_cons_self, _, rfl⟩
  | explain => exact ⟨"explain", List.mem_cons_self, _, rfl⟩
  | pragma => exact ⟨"pragma", List.mem_cons_self, _, rfl⟩
  | write hw _ => exact ⟨_, hw, _, rfl⟩
  | withQuery _ _ _ => exact ⟨"with", List.mem_cons_self, _, rfl⟩
  | withWrite _ _ _ _ => exact ⟨"with", List.mem_cons_self, _, rfl⟩
  | other hw => exact ⟨_, hw, _, rfl⟩

def heads : List String :=
  ["select", "values", "explain", "pragma", "with"] ++ dataWords .sqlite ++ otherWords

theorem Kind.heads_subset (k : Kind) : k.heads ⊆ SqliteStatements.heads := by
  cases k with
  | pragma _ => exact List.cons_subset.mpr ⟨by decide, List.nil_subset _⟩
  | withWrite _ => exact List.cons_subset.mpr ⟨by decide, List.nil_subset _⟩
  | write _ =>
    intro w hw
    exact List.mem_append_left _ (List.mem_append_right _ hw)
  | other =>
    intro w hw
    exact List.mem_append_right _ hw
  | _ => exact List.cons_subset.mpr ⟨by decide, List.nil_subset _⟩

theorem heads_plain {w : String} (hw : w ∈ k.heads) : ∀ c ∈ w.toList, isPlain c = true := by
  have hall : ∀ w ∈ SqliteStatements.heads, w.toList.all isPlain = true := by decide
  simpa using hall w (k.heads_subset hw)

theorem Prepares.startsWith (word : String) (h : Prepares pragmaAnswers sql k)
    (hw : word.toList.all isPlain = true) (hne : word.toList ≠ [])
    (hhead : word.toList.head? ≠ some 'E') (hs : startsWith word sql = true) : ∃ w ∈ k.heads, word.toList <+: w.toList.map Char.toUpper := by
  obtain ⟨v, ts, htok, hv⟩ := firstWord_of_startsWith (List.all_eq_true.mp hw) hne hhead hs
  obtain ⟨ts', hfirst⟩ := first_of_word htok
  obtain ⟨st, hst, hk⟩ := h
  obtain ⟨w, hwk, rest, rfl⟩ := hk.head
  rw [statements_eq, hfirst, List.filter_cons_of_pos (by simp)] at hst
  have hword := Token.word.inj (List.cons.inj (List.cons.inj hst).1).1
  exact ⟨w, hwk, hv w (heads_plain hwk) hword⟩

theorem Prepares.select (h : Prepares pragmaAnswers sql k) (hk : "select" ∉ k.heads) :
    SqliteStatements.startsWith "SELECT" sql = false := by
  by_contra hs
  obtain ⟨w, hw, hpre⟩ := h.startsWith "SELECT" (by decide) (by decide) (by decide) (by simpa using hs)
  have hall : ∀ w ∈ SqliteStatements.heads, w = "select" ∨
      "SELECT".toList.isPrefixOf (w.toList.map Char.toUpper) = false := by decide
  rcases hall w (k.heads_subset hw) with rfl | hno
  · exact hk hw
  · rw [List.isPrefixOf_iff_prefix.mpr hpre] at hno
    cases hno

theorem Prepares.with (h : Prepares pragmaAnswers sql k) (hk : "with" ∉ k.heads) :
    SqliteStatements.startsWith "WITH" sql = false := by
  by_contra hs
  obtain ⟨w, hw, hpre⟩ := h.startsWith "WITH" (by decide) (by decide) (by decide) (by simpa using hs)
  have hall : ∀ w ∈ SqliteStatements.heads, w = "with" ∨
      "WITH".toList.isPrefixOf (w.toList.map Char.toUpper) = false := by decide
  rcases hall w (k.heads_subset hw) with rfl | hno
  · exact hk hw
  · rw [List.isPrefixOf_iff_prefix.mpr hpre] at hno
    cases hno

/-- A keyword among the tokens is found in the text. -/
theorem includes_of_token {w : String} (hne : w.toList ≠ []) (hw : w.toList.all isPlain = true)
    (h : kw w ∈ sqlTokens .sqlite sql) : w.toList.map Char.toUpper <:+: normalizedSql sql := by
  obtain ⟨t, ht, hl⟩ := List.mem_map.mp h
  cases t with
  | quoted => cases hl
  | symbol c => cases hl
  | word v =>
    have hv : v.map Char.toLower = w.toList := Token.word.inj hl
    have hplain : ∀ c ∈ v, isPlain c = true := by
      intro c hc
      apply plain_of_toLower
      apply List.all_eq_true.mp hw
      rw [← hv]
      exact List.mem_map_of_mem hc
    have hvne : v ≠ [] := by
      rintro rfl
      exact hne hv.symm
    obtain ⟨pre, post, rfl, -, -⟩ := standing_of_mem (sqlSyntax_wellFormed .sqlite) ht
    obtain ⟨before, after, htrim⟩ :=
      infix_trim hvne (fun c hc => plain_not_space (hplain c hc)) pre post
    refine ⟨before.flatMap upperChar, after.flatMap upperChar, ?_⟩
    rw [normalizedSql, ← htrim, List.flatMap_append, List.flatMap_append, upper_plain hplain, ← hv,
      List.map_map]
    congr 2
    apply List.map_congr_left
    intro c _
    exact Char.toUpper_toLower_eq_toUpper c

theorem Prepares.returning (h : Prepares pragmaAnswers sql k)
    (hk : ∀ st, IsStatement pragmaAnswers k st → ∃ before rest, st = before ++ rest ∧ HasReturning rest) :
    includes "RETURNING" sql = true := by
  obtain ⟨st, hst, hs⟩ := h
  obtain ⟨before, rest, rfl, before', after, rfl, -⟩ := hk st hs
  have hmem : before ++ (before' ++ kw "returning" :: after) ∈ statements .sqlite sql := by
    apply List.mem_of_mem_filter (p := (· ≠ []))
    rw [hst]
    exact List.mem_cons_self
  have htok : kw "returning" ∈ sqlTokens .sqlite sql := Text.mem_of_mem_splitOnP hmem (by simp)
  have hup : "returning".toList.map Char.toUpper = "RETURNING".toList := by decide
  have hin := includes_of_token (by decide) (by decide) htok
  rw [hup] at hin
  exact decide_eq_true hin

theorem Prepares.write (h : Prepares pragmaAnswers sql (.write true)) :
    includes "RETURNING" sql = true := by
  refine h.returning fun st hst => ?_
  cases hst with
  | write hw hr => exact ⟨[_], _, rfl, hr.mp rfl⟩

theorem Prepares.withWrite (h : Prepares pragmaAnswers sql (.withWrite true)) :
    includes "RETURNING" sql = true := by
  refine h.returning fun st hst => ?_
  cases hst with
  | withWrite hrec hctes hw hr => exact ⟨_ ++ [_], _, (List.append_assoc _ [_] _).symm, hr.mp rfl⟩

/-- Both tests take a statement for what it is exactly when its text shows it. -/
theorem reader_iff_returns (h : Prepares pragmaAnswers sql k) : Classified sql k ↔ Shown sql k := by
  simp only [Classified, queryReturnsRows, executeReturnsRows]
  cases k with
  | select =>
    rw [h.with (by decide)]
    simp [Shown, Kind.returnsRows]
  | values =>
    rw [h.with (by decide), h.select (by decide)]
    simp [Shown, Kind.returnsRows]
  | explain =>
    rw [h.with (by decide), h.select (by decide)]
    simp [Shown, Kind.returnsRows]
  | pragma answers =>
    rw [h.with (by simp [Kind.heads]), h.select (by simp [Kind.heads])]
    simp [Shown, Kind.returnsRows]
  | write returning =>
    rw [h.with (by simp [Kind.heads, dataWords]), h.select (by simp [Kind.heads, dataWords])]
    cases returning with
    | true => simp [Shown, Kind.returnsRows, h.write]
    | false => simp [Shown, Kind.returnsRows]
  | withQuery =>
    rw [h.select (by decide)]
    simp only [Shown, Kind.returnsRows]
    cases includes "RETURNING" sql <;> cases SqliteStatements.startsWith "WITH" sql <;>
      cases includes "UPDATE" sql <;> cases includes "DELETE" sql <;> decide
  | withWrite returning =>
    rw [h.select (by simp [Kind.heads])]
    cases returning with
    | true => simp [Shown, Kind.returnsRows, h.withWrite]
    | false =>
      simp only [Shown, Kind.returnsRows]
      cases includes "RETURNING" sql <;> cases SqliteStatements.startsWith "WITH" sql <;>
        cases includes "UPDATE" sql <;> cases includes "DELETE" sql <;> decide
  | other =>
    rw [h.with (by decide), h.select (by decide)]
    simp [Shown, Kind.returnsRows]
theorem select_classified : Prepares (fun _ => true) "SELECT 1".toList .select ∧
    (Classified "SELECT 1".toList .select ↔ Shown "SELECT 1".toList .select) := by
  have h : Prepares (fun _ => true) "SELECT 1".toList .select :=
    ⟨[kw "select", kw "1"], by decide, .select⟩
  exact ⟨h, reader_iff_returns h⟩

/-- A `DELETE` behind a common table expression: `query` runs it, `execute` asks it for rows. -/
def purge : List Char := "WITH old AS (SELECT 1) DELETE FROM logs".toList

theorem purge_prepares : Prepares (fun _ => true) purge (.withWrite false) := by
  have hcte : IsCte [kw "select", kw "1"]
      [kw "old", kw "as", .symbol '(', kw "select", kw "1", .symbol ')'] := by
    refine ⟨kw "old", [], [], ⟨by decide, ?_⟩, .inl rfl, List.mem_cons_self, rfl⟩
    intro pre hpre
    have hno : Token.symbol ')' ∉ pre := fun hm => absurd (hpre.subset hm) (by decide)
    rw [List.count_eq_zero.mpr hno]
    exact Nat.zero_le _
  have hnone : false = true ↔ HasReturning [kw "from", kw "logs"] := by
    refine iff_of_false Bool.false_ne_true ?_
    rintro ⟨before, after, heq, -⟩
    have hmem : kw "returning" ∈ [kw "from", kw "logs"] := by
      rw [heq]
      exact List.mem_append_right _ List.mem_cons_self
    exact absurd hmem (by decide)
  refine ⟨_, ?_, .withWrite (.inl rfl) (.last hcte) (w := "delete") (by decide) hnone⟩
  decide

/-- Also `VALUES`, which both run. -/
theorem purge_misread :
    (Prepares (fun _ => true) purge (.withWrite false) ∧ ¬ Classified purge (.withWrite false)) ∧
      Prepares (fun _ => true) "VALUES (1)".toList .values ∧ ¬ Classified "VALUES (1)".toList .values := by
  have hvalues : Prepares (fun _ => true) "VALUES (1)".toList .values :=
    ⟨[kw "values", .symbol '(', kw "1", .symbol ')'], by decide, .values⟩
  refine ⟨⟨purge_prepares, ?_⟩, hvalues, ?_⟩
  · rintro ⟨hsame, -⟩
    exact absurd hsame (by decide)
  · rintro ⟨-, hrows⟩
    exact absurd hrows (by decide)

end LiteDb.SqliteStatements
