import LiteDbModel.Lib.Scan
import LiteDbModel.Records

/-!
# Recovering the rows of a MySQL write

A write that declares `RETURNING` is run without it and its rows are read back. The table, the
verb, the WHERE clause and its parameters are found by searching the text. The hint behind the
text, which names the key, is added once and taken off again.
-/

namespace LiteDb.MysqlReturning
set_option autoImplicit false
open Scan
open Text (isSpace Stops stops_append stops_of_forall stops_dropWhile takeWhile_stop dropWhile_stop)

/-! ## Searching texts -/

/-- `toLowerCase`, as far as the searched words can see it: the dotted capital becomes two
characters, and the Kelvin sign a `k`. -/
def lowerChar (c : Char) : List Char :=
  if c = '\u0130' then ['i', '\u0307'] else if c = '\u212a' then ['k'] else [c.toLower]

def toLowerCase (cs : List Char) : List Char := cs.flatMap lowerChar

/-- `[A-Za-z0-9_."`]`. -/
def isTableChar (c : Char) : Bool := isWordChar c || c = '.' || c = '"' || c = '\x60'

/-! ## The hint -/

/-- A match of `MYSQL_PK_HINT_RE` at the head, taken off. -/
def hintAt (cs : List Char) : Option (List Char) :=
  let rest := cs.dropWhile isSpace
  if "/*scp:pk=".toList <+: rest then
    let close := (rest.drop 9).dropWhile fun c => c ≠ '*'
    if "*/".toList <+: close then some (close.drop 2) else none
  else none

/-- `MYSQL_PK_HINT_RE.test`. -/
def hasHint : List Char → Bool
  | [] => false
  | c :: cs => (hintAt (c :: cs)).isSome || hasHint cs

def stripMysqlPkHint : List Char → List Char
  | [] => []
  | c :: cs => (hintAt (c :: cs)).getD (c :: stripMysqlPkHint cs)

/-- `/\breturning\b/i.test`; the flag is whether a word character stands before. -/
def hasReturning : Bool → List Char → Bool
  | _, [] => false
  | inWord, c :: cs =>
    (!inWord && ((c :: cs).takeWhile isWordChar).map Char.toLower = "returning".toList) ||
      hasReturning (isWordChar c) cs

def commas (names : List String) : List Char := [','].intercalate (names.map String.toList)

/-- What the hint says. -/
def hintFields (pk : PrimaryKey) (conflict : Option String) : List Char :=
  let conflictPart := match conflict with
    | some c => if c = "" then [] else ";conflict=".toList ++ c.toList
    | none => []
  commas pk.columns ++ (";ai=".toList ++ ((pk.autoInc.getD "").toList ++ conflictPart))

def pkHint (pk : PrimaryKey) (conflict : Option String) : List Char :=
  " /*scp:pk=".toList ++ (hintFields pk conflict ++ "*/".toList)

/-- The text of `mysqlPkHint`. -/
def mysqlPkHint (sql : List Char) (pk : Option PrimaryKey) (conflict : Option String) : List Char :=
  match pk with
  | none => sql
  | some pk =>
    if !hasReturning false sql then sql
    else if hasHint sql then sql
    else sql ++ pkHint pk conflict

/-! ## The parts of a write's text -/

/-- What follows a match of `INSERT\s+(?:IGNORE\s+)?INTO`. -/
def insertInto (cs : List Char) : Option (List Char) :=
  ((dropWord "insert".toList cs).bind dropSpaces).bind fun rest =>
    (((dropWord "ignore".toList rest).bind dropSpaces).bind (dropWord "into".toList)).or
      (dropWord "into".toList rest)

/-- What follows the verb. -/
def verbAt (cs : List Char) : Option (List Char) :=
  ((insertInto cs).or (dropWord "update".toList cs)).or
    (((dropWord "delete".toList cs).bind dropSpaces).bind (dropWord "from".toList))

def tableAt (cs : List Char) : Option (List Char) :=
  ((verbAt cs).bind dropSpaces).bind fun rest =>
    let table := rest.takeWhile isTableChar
    if table = [] then none else some table

/-- The first match from a place on; the flag is whether a word character stands before it. -/
def firstMatch {α : Type} (matchAt : List Char → Option α) : Bool → List Char → Option α
  | _, [] => none
  | inWord, c :: cs =>
    (if inWord then none else matchAt (c :: cs)).or (firstMatch matchAt (isWordChar c) cs)

def tableOf (writeSql : List Char) : Option (List Char) := firstMatch tableAt false writeSql

def insertColsAt (cs : List Char) : Option (List (List Char)) :=
  ((insertInto cs).bind dropSpaces).bind fun rest =>
    match (rest.takeWhile isTableChar), (rest.dropWhile isTableChar).dropWhile isSpace with
    | [], _ => none
    | _, '(' :: cols =>
      if ')' ∈ cols then some (((cols.takeWhile fun c => c ≠ ')').splitOn ',').map trim) else none
    | _, _ => none

def insertCols (writeSql : List Char) : List (List Char) :=
  (firstMatch insertColsAt false writeSql).getD []

/-- The key of a match of `\sON\s+[A-Za-z0-9_]*\.?([A-Za-z0-9_]+)\s*=`: behind a dot all of the
word, and else its last character. -/
def batchKeyAt (cs : List Char) : Option (List Char) :=
  match cs with
  | [] => none
  | c :: rest =>
    if isSpace c then
      ((dropWord "on".toList rest).bind dropSpaces).bind fun rest =>
        let word := rest.takeWhile isWordChar
        let key := match rest.drop word.length with
          | '.' :: r => (r.takeWhile isWordChar, r.dropWhile isWordChar)
          | r => (word.drop (word.length - 1), r)
        if key.1 = [] then none
        else if "=".toList <+: key.2.dropWhile isSpace then some key.1
        else none
    else none

def updateBatchKey : List Char → Option (List Char)
  | [] => none
  | c :: cs => (batchKeyAt (c :: cs)).or (updateBatchKey cs)

/-- `split(',').map(trim).filter(nonempty)`. -/
def nameList (cs : List Char) : List (List Char) := ((cs.splitOn ',').map trim).filter (· ≠ [])

structure PkHint where
  pk : List (List Char)
  autoInc : List Char
deriving DecidableEq

def pkHintAt (cs : List Char) : Option PkHint :=
  (dropWord "/*scp:pk=".toList cs).bind fun rest =>
    let field := fun c : Char => c ≠ ';' && c ≠ '*'
    (dropWord ";ai=".toList (rest.dropWhile field)).map fun rest' =>
      ⟨nameList (rest.takeWhile field), trim (rest'.takeWhile field)⟩

def parsePkHint : List Char → PkHint
  | [] => ⟨[], []⟩
  | c :: cs => (pkHintAt (c :: cs)).getD (parsePkHint cs)

def conflictAt (cs : List Char) : Option (List (List Char)) :=
  (dropWord ";conflict=".toList cs).bind fun rest =>
    if "*/".toList <+: rest.dropWhile (fun c => c ≠ '*') then
      some (nameList (rest.takeWhile fun c => c ≠ '*'))
    else none

def parseConflictHint : List Char → List (List Char)
  | [] => []
  | c :: cs => (conflictAt (c :: cs)).getD (parseConflictHint cs)

def placeholders (cs : List Char) : Nat := cs.count '?'

/-! ## The recovering SELECT -/

inductive ReselectBind
  | lastId
  | highId
  | json
  | param (index : Nat)
deriving DecidableEq

structure MysqlReselect where
  writeSql : List Char
  selectSql : List Char
  binds : List ReselectBind
  before : Bool
deriving DecidableEq

/-- A message's own texts around the beginning of the write. -/
def failure (before after : String) (writeSql : List Char) : String :=
  before ++ "'" ++ String.ofList (writeSql.take 60) ++ "…'" ++ after

def orderBy (pk : List (List Char)) : List Char :=
  if pk = [] then [] else " ORDER BY ".toList ++ (", ".toList).intercalate pk

def selectFrom (cols table cond order : List Char) : List Char :=
  "SELECT ".toList ++ (cols ++ (" FROM ".toList ++ (table ++ (" WHERE ".toList ++ (cond ++ order)))))

def jsonSelect (cols table key order : List Char) : List Char :=
  selectFrom cols table (key ++ (" IN (SELECT JSON_UNQUOTE(jt.".toList ++ (key ++
    (") FROM JSON_TABLE(?, '$[*]' COLUMNS(".toList ++ (key ++ (" JSON PATH '$.".toList ++ (key ++
      "')) jt)".toList))))))) order

/-- The binds of a client-supplied key, by the places of its columns in the list. -/
def keyBinds (writeSql : List Char) (insertCols : List (List Char)) :
    List (List Char) → Except String (List ReselectBind)
  | [] => .ok []
  | c :: pk =>
    if c ∈ insertCols then
      (keyBinds writeSql insertCols pk).map fun binds => .param (insertCols.idxOf c) :: binds
    else
      .error (failure ("scp write(mysql): PK column '" ++ String.ofList c ++
        "' is not among the INSERT columns of ") "" writeSql)

/-- The rows of the write's own WHERE clause. -/
def byWhere (writeSql cols table order : List Char) : Except String MysqlReselect :=
  let lower := toLowerCase writeSql
  match lastIndexOf " where ".toList lower with
  | none => .error (failure ("scp write(mysql): a " ++
      (if "delete".toList <+: lower then "DELETE" else "UPDATE") ++
        "…RETURNING needs a WHERE to recover its rows (") ")" writeSql)
  | some wherePos =>
    let whereSql := trim (writeSql.drop (wherePos + 7))
    let before := placeholders (writeSql.take wherePos)
    .ok ⟨writeSql, selectFrom cols table whereSql order,
      (List.range (placeholders whereSql)).map fun i => .param (before + i),
      decide ("delete".toList <+: lower)⟩

/-- What is recovered from the write's text, the returned columns, the table and the hint. -/
def recover (writeSql cols table : List Char) (hint : PkHint) (conflict : List (List Char)) :
    Except String MysqlReselect :=
  let lower := toLowerCase writeSql
  let order := orderBy hint.pk
  let isBatch : Bool := "json_table(".toList <:+: lower
  if "insert".toList <+: lower ∧ "on duplicate key update".toList <:+: lower then
    match conflict with
    | [] => .error (failure
        "scp write(mysql): an upsert…RETURNING needs its conflict key in the pk hint (" ")" writeSql)
    | key :: _ =>
      if isBatch then .ok ⟨writeSql, jsonSelect cols table key order, [.json], false⟩
      else if key ∈ insertCols writeSql then
        .ok ⟨writeSql, selectFrom cols table (key ++ " = ?".toList) order,
          [.param ((insertCols writeSql).idxOf key)], false⟩
      else .error (failure ("scp write(mysql): conflict key '" ++ String.ofList key ++
        "' is not among the INSERT columns of ") "" writeSql)
  else if "insert".toList <+: lower then
    if hint.autoInc ≠ [] ∧ hint.pk = [hint.autoInc] then
      .ok ⟨writeSql, selectFrom cols table (hint.autoInc ++ (" >= ? AND ".toList ++
        (hint.autoInc ++ " < ?".toList))) order, [.lastId, .highId], false⟩
    else match hint.pk with
      | [] => .error (failure ("scp write(mysql): an INSERT…RETURNING carries no pk hint, " ++
          "so its written rows cannot be identified (")
          "). The producer must pass the model's declared primary key." writeSql)
      | key :: others =>
        if isBatch then
          if others ≠ [] then
            .error (failure ("scp write(mysql): a batch INSERT…RETURNING on the COMPOSITE key (" ++
              String.ofList ((", ".toList).intercalate hint.pk) ++
                ") cannot be recovered from its JSON payload (") ")." writeSql)
          else .ok ⟨writeSql, jsonSelect cols table key order, [.json], false⟩
        else
          (keyBinds writeSql (insertCols writeSql) hint.pk).map fun binds =>
            ⟨writeSql, selectFrom cols table ((" AND ".toList).intercalate
              (hint.pk.map fun c => c ++ " = ?".toList)) order, binds, false⟩
  else if "update".toList <+: lower ∧ isBatch then
    match updateBatchKey writeSql with
    | none => .error (failure "scp write(mysql): cannot parse the batch JOIN key of " "" writeSql)
    | some key => .ok ⟨writeSql, jsonSelect cols table key order, [.json], false⟩
  else byWhere writeSql cols table order

/-- The write's text, the hint's region and the returned columns. -/
def returningParts (sql : List Char) : Option (List Char × List Char × List Char) :=
  (lastIndexOf " returning ".toList (toLowerCase sql)).map fun retPos =>
    (trim (stripMysqlPkHint (sql.take retPos)), sql.drop retPos,
      trim (stripMysqlPkHint (sql.drop (retPos + 11))))

def buildMysqlReselect (sql : List Char) : Except String (Option MysqlReselect) :=
  match returningParts sql with
  | none => .ok none
  | some (writeSql, hintRegion, cols) =>
    match tableOf writeSql with
    | none => .error (failure "scp write(mysql): cannot parse the target table of " "" writeSql)
    | some table =>
      (recover writeSql cols table (parsePkHint hintRegion) (parseConflictHint hintRegion)).map some

/-! ## Lower case -/

theorem toLowerCase_append (l r : List Char) :
    toLowerCase (l ++ r) = toLowerCase l ++ toLowerCase r := List.flatMap_append

theorem lowerChar_letter {c : Char} (h : isWordChar c.toLower = true) :
    lowerChar c = [c.toLower] := by
  rw [lowerChar, if_neg, if_neg]
  · rintro rfl
    exact absurd h (by decide)
  · rintro rfl
    exact absurd h (by decide)

theorem toLowerCase_word {w word : List Char} (h : w.map Char.toLower = word)
    (hword : ∀ c ∈ word, isWordChar c = true) : toLowerCase w = word := by
  subst h
  rw [toLowerCase]
  induction w with
  | nil => rfl
  | cons c w ih =>
    rw [List.flatMap_cons, lowerChar_letter (hword c.toLower List.mem_cons_self),
      ih fun d hd => hword d (List.mem_cons_of_mem _ hd)]
    rfl

theorem toLowerCase_blank {b : List Char} (h : Blank b) : toLowerCase b = b := by
  rw [toLowerCase]
  induction b with
  | nil => rfl
  | cons c b ih =>
    have hc := h c List.mem_cons_self
    have hlower : lowerChar c = [c] := by
      rw [lowerChar, if_neg, if_neg, toLower_of_space hc]
      · rintro rfl
        exact absurd hc (by decide)
      · rintro rfl
        exact absurd hc (by decide)
    rw [List.flatMap_cons, hlower, ih fun d hd => h d (List.mem_cons_of_mem c hd)]
    rfl

/-! ## Stripping a hint -/

theorem hintAt_eq_some_iff {cs t : List Char} : hintAt cs = some t ↔
    ∃ b n, Blank b ∧ '*' ∉ n ∧ cs = b ++ ("/*scp:pk=".toList ++ (n ++ ("*/".toList ++ t))) := by
  have hstar : ∀ l : List Char, (∀ c ∈ l.takeWhile fun c => c ≠ '*', c ≠ '*') := by
    intro l c hc
    have := List.mem_takeWhile_imp hc
    simpa using this
  constructor
  · intro h
    rw [hintAt] at h
    simp only at h
    split at h
    next hpre =>
      split at h
      next hclose =>
        obtain ⟨rest, hrest⟩ := hpre
        obtain ⟨close, hclose⟩ := hclose
        have hdrop : (cs.dropWhile isSpace).drop 9 = rest := by
          rw [← hrest]
          exact List.drop_left' (by decide)
        rw [hdrop] at h hclose
        have ht : close = t := by
          rw [← hclose] at h
          exact Option.some_inj.mp h
        refine ⟨cs.takeWhile isSpace, rest.takeWhile fun c => c ≠ '*',
          fun c hc => List.mem_takeWhile_imp hc, fun hmem => hstar rest '*' hmem rfl, ?_⟩
        rw [← ht, hclose, List.takeWhile_append_dropWhile, hrest, List.takeWhile_append_dropWhile]
      next => exact nomatch h
    next => exact nomatch h
  · rintro ⟨b, n, hb, hn, rfl⟩
    have hstop : Stops isSpace ("/*scp:pk=".toList ++ (n ++ ("*/".toList ++ t))) := by
      intro c hc
      obtain rfl : '/' = c := Option.some_inj.mp hc
      decide
    have hclose : (n ++ ("*/".toList ++ t)).dropWhile (fun c => c ≠ '*') = "*/".toList ++ t := by
      apply dropWhile_stop
      · intro c hc
        simp only [ne_eq, decide_not, Bool.not_eq_true', decide_eq_false_iff_not]
        rintro rfl
        exact hn hc
      · intro c hc
        obtain rfl : '*' = c := Option.some_inj.mp hc
        decide
    have hdrop : ("/*scp:pk=".toList ++ (n ++ ("*/".toList ++ t))).drop 9 = n ++ ("*/".toList ++ t) :=
      List.drop_left' (by decide)
    rw [hintAt, dropWhile_stop hb hstop]
    simp only [hdrop, hclose, List.prefix_append, if_true]
    rfl

/-- A match ends before a text without a slash. -/
theorem hintAt_append {l r : List Char} (h : '/' ∉ r) :
    (hintAt (l ++ r)).isSome = (hintAt l).isSome := by
  apply Bool.eq_iff_iff.mpr
  constructor
  · intro hsome
    obtain ⟨t, ht⟩ := Option.isSome_iff_exists.mp hsome
    obtain ⟨b, n, hb, hn, heq⟩ := hintAt_eq_some_iff.mp ht
    have hassoc : b ++ ("/*scp:pk=".toList ++ (n ++ ("*/".toList ++ t))) =
        (b ++ ("/*scp:pk=".toList ++ (n ++ "*/".toList))) ++ t := by
      simp only [List.append_assoc]
    rw [hassoc] at heq
    rcases List.append_eq_append_iff.mp heq with ⟨a, ha, hr⟩ | ⟨a, ha, hr⟩
    · rcases List.eq_nil_or_concat a with rfl | ⟨a', c, rfl⟩
      · rw [List.append_nil] at ha
        have hnone : hintAt l = some [] := hintAt_eq_some_iff.mpr ⟨b, n, hb, hn, by
          rw [List.append_nil]
          exact ha.symm⟩
        rw [hnone]
        rfl
      · exfalso
        have hend : b ++ ("/*scp:pk=".toList ++ (n ++ "*/".toList)) =
            (b ++ ("/*scp:pk=".toList ++ (n ++ ['*']))) ++ ['/'] := by simp
        have hsnoc : l ++ (a' ++ [c]) = (l ++ a') ++ [c] := (List.append_assoc l a' [c]).symm
        rw [List.concat_eq_append] at ha hr
        rw [hend, hsnoc] at ha
        have hc : c = '/' := (List.cons.inj (List.append_inj_right' ha rfl)).1.symm
        apply h
        rw [hr, hc]
        simp
    · have hsome : hintAt l = some a := hintAt_eq_some_iff.mpr ⟨b, n, hb, hn, by
        rw [ha]
        simp only [List.append_assoc]⟩
      rw [hsome]
      rfl
  · intro hsome
    obtain ⟨t, ht⟩ := Option.isSome_iff_exists.mp hsome
    obtain ⟨b, n, hb, hn, heq⟩ := hintAt_eq_some_iff.mp ht
    have : hintAt (l ++ r) = some (t ++ r) := hintAt_eq_some_iff.mpr ⟨b, n, hb, hn, by
      rw [heq]
      simp only [List.append_assoc]⟩
    rw [this]
    rfl

theorem hasHint_noSlash {r : List Char} (h : '/' ∉ r) : hasHint r = false := by
  induction r with
  | nil => rfl
  | cons c r ih =>
    have hat : (hintAt (c :: r)).isSome = false := by
      have := hintAt_append (l := []) h
      rw [List.nil_append] at this
      rw [this]
      rfl
    rw [hasHint, hat, ih fun hmem => h (List.mem_cons_of_mem c hmem)]
    rfl

theorem hasHint_append {r : List Char} (h : '/' ∉ r) (l : List Char) :
    hasHint (l ++ r) = hasHint l := by
  induction l with
  | nil => exact hasHint_noSlash h
  | cons c l ih =>
    have hat := hintAt_append (l := c :: l) h
    rw [List.cons_append] at hat
    rw [List.cons_append, hasHint, hat, ih, hasHint]

theorem hasHint_right {r : List Char} (h : hasHint r = true) (l : List Char) :
    hasHint (l ++ r) = true := by
  induction l with
  | nil => exact h
  | cons c l ih => rw [List.cons_append, hasHint, ih, Bool.or_true]

theorem strip_of_none {c : Char} {l : List Char} (h : hintAt (c :: l) = none) :
    stripMysqlPkHint (c :: l) = c :: stripMysqlPkHint l := by
  rw [stripMysqlPkHint, h, Option.getD_none]

theorem strip_of_some {c : Char} {l t : List Char} (h : hintAt (c :: l) = some t) :
    stripMysqlPkHint (c :: l) = t := by
  rw [stripMysqlPkHint, h, Option.getD_some]

/-- A letter that is spelled at the front stays in the way of a hint. -/
theorem hintAt_letter {b w : List Char} {c : Char} (hb : Blank b) (hc : isSpace c = false)
    (hslash : c ≠ '/') : hintAt (b ++ c :: w) = none := by
  have hdrop : (b ++ c :: w).dropWhile isSpace = c :: w := by
    apply Text.dropWhile_stop hb
    intro d hd
    obtain rfl : c = d := Option.some_inj.mp hd
    exact hc
  rw [hintAt, hdrop, if_neg]
  intro hpre
  obtain ⟨r, hr⟩ := hpre
  exact hslash (List.cons.inj hr).1.symm

theorem strip_of_no {l : List Char} (h : hasHint l = false) : stripMysqlPkHint l = l := by
  induction l with
  | nil => rfl
  | cons c l ih =>
    obtain ⟨hat, hrest⟩ := (Bool.or_eq_false_iff).mp h
    have hnone : hintAt (c :: l) = none := by simpa using hat
    rw [strip_of_none hnone, ih hrest]

/-- A hint is taken off behind the word that a text begins with. -/
theorem strip_word {b w : List Char} (hb : Blank b) (hne : w ≠ [])
    (hw : ∀ c ∈ w, isSpace c = false ∧ c ≠ '/') (u : List Char) :
    stripMysqlPkHint (b ++ (w ++ u)) = b ++ (w ++ stripMysqlPkHint u) := by
  have hskip : ∀ v : List Char, (∀ c ∈ v, isSpace c = false ∧ c ≠ '/') →
      stripMysqlPkHint (v ++ u) = v ++ stripMysqlPkHint u := by
    intro v hv
    induction v with
    | nil => rfl
    | cons c v ih =>
      obtain ⟨hspace, hslash⟩ := hv c List.mem_cons_self
      rw [List.cons_append,
        strip_of_none (hintAt_letter (fun _ h => absurd h List.not_mem_nil) hspace hslash),
        ih fun d hd => hv d (List.mem_cons_of_mem c hd)]
      rfl
  induction b with
  | nil => exact hskip w hw
  | cons c b ih =>
    obtain ⟨d, w', rfl⟩ := List.exists_cons_of_ne_nil hne
    obtain ⟨hspace, hslash⟩ := hw d List.mem_cons_self
    have hnone : hintAt (c :: (b ++ (d :: w' ++ u))) = none :=
      @hintAt_letter (c :: b) (w' ++ u) d hb hspace hslash
    rw [List.cons_append, strip_of_none hnone, ih fun e he => hb e (List.mem_cons_of_mem c he)]
    rfl


theorem mem_nameList {c l : List Char} (h : c ∈ nameList l) : c ≠ [] := by
  simpa using (List.mem_filter.mp h).2

theorem mem_hint_key {c region : List Char} (h : c ∈ (parsePkHint region).pk) : c ≠ [] := by
  induction region with
  | nil => cases h
  | cons d region ih =>
    rw [parsePkHint] at h
    cases hat : pkHintAt (d :: region) with
    | none =>
      rw [hat, Option.getD_none] at h
      exact ih h
    | some hint =>
      rw [hat, Option.getD_some] at h
      obtain ⟨rest, _, hmap⟩ := Option.bind_eq_some_iff.mp hat
      obtain ⟨rest', _, heq⟩ := Option.map_eq_some_iff.mp hmap
      rw [← heq] at h
      exact mem_nameList h

/-- What is stripped has an asterisk. -/
theorem count_strip {l : List Char} (h : hasHint l = true) :
    (stripMysqlPkHint l).count '*' < l.count '*' := by
  induction l with
  | nil => cases h
  | cons c l ih =>
    cases hat : hintAt (c :: l) with
    | some t =>
      obtain ⟨b, n, -, -, heq⟩ := hintAt_eq_some_iff.mp hat
      rw [strip_of_some hat, heq]
      simp only [List.count_append]
      have : 0 < ("/*scp:pk=".toList).count '*' := by decide
      omega
    | none =>
      rw [hasHint, hat] at h
      have hlt := ih (by simpa using h)
      rw [strip_of_none hat, List.count_cons, List.count_cons]
      omega

theorem le_count_strip (l : List Char) : l.count '*' ≤ (stripMysqlPkHint l).count '*' + 2 := by
  induction l with
  | nil => exact Nat.zero_le _
  | cons c l ih =>
    cases hat : hintAt (c :: l) with
    | some t =>
      obtain ⟨b, n, hb, hn, heq⟩ := hintAt_eq_some_iff.mp hat
      have hblank : b.count '*' = 0 := List.count_eq_zero.mpr fun hmem => nomatch hb '*' hmem
      have hopen : ("/*scp:pk=".toList).count '*' = 1 ∧ ("*/".toList).count '*' = 1 := by decide
      rw [strip_of_some hat, heq]
      simp only [List.count_append, hblank, List.count_eq_zero.mpr hn, hopen]
      omega
    | none =>
      rw [strip_of_none hat, List.count_cons, List.count_cons]
      omega

/-- A hint behind some blanks is a match. -/
theorem hintAt_hint {b n : List Char} (hb : Blank b) (hn : '*' ∉ n) :
    hintAt (b ++ (" /*scp:pk=".toList ++ (n ++ "*/".toList))) = some [] := by
  refine hintAt_eq_some_iff.mpr ⟨b ++ [' '], n, ?_, hn, ?_⟩
  · intro c hc
    rcases List.mem_append.mp hc with hc | hc
    · exact hb c hc
    · rw [List.mem_singleton.mp hc]
      rfl
  · simp

/-- No match begins before a hint but in the blanks in front of it. -/
theorem hintAt_before {x n : List Char} (hno : hintAt x = none) (hne : x ≠ [])
    (hend : ¬ Blank x) : hintAt (x ++ (" /*scp:pk=".toList ++ (n ++ "*/".toList))) = none := by
  rcases hat : hintAt (x ++ (" /*scp:pk=".toList ++ (n ++ "*/".toList))) with _ | t
  · rfl
  exfalso
  obtain ⟨b, m, hb, hm, heq⟩ := hintAt_eq_some_iff.mp hat
  have hb' : '*' ∉ b := fun hmem => nomatch hb '*' hmem
  by_cases hstar : '*' ∈ x
  · -- the match opens in `x`, where it is also closed
    obtain ⟨y, z, rfl, hy⟩ := List.eq_append_cons_of_mem hstar
    have hcut : y ++ '*' :: (z ++ (" /*scp:pk=".toList ++ (n ++ "*/".toList))) =
        (b ++ ['/']) ++ '*' :: ("scp:pk=".toList ++ (m ++ ("*/".toList ++ t))) := by simpa using heq
    have hslash : '*' ∉ b ++ ['/'] := by simp [hb']
    obtain ⟨rfl, hrest⟩ := cut_inj hy hslash hcut
    have hfields : '*' ∉ "scp:pk=".toList ++ m := by simp [hm]
    by_cases hz : '*' ∈ z
    · obtain ⟨u, v, rfl, hu⟩ := List.eq_append_cons_of_mem hz
      have hclose : u ++ '*' :: (v ++ (" /*scp:pk=".toList ++ (n ++ "*/".toList))) =
          ("scp:pk=".toList ++ m) ++ '*' :: ('/' :: t) := by simpa using hrest
      obtain ⟨rfl, htail⟩ := cut_inj hu hfields hclose
      cases v with
      | nil => exact nomatch (List.cons.inj htail).1
      | cons d v =>
        obtain rfl : d = '/' := (List.cons.inj htail).1
        have hsome : hintAt ((b ++ ['/']) ++ '*' :: (("scp:pk=".toList ++ m) ++ '*' :: '/' :: v)) =
            some v := hintAt_eq_some_iff.mpr ⟨b, m, hb, hm, by simp⟩
        rw [hsome] at hno
        exact nomatch hno
    · have hclose : (z ++ [' ', '/']) ++ '*' :: ("scp:pk=".toList ++ (n ++ "*/".toList)) =
          ("scp:pk=".toList ++ m) ++ '*' :: ('/' :: t) := by simpa using hrest
      have hz' : '*' ∉ z ++ [' ', '/'] := by simp [hz]
      exact nomatch (List.cons.inj (cut_inj hz' hfields hclose).2).1
  · have hcut : (x ++ [' ', '/']) ++ '*' :: ("scp:pk=".toList ++ (n ++ "*/".toList)) =
        (b ++ ['/']) ++ '*' :: ("scp:pk=".toList ++ (m ++ ("*/".toList ++ t))) := by simpa using heq
    have hx' : '*' ∉ x ++ [' ', '/'] := by simp [hstar]
    have hslash : '*' ∉ b ++ ['/'] := by simp [hb']
    have hopen := (cut_inj hx' hslash hcut).1
    have hblank : x ++ [' '] = b := by
      have hsnoc : (x ++ [' ']) ++ ['/'] = b ++ ['/'] := by simpa using hopen
      exact List.append_cancel_right hsnoc
    apply hend
    intro c hc
    exact hb c (hblank ▸ List.mem_append_left _ hc)

theorem not_blank {l : List Char} (hne : l ≠ []) (h : Stops isSpace l.reverse) (b : List Char) :
    ¬ Blank (l ++ b) := by
  intro hblank
  obtain ⟨l', c, rfl⟩ := List.eq_nil_or_concat l |>.resolve_left hne
  rw [List.concat_eq_append, List.reverse_append] at h
  have hc := h c rfl
  rw [hblank c (by simp)] at hc
  exact nomatch hc

/-- Stripping takes an added hint off, with the blanks in front of it. -/
theorem strip_hint {l b n : List Char} (hno : hasHint (l ++ b) = false)
    (hl : Stops isSpace l.reverse) (hb : Blank b) (hn : '*' ∉ n) :
    stripMysqlPkHint ((l ++ b) ++ (" /*scp:pk=".toList ++ (n ++ "*/".toList))) = l := by
  induction l with
  | nil =>
    rw [List.nil_append]
    have hat := hintAt_hint hb hn
    cases hcs : b ++ (" /*scp:pk=".toList ++ (n ++ "*/".toList)) with
    | nil => rfl
    | cons c cs =>
      rw [hcs] at hat
      exact strip_of_some hat
  | cons c l ih =>
    obtain ⟨hat, hrest⟩ := Bool.or_eq_false_iff.mp hno
    have hnone : hintAt (c :: l ++ b) = none := by simpa using hat
    have hbefore := hintAt_before (n := n) hnone (List.cons_ne_nil c (l ++ b))
      (not_blank (List.cons_ne_nil c l) hl b)
    have htail : Stops isSpace l.reverse := by
      rw [List.reverse_cons] at hl
      cases hr : l.reverse with
      | nil => exact fun d hd => nomatch hd
      | cons d r =>
        rw [hr] at hl
        exact hl
    rw [List.cons_append, List.cons_append] at hbefore ⊢
    rw [strip_of_none hbefore, ih hrest htail]

theorem hasHint_hint {n : List Char} (hn : '*' ∉ n) :
    hasHint (" /*scp:pk=".toList ++ (n ++ "*/".toList)) = true := by
  have hat := hintAt_hint (b := []) (fun _ hc => nomatch hc) hn
  rw [List.nil_append] at hat
  cases hcs : " /*scp:pk=".toList ++ (n ++ "*/".toList) with
  | nil =>
    rw [hcs] at hat
    exact nomatch hat
  | cons c cs =>
    rw [hcs] at hat
    rw [hasHint, hat]
    rfl

/-- The hint is taken off again, and added once. -/
structure Restored (sql : List Char) (pk : Option PrimaryKey) (conflict : Option String) : Prop where
  strip : stripMysqlPkHint (mysqlPkHint sql pk conflict) = sql
  idempotent : mysqlPkHint (mysqlPkHint sql pk conflict) pk conflict = mysqlPkHint sql pk conflict

/-- The text has no hint and does not end in a blank, and the hint's own texts do not close it. -/
structure Strippable (sql : List Char) (pk : Option PrimaryKey) (conflict : Option String) : Prop where
  hint : hasHint sql = false
  added : ∀ d ∈ pk, hasReturning false sql = true →
    '*' ∉ hintFields d conflict ∧ Stops isSpace sql.reverse

theorem mem_commas {c : Char} {names : List String} (h : c ∈ commas names) :
    c = ',' ∨ ∃ name ∈ names, c ∈ name.toList := by
  induction names with
  | nil => exact nomatch h
  | cons name names ih =>
    rcases names with _ | ⟨next, names⟩
    · rw [commas, List.map_singleton, List.intercalate_singleton] at h
      exact Or.inr ⟨name, List.mem_cons_self, h⟩
    · have hcons : commas (name :: next :: names) = name.toList ++ ',' :: commas (next :: names) := by
        rw [commas, List.map_cons, List.map_cons, List.intercalate_cons_cons, commas,
          List.map_cons, List.append_assoc]
        rfl
      rw [hcons] at h
      rcases List.mem_append.mp h with h | h
      · exact Or.inr ⟨name, List.mem_cons_self, h⟩
      · rcases List.mem_cons.mp h with h | h
        · exact Or.inl h
        · rcases ih h with h | ⟨n, hn, h⟩
          · exact Or.inl h
          · exact Or.inr ⟨n, List.mem_cons_of_mem name hn, h⟩

theorem mysqlPkHint_hinted {sql : List Char} (h : hasHint sql = true) (pk : Option PrimaryKey)
    (conflict : Option String) : mysqlPkHint sql pk conflict = sql := by
  cases pk with
  | none => rfl
  | some d => rw [mysqlPkHint, h, if_pos rfl, ite_self]

theorem mysqlPkHint_added {sql : List Char} (hret : hasReturning false sql = true)
    (hno : hasHint sql = false) (d : PrimaryKey) (conflict : Option String) :
    mysqlPkHint sql (some d) conflict = sql ++ pkHint d conflict := by
  rw [mysqlPkHint, hret, hno]
  rfl

theorem mysqlPkHint_plain {sql : List Char} (hret : hasReturning false sql = false)
    (pk : Option PrimaryKey) (conflict : Option String) : mysqlPkHint sql pk conflict = sql := by
  cases pk with
  | none => rfl
  | some d =>
    rw [mysqlPkHint, hret]
    rfl

theorem strip_pkHint {l b : List Char} {d : PrimaryKey} {conflict : Option String}
    (hno : hasHint (l ++ b) = false) (hl : Stops isSpace l.reverse) (hb : Blank b)
    (hstar : '*' ∉ hintFields d conflict) :
    stripMysqlPkHint ((l ++ b) ++ pkHint d conflict) = l := strip_hint hno hl hb hstar

theorem strip_added {sql : List Char} (hno : hasHint sql = false) (hend : Stops isSpace sql.reverse)
    {d : PrimaryKey} {conflict : Option String} (hstar : '*' ∉ hintFields d conflict) :
    stripMysqlPkHint (sql ++ pkHint d conflict) = sql := by
  have hnil : hasHint (sql ++ []) = false := by rw [List.append_nil, hno]
  have h := strip_pkHint hnil hend (fun _ hc => nomatch hc) hstar
  rwa [List.append_nil] at h

theorem count_pkHint (d : PrimaryKey) (conflict : Option String) :
    (pkHint d conflict).count '*' = (hintFields d conflict).count '*' + 2 := by
  have hends : (" /*scp:pk=".toList).count '*' = 1 ∧ ("*/".toList).count '*' = 1 := by decide
  have h : (pkHint d conflict).count '*' = (" /*scp:pk=".toList).count '*' +
      ((hintFields d conflict).count '*' + ("*/".toList).count '*') := by
    rw [← List.count_append, ← List.count_append]
    rfl
  omega

theorem strippable_of_restored {sql : List Char} {pk : Option PrimaryKey}
    {conflict : Option String} (h : stripMysqlPkHint (mysqlPkHint sql pk conflict) = sql) :
    Strippable sql pk conflict := by
  have hno : hasHint sql = false := by
    rcases hhint : hasHint sql with _ | _
    · rfl
    · have hlt := count_strip hhint
      rw [mysqlPkHint_hinted hhint] at h
      rw [h] at hlt
      exact absurd hlt (Nat.lt_irrefl _)
  refine ⟨hno, ?_⟩
  intro d hd hret
  obtain rfl : pk = some d := hd
  rw [mysqlPkHint_added hret hno] at h
  have hstar : '*' ∉ hintFields d conflict := by
    intro hmem
    have hle := le_count_strip (sql ++ pkHint d conflict)
    have hpos : 0 < (hintFields d conflict).count '*' := List.count_pos_iff.mpr hmem
    rw [h, List.count_append, count_pkHint] at hle
    omega
  refine ⟨hstar, ?_⟩
  obtain ⟨l, b, rfl, hb, hl⟩ := exists_trimEnd sql
  rw [strip_pkHint hno hl hb hstar] at h
  obtain rfl : b = [] := List.self_eq_append_right.mp h
  rw [List.append_nil]
  exact hl

theorem restored_iff (sql : List Char) (pk : Option PrimaryKey) (conflict : Option String) :
    Restored sql pk conflict ↔ Strippable sql pk conflict := by
  constructor
  · intro h
    exact strippable_of_restored h.strip
  · rintro ⟨hno, hadded⟩
    rcases pk with _ | d
    · exact ⟨strip_of_no hno, rfl⟩
    · rcases hret : hasReturning false sql with _ | _
      · constructor
        · rw [mysqlPkHint_plain hret, strip_of_no hno]
        · rw [mysqlPkHint_plain hret, mysqlPkHint_plain hret]
      · obtain ⟨hstar, hend⟩ := hadded d rfl hret
        have hhint : hasHint (sql ++ pkHint d conflict) = true :=
          hasHint_right (hasHint_hint hstar) sql
        constructor
        · rw [mysqlPkHint_added hret hno, strip_added hno hend hstar]
        · rw [mysqlPkHint_added hret hno, mysqlPkHint_hinted hhint]

end LiteDb.MysqlReturning
