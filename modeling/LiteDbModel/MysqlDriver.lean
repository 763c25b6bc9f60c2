import LiteDbModel.Lib.Scan
import LiteDbModel.SqliteStatements

/-!
# The MySQL driver

The driver rewrites the `ON CONFLICT` clause of a statement, cuts its `RETURNING` clause off, and
reads the rows of an `INSERT` back by the range of its ids. All of it is found by searching the
text.
-/

namespace LiteDb.MysqlDriver
set_option autoImplicit false
open Scan
open Text (isSpace Matcher replaceAll)

/-! ## Searching a text -/

/-- The first match from a place on, and the text before it. -/
def search {α : Type} (matchAt : List Char → Option α) : List Char → Option (List Char × α)
  | [] => none
  | c :: cs =>
    ((matchAt (c :: cs)).map fun m => ([], m)).or
      ((search matchAt cs).map fun r => (c :: r.1, r.2))

/-- What `.` of a regular expression does not match. -/
def isLineEnd (c : Char) : Bool := c = '\n' || c = '\r' || c = '\u2028' || c = '\u2029'

/-- `\s+` with what follows it: as many blanks as let that match. -/
def spacesThen {α : Type} (next : List Char → Option α) : List Char → Option α
  | [] => none
  | c :: cs => if isSpace c then (spacesThen next cs).or (next cs) else none

/-- The part of a text before its rest. -/
def matched (cs rest : List Char) : List Char := cs.take (cs.length - rest.length)

/-- A replacement text with its `$`-patterns filled in. -/
def expand (m before after : List Char) : List Char → List Char
  | '$' :: '$' :: cs => '$' :: expand m before after cs
  | '$' :: '&' :: cs => m ++ expand m before after cs
  | '$' :: '\x60' :: cs => before ++ expand m before after cs
  | '$' :: '\'' :: cs => after ++ expand m before after cs
  | c :: cs => c :: expand m before after cs
  | [] => []

/-- `sql.replace(m, replacement)` with a string `m`. -/
def replaceFirst (m replacement sql : List Char) : List Char :=
  match search (fun cs => if m <+: cs then some () else none) sql with
  | some (before, _) =>
    let after := sql.drop (before.length + m.length)
    before ++ (expand m before after replacement ++ after)
  | none => sql

/-! ## The ON CONFLICT clause -/

/-- `ON CONFLICT\s*\(([^)]+)\)\s*`: the columns, and what follows. -/
def conflictTarget (cs : List Char) : Option (List Char × List Char) :=
  (dropWord "on conflict".toList cs).bind fun rest =>
    match rest.dropWhile isSpace with
    | '(' :: rest =>
      match rest.takeWhile (fun c => c ≠ ')'), rest.dropWhile (fun c => c ≠ ')') with
      | c :: cols, _ :: rest => some (c :: cols, rest.dropWhile isSpace)
      | _, _ => none
    | _ => none

/-- The match and its columns. -/
def doNothingAt (cs : List Char) : Option (List Char × List Char) :=
  (conflictTarget cs).bind fun target =>
    (dropWord "do nothing".toList target.2).map fun rest => (matched cs rest, target.1)

/-- `\s+RETURNING` -/
def returningAhead (cs : List Char) : Bool :=
  ((dropSpaces cs).bind (dropWord "returning".toList)).isSome

/-- What `.+?(?=\s+RETURNING|$)` leaves. -/
def afterSet : List Char → Option (List Char)
  | [] => none
  | c :: cs =>
    if isLineEnd c then none
    else if cs = [] ∨ returningAhead cs = true then some cs
    else afterSet cs

/-- The match and its set clause. -/
def doUpdateAt (cs : List Char) : Option (List Char × List Char) :=
  (conflictTarget cs).bind fun target =>
    (dropWord "do update set".toList target.2).bind
      (spacesThen fun body => (afterSet body).map fun rest => (matched cs rest, matched body rest))

/-- `/EXCLUDED\.(\w+)/` -/
def excludedAt : Matcher := fun cs =>
  if "EXCLUDED.".toList <+: cs then
    let column := (cs.drop 9).takeWhile isWordChar
    if column = [] then none
    else some ("VALUES(".toList ++ (column ++ [')']), 9 + column.length)
  else none

def convertOnConflictToMysql (sql : List Char) : List Char :=
  match search doNothingAt sql with
  | some (_, m, cols) =>
    let conflictCol := trim ((trim cols).takeWhile fun c => c ≠ ',')
    replaceFirst m
      ("ON DUPLICATE KEY UPDATE ".toList ++ (conflictCol ++ (" = ".toList ++ conflictCol))) sql
  | none =>
    match search doUpdateAt sql with
    | some (_, m, setClause) =>
      replaceFirst m ("ON DUPLICATE KEY UPDATE ".toList ++ replaceAll excludedAt 0 setClause) sql
    | none => sql

/-! ## The RETURNING clause -/

def tableNameAt (cs : List Char) : Option (List Char) :=
  ((dropWord "insert into".toList cs).bind dropSpaces).bind fun rest =>
    match rest.takeWhile isWordChar with
    | [] => none
    | table => some table

def extractTableName (sql : List Char) : Option (List Char) := (search tableNameAt sql).map (·.2)

/-- The `.+` of `\s+RETURNING\s+(.+)$`. -/
def returningAt (cs : List Char) : Option (List Char) :=
  ((dropSpaces cs).bind (dropWord "returning".toList)).bind
    (spacesThen fun cols =>
      if cols ≠ [] ∧ ∀ c ∈ cols, isLineEnd c = false then some cols else none)

/-- The statement without its clause, and the returned columns. -/
def removeReturning (sql : List Char) : Option (List Char × List Char) :=
  (search returningAt sql).map fun r => (r.1, trim r.2)

/-- `sqlWithoutReturning` -/
def sentSql (sql : List Char) : List Char :=
  ((removeReturning (convertOnConflictToMysql sql)).map (·.1)).getD (convertOnConflictToMysql sql)

/-! ## The answers -/

/-- An array of rows, or the header of a write. -/
inductive Answer (Row : Type)
  | rows (rs : List Row)
  | header (affectedRows insertId : Option Nat)

structure QueryResult (Row : Type) where
  rows : List Row
  rowCount : Nat
deriving DecidableEq

variable {V Row State : Type}

def Answer.affectedRows : Answer Row → Option Nat
  | .rows _ => none
  | .header affectedRows _ => affectedRows

def Answer.insertId : Answer Row → Option Nat
  | .rows _ => none
  | .header _ insertId => insertId

def Answer.array : Answer Row → List Row
  | .rows rs => rs
  | .header _ _ => []

/-- A text with its parameters; `undefined` and `null` are both bound as `NULL`. -/
abbrev BoundSql (V : Type) := List Char × List (Option V)

abbrev MysqlServer (V Row State : Type) := State → BoundSql V → Answer Row × State

/-- The statements of a call, what it resolves to, and the state it leaves. -/
structure Run (V Row State : Type) where
  sent : List (BoundSql V)
  result : QueryResult Row
  state : State

section
variable (server : MysqlServer V Row State) (number : Nat → V) (hasAffectedRows : Row → Bool)

/-- The rows of a SELECT-like query: an array whose first row has no column `affectedRows`. -/
def selected : Answer Row → Option (List Row)
  | .rows (r :: rs) => if hasAffectedRows r then none else some (r :: rs)
  | _ => none

/-- `SELECT … WHERE id >= ? AND id < ?` -/
def writtenSelect (table cols : List Char) : List Char :=
  "SELECT ".toList ++ (cols ++ (" FROM ".toList ++ (table ++ " WHERE id >= ? AND id < ?".toList)))

/-- The statement that fetches the rows of an `INSERT` with these returned columns. -/
def fetch (sql cols : List Char) (answer : Answer Row) : Option (BoundSql V) :=
  (extractTableName sql).bind fun table =>
    let insertId := answer.insertId.getD 0
    let affectedRows := answer.affectedRows.getD 1
    if SqliteStatements.startsWith "INSERT" sql ∧ 0 < affectedRows ∧ 0 < insertId then
      some (writtenSelect table cols,
        [some (number insertId), some (number (insertId + affectedRows))])
    else none

/-- The common body; `write` is `executeWrite`'s, which takes an array for no query. -/
def send (write : Bool) (st : State) (sql : List Char) (params : List (Option V)) :
    Run V Row State :=
  let statement := (sentSql sql, params)
  let (answer, st) := server st statement
  match if write then none else selected hasAffectedRows answer with
  | some rows => ⟨[statement], ⟨rows, rows.length⟩, st⟩
  | none =>
    match (removeReturning (convertOnConflictToMysql sql)).bind
        fun r => fetch number sql r.2 answer with
    | some select =>
      let (written, st) := server st select
      ⟨[statement, select], ⟨written.array, written.array.length⟩, st⟩
    | none =>
      ⟨[statement], ⟨if write then answer.array else [], answer.affectedRows.getD 0⟩, st⟩

/-- `MysqlConnection.query` -/
def query := send server number hasAffectedRows false

def execute := send server number hasAffectedRows false

def executeWrite := send server number hasAffectedRows true

end

/-! ## What a search finds -/

theorem search_some {α : Type} {matchAt : List Char → Option α} {cs before : List Char} {m : α}
    (h : search matchAt cs = some (before, m)) :
    ∃ c rest, cs = before ++ c :: rest ∧ matchAt (c :: rest) = some m := by
  induction cs generalizing before with
  | nil => cases h
  | cons c cs ih =>
    rw [search] at h
    cases hat : matchAt (c :: cs) with
    | some m' =>
      rw [hat, Option.map_some, Option.some_or, Option.some.injEq, Prod.mk.injEq] at h
      obtain ⟨rfl, rfl⟩ := h
      exact ⟨c, cs, rfl, hat⟩
    | none =>
      rw [hat, Option.map_none, Option.none_or, Option.map_eq_some_iff] at h
      obtain ⟨⟨b, m'⟩, hrest, heq⟩ := h
      rw [Prod.mk.injEq] at heq
      obtain ⟨rfl, rfl⟩ := heq
      obtain ⟨d, rest, rfl, hm⟩ := ih hrest
      exact ⟨d, rest, rfl, hm⟩

theorem search_finds {α : Type} {matchAt : List Char → Option α} {c : Char} {cs : List Char} {m : α}
    (h : matchAt (c :: cs) = some m) (before : List Char) :
    (search matchAt (before ++ c :: cs)).isSome := by
  induction before with
  | nil => simp [search, h]
  | cons d before ih =>
    obtain ⟨r, hr⟩ := Option.isSome_iff_exists.mp ih
    simp [search, hr]

/-- What is replaced is some occurrence of the text. -/
theorem replaceFirst_spec (replacement p q : List Char) {m : List Char} (hm : m ≠ []) :
    ∃ before after, p ++ (m ++ q) = before ++ (m ++ after) ∧
      replaceFirst m replacement (p ++ (m ++ q)) =
        before ++ (expand m before after replacement ++ after) := by
  obtain ⟨c, m', rfl⟩ := List.exists_cons_of_ne_nil hm
  obtain ⟨finds, hfinds⟩ : ∃ finds : List Char → Option Unit,
      finds = fun cs => if c :: m' <+: cs then some () else none := ⟨_, rfl⟩
  have hhere : finds (c :: (m' ++ q)) = some () := by
    rw [hfinds]
    exact if_pos (List.prefix_append (c :: m') q)
  obtain ⟨⟨before, u⟩, hfound⟩ := Option.isSome_iff_exists.mp (search_finds hhere p)
  obtain ⟨d, rest, hsql, hat⟩ := search_some hfound
  rw [← List.cons_append] at hfound hsql
  subst hfinds
  have hpre : c :: m' <+: d :: rest := by
    by_contra hno
    simp only [if_neg hno] at hat
    cases hat
  obtain ⟨after, hafter⟩ := hpre
  refine ⟨before, after, ?_, ?_⟩
  · rw [hsql, hafter]
  · have hdrop : (p ++ (c :: m' ++ q)).drop (before.length + (c :: m').length) = after := by
      rw [hsql, ← hafter, ← List.append_assoc, ← List.length_append, List.drop_left]
    rw [replaceFirst, hfound]
    simp only [hdrop]

theorem spacesThen_some {α : Type} {next : List Char → Option α} {cs : List Char} {x : α}
    (h : spacesThen next cs = some x) : ∃ b rest, cs = b ++ rest ∧ next rest = some x := by
  induction cs with
  | nil => cases h
  | cons c cs ih =>
    rw [spacesThen] at h
    split at h
    next =>
      rcases Option.or_eq_some_iff.mp h with hlater | ⟨_, hhere⟩
      · obtain ⟨b, rest, rfl, hx⟩ := ih hlater
        exact ⟨c :: b, rest, rfl, hx⟩
      · exact ⟨[c], cs, rfl, hhere⟩
    next => cases h

theorem afterSet_suffix {cs rest : List Char} (h : afterSet cs = some rest) : rest <:+ cs := by
  induction cs with
  | nil => cases h
  | cons c cs ih =>
    rw [afterSet] at h
    split at h
    next => cases h
    next =>
      split at h
      next =>
        rw [← Option.some_inj.mp h]
        exact List.suffix_cons c cs
      next => exact (ih h).trans (List.suffix_cons c cs)

theorem conflictTarget_suffix {cs : List Char} {target : List Char × List Char}
    (h : conflictTarget cs = some target) :
    ∃ w u, w.map Char.toLower = "on conflict".toList ∧ cs = w ++ (u ++ target.2) := by
  rw [conflictTarget, Option.bind_eq_some_iff] at h
  obtain ⟨rest, hword, h⟩ := h
  obtain ⟨w, rfl, hw⟩ := dropWord_some hword
  split at h
  next r hopen =>
    split at h
    next c cols d r' hcols hclose =>
      cases h
      refine ⟨w, rest.takeWhile isSpace ++ ('(' :: (c :: cols ++ (d :: r'.takeWhile isSpace))),
        hw, ?_⟩
      have hr : r = (c :: cols) ++ (d :: r') := by
        rw [← hcols, ← hclose, List.takeWhile_append_dropWhile]
      have hrest : rest = rest.takeWhile isSpace ++ '(' :: r := by
        rw [← hopen, List.takeWhile_append_dropWhile]
      have hr' : r' = r'.takeWhile isSpace ++ r'.dropWhile isSpace :=
        List.takeWhile_append_dropWhile.symm
      calc w ++ rest
          = w ++ (rest.takeWhile isSpace ++ '(' :: r) := by rw [← hrest]
        _ = w ++ (rest.takeWhile isSpace ++ '(' :: (c :: cols ++
              d :: (r'.takeWhile isSpace ++ r'.dropWhile isSpace))) := by rw [← hr', hr]
        _ = _ := by simp only [List.append_assoc, List.cons_append]
    next => cases h
  next => cases h

theorem matched_append (m rest : List Char) : matched (m ++ rest) rest = m := by
  rw [matched, List.length_append, Nat.add_sub_cancel, List.take_left]

/-- A text is read off a conflict clause. -/
def Clause (m : List Char) : Prop := ∃ w u, w.map Char.toLower = "on conflict".toList ∧ m = w ++ u

theorem doNothingAt_clause {cs : List Char} {m cols : List Char}
    (h : doNothingAt cs = some (m, cols)) : Clause m ∧ ∃ rest, cs = m ++ rest := by
  rw [doNothingAt, Option.bind_eq_some_iff] at h
  obtain ⟨target, htarget, h⟩ := h
  obtain ⟨rest, hrest, heq⟩ := Option.map_eq_some_iff.mp h
  obtain ⟨w, u, hw, rfl⟩ := conflictTarget_suffix htarget
  obtain ⟨v, hv, _⟩ := dropWord_some hrest
  have hcs : w ++ (u ++ target.2) = (w ++ (u ++ v)) ++ rest := by
    rw [hv]
    simp only [List.append_assoc]
  rw [hcs, matched_append, Prod.mk.injEq] at heq
  rw [← heq.1, hcs]
  exact ⟨⟨w, u ++ v, hw, rfl⟩, rest, rfl⟩

theorem doUpdateAt_clause {cs : List Char} {m setClause : List Char}
    (h : doUpdateAt cs = some (m, setClause)) : Clause m ∧ ∃ rest, cs = m ++ rest := by
  rw [doUpdateAt, Option.bind_eq_some_iff] at h
  obtain ⟨target, htarget, h⟩ := h
  obtain ⟨rest, hrest, h⟩ := Option.bind_eq_some_iff.mp h
  obtain ⟨w, u, hw, rfl⟩ := conflictTarget_suffix htarget
  obtain ⟨v, hv, _⟩ := dropWord_some hrest
  obtain ⟨b, body, rfl, hbody⟩ := spacesThen_some h
  obtain ⟨left, hleft, heq⟩ := Option.map_eq_some_iff.mp hbody
  obtain ⟨s, rfl⟩ := afterSet_suffix hleft
  have hcs : w ++ (u ++ target.2) = (w ++ (u ++ (v ++ (b ++ s)))) ++ left := by
    rw [hv]
    simp only [List.append_assoc]
  rw [hcs, matched_append, Prod.mk.injEq] at heq
  rw [← heq.1, hcs]
  exact ⟨⟨w, u ++ (v ++ (b ++ s)), hw, rfl⟩, left, rfl⟩

/-! ## What reaches the server -/

/-- The replaced text begins at a conflict clause. -/
theorem replaceFirst_clause {m setClause p q : List Char} (hm : Clause m) :
    ∃ before w t t', w.map Char.toLower = "on conflict".toList ∧
      p ++ (m ++ q) = before ++ (w ++ t) ∧
      replaceFirst m ("ON DUPLICATE KEY UPDATE ".toList ++ setClause) (p ++ (m ++ q)) =
        before ++ ("ON DUPLICATE KEY UPDATE ".toList ++ t') := by
  obtain ⟨w, u, hw, rfl⟩ := hm
  have hne : w ++ u ≠ [] := by
    cases w with
    | nil => cases hw
    | cons c w => exact List.cons_ne_nil c (w ++ u)
  obtain ⟨before, after, hsql, hreplaced⟩ :=
    replaceFirst_spec ("ON DUPLICATE KEY UPDATE ".toList ++ setClause) p q hne
  refine ⟨before, w, u ++ after, expand (w ++ u) before after setClause ++ after, hw, ?_, ?_⟩
  · rw [hsql, List.append_assoc]
  · rw [hreplaced]
    rfl

theorem convertOnConflict_cases (sql : List Char) :
    search doNothingAt sql = none ∧ search doUpdateAt sql = none ∧
        convertOnConflictToMysql sql = sql ∨
      ∃ before w t t', w.map Char.toLower = "on conflict".toList ∧ sql = before ++ (w ++ t) ∧
        convertOnConflictToMysql sql = before ++ ("ON DUPLICATE KEY UPDATE ".toList ++ t') := by
  cases hnothing : search doNothingAt sql with
  | some r =>
    obtain ⟨before, m, cols⟩ := r
    right
    obtain ⟨c, rest, hsql, hat⟩ := search_some hnothing
    obtain ⟨hclause, q, hq⟩ := doNothingAt_clause hat
    simp only [convertOnConflictToMysql, hnothing]
    rw [hsql, hq]
    exact replaceFirst_clause hclause
  | none =>
    cases hupdate : search doUpdateAt sql with
    | none =>
      left
      simp only [convertOnConflictToMysql, hnothing, hupdate, and_self]
    | some r =>
      obtain ⟨before, m, setClause⟩ := r
      right
      obtain ⟨c, rest, hsql, hat⟩ := search_some hupdate
      obtain ⟨hclause, q, hq⟩ := doUpdateAt_clause hat
      simp only [convertOnConflictToMysql, hnothing, hupdate]
      rw [hsql, hq]
      exact replaceFirst_clause hclause

theorem removeReturning_prefix {sql s cols : List Char} (h : removeReturning sql = some (s, cols)) :
    ∃ c rest, sql = s ++ c :: rest := by
  obtain ⟨⟨before, m⟩, hfound, heq⟩ := Option.map_eq_some_iff.mp h
  rw [Prod.mk.injEq] at heq
  obtain ⟨rfl, -⟩ := heq
  obtain ⟨c, rest, hsql, -⟩ := search_some hfound
  exact ⟨c, rest, hsql⟩

theorem sentSql_prefix (sql : List Char) : sentSql sql <+: convertOnConflictToMysql sql := by
  rw [sentSql]
  cases h : removeReturning (convertOnConflictToMysql sql) with
  | none => exact List.prefix_refl _
  | some r =>
    obtain ⟨s, cols⟩ := r
    obtain ⟨c, rest, hsql⟩ := removeReturning_prefix h
    rw [Option.map_some, Option.getD_some, hsql]
    exact List.prefix_append s (c :: rest)

/-- The driver sends the text as it is just when it finds neither clause. -/
theorem sentSql_eq_iff (sql : List Char) : sentSql sql = sql ↔
    search doNothingAt sql = none ∧ search doUpdateAt sql = none ∧
      search returningAt sql = none := by
  constructor
  · intro h
    rcases convertOnConflict_cases sql with
      ⟨hnothing, hupdate, hsame⟩ | ⟨b, w, t, t', hw, hsql, hconv⟩
    · refine ⟨hnothing, hupdate, ?_⟩
      rw [sentSql, hsame] at h
      cases hremoved : removeReturning sql with
      | none => exact Option.map_eq_none_iff.mp hremoved
      | some r =>
        obtain ⟨s, cols⟩ := r
        obtain ⟨c, rest, hs⟩ := removeReturning_prefix hremoved
        rw [hremoved, Option.map_some, Option.getD_some] at h
        have hlen := congrArg List.length hs
        rw [show s = sql from h, List.length_append, List.length_cons] at hlen
        omega
    · exfalso
      -- the fourth letter of the clause is a `C` before and a `D` behind
      have hpre := sentSql_prefix sql
      rw [h, hconv, hsql, List.prefix_append_right_inj] at hpre
      have htake : (w ++ t).take 4 = "ON DUPLICATE KEY UPDATE ".toList.take 4 := by
        have hlen : 4 ≤ (w ++ t).length := by
          have := congrArg List.length hw
          rw [List.length_map] at this
          rw [List.length_append, this]
          exact Nat.le_trans (by decide) (Nat.le_add_right _ _)
        obtain ⟨r, hr⟩ := hpre
        have := congrArg (List.take 4) hr
        rw [List.take_append_of_le_length hlen] at this
        rw [this]
        rfl
      have hlower := congrArg (List.map Char.toLower) htake
      have hword : ((w ++ t).take 4).map Char.toLower = "on conflict".toList.take 4 := by
        rw [List.map_take, List.map_append, hw]
        rfl
      rw [hword] at hlower
      exact absurd hlower (by decide)
  · rintro ⟨hnothing, hupdate, hreturning⟩
    have hsame : convertOnConflictToMysql sql = sql := by
      simp only [convertOnConflictToMysql, hnothing, hupdate]
    rw [sentSql, hsame, removeReturning, hreturning]
    rfl


end LiteDb.MysqlDriver
