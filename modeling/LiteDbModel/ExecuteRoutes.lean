import LiteDbModel.MakeSql
import LiteDbModel.MysqlDriver
import LiteDbModel.MysqlReturning
import LiteDbModel.WithWriter

/-!
# The routes of `execute`

`DBModel.execute` sends a raw text through the handler or through the SCP runtime. The routes have
their own placeholder converters, their own emulations of `RETURNING` and their own readings of
an answer.
-/

namespace LiteDb.ExecuteRoutes
set_option autoImplicit false
open Scan MysqlDriver MysqlReturning
open Text (isSpace Stops)
open WriterScope (returnsRows isReadOnlyStatement)

/-! ## The databases -/

/-- A result of `pg`; a statement such as `SHOW` reports no count. -/
structure PgResult (Row : Type) where
  rows : List Row
  rowCount : Option Nat

/-- Several statements in one text are answered by as many results. -/
inductive PgAnswer (Row : Type)
  | one (result : PgResult Row)
  | several (results : List (PgResult Row))

/-- What answers a call: PostgreSQL as it stands, or MySQL in a state, over a connection of the
handler or its pools. -/
inductive Database (V Row State : Type)
  | postgres (server : BoundSql V → PgAnswer Row)
  | mysql (server : MysqlServer V Row State) (state : State) (connected : Bool)

/-- What `execute` resolves to; the rows of several results are `undefined`. -/
structure ExecuteResult (Row : Type) where
  rows : Option (List Row)
  rowCount : Nat
deriving DecidableEq

/-- The texts that reach the server, and what the call resolves to or rejects with. -/
structure Executed (Row : Type) where
  sent : List (List Char)
  result : Except String (ExecuteResult Row)

variable {V Row State : Type}
variable (number : Nat → V) (hasAffectedRows : Row → Bool)

/-! ## The handler -/

/-- `DBHandler` over the PostgreSQL driver. -/
def pgHandler (server : BoundSql V → PgAnswer Row) (sql : List Char) (params : List (Option V)) :
    Executed Row :=
  let text := convertPlaceholders sql
  ⟨[text], .ok (match server (text, params) with
    | .one result => ⟨some result.rows, result.rowCount.getD 0⟩
    | .several _ => ⟨none, 0⟩)⟩

/-- Whether the handler calls `executeWrite`. -/
def writes (connected : Bool) (sql : List Char) : Bool := !connected && !isReadOnlyStatement sql

def executed (run : Run V Row State) : Executed Row :=
  ⟨run.sent.map (·.1), .ok ⟨some run.result.rows, run.result.rowCount⟩⟩

/-- `DBHandler` over the MySQL driver. -/
def mysqlHandler (server : MysqlServer V Row State) (state : State) (connected : Bool)
    (sql : List Char) (params : List (Option V)) : Executed Row :=
  executed (
    if connected then query server number hasAffectedRows state sql params
    else if isReadOnlyStatement sql then execute server number hasAffectedRows state sql params
    else executeWrite server number hasAffectedRows state sql params)

def handlerExecute (sql : List Char) (params : List (Option V)) :
    Database V Row State → Executed Row
  | .postgres server => pgHandler server sql params
  | .mysql server state connected =>
    mysqlHandler number hasAffectedRows server state connected sql params

/-! ## The runtime -/

/-- `bindReselect` -/
def bindReselect (binds : List ReselectBind) (params : List (Option V))
    (lastInsertId affected : Nat) : List (Option V) :=
  binds.map fun b => match b with
    | .lastId => some (number lastInsertId)
    | .highId => some (number (lastInsertId + max 1 affected))
    | .json => params.head?.join
    | .param i => params[i]?.join

/-- `execute` of a `mysqlConnection`: its texts and its rows. -/
def connectionExecute (server : MysqlServer V Row State) (state : State) (text : List Char)
    (params : List (Option V)) : List (List Char) × Except String (List Row) :=
  match MysqlReturning.buildMysqlReselect text with
  | .error e => ([], .error e)
  | .ok none => ([text], .ok (server state (text, params)).1.array)
  | .ok (some r) =>
    if r.before then
      ([r.selectSql, r.writeSql],
        .ok (server state (r.selectSql, bindReselect number r.binds params 0 0)).1.array)
    else
      let (answer, state) := server state (r.writeSql, params)
      let binds := bindReselect number r.binds params (answer.insertId.getD 0)
        (answer.affectedRows.getD 0)
      ([r.writeSql, r.selectSql], .ok (server state (r.selectSql, binds)).1.array)

/-- `rows.length` of what is `undefined`. -/
def noRows : String := "Cannot read properties of undefined (reading 'length')"

/-- `rows` and `rows.length` of a result. -/
def rowsOnly (rows : List Row) : ExecuteResult Row := ⟨some rows, rows.length⟩

/-- The runtime's route: `rawExecuteAsync` on the rendered text. A statement that is taken to
return no rows is `run`, and only its rows, of which there are none, are passed on. -/
def scpExecute (sql : List Char) (params : List (Option V)) : Database V Row State → Executed Row
  | .postgres server =>
    let text := renderPlaceholders sql .postgres
    if returnsRows text then
      match server (text, params) with
      | .one result => ⟨[text], .ok (rowsOnly result.rows)⟩
      | .several _ => ⟨[text], .error noRows⟩
    else ⟨[text], .ok (rowsOnly [])⟩
  | .mysql server state _ =>
    let text := renderPlaceholders sql .mysql
    if returnsRows text then
      let (sent, rows) := connectionExecute number server state text params
      ⟨sent, rows.map rowsOnly⟩
    else ⟨[text], .ok (rowsOnly [])⟩

/-! ## When the routes agree -/

/-- The count that PostgreSQL reports is that of the rows, and a statement that is taken to return
none has none. -/
def PgAnswer.Alike (returns : Bool) : PgAnswer Row → Prop
  | .one result =>
    result.rowCount.getD 0 = result.rows.length ∧ (returns = false → result.rows = [])
  | .several _ => False

/-- A write touches no row; the rows of a query are taken for its rows by both routes. -/
def AnswersAlike (write returns : Bool) : Answer Row → Prop
  | .header affectedRows _ => affectedRows.getD 0 = 0
  | .rows [] => True
  | .rows (r :: _) => write = false ∧ returns = !hasAffectedRows r

/-- Neither route of MySQL finds anything in the text that it would rewrite. -/
structure Untouched (sql : List Char) : Prop where
  nothing : search doNothingAt sql = none
  update : search doUpdateAt sql = none
  returning : search returningAt sql = none
  spaced : returnsRows sql = true → ¬ " returning ".toList <:+: toLowerCase sql

def Alike (sql : List Char) (params : List (Option V)) : Database V Row State → Prop
  | .postgres server =>
    oddHole false sql = false ∧
      (server (convertPlaceholders sql, params)).Alike (returnsRows (convertPlaceholders sql))
  | .mysql server state connected =>
    Untouched sql ∧ AnswersAlike hasAffectedRows (writes connected sql) (returnsRows sql)
      (server state (sql, params)).1

/-- An `INSERT` is spelled in ASCII, and a hint in the text names no key with a question mark. -/
structure Ordinary (sql : List Char) : Prop where
  spelled : SqliteStatements.startsWith "INSERT" sql = true →
    (dropWord "insert".toList (trim sql)).isSome
  hinted : ∀ write region cols, returningParts sql = some (write, region, cols) →
    ∀ key ∈ (parsePkHint region).pk, '?' ∉ key

/-! ## The texts -/

theorem not_mem_countHoles (k : Nat) (cs : List Char) : '?' ∉ countHoles k cs := by
  induction cs generalizing k with
  | nil => exact List.not_mem_nil
  | cons c cs ih =>
    rw [countHoles]
    split
    next =>
      have hdigits : '?' ∉ Nat.toDigits 10 (k + 1) := fun hm =>
        absurd (Nat.isDigit_of_mem_toDigits (by decide) (by decide) hm) (by decide)
      simp [hdigits, ih]
    next hc => simp [Ne.symm hc, ih]

/-- The two converters make the same text of one whose question marks are all outside strings. -/
theorem rendered_eq_converted_iff (sql : List Char) :
    renderPlaceholders sql .postgres = convertPlaceholders sql ↔ oddHole false sql = false := by
  constructor
  · intro heq
    cases hodd : oddHole false sql with
    | false => rfl
    | true =>
      have hmem : '?' ∈ renderPlaceholders sql .postgres := mem_renderFrom hodd 0
      rw [heq] at hmem
      exact absurd hmem (not_mem_countHoles 0 sql)
  · intro heven
    exact renderFrom_eq_countHoles heven 0

/-! ## PostgreSQL -/

theorem postgres_same_iff (server : BoundSql V → PgAnswer Row) (sql : List Char)
    (params : List (Option V)) :
    scpExecute number sql params (.postgres server : Database V Row State) =
        handlerExecute number hasAffectedRows sql params
          (.postgres server : Database V Row State) ↔
      Alike hasAffectedRows sql params (.postgres server : Database V Row State) := by
  rw [Alike, ← rendered_eq_converted_iff]
  simp only [scpExecute, handlerExecute, pgHandler]
  generalize hrendered : renderPlaceholders sql .postgres = text
  by_cases htext : text = convertPlaceholders sql
  · subst htext
    cases hanswer : server (convertPlaceholders sql, params) with
    | several results =>
      cases hreturns : returnsRows (convertPlaceholders sql) <;>
        simp [PgAnswer.Alike, rowsOnly]
    | one result =>
      cases hreturns : returnsRows (convertPlaceholders sql) with
      | true =>
        simp [PgAnswer.Alike, rowsOnly, eq_comm]
      | false =>
        simp only [PgAnswer.Alike, rowsOnly]
        constructor
        · intro h
          simp at h
          rw [h.1, ← h.2]
          exact ⟨trivial, rfl, fun _ => rfl⟩
        · rintro ⟨-, hcount, hrows⟩
          simp [hcount, hrows]
  · constructor
    · intro h
      exfalso
      apply htext
      have hsent := congrArg Executed.sent h
      cases hreturns : returnsRows text with
      | false => simpa [hreturns] using hsent
      | true => cases hanswer : server (text, params) <;> simpa [hreturns, hanswer] using hsent
    · rintro ⟨heq, -⟩
      exact absurd heq htext

/-! ## MySQL's answers -/

/-- A statement without a clause to take off is sent alone. -/
theorem send_plain (server : MysqlServer V Row State) (write : Bool) (state : State)
    {sql : List Char} (params : List (Option V)) (h : removeReturning (convertOnConflictToMysql sql) = none) :
    (send server number hasAffectedRows write state sql params).sent = [(sentSql sql, params)] ∧
    (send server number hasAffectedRows write state sql params).result =
      match if write then none else
        selected hasAffectedRows (server state (sentSql sql, params)).1 with
      | some rows => ⟨rows, rows.length⟩
      | none => ⟨if write then (server state (sentSql sql, params)).1.array else [],
          (server state (sentSql sql, params)).1.affectedRows.getD 0⟩ := by
  simp only [send, h, Option.bind_none]
  cases hrows : if write then none else
      selected hasAffectedRows (server state (sentSql sql, params)).1 <;>
    exact ⟨rfl, rfl⟩

theorem send_sent (server : MysqlServer V Row State) (write : Bool) (state : State)
    (sql : List Char) (params : List (Option V)) :
    (send server number hasAffectedRows write state sql params).sent = [(sentSql sql, params)] ∨
    SqliteStatements.startsWith "INSERT" sql = true ∧ ∃ table cols binds,
      (send server number hasAffectedRows write state sql params).sent =
        [(sentSql sql, params), (writtenSelect table cols, binds)] := by
  simp only [send]
  split
  next => exact Or.inl rfl
  next =>
    split
    next select hselect =>
      right
      obtain ⟨r, hr, hfetch⟩ := Option.bind_eq_some_iff.mp hselect
      obtain ⟨table, htable, hstatement⟩ := Option.bind_eq_some_iff.mp hfetch
      dsimp only at hstatement
      split at hstatement
      next hinsert =>
        obtain rfl := Option.some_inj.mp hstatement
        exact ⟨hinsert.1, table, r.2, _, rfl⟩
      next => cases hstatement
    next => exact Or.inl rfl

theorem mysqlHandler_eq (server : MysqlServer V Row State) (state : State) (connected : Bool)
    (sql : List Char) (params : List (Option V)) :
    mysqlHandler number hasAffectedRows server state connected sql params =
      executed (send server number hasAffectedRows (writes connected sql) state sql params) := by
  cases connected with
  | true => rfl
  | false =>
    cases hread : isReadOnlyStatement sql <;>
      simp [mysqlHandler, writes, hread, execute, executeWrite]

/-- The readings of one answer. -/
theorem answers_alike_iff (write returns : Bool) (answer : Answer Row) :
    (⟨if returns then answer.array else [],
        (if returns then answer.array else []).length⟩ : QueryResult Row) =
      (match if write then none else selected hasAffectedRows answer with
        | some rows => ⟨rows, rows.length⟩
        | none => ⟨if write then answer.array else [], answer.affectedRows.getD 0⟩) ↔
      AnswersAlike hasAffectedRows write returns answer := by
  cases answer with
  | header affectedRows insertId =>
    cases write <;> cases returns <;>
      simp [selected, AnswersAlike, Answer.array, Answer.affectedRows, eq_comm]
  | rows rs =>
    cases rs with
    | nil =>
      cases write <;> cases returns <;>
        simp [selected, AnswersAlike, Answer.array, Answer.affectedRows]
    | cons r rs =>
      cases write <;> cases returns <;> cases haffected : hasAffectedRows r <;>
        simp [selected, AnswersAlike, Answer.array, Answer.affectedRows, haffected]

/-! ## The recovering SELECT of an INSERT -/

theorem insert_letters : ∀ c ∈ "insert".toList, isWordChar c = true := by
  have hall : "insert".toList.all isWordChar = true := by decide
  exact List.all_eq_true.mp hall

theorem insert_plain {w : List Char} (h : w.map Char.toLower = "insert".toList) :
    ∀ c ∈ w, isSpace c = false ∧ c ≠ '/' := by
  have hall : "insert".toList.all (fun c => !isSpace c && c ≠ '/') = true := by decide
  intro c hc
  have hlower : c.toLower ∈ "insert".toList := by
    rw [← h]
    exact List.mem_map_of_mem hc
  have hplain := List.all_eq_true.mp hall c.toLower hlower
  constructor
  · by_contra hspace
    rw [toLower_of_space (by simpa using hspace)] at hplain
    simp [hspace] at hplain
  · rintro rfl
    exact absurd hlower (by decide)

/-- The last ` returning ` of a text stands behind the word it begins with. -/
theorem returning_behind {b w u : List Char} {i : Nat} (hb : Blank b)
    (hw : w.map Char.toLower = "insert".toList)
    (h : lastIndexOf " returning ".toList (toLowerCase (b ++ (w ++ u))) = some i) :
    (b ++ w).length ≤ i := by
  have hlen : w.length = 6 := by
    have := congrArg List.length hw
    rwa [List.length_map] at this
  have hpre := lastIndexOf_prefix h
  rw [toLowerCase_append, toLowerCase_append, toLowerCase_blank hb,
    toLowerCase_word hw insert_letters] at hpre
  by_contra hlt
  rw [List.length_append, hlen, not_le] at hlt
  obtain ⟨r, hr⟩ := hpre
  have hspace : (b ++ ("insert".toList ++ toLowerCase u))[i]? = some ' ' := by
    rw [← Nat.add_zero i, ← List.getElem?_drop, ← hr]
    rfl
  have hletter : (b ++ ("insert".toList ++ toLowerCase u))[i + 1]? = some 'r' := by
    rw [← List.getElem?_drop, ← hr]
    rfl
  rcases Nat.lt_or_ge i b.length with hin | hout
  · rcases Nat.lt_or_ge (i + 1) b.length with hnext | hlast
    · rw [List.getElem?_append_left hnext] at hletter
      exact absurd (hb 'r' (List.mem_of_getElem? hletter)) (by decide)
    · rw [List.getElem?_append_right hlast, show i + 1 - b.length = 0 by omega] at hletter
      cases hletter
  · rw [List.getElem?_append_right hout, List.getElem?_append_left
      (by show i - b.length < 6; omega)] at hspace
    exact absurd (List.mem_of_getElem? hspace) (by decide)

/-- The write that is cut out of an `INSERT` is one. -/
theorem write_insert {sql write region cols : List Char}
    (hinsert : (dropWord "insert".toList (trim sql)).isSome)
    (h : returningParts sql = some (write, region, cols)) :
    "insert".toList <+: toLowerCase write := by
  obtain ⟨t, ht⟩ := Option.isSome_iff_exists.mp hinsert
  obtain ⟨w, hw, hword⟩ := dropWord_some ht
  obtain ⟨b, b', hb, -, -, hsql⟩ := exists_trim sql
  rw [hw, List.append_assoc] at hsql
  obtain ⟨i, hi, heq⟩ := Option.map_eq_some_iff.mp h
  rw [Prod.mk.injEq] at heq
  have hletters := insert_plain hword
  have hne : w ≠ [] := by
    rintro rfl
    cases hword
  have hbehind : (b ++ w).length ≤ i := by
    rw [hsql] at hi
    exact returning_behind hb hword hi
  have htake : sql.take i = b ++ (w ++ (t ++ b').take (i - (b ++ w).length)) := by
    rw [hsql, ← List.append_assoc, List.take_append, List.take_of_length_le hbehind,
      List.append_assoc]
  rw [← heq.1, htake, strip_word hb hne hletters]
  generalize stripMysqlPkHint ((t ++ b').take (i - (b ++ w).length)) = v
  have hstop : Stops isSpace (w ++ v) := by
    apply Text.stops_append hne
    intro c hc
    exact (hletters c (List.mem_of_mem_head? hc)).1
  have htrim : w <+: trim (b ++ (w ++ v)) := by
    have hends := SqliteStatements.trimEnd_append (fun c hc => (hletters c hc).1) v
    rw [trim, Text.dropWhile_stop hb hstop]
    rw [SqliteStatements.trimEnd] at hends
    rw [hends]
    exact List.prefix_append w (SqliteStatements.trimEnd v)
  obtain ⟨r, hr⟩ := htrim
  rw [← hr, toLowerCase_append, toLowerCase_word hword insert_letters]
  exact List.prefix_append _ _

theorem ends_behind {l r t : List Char} (h : ∃ m, r = m ++ t) : ∃ m, l ++ r = m ++ t := by
  obtain ⟨m, rfl⟩ := h
  exact ⟨l ++ m, (List.append_assoc l m t).symm⟩

theorem range_ends : ∃ l, " WHERE id >= ? AND id < ?".toList = l ++ "< ?".toList :=
  ⟨" WHERE id >= ? AND id ".toList, by decide +kernel⟩

theorem writtenSelect_ends (table cols : List Char) :
    ∃ l, writtenSelect table cols = l ++ "< ?".toList :=
  ends_behind (ends_behind (ends_behind (ends_behind range_ends)))

theorem last_behind {l r : List Char} {c : Char} (h : r.getLast? = some c) :
    (l ++ r).getLast? = some c := by
  rw [List.getLast?_append, h, Option.some_or]

theorem selectFrom_last {cond order : List Char} {c : Char} (h : (cond ++ order).getLast? = some c)
    (cols source : List Char) : (selectFrom cols source cond order).getLast? = some c :=
  last_behind (last_behind (last_behind (last_behind (last_behind h))))

theorem intercalate_last {pk : List (List Char)} (hne : pk ≠ [])
    (hkeys : ∀ key ∈ pk, key ≠ [] ∧ '?' ∉ key) :
    ∃ c, ((", ".toList).intercalate pk).getLast? = some c ∧ c ≠ '?' := by
  induction pk with
  | nil => exact absurd rfl hne
  | cons key pk ih =>
    cases pk with
    | nil =>
      obtain ⟨hkey, hmark⟩ := hkeys key List.mem_cons_self
      refine ⟨key.getLast hkey, ?_, ?_⟩
      · rw [List.intercalate_singleton, List.getLast?_eq_some_getLast hkey]
      · intro hlast
        exact hmark (hlast ▸ List.getLast_mem hkey)
    | cons key' pk =>
      obtain ⟨c, hc, hmark⟩ := ih (List.cons_ne_nil key' pk)
        fun k hk => hkeys k (List.mem_cons_of_mem key hk)
      refine ⟨c, ?_, hmark⟩
      rw [List.intercalate_cons_cons, List.append_assoc]
      exact last_behind (last_behind hc)

theorem orderBy_last {pk : List (List Char)} (hne : pk ≠ [])
    (hkeys : ∀ key ∈ pk, key ≠ [] ∧ '?' ∉ key) :
    ∃ c, (orderBy pk).getLast? = some c ∧ c ≠ '?' := by
  obtain ⟨c, hc, hmark⟩ := intercalate_last hne hkeys
  refine ⟨c, ?_, hmark⟩
  rw [orderBy, if_neg hne]
  exact last_behind hc

theorem ne_writtenSelect {select : List Char}
    (h : (∃ c, select.getLast? = some c ∧ c ≠ '?') ∨ ∃ l, select = l ++ "= ?".toList)
    (table cols : List Char) : select ≠ writtenSelect table cols := by
  obtain ⟨l', hl'⟩ := writtenSelect_ends table cols
  rintro rfl
  rcases h with ⟨c, hc, hmark⟩ | ⟨l, hl⟩
  · rw [hl', List.getLast?_append] at hc
    exact hmark (Option.some_inj.mp hc).symm
  · rw [hl] at hl'
    have hends := (List.append_inj' hl' rfl).2
    exact absurd hends (by decide)

/-- A SELECT that is ordered by keys, or that ends otherwise, is not the driver's. -/
theorem selectFrom_ne {pk : List (List Char)} (hkeys : ∀ key ∈ pk, key ≠ [] ∧ '?' ∉ key)
    {cond : List Char} (hcond : pk ≠ [] ∨ (∃ c, cond.getLast? = some c ∧ c ≠ '?') ∨
      ∃ l, cond = l ++ "= ?".toList) (cols source table cols' : List Char) :
    selectFrom cols source cond (orderBy pk) ≠ writtenSelect table cols' := by
  apply ne_writtenSelect
  by_cases hpk : pk = []
  · subst hpk
    rcases hcond with hne | ⟨c, hc, hmark⟩ | ⟨l, rfl⟩
    · exact absurd rfl hne
    · refine Or.inl ⟨c, selectFrom_last ?_ cols source, hmark⟩
      rw [orderBy, if_pos rfl, List.append_nil, hc]
    · right
      refine ends_behind (ends_behind (ends_behind (ends_behind (ends_behind ⟨l, ?_⟩))))
      rw [orderBy, if_pos rfl, List.append_nil]
  · obtain ⟨c, hc, hmark⟩ := orderBy_last hpk hkeys
    exact Or.inl ⟨c, selectFrom_last (last_behind hc) cols source, hmark⟩

theorem jsonSelect_ne {pk : List (List Char)} (hkeys : ∀ key ∈ pk, key ≠ [] ∧ '?' ∉ key)
    (cols source key table cols' : List Char) :
    jsonSelect cols source key (orderBy pk) ≠ writtenSelect table cols' := by
  apply selectFrom_ne hkeys
  have hend : "')) jt)".toList.getLast? = some ')' := by decide
  exact Or.inr (Or.inl ⟨')', last_behind (last_behind (last_behind (last_behind (last_behind
    (last_behind (last_behind hend)))))), by decide⟩)

theorem recover_insert {write cols source : List Char} {hint : PkHint}
    {conflict : List (List Char)} {r : MysqlReselect}
    (hinsert : "insert".toList <+: toLowerCase write)
    (hkeys : ∀ key ∈ hint.pk, key ≠ [] ∧ '?' ∉ key)
    (h : recover write cols source hint conflict = .ok r) :
    r.before = false ∧ ∀ table cols', r.selectSql ≠ writtenSelect table cols' := by
  unfold recover at h
  simp only [hinsert, true_and, if_true] at h
  split at h
  next =>
    split at h
    next => cases h
    next key others =>
      split at h
      next =>
        cases h
        exact ⟨rfl, jsonSelect_ne hkeys cols source key⟩
      next =>
        split at h
        next =>
          cases h
          refine ⟨rfl, selectFrom_ne hkeys (Or.inr (Or.inr ⟨key ++ [' '], ?_⟩)) cols source⟩
          simp
        next => cases h
  next =>
    split at h
    next hauto =>
      cases h
      refine ⟨rfl, selectFrom_ne hkeys (Or.inl ?_) cols source⟩
      rw [hauto.2]
      exact List.cons_ne_nil _ _
    next =>
      split at h
      next => cases h
      next key others hpk =>
        have hne : hint.pk ≠ [] := by
          rw [hpk]
          exact List.cons_ne_nil key others
        split at h
        next =>
          split at h
          next => cases h
          next =>
            cases h
            exact ⟨rfl, jsonSelect_ne hkeys cols source key⟩
        next =>
          cases hbinds : keyBinds write (insertCols write) hint.pk with
          | error e =>
            rw [hbinds] at h
            cases h
          | ok binds =>
            rw [hbinds] at h
            cases h
            exact ⟨rfl, selectFrom_ne hkeys (Or.inl hne) cols source⟩

/-- The runtime's SELECT behind an `INSERT` is never the driver's. -/
theorem buildMysqlReselect_insert {sql : List Char} {r : MysqlReselect} (hsql : Ordinary sql)
    (hinsert : SqliteStatements.startsWith "INSERT" sql = true)
    (h : MysqlReturning.buildMysqlReselect sql = .ok (some r)) :
    r.before = false ∧ ∀ table cols, r.selectSql ≠ writtenSelect table cols := by
  rw [MysqlReturning.buildMysqlReselect] at h
  split at h
  next => cases h
  next write region cols hparts =>
    split at h
    next => cases h
    next table htable =>
      have hrecover : recover write cols table (parsePkHint region) (parseConflictHint region) =
          .ok r := by
        cases hr : recover write cols table (parsePkHint region) (parseConflictHint region) with
        | error e =>
          rw [hr] at h
          cases h
        | ok r' =>
          rw [hr] at h
          cases h
          rfl
      apply recover_insert (write_insert (hsql.spelled hinsert) hparts) ?_ hrecover
      intro key hkey
      exact ⟨mem_hint_key hkey, hsql.hinted write region cols hparts key hkey⟩

/-! ## MySQL -/

theorem buildMysqlReselect_none {sql : List Char}
    (h : MysqlReturning.buildMysqlReselect sql = .ok none) :
    ¬ " returning ".toList <:+: toLowerCase sql := by
  rw [MysqlReturning.buildMysqlReselect] at h
  split at h
  next hparts => exact lastIndexOf_eq_none_iff.mp (Option.map_eq_none_iff.mp hparts)
  next write region cols hparts =>
    split at h
    next => cases h
    next table htable =>
      cases hr : recover write cols table (parsePkHint region) (parseConflictHint region) <;>
        rw [hr] at h <;> cases h

theorem buildMysqlReselect_plain {sql : List Char}
    (h : ¬ " returning ".toList <:+: toLowerCase sql) :
    MysqlReturning.buildMysqlReselect sql = .ok none := by
  have hparts : returningParts sql = none := by
    rw [returningParts, lastIndexOf_eq_none_iff.mpr h]
    rfl
  rw [MysqlReturning.buildMysqlReselect, hparts]

/-- A text that neither route rewrites is sent as it is by both. -/
theorem untouched_same_iff (server : MysqlServer V Row State) (state : State) (connected : Bool)
    {sql : List Char} (params : List (Option V)) (h : Untouched sql) :
    scpExecute number sql params (.mysql server state connected) =
        handlerExecute number hasAffectedRows sql params (.mysql server state connected) ↔
      AnswersAlike hasAffectedRows (writes connected sql) (returnsRows sql)
        (server state (sql, params)).1 := by
  have hsent : sentSql sql = sql := (sentSql_eq_iff sql).mpr ⟨h.nothing, h.update, h.returning⟩
  have hremoved : removeReturning (convertOnConflictToMysql sql) = none := by
    have hsame : convertOnConflictToMysql sql = sql := by
      simp only [convertOnConflictToMysql, h.nothing, h.update]
    rw [hsame, removeReturning, h.returning]
    rfl
  obtain ⟨hone, hresult⟩ :=
    send_plain number hasAffectedRows server (writes connected sql) state params hremoved
  have hscp : scpExecute number sql params (.mysql server state connected) =
      ⟨[sql], .ok (rowsOnly
        (if returnsRows sql then (server state (sql, params)).1.array else []))⟩ := by
    cases hreturns : returnsRows sql with
    | false => simp [scpExecute, renderPlaceholders, hreturns]
    | true =>
      simp [scpExecute, renderPlaceholders, hreturns, connectionExecute,
        buildMysqlReselect_plain (h.spaced hreturns), Except.map]
  rw [hscp, handlerExecute, mysqlHandler_eq, executed, hone, hresult, hsent, ← answers_alike_iff]
  generalize (match if writes connected sql then none else
    selected hasAffectedRows (server state (sql, params)).1 with
    | some rows => (⟨rows, rows.length⟩ : QueryResult Row)
    | none => ⟨if writes connected sql then (server state (sql, params)).1.array else [],
        (server state (sql, params)).1.affectedRows.getD 0⟩) = result
  cases result
  simp [rowsOnly]

/-- The routes send the same texts only when neither rewrites anything. -/
theorem untouched_of_same {server : MysqlServer V Row State} {state : State} {connected : Bool}
    {sql : List Char} {params : List (Option V)} (hsql : Ordinary sql)
    (h : scpExecute number sql params (.mysql server state connected) =
      handlerExecute number hasAffectedRows sql params (.mysql server state connected)) :
    Untouched sql := by
  have htexts := congrArg Executed.sent h
  rw [handlerExecute, mysqlHandler_eq, executed] at htexts
  have hkept : ∀ texts : List (List Char), sql :: texts =
      (send server number hasAffectedRows (writes connected sql) state sql params).sent.map (·.1) →
      search doNothingAt sql = none ∧ search doUpdateAt sql = none ∧
        search returningAt sql = none := by
    intro texts hsent
    apply (sentSql_eq_iff sql).mp
    rcases send_sent number hasAffectedRows server (writes connected sql) state sql params with
      hone | ⟨-, table, cols, binds, htwo⟩
    · rw [hone] at hsent
      exact (List.cons.inj hsent).1.symm
    · rw [htwo] at hsent
      exact (List.cons.inj hsent).1.symm
  cases hreturns : returnsRows sql with
  | false =>
    obtain ⟨hnothing, hupdate, hreturning⟩ := hkept [] (by
      simpa [scpExecute, renderPlaceholders, hreturns] using htexts)
    exact ⟨hnothing, hupdate, hreturning, fun h => absurd (hreturns ▸ h) (by decide)⟩
  | true =>
    have hscp : (connectionExecute number server state sql params).1 =
        (send server number hasAffectedRows (writes connected sql) state sql params).sent.map
          (·.1) := by
      simpa [scpExecute, renderPlaceholders, hreturns] using htexts
    cases hbuild : MysqlReturning.buildMysqlReselect sql with
    | error e =>
      exfalso
      rcases send_sent number hasAffectedRows server (writes connected sql) state sql params with
        hone | ⟨-, table, cols, binds, htwo⟩
      · simp [connectionExecute, hbuild, hone] at hscp
      · simp [connectionExecute, hbuild, htwo] at hscp
    | ok recovered =>
      cases recovered with
      | none =>
        obtain ⟨hnothing, hupdate, hreturning⟩ := hkept [] (by
          simpa [connectionExecute, hbuild] using hscp)
        exact ⟨hnothing, hupdate, hreturning, fun _ => buildMysqlReselect_none hbuild⟩
      | some r =>
        exfalso
        rcases send_sent number hasAffectedRows server (writes connected sql) state sql params with
          hone | ⟨hinsert, table, cols, binds, htwo⟩
        · cases hbefore : r.before <;> simp [connectionExecute, hbuild, hone, hbefore] at hscp
        · obtain ⟨hbefore, hne⟩ := buildMysqlReselect_insert hsql hinsert hbuild
          simp only [connectionExecute, hbuild, hbefore, htwo, List.map_cons, List.map_nil] at hscp
          exact hne table cols (List.cons.inj (List.cons.inj hscp).2).1

/-! ## The routes -/

/-- A call runs alike on both routes where its texts and its answer are taken alike, and, hints and
spellings of no compiler apart, only there. -/
theorem routes_alike_iff (number : Nat → V) (hasAffectedRows : Row → Bool) (sql : List Char)
    (params : List (Option V)) (database : Database V Row State) :
    (Alike hasAffectedRows sql params database →
      scpExecute number sql params database =
        handlerExecute number hasAffectedRows sql params database) ∧
    (Ordinary sql →
      scpExecute number sql params database =
        handlerExecute number hasAffectedRows sql params database →
      Alike hasAffectedRows sql params database) := by
  cases database with
  | postgres server =>
    have hiff := @postgres_same_iff V Row State number hasAffectedRows server sql params
    exact ⟨hiff.mpr, fun _ => hiff.mp⟩
  | mysql server state connected =>
    constructor
    · rintro ⟨huntouched, hanswer⟩
      exact (untouched_same_iff number hasAffectedRows server state connected params huntouched).mpr
        hanswer
    · intro hsql hsame
      have huntouched := untouched_of_same number hasAffectedRows hsql hsame
      exact ⟨huntouched, (untouched_same_iff number hasAffectedRows server state connected params
        huntouched).mp hsame⟩

/-- A read by key. -/
def byId : List Char := "SELECT id FROM users WHERE id = ?".toList

/-- A server that answers one row to everything. -/
def oneRow : Database Nat Nat Unit := .mysql (fun state _ => (.rows [1], state)) () false

theorem byId_alike : Alike (fun _ => false) byId [some 1] oneRow :=
  ⟨⟨by decide, by decide, by decide, fun _ => by decide +kernel⟩, by decide, by decide⟩

theorem byId_ordinary : Ordinary byId := by
  constructor
  · intro h
    exact absurd h (by decide)
  · intro write region cols h
    have hnone : returningParts byId = none := by decide +kernel
    rw [hnone] at h
    cases h

theorem select_same :
    scpExecute id byId [some 1] oneRow = handlerExecute id (fun _ => false) byId [some 1] oneRow ∧
      Alike (fun _ => false) byId [some 1] oneRow := by
  have hsame := (routes_alike_iff id (fun _ => false) byId [some 1] oneRow).1 byId_alike
  exact ⟨hsame, (routes_alike_iff id (fun _ => false) byId [some 1] oneRow).2 byId_ordinary hsame⟩

/-- The runtime counts no row of an `UPDATE`, and the handler sends a quoted question mark as a
parameter. -/
theorem update_uncounted :
    (scpExecute id "UPDATE users SET active = false".toList []
        (.postgres (fun _ => .one ⟨[], some 2⟩) : Database Nat Nat Unit)).result =
      .ok ⟨some [], 0⟩ ∧
    (handlerExecute id (fun _ => false) "UPDATE users SET active = false".toList []
        (.postgres (fun _ => .one ⟨[], some 2⟩) : Database Nat Nat Unit)).result =
      .ok ⟨some [], 2⟩ ∧
    (scpExecute id "SELECT '?'".toList []
        (.postgres (fun _ => .one ⟨[0], some 1⟩) : Database Nat Nat Unit)).sent =
      ["SELECT '?'".toList] ∧
    (handlerExecute id (fun _ => false) "SELECT '?'".toList []
        (.postgres (fun _ => .one ⟨[0], some 1⟩) : Database Nat Nat Unit)).sent =
      ["SELECT '$1'".toList] := by
  refine ⟨?_, rfl, ?_, ?_⟩
  · rfl
  · decide
  · decide

end LiteDb.ExecuteRoutes
