import LiteDbModel.Lib.Template
import LiteDbModel.MysqlReturning

/-!
# What is found in a MySQL write

Writes are given here by their parts, so that what is found by searching the text can be compared
with what the statement says.
-/

namespace LiteDb.MysqlReturning
set_option autoImplicit false
open Scan
open Text (isSpace Stops stops_append stops_of_forall stops_dropWhile takeWhile_stop dropWhile_stop)
open Template (Part)

/-! ## Writes by their parts -/

/-- A clause's texts and its parameters. -/
abbrev Clause := List (Part Unit Char)

def Clause.text (c : Clause) : List Char := Template.marked '?' c

/-- The number of parameters. -/
def Clause.arity (c : Clause) : Nat := (Template.slots c).length

/-- The question marks that stand in the clause's own texts. -/
def Clause.strays (c : Clause) : Nat := (Template.render (fun _ => []) c).count '?'

inductive Write
  | insert (ignore : Bool) (table : List Char) (rest : Clause)
  | update (table : List Char) (sets : Clause) (cond : Option Clause)
  | updateMany (table : List Char) (rest : Clause)
  | delete (table : List Char) (cond : Option Clause)

def Write.table : Write → List Char
  | insert _ table _ | update table _ _ | updateMany table _ | delete table _ => table

def Write.verb : Write → List Char
  | insert .. => "insert".toList
  | update .. | updateMany .. => "update".toList
  | delete .. => "delete".toList

def whereText : Option Clause → List Char
  | none => []
  | some cond => " WHERE ".toList ++ cond.text

/-- What stands before the table. -/
def Write.opening : Write → List Char
  | insert ignore _ _ => if ignore then "INSERT IGNORE INTO ".toList else "INSERT INTO ".toList
  | update .. | updateMany .. => "UPDATE ".toList
  | delete .. => "DELETE FROM ".toList

/-- What stands behind the table. -/
def Write.clauses : Write → List Char
  | insert _ _ rest => ' ' :: rest.text
  | update _ sets cond => " SET ".toList ++ (sets.text ++ whereText cond)
  | updateMany _ rest => " AS u JOIN ".toList ++ rest.text
  | delete _ cond => whereText cond

def Write.body (w : Write) : List Char := w.opening ++ (w.table ++ w.clauses)

/-- The returned columns, and what the hint says. -/
structure Returning where
  cols : List Char
  pk : Option PrimaryKey
  conflict : Option String

def Returning.hint (r : Returning) : List Char :=
  match r.pk with
  | none => []
  | some pk => pkHint pk r.conflict

def Write.bare (w : Write) (r : Returning) : List Char :=
  w.body ++ (" RETURNING ".toList ++ r.cols)

/-- The write's text as it is compiled. -/
def Write.text (w : Write) (r : Returning) : List Char :=
  mysqlPkHint (w.bare r) r.pk r.conflict

/-- A key column's name has none of the hint's punctuation. -/
def HintName (name : String) : Prop :=
  name.toList ≠ [] ∧ Trimmed name.toList ∧ ∀ c ∈ name.toList, c ∉ [',', ';', '*']

/-- The returned columns are a list of names. -/
structure Returning.WellFormed (r : Returning) : Prop where
  nonempty : r.cols ≠ []
  trimmed : Trimmed r.cols
  slash : '/' ∉ r.cols
  keys : ∀ pk ∈ r.pk, ∀ name ∈ pk.columns, HintName name

structure Write.WellFormed (w : Write) : Prop where
  table : w.table ≠ [] ∧ Stops isSpace w.table
  cond : ∀ table sets cond, w = update table sets (some cond) ∨ w = delete table (some cond) →
    cond.text ≠ [] ∧ Trimmed cond.text

/-- The parameters of the WHERE clause, by their places in the statement. -/
def whereBinds (before : Nat) (cond : Clause) : List ReselectBind :=
  (List.range cond.arity).map fun i => .param (before + i)

def Returning.order (r : Returning) : List Char :=
  orderBy ((r.pk.map fun pk => pk.columns.map String.toList).getD [])

/-- The rows are read back by the outer statement's own WHERE clause; without one nothing is. -/
def Write.ReadBack (w : Write) (r : Returning) : Prop :=
  match w with
  | insert .. | updateMany .. => True
  | update table sets (some cond) =>
    buildMysqlReselect (w.text r) = .ok (some ⟨w.body,
      selectFrom r.cols table cond.text r.order, whereBinds sets.arity cond, false⟩)
  | delete table (some cond) =>
    buildMysqlReselect (w.text r) = .ok (some ⟨w.body,
      selectFrom r.cols table cond.text r.order, whereBinds 0 cond, true⟩)
  | update _ _ none | delete _ none => ∃ e, buildMysqlReselect (w.text r) = .error e

/-- The write and the returned columns are told apart, and the table, the verb and the WHERE
clause are the outer statement's. -/
structure Write.Recovered (w : Write) (r : Returning) : Prop where
  parts : ∃ region, returningParts (w.text r) = some (trim w.body, region, r.cols)
  table : tableOf (trim w.body) = some w.table
  verb : w.verb <+: toLowerCase (trim w.body)
  readBack : w.ReadBack r

/-- No searched word stands where it is searched for. -/
def Write.Unambiguous (w : Write) : Prop :=
  match w with
  | insert .. | updateMany .. => True
  | update _ sets (some cond) =>
    ¬ "json_table(".toList <:+: toLowerCase w.body ∧
      ¬ " where ".toList <:+: "where ".toList ++ toLowerCase cond.text ∧
      cond.strays = 0 ∧ (cond.arity = 0 ∨ sets.strays = 0)
  | delete _ (some cond) =>
    ¬ " where ".toList <:+: "where ".toList ++ toLowerCase cond.text ∧ cond.strays = 0
  | update _ _ none =>
    if "json_table(".toList <:+: toLowerCase (trim w.body) then updateBatchKey (trim w.body) = none
    else ¬ " where ".toList <:+: toLowerCase (trim w.body)
  | delete _ none => True

structure Write.Plain (w : Write) (r : Returning) : Prop where
  hint : hasHint w.body = false
  fields : ∀ pk ∈ r.pk, '*' ∉ hintFields pk r.conflict
  dotted : '\u0130' ∉ w.body
  once : ¬ " returning ".toList <:+: "returning ".toList ++ toLowerCase (r.cols ++ r.hint)
  table : ∀ c ∈ w.table, isTableChar c = true
  unambiguous : w.Unambiguous

/-! ## Telling the parts apart -/

/-- The dotted capital takes two characters in lower case. -/
theorem length_toLowerCase (l : List Char) :
    (toLowerCase l).length = l.length + l.count '\u0130' := by
  induction l with
  | nil => rfl
  | cons c l ih =>
    have hcons : toLowerCase (c :: l) = lowerChar c ++ toLowerCase l := rfl
    have hlen : (lowerChar c).length = 1 + if c = '\u0130' then 1 else 0 := by
      rw [lowerChar]
      split
      · rfl
      · split <;> rfl
    rw [hcons, List.length_append, ih, hlen, List.length_cons, List.count_cons]
    simp only [beq_iff_eq]
    omega

theorem hasReturning_right {x : List Char} (h : hasReturning false x = true) (l : List Char) :
    ∀ inWord, hasReturning inWord (l ++ ' ' :: x) = true := by
  induction l with
  | nil =>
    intro inWord
    have hspace : isWordChar ' ' = false := by decide
    rw [List.nil_append, hasReturning, hspace, h, Bool.or_true]
  | cons c l ih =>
    intro inWord
    rw [List.cons_append, hasReturning, ih, Bool.or_true]

theorem hasReturning_bare (w : Write) (r : Returning) : hasReturning false (w.bare r) = true := by
  have hword : hasReturning false ("RETURNING".toList ++ (' ' :: r.cols)) = true := by
    have htake : ("RETURNING".toList ++ (' ' :: r.cols)).takeWhile isWordChar =
        "RETURNING".toList := by
      have hall : "RETURNING".toList.all isWordChar = true := by decide
      apply takeWhile_stop
      · exact List.all_eq_true.mp hall
      · intro c hc
        obtain rfl : ' ' = c := Option.some_inj.mp hc
        decide
    have hcons : "RETURNING".toList ++ (' ' :: r.cols) = 'R' :: ("ETURNING".toList ++ (' ' :: r.cols)) :=
      rfl
    have hlower : "RETURNING".toList.map Char.toLower = "returning".toList := by decide
    rw [hcons] at htake ⊢
    rw [hasReturning, htake, hlower]
    simp
  exact hasReturning_right hword w.body false

theorem hasHint_bare (w : Write) {r : Returning} (hr : r.WellFormed) :
    hasHint (w.bare r) = hasHint w.body := by
  apply hasHint_append
  intro hmem
  rcases List.mem_append.mp hmem with hmem | hmem
  · revert hmem
    decide
  · exact hr.slash hmem

theorem text_eq {w : Write} {r : Returning} (hr : r.WellFormed) (hno : hasHint w.body = false) :
    w.text r = w.body ++ (" RETURNING ".toList ++ (r.cols ++ r.hint)) := by
  rw [Write.text, Returning.hint]
  cases r.pk with
  | none => simp [mysqlPkHint, Write.bare]
  | some d =>
    rw [mysqlPkHint_added (hasReturning_bare w r) (by rw [hasHint_bare w hr, hno]), Write.bare,
      List.append_assoc, List.append_assoc]

/-- A text with a hint has the hint's punctuation. -/
theorem hasHint_elim {l : List Char} (h : hasHint l = true) :
    ∃ u n t, l = u ++ '/' :: '*' :: ("scp:pk=".toList ++ (n ++ '*' :: '/' :: t)) := by
  induction l with
  | nil => cases h
  | cons c l ih =>
    rcases Bool.or_eq_true_iff.mp h with hat | hrest
    · obtain ⟨t, ht⟩ := Option.isSome_iff_exists.mp hat
      obtain ⟨b, n, -, -, heq⟩ := hintAt_eq_some_iff.mp ht
      exact ⟨b, n, t, by simpa using heq⟩
    · obtain ⟨u, n, t, heq⟩ := ih hrest
      exact ⟨c :: u, n, t, by rw [heq, List.cons_append]⟩

theorem length_trim_le (l : List Char) : (trim l).length ≤ l.length := by
  obtain ⟨b, b', -, -, -, heq⟩ := exists_trim l
  have hlen := congrArg List.length heq
  rw [List.length_append, List.length_append] at hlen
  omega

theorem mem_trim {l : List Char} {c : Char} (hc : isSpace c = false) (h : c ∈ l) : c ∈ trim l := by
  obtain ⟨b, b', hb, hb', -, heq⟩ := exists_trim l
  rw [heq] at h
  rcases List.mem_append.mp h with h | h
  · rw [hb c h] at hc
    exact nomatch hc
  · rcases List.mem_append.mp h with h | h
    · exact h
    · rw [hb' c h] at hc
      exact nomatch hc

/-- The rest of a hint has a slash, unless nothing is left of it. -/
theorem strip_hint_drop {n : List Char} (hn : '*' ∉ n) (k : Nat) :
    let s := trim (stripMysqlPkHint ((" /*scp:pk=".toList ++ (n ++ "*/".toList)).drop (k + 1)))
    s = [] ∨ '/' ∈ s := by
  intro s
  cases k with
  | zero =>
    left
    have hat : hintAt ("/*scp:pk=".toList ++ (n ++ "*/".toList)) = some [] := by
      refine hintAt_eq_some_iff.mpr ⟨[], n, (fun c hc => nomatch hc), hn, ?_⟩
      rw [List.append_nil, List.nil_append]
    have hstrip : stripMysqlPkHint ("/*scp:pk=".toList ++ (n ++ "*/".toList)) = [] :=
      strip_of_some hat
    have hs : s = trim (stripMysqlPkHint ("/*scp:pk=".toList ++ (n ++ "*/".toList))) := rfl
    rw [hs, hstrip]
    rfl
  | succ k =>
    have hs : s = trim (stripMysqlPkHint (("*scp:pk=".toList ++ (n ++ "*/".toList)).drop k)) := rfl
    generalize hq : "*scp:pk=".toList ++ (n ++ "*/".toList) = q at hs
    have hno : hasHint q = false := by
      cases hhint : hasHint q with
      | false => rfl
      | true =>
        obtain ⟨u, m, t, heq⟩ := hasHint_elim hhint
        have hcount : q.count '*' = 2 := by
          rw [← hq, List.count_append, List.count_append, List.count_eq_zero.mpr hn]
          rfl
        cases u with
        | nil =>
          rw [← hq] at heq
          exact nomatch (List.cons.inj heq).1
        | cons c u =>
          have hc : c = '*' := by
            rw [← hq] at heq
            exact (List.cons.inj heq).1.symm
          rw [heq, hc] at hcount
          simp only [List.cons_append, List.count_append, List.count_cons_self,
            List.count_cons] at hcount
          omega
    have hdrop : hasHint (q.drop k) = false := by
      cases hhint : hasHint (q.drop k) with
      | false => rfl
      | true =>
        have hright := hasHint_right hhint (q.take k)
        rw [List.take_append_drop, hno] at hright
        exact nomatch hright
    rw [strip_of_no hdrop] at hs
    rcases hrest : q.drop k with _ | ⟨c, rest⟩
    · left
      rw [hs, hrest]
      rfl
    · right
      rw [hs]
      apply mem_trim (by decide)
      have hlast : (q.drop k).getLast? = some '/' := by
        rw [List.getLast?_drop, if_neg]
        · rw [← hq, ← List.append_assoc, List.getLast?_append]
          rfl
        · intro hle
          rw [List.drop_eq_nil_of_le hle] at hrest
          exact nomatch hrest
      exact List.mem_of_getLast? hlast

/-- The columns are read from their own place, and from no place behind it. -/
theorem cols_read {r : Returning} (hr : r.WellFormed)
    (hfields : ∀ d ∈ r.pk, '*' ∉ hintFields d r.conflict) (j : Nat) :
    trim (stripMysqlPkHint ((r.cols ++ r.hint).drop j)) = r.cols ↔ j = 0 := by
  -- what is read from within the columns is a part of what is left of them
  have hwithin : ∀ a : List Char, '/' ∉ a →
      (trim (stripMysqlPkHint (a ++ r.hint))).length ≤ a.length ∧
        (Trimmed a → trim (stripMysqlPkHint (a ++ r.hint)) = a) := by
    intro a ha
    have hno := hasHint_noSlash ha
    rw [Returning.hint]
    cases hpk : r.pk with
    | none =>
      rw [List.append_nil, strip_of_no hno]
      exact ⟨length_trim_le a, trim_trimmed⟩
    | some d =>
      have hstar := hfields d hpk
      constructor
      · obtain ⟨l, b, rfl, hb, hl⟩ := exists_trimEnd a
        have hle := length_trim_le l
        rw [strip_pkHint hno hl hb hstar, List.length_append]
        omega
      · intro htrim
        rw [strip_added hno htrim.2 hstar, trim_trimmed htrim]
  constructor
  · intro h
    by_contra hj
    have hpos : 0 < r.cols.length := List.length_pos_iff.mpr hr.nonempty
    by_cases hle : j ≤ r.cols.length
    · rw [List.drop_append_of_le_length hle] at h
      have hslash : '/' ∉ r.cols.drop j := fun hmem => hr.slash (List.mem_of_mem_drop hmem)
      have hlen := (hwithin _ hslash).1
      rw [h, List.length_drop] at hlen
      omega
    · obtain ⟨k, rfl⟩ : ∃ k, j = r.cols.length + (k + 1) := ⟨j - r.cols.length - 1, by omega⟩
      rw [List.drop_length_add_append, Returning.hint] at h
      have hempty : r.cols = [] ∨ '/' ∈ r.cols := by
        cases hpk : r.pk with
        | none =>
          rw [hpk] at h
          left
          rw [← h, List.drop_nil]
          rfl
        | some d =>
          rw [hpk] at h
          have hrest := strip_hint_drop (hfields d hpk) k
          simp only at h
          rw [← h]
          exact hrest
      exact hempty.elim hr.nonempty hr.slash
  · rintro rfl
    exact (hwithin r.cols hr.slash).2 hr.trimmed

/-- Where the returned columns are taken to begin. -/
theorem returning_found {w : Write} {r : Returning} (hr : r.WellFormed)
    (hno : hasHint w.body = false) : ∃ i,
    returningParts (w.text r) =
      some (trim (stripMysqlPkHint ((w.text r).take (w.body.length + (w.body.count '\u0130' + i)))),
        (w.text r).drop (w.body.length + (w.body.count '\u0130' + i)),
        trim (stripMysqlPkHint ((r.cols ++ r.hint).drop (w.body.count '\u0130' + i)))) ∧
      (i = 0 ↔ ¬ " returning ".toList <:+: "returning ".toList ++ toLowerCase (r.cols ++ r.hint)) := by
  have hword : toLowerCase " RETURNING ".toList = ' ' :: "returning ".toList := by decide
  have hlower : toLowerCase (w.text r) =
      toLowerCase w.body ++ ' ' :: ("returning ".toList ++ toLowerCase (r.cols ++ r.hint)) := by
    rw [text_eq hr hno, toLowerCase_append, toLowerCase_append, hword]
    rfl
  have hpre : " returning ".toList <+:
      ' ' :: ("returning ".toList ++ toLowerCase (r.cols ++ r.hint)) := ⟨_, rfl⟩
  obtain ⟨i, hfound, hi⟩ := lastIndexOf_known hpre (toLowerCase w.body)
  refine ⟨i, ?_, hi⟩
  have hdrop : (w.text r).drop (w.body.length + (w.body.count '\u0130' + i) + 11) =
      (r.cols ++ r.hint).drop (w.body.count '\u0130' + i) := by
    have hplace : w.body.length + (w.body.count '\u0130' + i) + 11 =
        (w.body ++ " RETURNING ".toList).length + (w.body.count '\u0130' + i) := by
      have hlen : " RETURNING ".toList.length = 11 := rfl
      rw [List.length_append, hlen]
      omega
    rw [hplace, text_eq hr hno, ← List.append_assoc, List.drop_length_add_append]
  rw [returningParts, hlower, hfound, length_toLowerCase, Nat.add_assoc, Option.map_some, hdrop]

/-! ## The hint's key -/

/-- The names of a list are read back. -/
theorem nameList_commas {names : List String} (h : ∀ name ∈ names, HintName name) :
    nameList (commas names) = names.map String.toList := by
  have hkept : ∀ name ∈ names, trim name.toList = name.toList ∧ name.toList ≠ [] :=
    fun name hname => ⟨trim_trimmed (h name hname).2.1, (h name hname).1⟩
  rw [nameList]
  rcases List.eq_nil_or_concat names with rfl | hne
  · rfl
  · have hne : names ≠ [] := by
      obtain ⟨l, a, rfl⟩ := hne
      simp
    rw [commas, List.splitOn_intercalate ',' _ (by simpa using hne), List.map_map]
    · have hmap : names.map (trim ∘ String.toList) = names.map String.toList :=
        List.map_congr_left fun name hname => (hkept name hname).1
      rw [hmap]
      apply List.filter_eq_self.mpr
      intro cs hcs
      obtain ⟨name, hname, rfl⟩ := List.mem_map.mp hcs
      simpa using (hkept name hname).2
    · intro cs hcs hmem
      obtain ⟨name, hname, rfl⟩ := List.mem_map.mp hcs
      exact (h name hname).2.2 ',' hmem (by simp)

theorem parsePkHint_skip {l : List Char} (h : '/' ∉ l) (x : List Char) :
    parsePkHint (l ++ x) = parsePkHint x := by
  induction l with
  | nil => rfl
  | cons c l ih =>
    have hnone : pkHintAt (c :: (l ++ x)) = none := by
      rw [pkHintAt]
      cases hword : dropWord "/*scp:pk=".toList (c :: (l ++ x)) with
      | none => rfl
      | some t =>
        exfalso
        obtain ⟨w, hw, hlower⟩ := dropWord_some hword
        cases w with
        | nil => exact nomatch hlower
        | cons d w =>
          have hd : d = '/' := eq_of_toLower_eq (List.cons.inj hlower).1 (by decide)
          have hc : c = d := (List.cons.inj hw).1
          apply h
          rw [hc, hd]
          exact List.mem_cons_self
    rw [List.cons_append, parsePkHint, hnone, Option.getD_none, ih fun hmem =>
      h (List.mem_cons_of_mem c hmem)]

theorem pkHintAt_hint {d : PrimaryKey} (hkeys : ∀ name ∈ d.columns, HintName name)
    (conflict : Option String) : ∃ ai,
    pkHintAt ("/*scp:pk=".toList ++ (hintFields d conflict ++ "*/".toList)) =
      some ⟨d.columns.map String.toList, ai⟩ := by
  have hopen : ("/*scp:pk=".toList).map Char.toLower = "/*scp:pk=".toList := by decide
  have hai : (";ai=".toList).map Char.toLower = ";ai=".toList := by decide
  have hfield : ∀ c ∈ commas d.columns, (decide (c ≠ ';') && decide (c ≠ '*')) = true := by
    intro c hc
    rcases mem_commas hc with rfl | ⟨name, hname, hmem⟩
    · decide
    · have hno := (hkeys name hname).2.2 c hmem
      simp only [List.mem_cons, List.not_mem_nil, or_false, not_or] at hno
      simp [hno]
  have hstop : ∀ x, Stops (fun c => decide (c ≠ ';') && decide (c ≠ '*')) (";ai=".toList ++ x) := by
    intro x c hc
    obtain rfl : ';' = c := Option.some_inj.mp hc
    decide
  obtain ⟨rest, hrest⟩ : ∃ rest,
      hintFields d conflict = commas d.columns ++ (";ai=".toList ++ rest) := ⟨_, rfl⟩
  rw [pkHintAt, dropWord_append hopen, hrest, Option.bind_some]
  simp only [List.append_assoc]
  rw [takeWhile_stop hfield (hstop _), dropWhile_stop hfield (hstop _), dropWord_append hai,
    nameList_commas hkeys]
  exact ⟨_, rfl⟩

/-- The rows are ordered by the declared key. -/
theorem orderBy_hint {r : Returning} (hr : r.WellFormed) :
    orderBy (parsePkHint (" RETURNING ".toList ++ (r.cols ++ r.hint))).pk = r.order := by
  have hword : '/' ∉ " RETURNING ".toList ++ r.cols := by
    intro hmem
    rcases List.mem_append.mp hmem with hmem | hmem
    · revert hmem
      decide
    · exact hr.slash hmem
  rw [← List.append_assoc, parsePkHint_skip hword, Returning.hint, Returning.order]
  cases hpk : r.pk with
  | none => rfl
  | some d =>
    obtain ⟨ai, hai⟩ := pkHintAt_hint (hr.keys d hpk) r.conflict
    have hskip : parsePkHint (pkHint d r.conflict) =
        parsePkHint ("/*scp:pk=".toList ++ (hintFields d r.conflict ++ "*/".toList)) :=
      @parsePkHint_skip [' '] (by decide) _
    have hread : parsePkHint ("/*scp:pk=".toList ++ (hintFields d r.conflict ++ "*/".toList)) =
        (pkHintAt ("/*scp:pk=".toList ++ (hintFields d r.conflict ++ "*/".toList))).getD
          (parsePkHint ("*scp:pk=".toList ++ (hintFields d r.conflict ++ "*/".toList))) := rfl
    simp only [hskip, hread, hai, Option.getD_some, Option.map_some]

/-! ## The table -/

theorem firstMatch_some {α : Type} {matchAt : List Char → Option α} {cs : List Char} {a : α} :
    ∀ {inWord : Bool}, firstMatch matchAt inWord cs = some a → ∃ rest, matchAt rest = some a := by
  induction cs with
  | nil =>
    intro inWord h
    exact nomatch h
  | cons c cs ih =>
    intro inWord h
    rw [firstMatch] at h
    rcases Option.or_eq_some_iff.mp h with h | ⟨-, h⟩
    · cases inWord with
      | true => exact nomatch h
      | false => exact ⟨c :: cs, h⟩
    · exact ih h

theorem tableOf_chars {cs t : List Char} (h : tableOf cs = some t) :
    ∀ c ∈ t, isTableChar c = true := by
  obtain ⟨rest, hat⟩ := firstMatch_some h
  obtain ⟨rest', -, hword⟩ := Option.bind_eq_some_iff.mp hat
  simp only at hword
  split at hword
  next => exact nomatch hword
  next =>
    rw [← Option.some_inj.mp hword]
    exact fun c hc => List.mem_takeWhile_imp hc

theorem verbAt_opening (w : Write) (rest : List Char) :
    verbAt (w.opening ++ rest) = some (' ' :: rest) := by
  cases w with
  | insert ignore table clauses =>
    cases ignore with
    | false => rfl
    | true => rfl
  | update table sets cond => rfl
  | updateMany table clauses => rfl
  | delete table cond => rfl

theorem opening_cons (w : Write) : ∃ c cs, w.opening = c :: cs ∧ isSpace c = false := by
  cases w with
  | insert ignore table clauses => cases ignore <;> exact ⟨_, _, rfl, by decide⟩
  | update table sets cond => exact ⟨_, _, rfl, by decide⟩
  | updateMany table clauses => exact ⟨_, _, rfl, by decide⟩
  | delete table cond => exact ⟨_, _, rfl, by decide⟩

/-- The blanks around a write stand at its end. -/
theorem trim_body {w : Write} (hw : w.WellFormed) : ∃ rest b,
    trim w.body = w.opening ++ rest ∧ Blank b ∧ rest ++ b = w.table ++ w.clauses := by
  obtain ⟨b, b', hb, hb', -, heq⟩ := exists_trim w.body
  obtain ⟨c, cs, hopen, hc⟩ := opening_cons w
  have hnil : b = [] := by
    cases b with
    | nil => rfl
    | cons d b =>
      exfalso
      rw [Write.body, hopen] at heq
      have hd := hb d List.mem_cons_self
      rw [← (List.cons.inj heq).1, hc] at hd
      exact nomatch hd
  rw [hnil, List.nil_append] at heq
  rcases List.append_eq_append_iff.mp heq with ⟨a, ha, hrest⟩ | ⟨a, ha, hrest⟩
  · exact ⟨a, b', ha, hb', hrest.symm⟩
  · exfalso
    obtain ⟨d, table, htable⟩ := List.exists_cons_of_ne_nil hw.table.1
    have hd := hw.table.2 d (by rw [htable]; rfl)
    rw [hb' d (by rw [hrest, htable]; simp)] at hd
    exact nomatch hd

theorem stops_clauses (w : Write) : Stops isTableChar w.clauses := by
  have hspace : ∀ x, Stops isTableChar (' ' :: x) := by
    intro x c hc
    obtain rfl : ' ' = c := Option.some_inj.mp hc
    decide
  have hwhere : ∀ cond, Stops isTableChar (whereText cond) := by
    intro cond
    cases cond with
    | none => exact fun c hc => nomatch hc
    | some cond => exact hspace _
  cases w with
  | insert ignore table clauses => exact hspace _
  | update table sets cond => exact hspace _
  | updateMany table clauses => exact hspace _
  | delete table cond => exact hwhere cond

theorem tableChar_not_space {c : Char} (h : isSpace c = true) : isTableChar c = false := by
  cases hc : isTableChar c with
  | false => rfl
  | true =>
    have hrange := space_range h
    simp only [isTableChar, Bool.or_eq_true, decide_eq_true_eq] at hc
    rcases hc with ((hc | rfl) | rfl) | rfl
    · have hword := wordChar_range hc
      omega
    all_goals exact absurd h (by decide)

theorem takeWhile_append_blank {rest b : List Char} (hb : Blank b) :
    (rest ++ b).takeWhile isTableChar = rest.takeWhile isTableChar := by
  induction rest with
  | nil =>
    cases b with
    | nil => rfl
    | cons c b =>
      have hc := tableChar_not_space (hb c List.mem_cons_self)
      rw [List.nil_append, List.takeWhile_cons_of_neg (by simp [hc])]
      rfl
  | cons c rest ih =>
    rw [List.cons_append]
    by_cases hc : isTableChar c = true
    · rw [List.takeWhile_cons_of_pos hc, List.takeWhile_cons_of_pos hc, ih]
    · rw [List.takeWhile_cons_of_neg hc, List.takeWhile_cons_of_neg hc]

/-- The table is found when all of its characters are searched for. -/
theorem tableOf_body {w : Write} (hw : w.WellFormed) :
    tableOf (trim w.body) = some w.table ↔ ∀ c ∈ w.table, isTableChar c = true := by
  constructor
  · exact tableOf_chars
  · intro hchars
    obtain ⟨rest, b, htrim, hb, heq⟩ := trim_body hw
    obtain ⟨c, cs, hopen, -⟩ := opening_cons w
    have hword : rest.takeWhile isTableChar = w.table := by
      rw [← takeWhile_append_blank hb, heq, takeWhile_stop hchars (stops_clauses w)]
    have hstop : Stops isSpace rest := by
      cases rest with
      | nil => exact fun c hc => nomatch hc
      | cons d rest =>
        have hhead := congrArg List.head? heq
        obtain ⟨e, table, htable⟩ := List.exists_cons_of_ne_nil hw.table.1
        rw [htable] at hhead
        have hde : d = e := Option.some_inj.mp hhead
        intro d' hd'
        rw [← Option.some_inj.mp hd', hde]
        exact hw.table.2 e (by rw [htable]; rfl)
    have hat : tableAt (w.opening ++ rest) = some w.table := by
      have hblank : dropSpaces ([' '] ++ rest) = some rest := by
        refine dropSpaces_append (List.cons_ne_nil ' ' []) ?_ hstop
        intro d hd
        rw [List.mem_singleton.mp hd]
        rfl
      rw [tableAt, verbAt_opening, Option.bind_some]
      rw [List.singleton_append] at hblank
      rw [hblank, Option.bind_some]
      simp only [hword, if_neg hw.table.1]
    rw [tableOf, htrim, hopen, List.cons_append, firstMatch]
    rw [hopen, List.cons_append] at hat
    simp only [Bool.false_eq_true, if_false, hat, Option.some_or]

/-! ## The WHERE clause -/

theorem params_eq_iff {m k p n : Nat} :
    ((List.range m).map fun i => ReselectBind.param (p + i)) =
        ((List.range k).map fun i => ReselectBind.param (n + i)) ↔ m = k ∧ (k = 0 ∨ p = n) := by
  constructor
  · intro h
    have hlen := congrArg List.length h
    rw [List.length_map, List.length_map, List.length_range, List.length_range] at hlen
    subst hlen
    refine ⟨rfl, ?_⟩
    cases m with
    | zero => exact Or.inl rfl
    | succ m =>
      right
      have hfirst := congrArg List.head? h
      rw [List.range_succ_eq_map] at hfirst
      simpa using hfirst
  · rintro ⟨rfl, rfl | rfl⟩
    · rfl
    · rfl

theorem selectFrom_cond {cols table c c' order : List Char} :
    selectFrom cols table c order = selectFrom cols table c' order ↔ c = c' := by
  unfold selectFrom
  generalize "SELECT ".toList = s
  generalize " FROM ".toList = f
  generalize " WHERE ".toList = w
  rw [List.append_right_inj, List.append_right_inj, List.append_right_inj, List.append_right_inj,
    List.append_right_inj, List.append_left_inj]

theorem placeholders_clause (c : Clause) : placeholders c.text = c.arity + c.strays :=
  Template.count_marked '?' c

theorem length_lower {l : List Char} (h : '\u0130' ∉ l) : (toLowerCase l).length = l.length := by
  rw [length_toLowerCase, List.count_eq_zero.mpr h, Nat.add_zero]

theorem lower_where (pre cond : List Char) :
    toLowerCase (pre ++ (" WHERE ".toList ++ cond)) =
      toLowerCase pre ++ ' ' :: ("where ".toList ++ toLowerCase cond) := by
  have hword : toLowerCase " WHERE ".toList = ' ' :: "where ".toList := by decide
  rw [toLowerCase_append, toLowerCase_append, hword]
  rfl

theorem drop_where (pre cond : List Char) (i : Nat) :
    (pre ++ (" WHERE ".toList ++ cond)).drop (pre.length + i + 7) = cond.drop i := by
  have hplace : pre.length + i + 7 = (pre ++ " WHERE ".toList).length + i := by
    have hlen : " WHERE ".toList.length = 7 := rfl
    rw [List.length_append, hlen]
    omega
  rw [hplace, ← List.append_assoc, List.drop_length_add_append]

/-- Where the WHERE clause is taken to begin. -/
theorem where_found {pre : List Char} (hpre : '\u0130' ∉ pre) (cond : List Char) : ∃ i,
    lastIndexOf " where ".toList (toLowerCase (pre ++ (" WHERE ".toList ++ cond))) =
        some (pre.length + i) ∧
      (i = 0 ↔ ¬ " where ".toList <:+: "where ".toList ++ toLowerCase cond) := by
  have hfront : " where ".toList <+: ' ' :: ("where ".toList ++ toLowerCase cond) := ⟨_, rfl⟩
  obtain ⟨i, hfound, hi⟩ := lastIndexOf_known hfront (toLowerCase pre)
  refine ⟨i, ?_, hi⟩
  rw [lower_where, hfound, length_lower hpre]

theorem byWhere_found {writeSql : List Char} {p : Nat}
    (h : lastIndexOf " where ".toList (toLowerCase writeSql) = some p) (cols table order : List Char) :
    byWhere writeSql cols table order =
      .ok ⟨writeSql, selectFrom cols table (trim (writeSql.drop (p + 7))) order,
        (List.range (placeholders (trim (writeSql.drop (p + 7))))).map fun i =>
          .param (placeholders (writeSql.take p) + i),
        decide ("delete".toList <+: toLowerCase writeSql)⟩ := by
  simp only [byWhere, h]

theorem trim_drop_eq_iff {l : List Char} (hne : l ≠ []) (htrim : Trimmed l) (i : Nat) :
    trim (l.drop i) = l ↔ i = 0 := by
  constructor
  · intro h
    have hlen := length_trim_le (l.drop i)
    have hpos : 0 < l.length := List.length_pos_iff.mpr hne
    rw [h, List.length_drop] at hlen
    omega
  · rintro rfl
    rw [List.drop_zero, trim_trimmed htrim]

/-- The own WHERE clause is read back when no other one is found in it and the question marks
are parameters. -/
theorem byWhere_iff {writeSql pre cols table order : List Char} {cond : Clause} {n : Nat}
    {before : Bool} (hsql : writeSql = pre ++ (" WHERE ".toList ++ cond.text))
    (hbefore : decide ("delete".toList <+: toLowerCase writeSql) = before)
    (hpre : '\u0130' ∉ pre) (hne : cond.text ≠ []) (htrim : Trimmed cond.text) :
    byWhere writeSql cols table order =
        .ok ⟨writeSql, selectFrom cols table cond.text order, whereBinds n cond, before⟩ ↔
      ¬ " where ".toList <:+: "where ".toList ++ toLowerCase cond.text ∧ cond.strays = 0 ∧
        (cond.arity = 0 ∨ placeholders pre = n) := by
  obtain ⟨i, hfound, hi⟩ := where_found hpre cond.text
  have hdrop := drop_where pre cond.text i
  rw [← hsql] at hfound hdrop
  rw [byWhere_found hfound, hdrop, hbefore, Except.ok.injEq, MysqlReselect.mk.injEq,
    selectFrom_cond, whereBinds, params_eq_iff, trim_drop_eq_iff hne htrim, ← hi]
  constructor
  · rintro ⟨-, rfl, ⟨hcount, hbinds⟩, -⟩
    rw [List.drop_zero, trim_trimmed htrim, placeholders_clause] at hcount
    rw [hsql, Nat.add_zero, List.take_left] at hbinds
    exact ⟨rfl, by omega, hbinds⟩
  · rintro ⟨rfl, hstrays, hbinds⟩
    rw [List.drop_zero, trim_trimmed htrim, placeholders_clause, hsql, Nat.add_zero, List.take_left]
    exact ⟨rfl, rfl, ⟨by omega, hbinds⟩, rfl⟩

/-! ## What is recovered -/

theorem parts_read {w : Write} {r : Returning} (hr : r.WellFormed) (hno : hasHint w.body = false)
    (hdotted : '\u0130' ∉ w.body)
    (honce : ¬ " returning ".toList <:+: "returning ".toList ++ toLowerCase (r.cols ++ r.hint))
    (hfields : ∀ d ∈ r.pk, '*' ∉ hintFields d r.conflict) :
    returningParts (w.text r) =
      some (trim w.body, " RETURNING ".toList ++ (r.cols ++ r.hint), r.cols) := by
  obtain ⟨i, hparts, hi⟩ := returning_found hr hno
  obtain rfl := hi.mpr honce
  rw [hparts, List.count_eq_zero.mpr hdotted, (cols_read hr hfields 0).mpr rfl, text_eq hr hno,
    Nat.add_zero, List.take_left, List.drop_left, strip_of_no hno]

theorem plain_of_parts {w : Write} {r : Returning} (hr : r.WellFormed)
    (hno : hasHint w.body = false) (hfields : ∀ d ∈ r.pk, '*' ∉ hintFields d r.conflict)
    {body region : List Char} (h : returningParts (w.text r) = some (body, region, r.cols)) :
    '\u0130' ∉ w.body ∧
      ¬ " returning ".toList <:+: "returning ".toList ++ toLowerCase (r.cols ++ r.hint) := by
  obtain ⟨i, hparts, hi⟩ := returning_found hr hno
  rw [hparts, Option.some_inj, Prod.mk.injEq, Prod.mk.injEq] at h
  have hzero := (cols_read hr hfields _).mp h.2.2
  exact ⟨List.count_eq_zero.mp (by omega), hi.mp (by omega)⟩

theorem build_of_parts {sql body region cols table : List Char}
    (hparts : returningParts sql = some (body, region, cols)) (htable : tableOf body = some table)
    (s : Option MysqlReselect) : buildMysqlReselect sql = .ok s ↔
      ∃ t, s = some t ∧
        recover body cols table (parsePkHint region) (parseConflictHint region) = .ok t := by
  simp only [buildMysqlReselect, hparts, htable]
  cases recover body cols table (parsePkHint region) (parseConflictHint region) with
  | error e => simp [Except.map]
  | ok t => simp [Except.map, eq_comm]

theorem build_error_of_parts {sql body region cols table : List Char}
    (hparts : returningParts sql = some (body, region, cols)) (htable : tableOf body = some table) :
    (∃ e, buildMysqlReselect sql = .error e) ↔
      ∃ e, recover body cols table (parsePkHint region) (parseConflictHint region) = .error e := by
  simp only [buildMysqlReselect, hparts, htable]
  cases recover body cols table (parsePkHint region) (parseConflictHint region) with
  | error e => simp [Except.map]
  | ok t => simp [Except.map]

theorem lower_update (x : List Char) :
    toLowerCase ("UPDATE ".toList ++ x) = "update ".toList ++ toLowerCase x := by
  have hword : toLowerCase "UPDATE ".toList = "update ".toList := by decide
  rw [toLowerCase_append, hword]

theorem lower_delete (x : List Char) :
    toLowerCase ("DELETE FROM ".toList ++ x) = "delete from ".toList ++ toLowerCase x := by
  have hword : toLowerCase "DELETE FROM ".toList = "delete from ".toList := by decide
  rw [toLowerCase_append, hword]

theorem update_words (x : List Char) :
    ¬ "insert".toList <+: toLowerCase ("UPDATE ".toList ++ x) ∧
      "update".toList <+: toLowerCase ("UPDATE ".toList ++ x) := by
  rw [lower_update]
  constructor
  · rintro ⟨t, ht⟩
    exact nomatch (List.cons.inj ht).1
  · exact ⟨' ' :: toLowerCase x, rfl⟩

theorem recover_update {x : List Char}
    (hjson : ¬ "json_table(".toList <:+: toLowerCase ("UPDATE ".toList ++ x))
    (cols table : List Char) (hint : PkHint) (conflict : List (List Char)) :
    recover ("UPDATE ".toList ++ x) cols table hint conflict =
      byWhere ("UPDATE ".toList ++ x) cols table (orderBy hint.pk) := by
  obtain ⟨hinsert, hupdate⟩ := update_words x
  simp only [recover, hinsert, hupdate, hjson, false_and, true_and, if_false, decide_false,
    Bool.false_eq_true]

/-- An update with a JSON table is recovered by its batch key. -/
theorem recover_batch {x : List Char}
    (hjson : "json_table(".toList <:+: toLowerCase ("UPDATE ".toList ++ x))
    (cols table : List Char) (hint : PkHint) (conflict : List (List Char)) :
    (updateBatchKey ("UPDATE ".toList ++ x) = none ∧
        ∃ e, recover ("UPDATE ".toList ++ x) cols table hint conflict = .error e) ∨
      ∃ key, updateBatchKey ("UPDATE ".toList ++ x) = some key ∧
        recover ("UPDATE ".toList ++ x) cols table hint conflict = .ok ⟨"UPDATE ".toList ++ x,
          jsonSelect cols table key (orderBy hint.pk), [.json], false⟩ := by
  obtain ⟨hinsert, hupdate⟩ := update_words x
  cases hkey : updateBatchKey ("UPDATE ".toList ++ x) with
  | none =>
    left
    refine ⟨rfl, failure "scp write(mysql): cannot parse the batch JOIN key of " ""
      ("UPDATE ".toList ++ x), ?_⟩
    simp only [recover, hinsert, hupdate, hjson, hkey, false_and, true_and, if_false, if_true,
      decide_true]
  | some key =>
    right
    refine ⟨key, rfl, ?_⟩
    simp only [recover, hinsert, hupdate, hjson, hkey, false_and, true_and, if_false, if_true,
      decide_true]

theorem recover_delete (x cols table : List Char) (hint : PkHint) (conflict : List (List Char)) :
    recover ("DELETE FROM ".toList ++ x) cols table hint conflict =
      byWhere ("DELETE FROM ".toList ++ x) cols table (orderBy hint.pk) := by
  have hinsert : ¬ "insert".toList <+: toLowerCase ("DELETE FROM ".toList ++ x) := by
    rintro ⟨t, ht⟩
    rw [lower_delete] at ht
    exact nomatch (List.cons.inj ht).1
  have hupdate : ¬ "update".toList <+: toLowerCase ("DELETE FROM ".toList ++ x) := by
    rintro ⟨t, ht⟩
    rw [lower_delete] at ht
    exact nomatch (List.cons.inj ht).1
  simp only [recover, hinsert, hupdate, false_and, if_false]

theorem placeholders_table {table : List Char} (h : ∀ c ∈ table, isTableChar c = true) :
    placeholders table = 0 := by
  apply List.count_eq_zero.mpr
  intro hmem
  exact absurd (h '?' hmem) (by decide)

theorem update_body (table : List Char) (sets cond : Clause) :
    (Write.update table sets (some cond)).body =
      ("UPDATE ".toList ++ (table ++ (" SET ".toList ++ sets.text))) ++
        (" WHERE ".toList ++ cond.text) := by
  change "UPDATE ".toList ++ (table ++ (" SET ".toList ++ (sets.text ++
    (" WHERE ".toList ++ cond.text)))) = _
  generalize "UPDATE ".toList = u
  generalize " SET ".toList = s
  generalize " WHERE ".toList = v
  simp only [List.append_assoc]

theorem delete_body (table : List Char) (cond : Clause) :
    (Write.delete table (some cond)).body =
      ("DELETE FROM ".toList ++ table) ++ (" WHERE ".toList ++ cond.text) := by
  change "DELETE FROM ".toList ++ (table ++ (" WHERE ".toList ++ cond.text)) = _
  rw [List.append_assoc]

/-- A write that ends with its WHERE clause has no blanks around it. -/
theorem trim_where {w : Write} {pre c : List Char} (h : w.body = pre ++ (" WHERE ".toList ++ c))
    (hne : c ≠ []) (htrim : Trimmed c) : trim w.body = w.body := by
  apply trim_trimmed
  obtain ⟨d, cs, hopen, hd⟩ := opening_cons w
  constructor
  · intro e he
    rw [Write.body, hopen] at he
    rw [← Option.some_inj.mp he, hd]
  · rw [h, List.reverse_append, List.reverse_append, List.append_assoc]
    exact stops_append (by simpa using hne) htrim.2 _

section ReadBack

variable {w : Write} {r : Returning} {region : List Char}

theorem readBack_where {x sql table : List Char} {cond : Clause} {before : Bool}
    (hparts : returningParts sql = some (x, region, r.cols)) (htable : tableOf x = some table)
    (horder : orderBy (parsePkHint region).pk = r.order) (n : Nat) :
    buildMysqlReselect sql = .ok (some ⟨x, selectFrom r.cols table cond.text r.order,
        whereBinds n cond, before⟩) ↔
      recover x r.cols table (parsePkHint region) (parseConflictHint region) =
        .ok ⟨x, selectFrom r.cols table cond.text (orderBy (parsePkHint region).pk),
          whereBinds n cond, before⟩ := by
  rw [build_of_parts hparts htable, horder]
  constructor
  · rintro ⟨t, ht, hrec⟩
    rw [hrec, ← Option.some_inj.mp ht]
  · intro hrec
    exact ⟨_, rfl, hrec⟩

theorem readBack_update {table : List Char} {sets cond : Clause}
    (hparts : returningParts ((Write.update table sets (some cond)).text r) =
      some (trim (Write.update table sets (some cond)).body, region, r.cols))
    (htable : tableOf (trim (Write.update table sets (some cond)).body) = some table)
    (hchars : ∀ c ∈ table, isTableChar c = true)
    (horder : orderBy (parsePkHint region).pk = r.order)
    (hdotted : '\u0130' ∉ (Write.update table sets (some cond)).body)
    (hw : (Write.update table sets (some cond)).WellFormed) :
    (Write.update table sets (some cond)).ReadBack r ↔
      (Write.update table sets (some cond)).Unambiguous := by
  obtain ⟨hne, htrim⟩ := hw.cond table sets cond (Or.inl rfl)
  have hbody := update_body table sets cond
  rw [trim_where hbody hne htrim] at hparts htable
  refine (readBack_where hparts htable horder sets.arity).trans ?_
  change _ ↔ ¬ "json_table(".toList <:+: toLowerCase (Write.update table sets (some cond)).body ∧
    ¬ " where ".toList <:+: "where ".toList ++ toLowerCase cond.text ∧ cond.strays = 0 ∧
      (cond.arity = 0 ∨ sets.strays = 0)
  generalize hsql : (Write.update table sets (some cond)).body = sql at *
  have hfront : ∃ x, sql = "UPDATE ".toList ++ x := ⟨_, hsql.symm⟩
  have hpre : '\u0130' ∉ "UPDATE ".toList ++ (table ++ (" SET ".toList ++ sets.text)) := by
    intro hmem
    apply hdotted
    rw [hbody]
    exact List.mem_append_left _ hmem
  have hcount : placeholders ("UPDATE ".toList ++ (table ++ (" SET ".toList ++ sets.text))) =
      sets.arity + sets.strays := by
    have hwords : "UPDATE ".toList.count '?' = 0 ∧ " SET ".toList.count '?' = 0 := by decide
    have htab : table.count '?' = 0 := placeholders_table hchars
    have hsets : sets.text.count '?' = sets.arity + sets.strays := placeholders_clause sets
    rw [placeholders, List.count_append, List.count_append, List.count_append, hwords.1, hwords.2,
      htab, hsets]
    omega
  have hbefore : decide ("delete".toList <+: toLowerCase sql) = false := by
    obtain ⟨x, rfl⟩ := hfront
    apply decide_eq_false
    rintro ⟨t, ht⟩
    rw [lower_update] at ht
    exact nomatch (List.cons.inj ht).1
  obtain ⟨x, hx⟩ := hfront
  by_cases hjson : "json_table(".toList <:+: toLowerCase sql
  · refine iff_of_false ?_ fun h => h.1 hjson
    intro h
    have hbatch := recover_batch (hx ▸ hjson) r.cols table (parsePkHint region)
      (parseConflictHint region)
    rw [← hx] at hbatch
    rcases hbatch with ⟨-, e, he⟩ | ⟨key, -, hok⟩
    · rw [he] at h
      exact nomatch h
    · rw [hok] at h
      have hbinds : [ReselectBind.json] = whereBinds sets.arity cond :=
        congrArg MysqlReselect.binds (Except.ok.inj h)
      have hmem : ReselectBind.json ∈ whereBinds sets.arity cond := by
        rw [← hbinds]
        exact List.mem_cons_self
      obtain ⟨i, -, hi⟩ := List.mem_map.mp hmem
      exact nomatch hi
  · have hrec := recover_update (hx ▸ hjson) r.cols table (parsePkHint region)
      (parseConflictHint region)
    rw [← hx] at hrec
    have hstrays : sets.arity + sets.strays = sets.arity ↔ sets.strays = 0 := by omega
    rw [hrec, byWhere_iff hbody hbefore hpre hne htrim, hcount, hstrays]
    exact (and_iff_right hjson).symm

theorem readBack_delete {table : List Char} {cond : Clause}
    (hparts : returningParts ((Write.delete table (some cond)).text r) =
      some (trim (Write.delete table (some cond)).body, region, r.cols))
    (htable : tableOf (trim (Write.delete table (some cond)).body) = some table)
    (hchars : ∀ c ∈ table, isTableChar c = true)
    (horder : orderBy (parsePkHint region).pk = r.order)
    (hdotted : '\u0130' ∉ (Write.delete table (some cond)).body)
    (hw : (Write.delete table (some cond)).WellFormed) :
    (Write.delete table (some cond)).ReadBack r ↔
      (Write.delete table (some cond)).Unambiguous := by
  obtain ⟨hne, htrim⟩ := hw.cond table [] cond (Or.inr rfl)
  have hbody := delete_body table cond
  rw [trim_where hbody hne htrim] at hparts htable
  refine (readBack_where hparts htable horder 0).trans ?_
  change _ ↔ ¬ " where ".toList <:+: "where ".toList ++ toLowerCase cond.text ∧ cond.strays = 0
  generalize hsql : (Write.delete table (some cond)).body = sql at *
  obtain ⟨x, hx⟩ : ∃ x, sql = "DELETE FROM ".toList ++ x := ⟨_, hsql.symm⟩
  have hpre : '\u0130' ∉ "DELETE FROM ".toList ++ table := by
    intro hmem
    apply hdotted
    rw [hbody]
    exact List.mem_append_left _ hmem
  have hcount : placeholders ("DELETE FROM ".toList ++ table) = 0 := by
    have hword : "DELETE FROM ".toList.count '?' = 0 := by decide
    have htab : table.count '?' = 0 := placeholders_table hchars
    rw [placeholders, List.count_append, hword, htab]
  have hbefore : decide ("delete".toList <+: toLowerCase sql) = true := by
    apply decide_eq_true
    rw [hx, lower_delete]
    exact ⟨" from ".toList ++ toLowerCase x, rfl⟩
  have hrec := recover_delete x r.cols table (parsePkHint region) (parseConflictHint region)
  rw [← hx] at hrec
  rw [hrec, byWhere_iff hbody hbefore hpre hne htrim, hcount]
  constructor
  · exact fun h => ⟨h.1, h.2.1⟩
  · exact fun h => ⟨h.1, h.2, Or.inr rfl⟩
theorem byWhere_error_iff {writeSql cols table order : List Char} :
    (∃ e, byWhere writeSql cols table order = .error e) ↔
      ¬ " where ".toList <:+: toLowerCase writeSql := by
  rw [← lastIndexOf_eq_none_iff]
  cases h : lastIndexOf " where ".toList (toLowerCase writeSql) with
  | none =>
    simp only [byWhere, h, iff_true]
    exact ⟨_, rfl⟩
  | some p => simp [byWhere_found h]

/-- Without a WHERE clause nothing is read back. -/
theorem readBack_updateAll {table : List Char} {sets : Clause}
    (hparts : returningParts ((Write.update table sets none).text r) =
      some (trim (Write.update table sets none).body, region, r.cols))
    (htable : tableOf (trim (Write.update table sets none).body) = some table)
    (hw : (Write.update table sets none).WellFormed) :
    (Write.update table sets none).ReadBack r ↔ (Write.update table sets none).Unambiguous := by
  refine (build_error_of_parts hparts htable).trans ?_
  change _ ↔ if "json_table(".toList <:+: toLowerCase (trim (Write.update table sets none).body) then
    updateBatchKey (trim (Write.update table sets none).body) = none
    else ¬ " where ".toList <:+: toLowerCase (trim (Write.update table sets none).body)
  obtain ⟨rest, b, htrim, -, -⟩ := trim_body hw
  change trim (Write.update table sets none).body = "UPDATE ".toList ++ rest at htrim
  generalize trim (Write.update table sets none).body = sql at *
  subst htrim
  split
  next hjson =>
    rcases recover_batch hjson r.cols table (parsePkHint region) (parseConflictHint region) with
      ⟨hkey, he⟩ | ⟨key, hkey, hok⟩
    · exact iff_of_true he hkey
    · rw [hkey, hok]
      exact iff_of_false nofun nofun
  next hjson =>
    rw [recover_update hjson]
    exact byWhere_error_iff

theorem space_not_lower {l : List Char} (h : ∀ c ∈ l, isSpace c = false) : ' ' ∉ toLowerCase l := by
  intro hmem
  obtain ⟨c, hc, hlower⟩ := List.mem_flatMap.mp hmem
  have hspace : c = ' ' := by
    rw [lowerChar] at hlower
    split at hlower
    next => exact absurd hlower (by decide)
    next =>
      split at hlower
      next => exact absurd hlower (by decide)
      next => exact eq_of_toLower_eq (List.mem_singleton.mp hlower).symm (by decide)
  have hno := h c hc
  rw [hspace] at hno
  exact absurd hno (by decide)

theorem no_where {t : List Char} (h : ' ' ∉ t) : ¬ " where ".toList <:+: "delete from ".toList ++ t := by
  have hconst : ¬ " where ".toList <:+: "delete from ".toList := by decide
  rintro ⟨u, v, heq⟩
  rcases List.append_eq_append_iff.mp heq with ⟨a, ha, -⟩ | ⟨a, ha, ht⟩
  · exact hconst ⟨u, a, ha.symm⟩
  · rcases List.eq_nil_or_concat a with rfl | ⟨a', c, rfl⟩
    · exact hconst ⟨u, [], by rw [List.append_nil, ha, List.append_nil]⟩
    · apply h
      have hsnoc : (u ++ " where".toList) ++ [' '] = ("delete from ".toList ++ a') ++ [c] := by
        rw [List.append_assoc, List.append_assoc, ← List.concat_eq_append (a := c)]
        exact ha
      have hc : ' ' = c := (List.cons.inj (List.append_inj_right' hsnoc rfl)).1
      rw [ht, List.concat_eq_append, ← hc]
      simp

theorem readBack_deleteAll {table : List Char}
    (hparts : returningParts ((Write.delete table none).text r) =
      some (trim (Write.delete table none).body, region, r.cols))
    (htable : tableOf (trim (Write.delete table none).body) = some table)
    (hchars : ∀ c ∈ table, isTableChar c = true) (hw : (Write.delete table none).WellFormed) :
    (Write.delete table none).ReadBack r := by
  refine (build_error_of_parts hparts htable).mpr ?_
  have hblank : ∀ c ∈ table, isSpace c = false := by
    intro c hc
    cases hspace : isSpace c with
    | false => rfl
    | true =>
      have hno := tableChar_not_space hspace
      rw [hchars c hc] at hno
      exact nomatch hno
  obtain ⟨rest, b, htrim, hb, heq⟩ := trim_body hw
  change rest ++ b = table ++ [] at heq
  change _ = "DELETE FROM ".toList ++ rest at htrim
  rw [List.append_nil] at heq
  have hrest : ∀ c ∈ rest, isSpace c = false := by
    intro c hc
    apply hblank
    rw [← heq]
    exact List.mem_append_left b hc
  rw [htrim, recover_delete, byWhere_error_iff, lower_delete]
  exact no_where (space_not_lower hrest)

end ReadBack

/-! ## Exactly when the outer statement is read -/

theorem readBack_iff {w : Write} {r : Returning} {region : List Char}
    (hparts : returningParts (w.text r) = some (trim w.body, region, r.cols))
    (htable : tableOf (trim w.body) = some w.table)
    (horder : orderBy (parsePkHint region).pk = r.order) (hdotted : '\u0130' ∉ w.body)
    (hw : w.WellFormed) : w.ReadBack r ↔ w.Unambiguous := by
  have hchars := tableOf_chars htable
  cases w with
  | insert ignore table rest => exact Iff.rfl
  | updateMany table rest => exact Iff.rfl
  | update table sets cond =>
    cases cond with
    | none => exact readBack_updateAll hparts htable hw
    | some cond => exact readBack_update hparts htable hchars horder hdotted hw
  | delete table cond =>
    cases cond with
    | none => exact iff_of_true (readBack_deleteAll hparts htable hchars hw) trivial
    | some cond => exact readBack_delete hparts htable hchars horder hdotted hw

theorem verb_found {w : Write} (hw : w.WellFormed) : w.verb <+: toLowerCase (trim w.body) := by
  obtain ⟨rest, -, htrim, -, -⟩ := trim_body hw
  have hverb : w.verb <+: toLowerCase w.opening := by
    cases w with
    | insert ignore table rest =>
      cases ignore with
      | false => exact (by decide : "insert".toList <+: toLowerCase "INSERT INTO ".toList)
      | true => exact (by decide : "insert".toList <+: toLowerCase "INSERT IGNORE INTO ".toList)
    | update table sets cond => exact (by decide : "update".toList <+: toLowerCase "UPDATE ".toList)
    | updateMany table rest => exact (by decide : "update".toList <+: toLowerCase "UPDATE ".toList)
    | delete table cond =>
      exact (by decide : "delete".toList <+: toLowerCase "DELETE FROM ".toList)
  rw [htrim, toLowerCase_append]
  exact hverb.trans (List.prefix_append _ _)

/-- What was written is read back as the outer statement exactly when no text in it is taken for
a hint, a clause or a parameter. -/
theorem write_read_iff {w : Write} {r : Returning} (hw : w.WellFormed) (hr : r.WellFormed) :
    Restored (w.bare r) r.pk r.conflict ∧ w.Recovered r ↔ w.Plain r := by
  constructor
  · rintro ⟨hrestored, hrec⟩
    obtain ⟨hbare, hadded⟩ := (restored_iff _ _ _).mp hrestored
    have hno : hasHint w.body = false := by rw [← hasHint_bare w hr, hbare]
    have hfields : ∀ d ∈ r.pk, '*' ∉ hintFields d r.conflict :=
      fun d hd => (hadded d hd (hasReturning_bare w r)).1
    obtain ⟨region, hparts⟩ := hrec.parts
    obtain ⟨hdotted, honce⟩ := plain_of_parts hr hno hfields hparts
    have hregion := parts_read hr hno hdotted honce hfields
    refine ⟨hno, hfields, hdotted, honce, tableOf_chars hrec.table, ?_⟩
    exact (readBack_iff hregion hrec.table (orderBy_hint hr) hdotted hw).mp hrec.readBack
  · intro h
    have hregion := parts_read hr h.hint h.dotted h.once h.fields
    have htable := (tableOf_body hw).mpr h.table
    constructor
    · apply (restored_iff _ _ _).mpr
      refine ⟨by rw [hasHint_bare w hr, h.hint], ?_⟩
      intro d hd _
      refine ⟨h.fields d hd, ?_⟩
      rw [Write.bare, List.reverse_append, List.reverse_append, List.append_assoc]
      exact stops_append (by simpa using hr.nonempty) hr.trimmed.2 _
    · exact ⟨⟨_, hregion⟩, htable, verb_found hw,
        (readBack_iff hregion htable (orderBy_hint hr) h.dotted hw).mpr h.unambiguous⟩

theorem nothing_read_iff (sql : List Char) :
    buildMysqlReselect sql = .ok none ↔ ¬ " returning ".toList <:+: toLowerCase sql := by
  rw [← lastIndexOf_eq_none_iff, buildMysqlReselect, returningParts]
  cases lastIndexOf " returning ".toList (toLowerCase sql) with
  | none => simp
  | some p =>
    simp only [Option.map_some, reduceCtorEq, iff_false]
    split
    next => exact nofun
    next => cases recover _ _ _ _ _ <;> simp [Except.map]

/-- The hint is taken off and added once, and what is extracted from a write is the outer
statement's, exactly on these texts. -/
theorem reselect_exact (sql : List Char) (pk : Option PrimaryKey) (conflict : Option String)
    (w : Write) (r : Returning) (hw : w.WellFormed) (hr : r.WellFormed) :
    (Restored sql pk conflict ↔ Strippable sql pk conflict) ∧
      (buildMysqlReselect sql = .ok none ↔ ¬ " returning ".toList <:+: toLowerCase sql) ∧
      (Restored (w.bare r) r.pk r.conflict ∧ w.Recovered r ↔ w.Plain r) :=
  ⟨restored_iff sql pk conflict, nothing_read_iff sql, write_read_iff hw hr⟩

/-- `DELETE FROM posts WHERE id = ?`, of which the `id` is returned. -/
theorem delete_post :
    let w := Write.delete "posts".toList (some [.text "id = ".toList, .slot ()])
    let r : Returning := ⟨"id".toList, some ⟨["id"], none⟩, none⟩
    Restored (w.bare r) r.pk r.conflict ∧ w.Recovered r := by
  intro w r
  have hname : HintName "id" := by
    refine ⟨by decide, ⟨?_, ?_⟩, ?_⟩
    · intro c hc
      obtain rfl : 'i' = c := Option.some_inj.mp hc
      decide
    · intro c hc
      obtain rfl : 'd' = c := Option.some_inj.mp hc
      decide
    · simp
  have hw : w.WellFormed := by
    refine ⟨⟨by decide, ?_⟩, ?_⟩
    · intro c hc
      obtain rfl : 'p' = c := Option.some_inj.mp hc
      decide
    · rintro table sets cond (h | h)
      · exact nomatch h
      · obtain rfl : [.text "id = ".toList, .slot ()] = cond :=
          Option.some_inj.mp (Write.delete.inj h).2
        refine ⟨by decide, ?_, ?_⟩
        · intro c hc
          obtain rfl : 'i' = c := Option.some_inj.mp hc
          decide
        · intro c hc
          obtain rfl : '?' = c := Option.some_inj.mp hc
          decide
  have hr : r.WellFormed := by
    refine ⟨by decide, hname.2.1, by decide, ?_⟩
    rintro pk hpk name hmem
    obtain rfl : (⟨["id"], none⟩ : PrimaryKey) = pk := Option.some_inj.mp hpk
    rw [List.mem_singleton.mp hmem]
    exact hname
  have hchars : "posts".toList.all isTableChar = true := by decide
  refine (reselect_exact [] none none w r hw hr).2.2.mpr ⟨by decide, ?_, by decide, by decide,
    List.all_eq_true.mp hchars, ?_⟩
  · rintro pk hpk
    obtain rfl : (⟨["id"], none⟩ : PrimaryKey) = pk := Option.some_inj.mp hpk
    decide
  · exact ⟨by decide, by decide⟩

/-- `UPDATE posts SET title = ? WHERE id IN (…)`, whose IN-list is a JSON table, is taken for a
batch update. -/
theorem in_list_update :
    let key := "id IN (SELECT JSON_UNQUOTE(v) FROM JSON_TABLE(".toList
    let w := Write.update "posts".toList [.text "title = ".toList, .slot ()]
      (some [.text key, .slot (), .text ", '$[*]' COLUMNS(v JSON PATH '$')) jt)".toList])
    let r : Returning := ⟨"id".toList, some ⟨["id"], none⟩, none⟩
    buildMysqlReselect (w.text r) = .error
      ("scp write(mysql): cannot parse the batch JOIN key of " ++
        "'UPDATE posts SET title = ? WHERE id IN (SELECT JSON_UNQUOTE(…'") ∧ ¬ w.Recovered r := by
  intro key w r
  have hbuild : buildMysqlReselect (w.text r) = .error
      ("scp write(mysql): cannot parse the batch JOIN key of " ++
        "'UPDATE posts SET title = ? WHERE id IN (SELECT JSON_UNQUOTE(…'") := by
    decide +kernel
  refine ⟨hbuild, ?_⟩
  intro h
  have hread : buildMysqlReselect (w.text r) = .ok _ := h.readBack
  rw [hbuild] at hread
  exact nomatch hread

end LiteDb.MysqlReturning
