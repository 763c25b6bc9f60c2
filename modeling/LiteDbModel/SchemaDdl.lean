import LiteDbModel.Lib.Keyed
import LiteDbModel.Lib.Nested
import LiteDbModel.CellTypes

/-!
# Column types read from CREATE TABLE texts

The reader finds the list between the first and the last parenthesis, cuts it at the outer
commas and takes from each piece a name and a type. Statements are given here by their
parts, so that the declared columns can be compared with the columns that are read.
-/

namespace LiteDb.SchemaDdl
set_option autoImplicit false
open CellTypes (isLineEnd)
open Scan
open Text (isSpace Stops stops_append stops_of_forall stops_dropWhile takeWhile_stop dropWhile_stop)

/-! ## The reader -/

/-- `[A-Za-z0-9_."`[\]]`. -/
def isNameChar (c : Char) : Bool :=
  isWordChar c || c = '.' || c = '"' || c = '\x60' || c = '[' || c = ']'

def isLetter (c : Char) : Bool := ('a' ≤ c && c ≤ 'z') || ('A' ≤ c && c ≤ 'Z')

def opensQuote (c : Char) : Bool := c = '"' || c = '\x60' || c = '['

def closesQuote (c : Char) : Bool := c = '"' || c = '\x60' || c = ']'

/-- A quote taken off the end. -/
def unquoteEnd (s : List Char) : List Char :=
  match s.reverse with
  | c :: r => if closesQuote c then r.reverse else s
  | [] => []

/-- `replace(/^["`[]|["`\]]$/g, '')`. -/
def unquote : List Char → List Char
  | [] => []
  | c :: s => if opensQuote c then unquoteEnd s else unquoteEnd (c :: s)

/-- `IF\s+NOT\s+EXISTS\s+`, taken off. -/
def dropIfNotExists (cs : List Char) : Option (List Char) :=
  (((((dropWord "if".toList cs).bind dropSpaces).bind (dropWord "not".toList)).bind dropSpaces).bind
    (dropWord "exists".toList)).bind dropSpaces

/-- `\s*;?\s*$`. -/
def endsStatement (tail : List Char) : Bool :=
  match tail.dropWhile isSpace with
  | [] => true
  | c :: r => c = ';' && r.all isSpace

/-- What stands before the last `)`, if the statement ends behind it. -/
def beforeLastParen (cs : List Char) : Option (List Char) :=
  match cs.reverse.dropWhile fun c => c ≠ ')' with
  | [] => none
  | _ :: r =>
    if endsStatement (cs.reverse.takeWhile fun c => c ≠ ')').reverse then some r.reverse else none

/-- The table's name as it is written and the list of columns, `m[1]` and `m[2]`. -/
def nameAndBody (cs : List Char) : Option (List Char × List Char) :=
  let name := cs.takeWhile isNameChar
  match (cs.drop name.length).dropWhile isSpace with
  | '(' :: rest => if name = [] then none else (beforeLastParen rest).map fun body => (name, body)
  | _ => none

/-- The match of `CREATE`. -/
def createTable (stmt : List Char) : Option (List Char × List Char) :=
  ((((dropWord "create".toList (stmt.dropWhile isSpace)).bind dropSpaces).bind
    (dropWord "table".toList)).bind dropSpaces).bind fun rest =>
      ((dropIfNotExists rest).bind nameAndBody).or (nameAndBody rest)

def constraintWords : List (List Char) :=
  ["primary".toList, "foreign".toList, "unique".toList, "check".toList, "constraint".toList,
    "key".toList, "index".toList]

/-- `TABLE_CONSTRAINT.test`. -/
def isTableConstraint (line : List Char) : Bool :=
  constraintWords.contains ((line.takeWhile isWordChar).map Char.toLower)

def weight (c : Char) : Int := if c = '(' then 1 else if c = ')' then -1 else 0

/-- The entries from a depth and a begun entry on. -/
def splitTopLevel : Int → List Char → List Char → List (List Char)
  | _, cur, [] => if trim cur = [] then [] else [cur]
  | depth, cur, ch :: body =>
    if ch = ',' ∧ depth + weight ch = 0 then cur :: splitTopLevel (depth + weight ch) [] body
    else splitTopLevel (depth + weight ch) (cur ++ [ch]) body

/-- `(?:\s*\([^)]*\))?` at the head: what it matches. -/
def typeArgs (cs : List Char) : List Char :=
  match cs.dropWhile isSpace with
  | '(' :: rest =>
    if ')' ∈ rest then
      cs.takeWhile isSpace ++ '(' :: ((rest.takeWhile fun c => c ≠ ')') ++ [')'])
    else []
  | _ => []

/-- `TYPE_CONTINUATION.test`. -/
def isContinuation (word : List Char) : Bool :=
  ["varying".toList, "precision".toList].contains (word.map Char.toLower)

/-- The type at the head of what follows a column's name. -/
def typeOf (rest : List Char) : Option (List Char) :=
  let word := rest.takeWhile isWordChar
  let sized := word ++ typeArgs (rest.drop word.length)
  let nextWord := (trim (rest.drop sized.length)).takeWhile isLetter
  if word = [] then none
  else if isContinuation nextWord then some (trim sized ++ ' ' :: nextWord)
  else some (trim sized)

def parseColumnDef (line : List Char) : Option (List Char × List Char) :=
  let name := line.takeWhile isNameChar
  match dropSpaces (line.drop name.length) with
  | none => none
  | some rest =>
    if name = [] ∨ rest.any isLineEnd then none
    else (typeOf (trim rest)).map fun sqlType => (unquote name, sqlType)

/-- The column that an entry of the list is read as. -/
def readEntry (entry : List Char) : Option (List Char × List Char) :=
  let line := trim entry
  if line = [] then none
  else if isTableConstraint line then none
  else parseColumnDef line

def columnsOf (body : List Char) : List (List Char × List Char) :=
  ((splitTopLevel 0 [] body).filterMap readEntry).foldl (fun cols p => Keyed.put p.1 p.2 cols) []

def parseSchemaColumnTypes (ddl : List (List Char)) :
    List (List Char × List (List Char × List Char)) :=
  (ddl.filterMap createTable).foldl
    (fun tables m => Keyed.put (unquote (trim m.1)) (columnsOf m.2) tables) []

/-! ## Characters and texts -/

theorem isSpace_of_nameChar {c : Char} (h : isNameChar c = true) : isSpace c = false := by
  apply Bool.eq_false_iff.mpr
  intro hs
  have hrange := space_range hs
  simp only [isNameChar, Bool.or_eq_true, decide_eq_true_eq] at h
  rcases h with ((((h | h) | h) | h) | h) | h
  · have := wordChar_range h
    omega
  all_goals subst h; revert hrange; decide

theorem nameChar_of_wordChar {c : Char} (h : isWordChar c = true) : isNameChar c = true := by
  simp [isNameChar, h]

theorem wordChar_of_letter {c : Char} (h : isLetter c = true) : isWordChar c = true := by
  simp only [isLetter, Bool.or_eq_true] at h
  simp only [isWordChar, Bool.or_eq_true]
  exact Or.inl (Or.inl h)

theorem isSpace_of_wordChar {c : Char} (h : isWordChar c = true) : isSpace c = false :=
  isSpace_of_nameChar (nameChar_of_wordChar h)


/-! ## The entries of the list -/

theorem readEntry_blank {entry : List Char} (h : trim entry = []) : readEntry entry = none := by
  rw [readEntry, if_pos h]

/-- The entries are the pieces between the outer commas; a blank one makes no column. -/
theorem entries_splitTopLevel (depth : Int) (cur body : List Char) :
    (splitTopLevel depth cur body).filterMap readEntry =
      (Nested.glue cur (Nested.pieces weight ',' depth body)).filterMap readEntry := by
  induction body generalizing depth cur with
  | nil =>
    rw [splitTopLevel, Nested.pieces, Nested.glue, List.append_nil]
    split
    next h => rw [List.filterMap_cons_none (readEntry_blank h)]
    next => rfl
  | cons ch body ih =>
    rw [splitTopLevel, Nested.pieces]
    split
    · rw [Nested.glue, List.append_nil]
      have hrest := ih (depth + weight ch) []
      rw [Nested.glue_nil (Nested.pieces_ne_nil _ _)] at hrest
      rw [List.filterMap_cons, List.filterMap_cons, hrest]
    · rw [ih, Nested.glue_glue]

theorem entries_body (body : List Char) :
    (splitTopLevel 0 [] body).filterMap readEntry =
      (Nested.pieces weight ',' 0 body).filterMap readEntry := by
  rw [entries_splitTopLevel, Nested.glue_nil (Nested.pieces_ne_nil _ _)]

/-! ## Statements by their parts -/

inductive Quote
  | double
  | backtick
  | bracket
deriving DecidableEq

def Quote.opening : Quote → Char
  | double => '"'
  | backtick => '\x60'
  | bracket => '['

def Quote.closing : Quote → Char
  | double => '"'
  | backtick => '\x60'
  | bracket => ']'

/-- A name with the quotes it is written in. -/
structure Name where
  quote : Option Quote
  id : List Char
deriving DecidableEq

/-- Inside quotes the closing one is written twice. -/
def doubled (q : Char) (id : List Char) : List Char := id.flatMap fun c => if c = q then [q, q] else [c]

def Name.text (name : Name) : List Char :=
  match name.quote with
  | none => name.id
  | some q => q.opening :: (doubled q.closing name.id ++ [q.closing])

/-- An unquoted name has no blank and no punctuation of the statement. -/
def Name.WellFormed (name : Name) : Prop :=
  name.quote = none → name.id ≠ [] ∧ ∀ c ∈ name.id, isSpace c = false ∧ opensQuote c = false ∧
    closesQuote c = false ∧ c ∉ ['(', ')', ',', ';', '\'']

instance (name : Name) : Decidable name.WellFormed :=
  decidable_of_iff (name.quote = none → name.id ≠ [] ∧ name.id.all fun c =>
      !isSpace c && !opensQuote c && !closesQuote c && c ∉ ['(', ')', ',', ';', '\''])
    (by simp [Name.WellFormed, and_assoc])

/-- A column's definition: its name, its type and what follows. -/
structure Column where
  lead : List Char
  name : Name
  gap : List Char
  sqlType : List Char
  clauses : List Char
deriving DecidableEq

def Column.text (c : Column) : List Char :=
  c.lead ++ (c.name.text ++ (c.gap ++ (c.sqlType ++ c.clauses)))

/-- What can follow a type: the word behind it is no part of it, nor is a parenthesis. -/
structure Follows (sqlType clauses : List Char) : Prop where
  apart : Stops isWordChar sqlType.reverse ∨ Stops isWordChar clauses
  paren : Stops (· = '(') (clauses.dropWhile isSpace)
  word : isContinuation ((clauses.dropWhile isSpace).takeWhile isLetter) = false

instance (p : Char → Bool) (l : List Char) : Decidable (Stops p l) :=
  match l with
  | [] => isTrue fun _ hc => nomatch hc
  | c :: _ => decidable_of_iff (p c = false)
      ⟨fun h _ hd => Option.some_inj.mp hd ▸ h, fun h => h c rfl⟩

instance (sqlType clauses : List Char) : Decidable (Follows sqlType clauses) :=
  decidable_of_iff ((Stops isWordChar sqlType.reverse ∨ Stops isWordChar clauses) ∧
      Stops (· = '(') (clauses.dropWhile isSpace) ∧
      isContinuation ((clauses.dropWhile isSpace).takeWhile isLetter) = false)
    ⟨fun h => ⟨h.1, h.2.1, h.2.2⟩, fun h => ⟨h.apart, h.paren, h.word⟩⟩

structure Column.WellFormed (c : Column) : Prop where
  lead : Blank c.lead
  gap : Blank c.gap
  name : c.name.WellFormed
  typed : Trimmed c.sqlType
  apart : c.gap = [] → c.name.quote ≠ none ∨ c.sqlType = []
  follows : Follows c.sqlType c.clauses

instance (c : Column) : Decidable c.WellFormed :=
  decidable_of_iff (c.lead.all isSpace = true ∧ c.gap.all isSpace = true ∧
      c.name.WellFormed ∧ (Stops isSpace c.sqlType ∧ Stops isSpace c.sqlType.reverse) ∧
      (c.gap = [] → c.name.quote ≠ none ∨ c.sqlType = []) ∧ Follows c.sqlType c.clauses)
    ⟨fun h => ⟨List.all_eq_true.mp h.1, List.all_eq_true.mp h.2.1, h.2.2.1, h.2.2.2.1, h.2.2.2.2.1,
      h.2.2.2.2.2⟩,
      fun h => ⟨List.all_eq_true.mpr h.lead, List.all_eq_true.mpr h.gap, h.name, h.typed, h.apart,
        h.follows⟩⟩

inductive Item
  | column (c : Column)
  | constraint (text : List Char)
deriving DecidableEq

def Item.text : Item → List Char
  | column c => c.text
  | constraint text => text

def Item.column? : Item → Option Column
  | column c => some c
  | constraint _ => none

inductive Guard : List Char → Prop
  | absent : Guard []
  | present {w₁ b₁ w₂ b₂ w₃ b₃ : List Char} (h₁ : w₁.map Char.toLower = "if".toList)
      (h₂ : w₂.map Char.toLower = "not".toList) (h₃ : w₃.map Char.toLower = "exists".toList)
      (hb₁ : b₁ ≠ [] ∧ Blank b₁) (hb₂ : b₂ ≠ [] ∧ Blank b₂) (hb₃ : b₃ ≠ [] ∧ Blank b₃) :
      Guard (w₁ ++ (b₁ ++ (w₂ ++ (b₂ ++ (w₃ ++ b₃)))))

/-- `CREATE TABLE`, with or without `IF NOT EXISTS`, in any case. -/
inductive Header : List Char → Prop
  | intro {b w₁ b₁ w₂ b₂ guard : List Char} (hb : Blank b)
      (h₁ : w₁.map Char.toLower = "create".toList) (hb₁ : b₁ ≠ [] ∧ Blank b₁)
      (h₂ : w₂.map Char.toLower = "table".toList) (hb₂ : b₂ ≠ [] ∧ Blank b₂)
      (hguard : Guard guard) : Header (b ++ (w₁ ++ (b₁ ++ (w₂ ++ (b₂ ++ guard)))))

structure CreateTable where
  header : List Char
  name : Name
  gap : List Char
  items : List Item
  tail : List Char
deriving DecidableEq

def CreateTable.body (s : CreateTable) : List Char := [','].intercalate (s.items.map Item.text)

def CreateTable.text (s : CreateTable) : List Char :=
  s.header ++ (s.name.text ++ (s.gap ++ '(' :: (s.body ++ ')' :: s.tail)))

def CreateTable.columnDefs (s : CreateTable) : List Column := s.items.filterMap Item.column?

/-- The columns that the statement declares, with their types. -/
def CreateTable.columns (s : CreateTable) : List (List Char × List Char) :=
  s.columnDefs.map fun c => (c.name.id, c.sqlType)

structure CreateTable.WellFormed (s : CreateTable) : Prop where
  header : Header s.header
  name : s.name.WellFormed
  gap : Blank s.gap
  columns : ∀ c ∈ s.columnDefs, c.WellFormed
  distinct : (s.columns.map Prod.fst).Nodup

/-- The table is read with each declared column once and nothing else. -/
def Faithful (s : CreateTable) (tables : List (List Char × List (List Char × List Char))) : Prop :=
  ∃ cols, tables = [(s.name.id, cols)] ∧ cols.Perm s.columns

/-! ## Reading a type -/

inductive Args : List Char → Prop
  | absent : Args []
  | present {b inner : List Char} (hb : Blank b) (h : ')' ∉ inner) :
      Args (b ++ '(' :: (inner ++ [')']))

inductive Continued : List Char → Prop
  | absent : Continued []
  | present {word : List Char} (h : isContinuation word = true) : Continued (' ' :: word)

/-- One word, its arguments, and `VARYING` or `PRECISION` behind a blank. -/
inductive PlainType : List Char → Prop
  | intro {word args more : List Char} (hne : word ≠ []) (hword : ∀ c ∈ word, isWordChar c = true)
      (hargs : Args args) (hmore : Continued more) : PlainType (word ++ (args ++ more))

theorem letter_of_toLower {c : Char} (h : isLetter c.toLower = true) : isLetter c = true := by
  rw [Char.toLower] at h
  split at h
  next hc =>
    simp only [isLetter, Bool.or_eq_true, Bool.and_eq_true, decide_eq_true_eq]
    exact Or.inr hc
  next => exact h

theorem continuation_letters {word : List Char} (h : isContinuation word = true) :
    word ≠ [] ∧ ∀ c ∈ word, isLetter c = true := by
  rw [isContinuation, List.contains_iff_mem, List.mem_pair] at h
  have hlower : word.map Char.toLower ≠ [] ∧ ∀ d ∈ word.map Char.toLower, isLetter d = true := by
    rcases h with h | h <;> rw [h] <;> simp [isLetter]
  constructor
  · intro hnil
    exact hlower.1 (by rw [hnil]; rfl)
  · intro c hc
    exact letter_of_toLower (hlower.2 c.toLower (List.mem_map_of_mem hc))

theorem Follows.left {sqlType r s : List Char} (h : Follows sqlType (r ++ s))
    (hs : Stops isLetter s) : Follows sqlType r := by
  rcases hr : r.dropWhile isSpace with _ | ⟨c, t⟩
  · refine ⟨?_, ?_, ?_⟩
    · refine h.apart.imp_right fun hstop => ?_
      intro c hc
      apply hstop c
      rw [List.head?_append, Option.mem_def.mp hc]
      rfl
    · rw [hr]
      exact fun c hc => nomatch hc
    · rw [hr]
      rfl
  · have happ : (r ++ s).dropWhile isSpace = c :: t ++ s := by
      rw [List.dropWhile_append, hr]
      rfl
    have hparen := h.paren
    have hword := h.word
    rw [happ] at hparen hword
    refine ⟨?_, ?_, ?_⟩
    · refine h.apart.imp_right fun hstop => ?_
      intro d hd
      apply hstop d
      rw [List.head?_append, Option.mem_def.mp hd]
      rfl
    · rw [hr]
      exact hparen
    · rw [hr]
      rw [List.takeWhile_append] at hword
      split at hword
      next hlen =>
        have hnil : s.takeWhile isLetter = [] := by
          cases s with
          | nil => rfl
          | cons d s => exact List.takeWhile_cons_of_neg (by simp [hs d rfl])
        rw [hnil, List.append_nil] at hword
        rwa [List.takeWhile_eq_self_iff.mpr]
        intro d hd
        have heq : (c :: t).takeWhile isLetter = c :: t :=
          (List.takeWhile_prefix isLetter).eq_of_length hlen
        rw [← heq] at hd
        exact List.mem_takeWhile_imp hd
      next => exact hword

theorem args_typeArgs (cs : List Char) : Args (typeArgs cs) := by
  rw [typeArgs]
  split
  · split
    next rest _ _ =>
      refine Args.present (fun c hc => List.mem_takeWhile_imp hc) ?_
      intro hmem
      have := List.mem_takeWhile_imp hmem
      simp at this
    next => exact Args.absent
  · exact Args.absent

theorem typeArgs_append {args rest : List Char} (h : Args args)
    (hrest : args = [] → Stops (· = '(') (rest.dropWhile isSpace)) :
    typeArgs (args ++ rest) = args := by
  cases h with
  | absent =>
    have hstop := hrest rfl
    rw [List.nil_append, typeArgs]
    split
    next r hr =>
      rw [hr] at hstop
      exact absurd (hstop '(' rfl) (by decide)
    next => rfl
  | @present b inner hb hinner =>
    have hstop : Stops isSpace ('(' :: (inner ++ [')']) ++ rest) := by
      intro c hc
      obtain rfl : '(' = c := Option.some_inj.mp hc
      decide
    have htake : (b ++ '(' :: (inner ++ [')']) ++ rest).takeWhile isSpace = b := by
      rw [List.append_assoc, takeWhile_stop hb hstop]
    have hdrop : (b ++ '(' :: (inner ++ [')']) ++ rest).dropWhile isSpace =
        '(' :: (inner ++ (')' :: rest)) := by
      rw [List.append_assoc, dropWhile_stop hb hstop, List.cons_append, List.append_assoc]
      rfl
    have hinside : (inner ++ ')' :: rest).takeWhile (fun c => c ≠ ')') = inner := by
      apply takeWhile_stop
      · intro c hc
        simp only [ne_eq, decide_not, Bool.not_eq_true', decide_eq_false_iff_not]
        rintro rfl
        exact hinner hc
      · intro c hc
        obtain rfl : ')' = c := Option.some_inj.mp hc
        decide
    rw [typeArgs, hdrop, htake]
    simp only [hinside]
    rw [if_pos (by simp)]

theorem trimmed_sized {word args : List Char} (hne : word ≠ [])
    (hword : ∀ c ∈ word, isWordChar c = true) (hargs : Args args) : Trimmed (word ++ args) := by
  have hback : ∀ c ∈ word.reverse, isSpace c = false := fun c hc =>
    isSpace_of_wordChar (hword c (List.mem_reverse.mp hc))
  constructor
  · exact stops_append hne (stops_of_forall fun c hc => isSpace_of_wordChar (hword c hc)) args
  · cases hargs with
    | absent =>
      rw [List.append_nil]
      exact stops_of_forall hback
    | present hb hinner =>
      intro c hc
      simp only [List.reverse_append, List.reverse_cons, List.append_assoc, List.reverse_nil,
        List.nil_append, List.cons_append, List.head?_cons, Option.mem_def,
        Option.some_inj] at hc
      rw [← hc]
      decide

theorem plainType_of_typeOf {rest sqlType : List Char} (h : typeOf rest = some sqlType) :
    PlainType sqlType := by
  rw [typeOf] at h
  split at h
  next => exact nomatch h
  next hne =>
    have hword : ∀ c ∈ rest.takeWhile isWordChar, isWordChar c = true :=
      fun c hc => List.mem_takeWhile_imp hc
    have hargs := args_typeArgs (rest.drop (rest.takeWhile isWordChar).length)
    rw [trim_trimmed (trimmed_sized hne hword hargs)] at h
    split at h
    next hcont =>
      rw [← Option.some_inj.mp h, List.append_assoc]
      exact PlainType.intro hne hword hargs (Continued.present hcont)
    next =>
      rw [← Option.some_inj.mp h, ← List.append_nil (_ ++ _), List.append_assoc]
      exact PlainType.intro hne hword hargs Continued.absent

theorem PlainType.head {sqlType : List Char} (h : PlainType sqlType) :
    ∃ c r, sqlType = c :: r ∧ isWordChar c = true := by
  cases h with
  | @intro word args more hne hword hargs hmore =>
    obtain ⟨c, w, rfl⟩ := List.exists_cons_of_ne_nil hne
    exact ⟨c, _, rfl, hword c List.mem_cons_self⟩

theorem takeWhile_trim {p : Char → Bool} (hp : ∀ c, p c = true → isSpace c = false)
    (l : List Char) : (trim l).takeWhile p = (l.dropWhile isSpace).takeWhile p := by
  obtain ⟨b, b', hb, hb', htrim, hl⟩ := exists_trim l
  have hstop : Stops p b' := stops_of_forall fun c hc => by
    by_contra hc'
    have := hp c (by simpa using hc')
    rw [hb' c hc] at this
    exact nomatch this
  generalize trim l = t at *
  subst hl
  rw [List.dropWhile_append_of_pos hb]
  cases t with
  | nil =>
    have hnil : ([] ++ b').dropWhile isSpace = [] := List.dropWhile_eq_nil_iff.mpr hb'
    rw [hnil]
  | cons c t =>
    rw [List.cons_append, List.dropWhile_cons_of_neg (by simp [htrim.1 c rfl]), ← List.cons_append,
      List.takeWhile_append]
    split
    next hlen =>
      have heq : (c :: t).takeWhile p = c :: t := (List.takeWhile_prefix p).eq_of_length hlen
      have hnil : b'.takeWhile p = [] := by
        cases b' with
        | nil => rfl
        | cons d b' => exact List.takeWhile_cons_of_neg (by simp [hstop d rfl])
      rw [hnil, List.append_nil, heq]
    next => rfl

theorem stops_args {args rest : List Char} (h : Args args)
    (hrest : args = [] → Stops isWordChar rest) : Stops isWordChar (args ++ rest) := by
  cases h with
  | absent => exact hrest rfl
  | @present b inner hb hinner =>
    intro c hc
    rcases b with _ | ⟨d, b⟩
    · obtain rfl : '(' = c := Option.some_inj.mp hc
      decide
    · obtain rfl : d = c := Option.some_inj.mp hc
      by_contra hword
      have hspace := hb d List.mem_cons_self
      rw [isSpace_of_wordChar (by simpa using hword)] at hspace
      exact nomatch hspace

/-- A plain type is read back whatever follows it. -/
theorem typeOf_plain {sqlType r : List Char} (h : PlainType sqlType) (hf : Follows sqlType r) :
    typeOf (sqlType ++ r) = some sqlType := by
  cases h with
  | @intro word args more hne hword hargs hmore =>
    have hmore' : args = [] → Stops (· = '(') ((more ++ r).dropWhile isSpace) ∧
        Stops isWordChar (more ++ r) := by
      rintro rfl
      cases hmore with
      | absent =>
        refine ⟨hf.paren, ?_⟩
        rcases hf.apart with hback | hr
        · obtain ⟨c, w, hrev⟩ := List.exists_cons_of_ne_nil (List.reverse_ne_nil_iff.mpr hne)
          rw [List.append_nil, List.append_nil, hrev] at hback
          have hc : c ∈ word := List.mem_reverse.mp (hrev ▸ List.mem_cons_self)
          have hfalse := hback c rfl
          rw [hword c hc] at hfalse
          exact nomatch hfalse
        · exact hr
      | @present k hk =>
        obtain ⟨hkne, hletters⟩ := continuation_letters hk
        obtain ⟨c, w, rfl⟩ := List.exists_cons_of_ne_nil hkne
        have hc := wordChar_of_letter (hletters c List.mem_cons_self)
        constructor
        · rw [List.cons_append, List.dropWhile_cons_of_pos (by decide), List.cons_append,
            List.dropWhile_cons_of_neg (by simp [isSpace_of_wordChar hc])]
          intro d hd
          obtain rfl : c = d := Option.some_inj.mp hd
          by_contra hparen
          have heq : c = '(' := by simpa using hparen
          rw [heq] at hc
          exact absurd hc (by decide)
        · intro d hd
          obtain rfl : ' ' = d := Option.some_inj.mp hd
          decide
    have htext : word ++ (args ++ more) ++ r = word ++ (args ++ (more ++ r)) := by
      simp only [List.append_assoc]
    have htake : (word ++ (args ++ (more ++ r))).takeWhile isWordChar = word :=
      takeWhile_stop hword (stops_args hargs fun hnil => (hmore' hnil).2)
    have hargs' : typeArgs (args ++ (more ++ r)) = args :=
      typeArgs_append hargs fun hnil => (hmore' hnil).1
    have hdrop : (word ++ (args ++ (more ++ r))).drop (word ++ args).length = more ++ r := by
      rw [← List.append_assoc, List.drop_left]
    have hnext : (trim (more ++ r)).takeWhile isLetter = more.drop 1 ∧
        isContinuation (more.drop 1) = true ∧ more = ' ' :: more.drop 1 ∨
        isContinuation ((trim (more ++ r)).takeWhile isLetter) = false ∧ more = [] := by
      rw [takeWhile_trim fun c hc => isSpace_of_wordChar (wordChar_of_letter hc)]
      cases hmore with
      | absent =>
        right
        exact ⟨hf.word, rfl⟩
      | @present k hk =>
        left
        obtain ⟨hkne, hletters⟩ := continuation_letters hk
        have hr : Stops isLetter r := by
          rcases hf.apart with hback | hr
          · obtain ⟨c, w, hrev⟩ := List.exists_cons_of_ne_nil (List.reverse_ne_nil_iff.mpr hkne)
            have hc : c ∈ k := List.mem_reverse.mp (hrev ▸ List.mem_cons_self)
            have hfalse := hback c (by simp [hrev])
            rw [wordChar_of_letter (hletters c hc)] at hfalse
            exact nomatch hfalse
          · intro d hd
            by_contra hletter
            have hfalse := hr d hd
            rw [wordChar_of_letter (by simpa using hletter)] at hfalse
            exact nomatch hfalse
        refine ⟨?_, hk, rfl⟩
        obtain ⟨c, w, rfl⟩ := List.exists_cons_of_ne_nil hkne
        have hc := isSpace_of_wordChar (wordChar_of_letter (hletters c List.mem_cons_self))
        rw [List.cons_append, List.dropWhile_cons_of_pos (by decide), List.cons_append,
          List.dropWhile_cons_of_neg (by simp [hc]), ← List.cons_append]
        exact takeWhile_stop hletters hr
    rw [htext, typeOf, htake, List.drop_left, hargs', hdrop,
      trim_trimmed (trimmed_sized hne hword hargs)]
    rw [if_neg hne]
    rcases hnext with ⟨hnext, hcont, hmore⟩ | ⟨hcont, hmore⟩
    · rw [hnext, if_pos hcont, List.append_assoc, ← hmore]
    · rw [if_neg (by simp [hcont]), hmore, List.append_nil]

/-! ## Reading a column -/

theorem length_doubled (q : Char) (id : List Char) :
    (doubled q id).length = id.length + id.count q := by
  induction id with
  | nil => rfl
  | cons c id ih =>
    rw [doubled] at ih
    rw [doubled, List.flatMap_cons, List.length_append, ih, List.length_cons]
    by_cases hc : c = q
    · rw [if_pos hc, hc, List.count_cons_self]
      simp only [List.length_cons, List.length_nil]
      omega
    · rw [if_neg hc, List.count_cons_of_ne hc]
      simp only [List.length_cons, List.length_nil]
      omega

theorem doubled_eq_iff {q : Char} {id : List Char} : doubled q id = id ↔ q ∉ id := by
  constructor
  · intro h
    have hlen := length_doubled q id
    rw [h] at hlen
    exact List.count_eq_zero.mp (by omega)
  · intro h
    rw [doubled, List.flatMap_congr (g := fun c => [c]) fun c hc => ?_]
    · exact List.flatMap_singleton' id
    · rw [if_neg fun heq : c = q => h (heq ▸ hc)]

theorem mem_doubled {q c : Char} {id : List Char} (h : c ∈ doubled q id) : c ∈ id := by
  obtain ⟨d, hd, hc⟩ := List.mem_flatMap.mp h
  split at hc
  next hq =>
    have : c = q := by simpa using hc
    rw [this, ← hq]
    exact hd
  next => rwa [List.mem_singleton.mp hc]

theorem mem_doubled_of_mem {q c : Char} {id : List Char} (h : c ∈ id) : c ∈ doubled q id := by
  refine List.mem_flatMap.mpr ⟨c, h, ?_⟩
  split <;> simp_all

theorem unquoteEnd_sublist (s : List Char) : (unquoteEnd s).Sublist s ∧
    s.length ≤ (unquoteEnd s).length + 1 := by
  rw [unquoteEnd]
  split
  next c r h =>
    have hs : s = r.reverse ++ [c] := by
      rw [← List.reverse_reverse s, h, List.reverse_cons]
    split
    · rw [hs]
      exact ⟨List.sublist_append_left _ _, by simp⟩
    · exact ⟨List.Sublist.refl s, by omega⟩
  next h =>
    rw [List.reverse_eq_nil_iff] at h
    rw [h]
    exact ⟨List.Sublist.refl [], by simp⟩

theorem unquote_sublist (s : List Char) : (unquote s).Sublist s ∧
    s.length ≤ (unquote s).length + 2 := by
  cases s with
  | nil => exact ⟨List.Sublist.refl [], by simp⟩
  | cons c s =>
    rw [unquote]
    split
    · obtain ⟨hsub, hlen⟩ := unquoteEnd_sublist s
      exact ⟨hsub.cons c, by rw [List.length_cons]; omega⟩
    · obtain ⟨hsub, hlen⟩ := unquoteEnd_sublist (c :: s)
      exact ⟨hsub, by omega⟩

theorem quote_nameChar (q : Quote) : isNameChar q.opening = true ∧ isNameChar q.closing = true := by
  cases q <;> decide

/-- The characters are those of a name, and the closing quote is not among them. -/
structure Name.Plain (name : Name) : Prop where
  chars : ∀ c ∈ name.id, isNameChar c = true
  quote : ∀ q, name.quote = some q → q.closing ∉ name.id

theorem Name.text_chars_iff (name : Name) :
    (∀ c ∈ name.text, isNameChar c = true) ↔ ∀ c ∈ name.id, isNameChar c = true := by
  rw [Name.text]
  cases name.quote with
  | none => exact Iff.rfl
  | some q =>
    have hq := quote_nameChar q
    constructor
    · intro h c hc
      apply h c
      apply List.mem_cons_of_mem
      exact List.mem_append_left _ (mem_doubled_of_mem hc)
    · intro h c hc
      rcases List.mem_cons.mp hc with rfl | hc
      · exact hq.1
      · rcases List.mem_append.mp hc with hc | hc
        · exact h c (mem_doubled hc)
        · rw [List.mem_singleton.mp hc]
          exact hq.2

theorem unquote_text_iff {name : Name} (hwf : name.WellFormed) :
    unquote name.text = name.id ↔ ∀ q, name.quote = some q → q.closing ∉ name.id := by
  rw [Name.text]
  cases hquote : name.quote with
  | none =>
    refine iff_of_true ?_ fun q hq => nomatch hq
    obtain ⟨hne, hchars⟩ := hwf hquote
    obtain ⟨c, s, hid⟩ := List.exists_cons_of_ne_nil hne
    have hend : unquoteEnd name.id = name.id := by
      rw [unquoteEnd]
      split
      next d r hrev =>
        have hd : d ∈ name.id := List.mem_reverse.mp (hrev ▸ List.mem_cons_self)
        rw [if_neg (by simp [(hchars d hd).2.2.1])]
      next hrev =>
        rw [List.reverse_eq_nil_iff] at hrev
        exact hrev.symm
    have hc : c ∈ name.id := hid ▸ List.mem_cons_self
    rw [hid] at hend ⊢
    rw [unquote, if_neg (by simp [(hchars c hc).2.1])]
    exact hend
  | some q =>
    have hopen : opensQuote q.opening = true := by cases q <;> decide
    have hclose : closesQuote q.closing = true := by cases q <;> decide
    have hend : unquote (q.opening :: (doubled q.closing name.id ++ [q.closing])) =
        doubled q.closing name.id := by
      rw [unquote, if_pos hopen, unquoteEnd, List.reverse_append]
      simp only [List.reverse_cons, List.reverse_nil, List.nil_append, List.cons_append]
      rw [if_pos hclose, List.reverse_reverse]
    rw [hend, doubled_eq_iff]
    constructor
    · intro h q' hq'
      obtain rfl := Option.some_inj.mp hq'
      exact h
    · intro h
      exact h q rfl

theorem Name.text_solid {name : Name} (hwf : name.WellFormed) :
    name.text ≠ [] ∧ Stops isSpace name.text := by
  rw [Name.text]
  cases hquote : name.quote with
  | none =>
    obtain ⟨hne, hchars⟩ := hwf hquote
    exact ⟨hne, stops_of_forall fun c hc => (hchars c hc).1⟩
  | some q =>
    refine ⟨List.cons_ne_nil _ _, ?_⟩
    intro c hc
    obtain rfl : q.opening = c := Option.some_inj.mp hc
    exact isSpace_of_nameChar (quote_nameChar q).1

theorem length_text (name : Name) :
    name.quote = none ∧ name.text = name.id ∨ name.id.length + 2 ≤ name.text.length := by
  rw [Name.text]
  cases hquote : name.quote with
  | none => exact Or.inl ⟨rfl, rfl⟩
  | some q =>
    right
    have hlen := length_doubled q.closing name.id
    simp only [List.length_cons, List.length_append, List.length_nil]
    omega

theorem parseColumnDef_some {line : List Char} {n t : List Char}
    (h : parseColumnDef line = some (n, t)) :
    n = unquote (line.takeWhile isNameChar) ∧ PlainType t := by
  rw [parseColumnDef] at h
  split at h
  · exact nomatch h
  · split at h
    · exact nomatch h
    · obtain ⟨t', ht', heq⟩ := Option.map_eq_some_iff.mp h
      rw [← (Prod.mk.inj heq).1, ← (Prod.mk.inj heq).2]
      exact ⟨rfl, plainType_of_typeOf ht'⟩

theorem readEntry_some {entry : List Char} {n t : List Char} (h : readEntry entry = some (n, t)) :
    isTableConstraint (trim entry) = false ∧ parseColumnDef (trim entry) = some (n, t) := by
  rw [readEntry] at h
  split at h
  · exact nomatch h
  · split at h
    · exact nomatch h
    next hc => exact ⟨by simpa using hc, h⟩

theorem isTableConstraint_append {l r : List Char} (hr : Stops isWordChar r) :
    isTableConstraint (l ++ r) = isTableConstraint l := by
  rw [isTableConstraint, isTableConstraint, List.takeWhile_append]
  split
  next hlen =>
    have heq : l.takeWhile isWordChar = l := (List.takeWhile_prefix isWordChar).eq_of_length hlen
    have hnil : r.takeWhile isWordChar = [] := by
      cases r with
      | nil => rfl
      | cons d r => exact List.takeWhile_cons_of_neg (by simp [hr d rfl])
    rw [hnil, List.append_nil, heq]
  next => rfl

/-- What has to hold for a name and a type to be read from a line. -/
structure Readable (c : Column) (clause : List Char) : Prop where
  name : c.name.Plain
  word : isTableConstraint c.name.text = false
  gap : c.gap ≠ []
  typed : PlainType c.sqlType
  line : ∀ d ∈ trim (c.sqlType ++ clause), isLineEnd d = false

/-- An entry that holds a column up to the end of its type declares it exactly then. -/
theorem readEntry_column_iff {c : Column} (hwf : c.WellFormed) {clause : List Char}
    (hf : Follows c.sqlType clause) :
    readEntry (c.lead ++ (c.name.text ++ (c.gap ++ (c.sqlType ++ clause)))) =
      some (c.name.id, c.sqlType) ↔ Readable c clause := by
  obtain ⟨r, b, hclause, hb, hr⟩ := exists_trimEnd clause
  obtain ⟨hname, hsolid⟩ := Name.text_solid hwf.name
  have hstop : ∀ {p : Char → Bool}, (∀ d, p d = true → isSpace d = false) → c.gap ≠ [] →
      ∀ rest, Stops p (c.gap ++ rest) := by
    intro p hp hgap rest
    refine stops_append hgap (stops_of_forall fun d hd => ?_) rest
    by_contra hpd
    have hspace := hp d (by simpa using hpd)
    rw [hwf.gap d hd] at hspace
    exact nomatch hspace
  -- the line and what is read from it, for a column with a type
  have hline : PlainType c.sqlType → Stops isSpace (c.sqlType ++ r) ∧
      trim (c.sqlType ++ clause) = c.sqlType ++ r ∧ trim (c.sqlType ++ r) = c.sqlType ++ r ∧
      trim (c.lead ++ (c.name.text ++ (c.gap ++ (c.sqlType ++ clause)))) =
        c.name.text ++ (c.gap ++ (c.sqlType ++ r)) := by
    intro htyped
    obtain ⟨d, t, htype, hd⟩ := htyped.head
    have hne : c.sqlType ≠ [] := by
      rw [htype]
      exact List.cons_ne_nil d t
    have hback : Stops isSpace (c.sqlType ++ r).reverse := by
      rw [List.reverse_append]
      rcases eq_or_ne r.reverse [] with hnil | hsome
      · rw [hnil]
        exact hwf.typed.2
      · exact stops_append hsome hr _
    have hfront : Stops isSpace (c.sqlType ++ r) := stops_append hne hwf.typed.1 r
    have htrim : Trimmed (c.sqlType ++ r) := ⟨hfront, hback⟩
    have hwhole : Trimmed (c.name.text ++ (c.gap ++ (c.sqlType ++ r))) := by
      refine ⟨stops_append hname hsolid _, ?_⟩
      rw [List.reverse_append, List.reverse_append]
      rw [List.append_assoc]
      refine stops_append ?_ hback _
      intro hnil
      exact hne (List.append_eq_nil_iff.mp (List.reverse_eq_nil_iff.mp hnil)).1
    refine ⟨hfront, ?_, trim_trimmed htrim, ?_⟩
    · rw [hclause, ← List.append_assoc]
      exact trim_blank (b := []) (fun _ hc => nomatch hc) hb htrim
    · rw [hclause]
      have hassoc : c.name.text ++ (c.gap ++ (c.sqlType ++ (r ++ b))) =
          c.name.text ++ (c.gap ++ (c.sqlType ++ r)) ++ b := by
        simp only [List.append_assoc]
      rw [hassoc]
      exact trim_blank hwf.lead hb hwhole
  constructor
  · intro h
    obtain ⟨hword, hparse⟩ := readEntry_some h
    obtain ⟨hid, htyped⟩ := parseColumnDef_some hparse
    obtain ⟨hfront, htrim, htrim', hlineEq⟩ := hline htyped
    rw [hlineEq] at hword hparse hid
    have hchars : ∀ d ∈ c.name.id, isNameChar d = true := by
      intro d hd
      rw [hid] at hd
      exact List.mem_takeWhile_imp ((unquote_sublist _).1.subset hd)
    have htext := (Name.text_chars_iff c.name).mpr hchars
    have hgap : c.gap ≠ [] := by
      intro hnil
      -- the name would run on into the type
      have htake : (c.name.text ++ (c.gap ++ (c.sqlType ++ r))).takeWhile isNameChar =
          c.name.text ++ (c.sqlType ++ r).takeWhile isNameChar := by
        rw [hnil, List.nil_append, List.takeWhile_append_of_pos htext]
      obtain ⟨d, t, htype, hd⟩ := htyped.head
      have hpos : 1 ≤ ((c.sqlType ++ r).takeWhile isNameChar).length := by
        rw [htype, List.cons_append, List.takeWhile_cons_of_pos (nameChar_of_wordChar hd)]
        simp
      have hlen := (unquote_sublist ((c.name.text ++ (c.gap ++ (c.sqlType ++ r))).takeWhile
        isNameChar)).2
      rw [← hid, htake, List.length_append] at hlen
      rcases length_text c.name with ⟨hquote, -⟩ | hquoted
      · rcases hwf.apart hnil with hquote' | hnone
        · exact hquote' hquote
        · rw [hnone] at htype
          exact nomatch htype
      · omega
    have htake : (c.name.text ++ (c.gap ++ (c.sqlType ++ r))).takeWhile isNameChar =
        c.name.text := takeWhile_stop htext (hstop (fun d => isSpace_of_nameChar) hgap _)
    refine ⟨⟨hchars, ?_⟩, ?_, hgap, htyped, ?_⟩
    · rw [htake] at hid
      exact (unquote_text_iff hwf.name).mp hid.symm
    · rwa [isTableConstraint_append (hstop (fun d => isSpace_of_wordChar) hgap _)] at hword
    · rw [parseColumnDef, htake, List.drop_left, dropSpaces_append hgap hwf.gap hfront] at hparse
      simp only at hparse
      split at hparse
      next => exact nomatch hparse
      next hno =>
        rw [htrim]
        intro d hd
        by_contra hend
        exact hno (Or.inr (List.any_eq_true.mpr ⟨d, hd, by simpa using hend⟩))
  · intro h
    obtain ⟨hfront, htrim, htrim', hlineEq⟩ := hline h.typed
    have hgap := h.gap
    have htext := (Name.text_chars_iff c.name).mpr h.name.chars
    have htake : (c.name.text ++ (c.gap ++ (c.sqlType ++ r))).takeWhile isNameChar =
        c.name.text := takeWhile_stop htext (hstop (fun d => isSpace_of_nameChar) hgap _)
    have hword : isTableConstraint (c.name.text ++ (c.gap ++ (c.sqlType ++ r))) = false := by
      rw [isTableConstraint_append (hstop (fun d => isSpace_of_wordChar) hgap _)]
      exact h.word
    have hends : (c.sqlType ++ r).any isLineEnd = false := by
      rw [Bool.eq_false_iff]
      intro hany
      obtain ⟨d, hd, hend⟩ := List.any_eq_true.mp hany
      have hfalse := h.line d (htrim ▸ hd)
      rw [hend] at hfalse
      exact nomatch hfalse
    have hfollows : Follows c.sqlType r := by
      rw [hclause] at hf
      refine hf.left (stops_of_forall fun d hd => ?_)
      by_contra hletter
      have hspace := isSpace_of_wordChar (wordChar_of_letter (by simpa using hletter))
      rw [hb d hd] at hspace
      exact nomatch hspace
    rw [readEntry, hlineEq]
    simp only [List.append_eq_nil_iff, hname, false_and, if_false, hword, Bool.false_eq_true]
    rw [parseColumnDef, htake, List.drop_left, dropSpaces_append hgap hwf.gap hfront]
    simp only [hname, hends, htrim', typeOf_plain h.typed hfollows,
      (unquote_text_iff hwf.name).mpr h.name.quote, Bool.false_eq_true, or_self, if_false,
      Option.map_some]

/-! ## Reading a statement -/

/-- A table's name and the parenthesis behind it are not taken for `IF NOT EXISTS`. -/
theorem dropIfNotExists_none {name : Name} (hwf : name.WellFormed) {gap : List Char}
    (hgap : Blank gap) (rest : List Char) :
    dropIfNotExists (name.text ++ (gap ++ '(' :: rest)) = none := by
  cases hdrop : dropIfNotExists (name.text ++ (gap ++ '(' :: rest)) with
  | none => rfl
  | some y =>
    exfalso
    rw [dropIfNotExists] at hdrop
    obtain ⟨x₅, hdrop, -⟩ := Option.bind_eq_some_iff.mp hdrop
    obtain ⟨x₄, hdrop, -⟩ := Option.bind_eq_some_iff.mp hdrop
    obtain ⟨x₃, hdrop, -⟩ := Option.bind_eq_some_iff.mp hdrop
    obtain ⟨x₂, hdrop, hnot⟩ := Option.bind_eq_some_iff.mp hdrop
    obtain ⟨x₁, hif, hspaces⟩ := Option.bind_eq_some_iff.mp hdrop
    obtain ⟨w, hx, hw⟩ := dropWord_some hif
    obtain ⟨v, hx₂, hv⟩ := dropWord_some hnot
    obtain ⟨e, t, hx₁, he, hdropped⟩ := dropSpaces_some hspaces
    obtain ⟨a, b, rfl, ha, hb⟩ : ∃ a b, w = [a, b] ∧ a.toLower = 'i' ∧ b.toLower = 'f' := by
      rcases w with _ | ⟨a, _ | ⟨b, _ | ⟨c, w⟩⟩⟩ <;> simp at hw
      exact ⟨a, b, rfl, hw.1, hw.2⟩
    obtain ⟨f, u, rfl, hf⟩ : ∃ f u, v = f :: u ∧ f.toLower = 'n' := by
      rcases v with _ | ⟨f, u⟩ <;> simp at hv
      exact ⟨f, u, rfl, hv.1⟩
    rw [Name.text] at hx
    cases hquote : name.quote with
    | some q =>
      simp only [hquote, List.cons_append, List.cons.injEq] at hx
      rw [← hx.1] at ha
      cases q <;> exact absurd ha (by decide)
    | none =>
      obtain ⟨hne, hchars⟩ := hwf hquote
      simp only [hquote, List.cons_append, List.nil_append] at hx
      rcases hid : name.id with _ | ⟨c₁, _ | ⟨c₂, _ | ⟨c₃, id⟩⟩⟩
      · exact hne hid
      · rw [hid, List.cons_append, List.nil_append] at hx
        obtain ⟨-, hx⟩ := List.cons.inj hx
        rcases gap with _ | ⟨g, gap⟩
        · rw [List.nil_append] at hx
          rw [← (List.cons.inj hx).1] at hb
          exact absurd hb (by decide)
        · rw [List.cons_append] at hx
          have hg := hgap g List.mem_cons_self
          rw [(List.cons.inj hx).1] at hg
          rw [toLower_of_space hg] at hb
          rw [hb] at hg
          exact absurd hg (by decide)
      · rw [hid, List.cons_append, List.cons_append, List.nil_append] at hx
        have hrest := (List.cons.inj (List.cons.inj hx).2).2
        have hparen : Stops isSpace ('(' :: rest) := by
          intro d hd
          obtain rfl : '(' = d := Option.some_inj.mp hd
          decide
        rw [hdropped, ← hrest, dropWhile_stop hgap hparen] at hx₂
        rw [← (List.cons.inj hx₂).1] at hf
        exact absurd hf (by decide)
      · rw [hid, List.cons_append, List.cons_append, List.cons_append] at hx
        have hrest := (List.cons.inj (List.cons.inj hx).2).2
        rw [hx₁] at hrest
        have hc₃ := (hchars c₃ (by rw [hid]; simp)).1
        rw [(List.cons.inj hrest).1, he] at hc₃
        exact nomatch hc₃

theorem nameAndBody_word {w b r : List Char} {c : Char} (hw : ∀ d ∈ w, isNameChar d = true)
    (hb : b ≠ [] ∧ Blank b) (hc : isSpace c = false) (hparen : c ≠ '(') :
    nameAndBody (w ++ (b ++ c :: r)) = none := by
  have hstop : Stops isNameChar (b ++ c :: r) := by
    refine stops_append hb.1 (stops_of_forall fun d hd => ?_) _
    by_contra hname
    have hspace := isSpace_of_nameChar (by simpa using hname)
    rw [hb.2 d hd] at hspace
    exact nomatch hspace
  have hc' : Stops isSpace (c :: r) := by
    intro d hd
    obtain rfl : c = d := Option.some_inj.mp hd
    exact hc
  rw [nameAndBody, takeWhile_stop hw hstop, List.drop_left, dropWhile_stop hb.2 hc']
  split
  next heq => exact absurd (List.cons.inj heq).1 hparen
  next => rfl

/-- The header is passed over, whatever the table is called. -/
theorem createTable_header {header : List Char} (h : Header header) {name : Name}
    (hwf : name.WellFormed) {gap : List Char} (hgap : Blank gap) (rest : List Char) :
    createTable (header ++ (name.text ++ (gap ++ '(' :: rest))) =
      nameAndBody (name.text ++ (gap ++ '(' :: rest)) := by
  have hsolid : ∀ r, Stops isSpace (name.text ++ r) := fun r =>
    stops_append (Name.text_solid hwf).1 (Name.text_solid hwf).2 r
  cases h with
  | @intro b w₁ b₁ w₂ b₂ guard hb h₁ hb₁ h₂ hb₂ hguard =>
    have hstop₂ := stops_word h₂ (by simp) (by intro c hc; simp at hc; rw [← hc]; decide)
    have hguarded : Stops isSpace (guard ++ (name.text ++ (gap ++ '(' :: rest))) := by
      cases hguard with
      | absent => exact hsolid _
      | present hg₁ _ _ _ _ _ =>
        have hstop := stops_word hg₁ (by simp) (by intro c hc; simp at hc; rw [← hc]; decide)
        rw [List.append_assoc]
        exact (hstop _).2
    rw [createTable]
    simp only [List.append_assoc]
    rw [dropWhile_stop hb (stops_word h₁ (by simp)
      (by intro c hc; simp at hc; rw [← hc]; decide) _).2, dropWord_append h₁]
    simp only [Option.bind_some]
    rw [dropSpaces_append hb₁.1 hb₁.2 (hstop₂ _).2]
    simp only [Option.bind_some]
    rw [dropWord_append h₂]
    simp only [Option.bind_some]
    rw [dropSpaces_append hb₂.1 hb₂.2 hguarded]
    simp only [Option.bind_some]
    cases hguard with
    | absent => rw [List.nil_append, dropIfNotExists_none hwf hgap, Option.bind_none, Option.none_or]
    | @present v₁ d₁ v₂ d₂ v₃ d₃ hv₁ hv₂ hv₃ hd₁ hd₂ hd₃ =>
      have hstop₂ := stops_word hv₂ (by simp) (by intro c hc; simp at hc; rw [← hc]; decide)
      have hstop₃ := stops_word hv₃ (by simp) (by intro c hc; simp at hc; rw [← hc]; decide)
      have hskip : dropIfNotExists (v₁ ++ (d₁ ++ (v₂ ++ (d₂ ++ (v₃ ++ (d₃ ++
          (name.text ++ (gap ++ '(' :: rest)))))))) = some (name.text ++ (gap ++ '(' :: rest)) := by
        rw [dropIfNotExists, dropWord_append hv₁, Option.bind_some,
          dropSpaces_append hd₁.1 hd₁.2 (hstop₂ _).2, Option.bind_some, dropWord_append hv₂,
          Option.bind_some, dropSpaces_append hd₂.1 hd₂.2 (hstop₃ _).2, Option.bind_some,
          dropWord_append hv₃, Option.bind_some, dropSpaces_append hd₃.1 hd₃.2 (hsolid _)]
      have hguardName : nameAndBody (v₁ ++ (d₁ ++ (v₂ ++ (d₂ ++ (v₃ ++ (d₃ ++
          (name.text ++ (gap ++ '(' :: rest)))))))) = none := by
        obtain ⟨c, u, rfl⟩ := List.exists_cons_of_ne_nil (hstop₂ []).1
        have hc := (hstop₂ []).2 c rfl
        refine nameAndBody_word ?_ hd₁ hc ?_
        · intro e he
          have hletter : isLetter e.toLower = true := by
            have hmem : e.toLower ∈ "if".toList := hv₁ ▸ List.mem_map_of_mem he
            have hcases : e.toLower = 'i' ∨ e.toLower = 'f' := by simpa using hmem
            rcases hcases with h | h <;> rw [h] <;> decide
          exact nameChar_of_wordChar (wordChar_of_letter (letter_of_toLower hletter))
        · rintro rfl
          simp at hv₂
      simp only [List.append_assoc]
      rw [hskip, Option.bind_some, hguardName, Option.or_none]

theorem endsStatement_chars {tail : List Char} (h : endsStatement tail = true) : ')' ∉ tail := by
  intro hmem
  rw [← List.takeWhile_append_dropWhile (p := isSpace) (l := tail)] at hmem
  rcases List.mem_append.mp hmem with hblank | hrest
  · exact absurd (List.mem_takeWhile_imp hblank) (by decide)
  · rw [endsStatement] at h
    split at h
    next hnil =>
      rw [hnil] at hrest
      exact absurd hrest List.not_mem_nil
    next c r hcons =>
      simp only [Bool.and_eq_true, decide_eq_true_eq] at h
      rw [hcons] at hrest
      rcases List.mem_cons.mp hrest with rfl | hr
      · exact absurd h.1 (by decide)
      · exact absurd (List.all_eq_true.mp h.2 _ hr) (by decide)

theorem beforeLastParen_append {body tail : List Char} (h : ')' ∉ tail) :
    beforeLastParen (body ++ ')' :: tail) = if endsStatement tail then some body else none := by
  have hrev : (body ++ ')' :: tail).reverse = tail.reverse ++ ')' :: body.reverse := by
    rw [List.reverse_append, List.reverse_cons, List.append_assoc]
    rfl
  have htail : ∀ c ∈ tail.reverse, (fun c => decide (c ≠ ')')) c = true := by
    intro c hc
    simp only [ne_eq, decide_not, Bool.not_eq_true', decide_eq_false_iff_not]
    rintro rfl
    exact h (List.mem_reverse.mp hc)
  have hstop : Stops (fun c => decide (c ≠ ')')) (')' :: body.reverse) := by
    intro c hc
    obtain rfl : ')' = c := Option.some_inj.mp hc
    decide
  rw [beforeLastParen, hrev, dropWhile_stop htail hstop, takeWhile_stop htail hstop,
    List.reverse_reverse]
  simp only [List.reverse_reverse]

theorem stops_nameChar_gap {gap : List Char} (hgap : Blank gap) (rest : List Char) :
    Stops isNameChar (gap ++ '(' :: rest) := by
  intro c hc
  rcases gap with _ | ⟨g, gap⟩
  · obtain rfl : '(' = c := Option.some_inj.mp hc
    decide
  · obtain rfl : g = c := Option.some_inj.mp hc
    by_contra hname
    have hspace := isSpace_of_nameChar (by simpa using hname)
    rw [hgap g List.mem_cons_self] at hspace
    exact nomatch hspace

/-- A table with a plain name is found exactly when the statement ends behind the list. -/
theorem nameAndBody_plain {name : Name} (hwf : name.WellFormed)
    (hchars : ∀ c ∈ name.id, isNameChar c = true) {gap : List Char} (hgap : Blank gap)
    {body tail : List Char} (htail : ')' ∉ tail) :
    nameAndBody (name.text ++ (gap ++ '(' :: (body ++ ')' :: tail))) =
      if endsStatement tail then some (name.text, body) else none := by
  have hparen : Stops isSpace ('(' :: (body ++ ')' :: tail)) := by
    intro c hc
    obtain rfl : '(' = c := Option.some_inj.mp hc
    decide
  rw [nameAndBody, takeWhile_stop ((Name.text_chars_iff name).mpr hchars)
    (stops_nameChar_gap hgap _), List.drop_left, dropWhile_stop hgap hparen]
  simp only [(Name.text_solid hwf).1, if_false, beforeLastParen_append htail]
  split
  · rfl
  · rfl

theorem nameAndBody_name {cs m₁ m₂ : List Char} (h : nameAndBody cs = some (m₁, m₂)) :
    m₁ = cs.takeWhile isNameChar := by
  rw [nameAndBody] at h
  split at h
  · split at h
    · exact nomatch h
    · obtain ⟨body, -, heq⟩ := Option.map_eq_some_iff.mp h
      exact (Prod.mk.inj heq).1.symm
  · exact nomatch h

theorem trim_nameChars {l : List Char} (h : ∀ c ∈ l, isNameChar c = true) : trim l = l :=
  trim_trimmed ⟨stops_of_forall fun c hc => isSpace_of_nameChar (h c hc),
    stops_of_forall fun c hc => isSpace_of_nameChar (h c (List.mem_reverse.mp hc))⟩

theorem createTable_text {s : CreateTable} (hwf : s.WellFormed)
    (hchars : ∀ c ∈ s.name.id, isNameChar c = true) (htail : ')' ∉ s.tail) :
    createTable s.text = if endsStatement s.tail then some (s.name.text, s.body) else none := by
  rw [CreateTable.text, createTable_header hwf.header hwf.name hwf.gap]
  exact nameAndBody_plain hwf.name hchars hwf.gap htail

/-- A table that is found under its own name has a plain name. -/
theorem name_plain_of_found {s : CreateTable} (hwf : s.WellFormed) {m : List Char × List Char}
    (h : createTable s.text = some m) (hid : unquote (trim m.1) = s.name.id) : s.name.Plain := by
  rw [CreateTable.text, createTable_header hwf.header hwf.name hwf.gap] at h
  have hm := nameAndBody_name h
  have hm₁ : ∀ c ∈ m.1, isNameChar c = true := by
    intro c hc
    rw [hm] at hc
    exact List.mem_takeWhile_imp hc
  rw [trim_nameChars hm₁] at hid
  have hchars : ∀ c ∈ s.name.id, isNameChar c = true := by
    intro c hc
    rw [← hid] at hc
    exact hm₁ c ((unquote_sublist _).1.subset hc)
  rw [takeWhile_stop ((Name.text_chars_iff s.name).mpr hchars) (stops_nameChar_gap hwf.gap _)] at hm
  rw [hm] at hid
  exact ⟨hchars, (unquote_text_iff hwf.name).mp hid⟩

theorem parseSchemaColumnTypes_one (stmt : List Char) :
    parseSchemaColumnTypes [stmt] =
      (createTable stmt).toList.map fun m => (unquote (trim m.1), columnsOf m.2) := by
  rw [parseSchemaColumnTypes]
  cases h : createTable stmt with
  | none => simp [h]
  | some m =>
    rw [List.filterMap_cons_some h]
    rfl

/-! ## The columns of a statement -/

/-- A column is read from the first piece of its text, and no other piece makes a column. -/
def Item.Plain : Item → Prop
  | column c => ∃ clause rest,
      Nested.pieces weight ',' 0 c.text =
        (c.lead ++ (c.name.text ++ (c.gap ++ (c.sqlType ++ clause)))) :: rest ∧
      Readable c clause ∧ ∀ entry ∈ rest, readEntry entry = none
  | constraint text => ∀ entry ∈ Nested.pieces weight ',' 0 text, readEntry entry = none

/-- The statement ends behind its list, no item leaves a parenthesis open for the next one, and
every item is plain. -/
structure CreateTable.Plain (s : CreateTable) : Prop where
  name : s.name.Plain
  tail : endsStatement s.tail = true
  balanced : ∀ i ∈ s.items.dropLast, Nested.depth weight 0 i.text = 0
  items : ∀ i ∈ s.items, i.Plain

/-- What is read from the item alone. -/
def Item.entries (i : Item) : List (List Char × List Char) :=
  (Nested.pieces weight ',' 0 i.text).filterMap readEntry

def Item.declared (i : Item) : List (List Char × List Char) :=
  i.column?.toList.map fun c => (c.name.id, c.sqlType)

theorem follows_clause {c : Column} (hwf : c.WellFormed) {clause : List Char}
    {rest : List (List Char)} (h : Nested.pieces weight ',' 0 c.text =
      (c.lead ++ (c.name.text ++ (c.gap ++ (c.sqlType ++ clause)))) :: rest) :
    Follows c.sqlType clause := by
  rcases Nested.first_piece h with ⟨heq, -⟩ | ⟨r, heq⟩
  · rw [Column.text] at heq
    have hclauses : c.clauses = clause := by simpa using heq
    exact hclauses ▸ hwf.follows
  · rw [Column.text] at heq
    have hclauses : c.clauses = clause ++ ',' :: r := by simpa using heq
    have hf := hwf.follows
    rw [hclauses] at hf
    refine hf.left ?_
    intro d hd
    obtain rfl : ',' = d := Option.some_inj.mp hd
    decide

theorem entries_plain {i : Item} (hwf : ∀ c, i.column? = some c → c.WellFormed) (h : i.Plain) :
    i.entries = i.declared := by
  cases i with
  | column c =>
    obtain ⟨clause, rest, hpieces, hread, hrest⟩ := h
    have hc := hwf c rfl
    rw [Item.entries, Item.text, hpieces, List.filterMap_cons_some
      ((readEntry_column_iff hc (follows_clause hc hpieces)).mpr hread),
      List.filterMap_eq_nil_iff.mpr hrest]
    rfl
  | constraint text => exact List.filterMap_eq_nil_iff.mpr h

theorem columnsOf_body {s : CreateTable}
    (h : ∀ i ∈ s.items.dropLast, Nested.depth weight 0 i.text = 0) :
    columnsOf s.body =
      (s.items.flatMap Item.entries).foldl (fun cols p => Keyed.put p.1 p.2 cols) [] := by
  rw [columnsOf, entries_body, CreateTable.body]
  congr 1
  rcases eq_or_ne s.items [] with hnil | hne
  · rw [hnil]
    have hblank : readEntry [] = none := readEntry_blank rfl
    simp [Nested.pieces, List.intercalate, hblank]
  · have hcomma : weight ',' = 0 := by decide
    have hbalanced : ∀ t ∈ (s.items.map Item.text).dropLast, Nested.depth weight 0 t = 0 := by
      intro t ht
      rw [← List.map_dropLast] at ht
      obtain ⟨i, hi, rfl⟩ := List.mem_map.mp ht
      exact h i hi
    rw [Nested.pieces_intercalate hcomma (by simpa using hne) hbalanced, List.flatMap_map,
      List.filterMap_flatMap]
    rfl

theorem columns_eq (s : CreateTable) : s.columns = s.items.flatMap Item.declared := by
  rw [CreateTable.columns, CreateTable.columnDefs]
  induction s.items with
  | nil => rfl
  | cons i items ih =>
    rw [List.flatMap_cons, ← ih]
    cases i with
    | column c => rfl
    | constraint text => rfl

theorem mem_columnDefs {s : CreateTable} {i : Item} (hi : i ∈ s.items) {c : Column}
    (hc : i.column? = some c) : c ∈ s.columnDefs :=
  List.mem_filterMap.mpr ⟨i, hi, hc⟩

theorem columnsOf_plain {s : CreateTable} (hwf : s.WellFormed) (h : s.Plain) :
    columnsOf s.body = s.columns := by
  have hentries : s.items.flatMap Item.entries = s.columns := by
    rw [columns_eq]
    apply List.flatMap_congr
    intro i hi
    exact entries_plain (fun c hc => hwf.columns c (mem_columnDefs hi hc)) (h.items i hi)
  rw [columnsOf_body h.balanced, hentries, Keyed.foldl_put_fresh (by simpa using hwf.distinct)]
  rfl

theorem parse_plain {ss : List CreateTable} (hwf : ∀ s ∈ ss, s.WellFormed)
    (hdistinct : (ss.map fun s => s.name.id).Nodup) (h : ∀ s ∈ ss, s.Plain) :
    parseSchemaColumnTypes (ss.map CreateTable.text) =
      ss.map fun s => (s.name.id, s.columns) := by
  have hfound : (ss.map CreateTable.text).filterMap createTable =
      ss.map fun s => (s.name.text, s.body) := by
    rw [List.filterMap_map, ← List.filterMap_eq_map]
    apply List.filterMap_congr
    intro s hs
    have htail := (h s hs).tail
    rw [Function.comp_apply, createTable_text (hwf s hs) (h s hs).name.chars
      (endsStatement_chars htail), if_pos htail]
    rfl
  have hread : ∀ s ∈ ss, (unquote (trim s.name.text), columnsOf s.body) = (s.name.id, s.columns) := by
    intro s hs
    have hplain := h s hs
    rw [trim_nameChars ((Name.text_chars_iff s.name).mpr hplain.name.chars),
      (unquote_text_iff (hwf s hs).name).mpr hplain.name.quote, columnsOf_plain (hwf s hs) hplain]
  rw [parseSchemaColumnTypes, hfound]
  have hfold := Keyed.foldl_put_fresh (m := []) (l := ss.map fun s => (s.name.id, s.columns))
    (by simpa [Function.comp_def] using hdistinct)
  rw [List.nil_append] at hfold
  rw [← hfold, ← List.map_congr_left hread, List.foldl_map, List.foldl_map]

/-! ## When every declared column is read -/

/-- No text between quotes cuts an item in two or leaves a parenthesis open, and no column is
called like the first word of a table constraint. -/
structure CreateTable.Uncut (s : CreateTable) : Prop where
  tail : ')' ∉ s.tail
  balanced : ∀ i ∈ s.items.dropLast, Nested.depth weight 0 i.text = 0
  whole : ∀ i ∈ s.items, Nested.pieces weight ',' 0 i.text = [i.text]
  apart : ∀ text, Item.constraint text ∈ s.items →
    unquote ((trim text).takeWhile isNameChar) ∉ s.columns.map Prod.fst

theorem length_unquoteEnd_append (l : List Char) {extra : List Char} (hne : extra ≠ []) :
    unquoteEnd (l ++ extra) = l ∨ l.length < (unquoteEnd (l ++ extra)).length := by
  obtain ⟨d, r, hrev⟩ := List.exists_cons_of_ne_nil (List.reverse_ne_nil_iff.mpr hne)
  have hextra : extra = r.reverse ++ [d] := by
    rw [← List.reverse_reverse extra, hrev, List.reverse_cons]
  have heq : unquoteEnd (l ++ extra) =
      if closesQuote d then l ++ r.reverse else l ++ extra := by
    rw [unquoteEnd, List.reverse_append, hrev]
    simp
  rw [heq]
  split
  · rcases eq_or_ne r [] with rfl | hr
    · left
      exact List.append_nil l
    · right
      have := List.length_pos_iff.mpr hr
      rw [List.length_append, List.length_reverse]
      omega
  · right
    have := List.length_pos_iff.mpr hne
    rw [List.length_append]
    omega

/-- A column is read under its own name or under a longer one. -/
theorem readEntry_name {c : Column} (hwf : c.WellFormed)
    (hchars : ∀ d ∈ c.name.id, isNameChar d = true) {n t : List Char}
    (h : readEntry c.text = some (n, t)) : n = c.name.id ∨ c.name.id.length < n.length := by
  obtain ⟨-, hparse⟩ := readEntry_some h
  obtain ⟨hn, -⟩ := parseColumnDef_some hparse
  obtain ⟨hname, hsolid⟩ := Name.text_solid hwf.name
  obtain ⟨extra, hextra⟩ : ∃ extra, (trim c.text).takeWhile isNameChar = c.name.text ++ extra := by
    obtain ⟨r, b, hrest, hb, hr⟩ := exists_trimEnd (c.name.text ++ (c.gap ++ (c.sqlType ++ c.clauses)))
    have htext := (Name.text_chars_iff c.name).mpr hchars
    obtain ⟨r', hr'⟩ : ∃ r', r = c.name.text ++ r' := by
      rcases List.append_eq_append_iff.mp hrest with ⟨m, hm, -⟩ | ⟨m, hm, hm'⟩
      · exact ⟨m, hm⟩
      · -- a blank end of the name would be a blank character in it
        rcases eq_or_ne m [] with rfl | hne
        · rw [List.append_nil] at hm
          exact ⟨[], by rw [hm, List.append_nil]⟩
        · obtain ⟨e, m, rfl⟩ := List.exists_cons_of_ne_nil hne
          have he : isSpace e = true := hb e (by rw [hm']; simp)
          have he' := isSpace_of_nameChar (htext e (by rw [hm]; simp))
          rw [he] at he'
          exact nomatch he'
    have htrim : trim c.text = r := by
      rw [Column.text, hrest]
      refine trim_blank hwf.lead hb ⟨?_, hr⟩
      rw [hr']
      exact stops_append hname hsolid r'
    rw [htrim, hr', List.takeWhile_append_of_pos htext]
    exact ⟨_, rfl⟩
  rw [hextra] at hn
  rw [Name.text] at hn
  cases hquote : c.name.quote with
  | none =>
    obtain ⟨hne, hplain⟩ := hwf.name hquote
    obtain ⟨e, s, hid⟩ := List.exists_cons_of_ne_nil hne
    rcases eq_or_ne extra [] with hnil | hsome
    · left
      have hself := (unquote_text_iff hwf.name).mpr (by rw [hquote]; exact fun q hq => nomatch hq)
      rw [Name.text, hquote] at hself
      simp only [hquote, hnil, List.append_nil] at hn
      rw [hn]
      exact hself
    · have hopen : opensQuote e = false := (hplain e (by rw [hid]; exact List.mem_cons_self)).2.1
      simp only [hquote] at hn
      have hend : unquote (c.name.id ++ extra) = unquoteEnd (c.name.id ++ extra) := by
        rw [hid, List.cons_append, unquote, if_neg (by simp [hopen])]
      rw [hn, hend]
      exact length_unquoteEnd_append c.name.id hsome
  | some q =>
    have hopen : opensQuote q.opening = true := by cases q <;> decide
    have hlen := length_doubled q.closing c.name.id
    have hnext : q.closing :: ([] ++ extra) ≠ [] := List.cons_ne_nil _ _
    simp only [hquote, List.cons_append, List.append_assoc] at hn
    rw [unquote, if_pos hopen] at hn
    rcases length_unquoteEnd_append (doubled q.closing c.name.id) hnext with heq | hlt
    · rw [heq] at hn
      by_cases hmem : q.closing ∈ c.name.id
      · right
        have := List.count_pos_iff.mpr hmem
        rw [hn]
        omega
      · left
        rw [hn, doubled_eq_iff.mpr hmem]
    · right
      rw [hn]
      omega

section Converse
variable {s : CreateTable} (hwf : s.WellFormed) (huncut : s.Uncut)

theorem entries_whole {i : Item} (h : Nested.pieces weight ',' 0 i.text = [i.text]) :
    i.entries = (readEntry i.text).toList := by
  rw [Item.entries, h]
  cases hread : readEntry i.text with
  | none => simp [hread]
  | some p => simp [hread]

include huncut in
theorem mem_columnsOf {p : List Char × List Char} (h : p ∈ columnsOf s.body) :
    ∃ i ∈ s.items, readEntry i.text = some p := by
  rw [columnsOf_body huncut.balanced] at h
  rcases Keyed.mem_foldl_put h with hnil | hmem
  · exact nomatch hnil
  · obtain ⟨i, hi, hp⟩ := List.mem_flatMap.mp hmem
    rw [entries_whole (huncut.whole i hi), Option.mem_toList] at hp
    exact ⟨i, hi, hp⟩

include huncut in
theorem key_columnsOf {i : Item} (hi : i ∈ s.items) {p : List Char × List Char}
    (h : readEntry i.text = some p) : p.1 ∈ (columnsOf s.body).map Prod.fst := by
  rw [columnsOf_body huncut.balanced]
  refine Keyed.mem_keys_foldl_put.mpr (Or.inr ?_)
  refine List.mem_map_of_mem (List.mem_flatMap.mpr ⟨i, hi, ?_⟩)
  rw [entries_whole (huncut.whole i hi), h]
  exact List.mem_singleton_self p

include huncut in
theorem constraint_silent (hperm : (columnsOf s.body).Perm s.columns) {text : List Char}
    (hi : Item.constraint text ∈ s.items) : readEntry text = none := by
  cases h : readEntry text with
  | none => rfl
  | some p =>
    exfalso
    obtain ⟨-, hparse⟩ := readEntry_some h
    have hkey := key_columnsOf huncut hi h
    rw [(hperm.map Prod.fst).mem_iff] at hkey
    rw [(parseColumnDef_some hparse).1] at hkey
    exact huncut.apart text hi hkey

theorem mem_columns {c : Column} (hc : c ∈ s.columnDefs) : (c.name.id, c.sqlType) ∈ s.columns :=
  List.mem_map_of_mem hc

include hwf in
theorem column_of_name {c d : Column} (hc : c ∈ s.columnDefs) (hd : d ∈ s.columnDefs)
    (h : d.name.id = c.name.id) : d = c := by
  have hdistinct := hwf.distinct
  rw [CreateTable.columns, List.map_map] at hdistinct
  exact List.inj_on_of_nodup_map hdistinct hd hc h

include huncut in
theorem key_chars {p : List Char × List Char} (h : p ∈ columnsOf s.body) :
    ∀ d ∈ p.1, isNameChar d = true := by
  obtain ⟨i, -, hread⟩ := mem_columnsOf huncut h
  obtain ⟨-, hparse⟩ := readEntry_some hread
  intro d hd
  rw [(parseColumnDef_some hparse).1] at hd
  exact List.mem_takeWhile_imp ((unquote_sublist _).1.subset hd)

include hwf huncut in
/-- By induction on the length of its name, every column is read from its own item: another item
that made it would be a column with a shorter name that is not read from its own. -/
theorem column_read (hperm : (columnsOf s.body).Perm s.columns) (N : Nat) {c : Column}
    (hc : c ∈ s.columnDefs) (hN : c.name.id.length < N) :
    readEntry c.text = some (c.name.id, c.sqlType) := by
  induction N generalizing c with
  | zero => omega
  | succ N ih =>
    obtain ⟨i, hi, hread⟩ := mem_columnsOf huncut (hperm.mem_iff.mpr (mem_columns hc))
    cases i with
    | constraint text =>
      have hnone := constraint_silent huncut hperm hi
      rw [Item.text, hnone] at hread
      exact nomatch hread
    | column d =>
      have hd := mem_columnDefs hi rfl
      by_cases hname : d.name.id = c.name.id
      · rw [column_of_name hwf hc hd hname] at hread
        exact hread
      · exfalso
        have hchars := key_chars huncut (hperm.mem_iff.mpr (mem_columns hd))
        rcases readEntry_name (hwf.columns d hd) hchars hread with heq | hlt
        · exact hname heq.symm
        · have hown := ih hd (by omega)
          rw [Item.text, hown] at hread
          exact hname (Prod.mk.inj (Option.some_inj.mp hread)).1

include hwf huncut in
theorem plain_of_faithful (h : Faithful s (parseSchemaColumnTypes [s.text])) : s.Plain := by
  obtain ⟨cols, hparse, hperm⟩ := h
  rw [parseSchemaColumnTypes_one] at hparse
  cases hfound : createTable s.text with
  | none =>
    rw [hfound] at hparse
    exact nomatch hparse
  | some m =>
    rw [hfound] at hparse
    obtain ⟨hid, hcols⟩ := Prod.mk.inj (List.cons.inj hparse).1
    have hname := name_plain_of_found hwf hfound hid
    rw [createTable_text hwf hname.chars huncut.tail] at hfound
    split at hfound
    next htail =>
      rw [← Option.some_inj.mp hfound] at hcols
      rw [← hcols] at hperm
      refine ⟨hname, htail, huncut.balanced, ?_⟩
      intro i hi
      have hwhole := huncut.whole i hi
      cases i with
      | column c =>
        have hc := mem_columnDefs hi rfl
        refine ⟨c.clauses, [], hwhole, ?_, fun _ hentry => nomatch hentry⟩
        exact (readEntry_column_iff (hwf.columns c hc) (hwf.columns c hc).follows).mp
          (column_read hwf huncut hperm _ hc (Nat.lt_succ_self _))
      | constraint text =>
        intro entry hentry
        have heq : entry = text := by
          rw [Item.text] at hwhole
          rw [hwhole] at hentry
          exact List.mem_singleton.mp hentry
        rw [heq]
        exact constraint_silent huncut hperm hi
    next => exact nomatch hfound

end Converse

example : parseSchemaColumnTypes
    ["create table if not exists \"t\" (\"a.b\" decimal (10, 2) not null, c double precision,\n check (c > 0));".toList] =
    [("t".toList, [("a.b".toList, "decimal (10, 2)".toList), ("c".toList, "double precision".toList)])] := by
  decide +kernel

end LiteDb.SchemaDdl
