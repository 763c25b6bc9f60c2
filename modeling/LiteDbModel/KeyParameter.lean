import LiteDbModel.RelationSurfaces

/-!
# The key parameter

The batch statement of a relation holds one parameter, the key set. Its text is
fixed before there are keys; what is left to the run is PostgreSQL's cast, which
is looked for in the whole text, and the JSON text that most key sets are bound
as.
-/

namespace LiteDb.KeyParameter
set_option autoImplicit false
open SqlText Json Decimal

/-! ## The text around the parameter -/

/-- The text on the two sides of a placeholder. -/
structure Around where
  before : String
  after : String

namespace Around

def text (a : Around) : String := a.before ++ "?" ++ a.after

def within (lead : String) (a : Around) (trail : String) : Around :=
  ⟨lead ++ a.before, a.after ++ trail⟩

theorem text_within (lead : String) (a : Around) (trail : String) :
    (a.within lead trail).text = lead ++ a.text ++ trail := by
  simp [text, within, String.append_assoc]

theorem text_ne_empty (a : Around) : a.text ≠ "" := by
  intro h
  have hchars := congrArg String.toList h
  simp [text, String.toList_append] at hchars

theorem clause_text (lead : String) (a : Around) : clause lead a.text = lead ++ a.text :=
  if_neg a.text_ne_empty

end Around

def selectHead (d : SelectDesc) : String :=
  d.cte ++ "SELECT " ++ (if d.select = "" then "*" else d.select) ++ " FROM " ++ d.tableName

def selectTail (d : SelectDesc) : String :=
  clause " ORDER BY " d.order ++ (d.limit.map fun n => " LIMIT " ++ countText n).getD ""

theorem compileSelect_eq (d : SelectDesc) : compileSelect d =
    selectHead d ++ clause " " d.join ++ clause " WHERE " d.condition ++ selectTail d := by
  simp only [compileSelect, selectHead, selectTail, String.append_assoc]

def inListAround (dialect : Dialect) (col : String) : Around :=
  match dialect with
  | .postgres => ⟨col ++ " = ANY(", ")"⟩
  | .mysql => ⟨col ++ " IN (SELECT JSON_UNQUOTE(v) FROM JSON_TABLE(",
      ", '$[*]' COLUMNS(v JSON PATH '$')) jt)"⟩
  | .sqlite => ⟨col ++ " IN (SELECT value FROM json_each(", "))"⟩

theorem inListAround_text (dialect : Dialect) (col : String) :
    (inListAround dialect col).text = inListPredicate dialect col := by
  cases dialect <;> simp [inListAround, inListPredicate, Around.text, String.append_assoc]

/-- The membership of a key tuple; PostgreSQL joins the key rows instead. -/
def tupleInAround (dialect : Dialect) (table : String) (columns : List String) : Around :=
  let lead := "(" ++ commas (columns.map fun k => table ++ "." ++ k) ++ ") IN (SELECT "
  match dialect with
  | .mysql => ⟨lead ++ commas ((ordinals columns).map fun i => "JSON_UNQUOTE(c" ++ i ++ ")") ++
      " FROM JSON_TABLE(", ", '$[*]' COLUMNS(" ++
      commas ((ordinals columns).map fun i => "c" ++ i ++ " JSON PATH '$[" ++ i ++ "]'") ++ ")) jt)"⟩
  | _ => ⟨lead ++ commas ((ordinals columns).map fun i => "json_extract(value, '$[" ++ i ++ "]')") ++
      " FROM json_each(", "))"⟩

theorem tupleInAround_text {dialect : Dialect} (hd : dialect ≠ .postgres) (table : String)
    (columns : List String) :
    (tupleInAround dialect table columns).text = tupleInPredicate dialect table columns := by
  cases dialect with
  | postgres => exact absurd rfl hd
  | mysql =>
    simp only [tupleInAround, tupleInPredicate, Around.text, String.append_assoc]
    have hhole : " FROM JSON_TABLE(?, '$[*]' COLUMNS(" =
        " FROM JSON_TABLE(" ++ ("?" ++ ", '$[*]' COLUMNS(") := rfl
    simp only [hhole, String.append_assoc]
  | sqlite => simp [tupleInAround, tupleInPredicate, Around.text, String.append_assoc]

def keyRowsAround (resolve : String → ColumnType) (targetKeys : List String) : Around :=
  let cols := (targetKeys.zip (ordinals targetKeys)).map fun k =>
    "(_t->>" ++ k.2 ++ ")::" ++ inferPgElementType [pgTypeSpecimen (resolve k.1)] ++
      " AS key" ++ k.2
  ⟨"(SELECT " ++ commas cols ++ " FROM json_array_elements(", "::json) AS _t) AS _keys"⟩

theorem keyRowsAround_text (resolve : String → ColumnType) (targetKeys : List String) :
    (keyRowsAround resolve targetKeys).text = pgCompositeKeyRows resolve targetKeys := by
  simp [keyRowsAround, pgCompositeKeyRows, Around.text, String.append_assoc]

section Texts
variable (decl : RelationDecl) (types : String → ColumnType)

def flatDesc : SelectDesc :=
  ⟨"", commas decl.select, decl.targetTable, "", "", decl.order.getD "", none⟩

/-- The flat statement with the parameter in its condition. -/
def flatAround (condition : Around) : Around :=
  condition.within (selectHead (flatDesc decl) ++ " WHERE ") (selectTail (flatDesc decl))

def joinAround (rows : Around) (condition : String) : Around :=
  rows.within (selectHead (flatDesc decl) ++ " JOIN ")
    (" ON " ++ condition ++ selectTail (flatDesc decl))

def lateralAround (source : Around) (condition : String) : Around :=
  source.within ("SELECT " ++ decl.targetTable ++ ".* FROM ") (" CROSS JOIN LATERAL (" ++
    compileSelect ⟨"", "", decl.targetTable, "", condition, decl.order.getD "", decl.limit⟩ ++ ") " ++
    decl.targetTable)

def rankedDesc : SelectDesc :=
  let keys := commas (decl.keys.pairs.map (·.2))
  let order := decl.order.getD ""
  ⟨"", "*, ROW_NUMBER() OVER (PARTITION BY " ++ keys ++ " ORDER BY " ++
    (if order = "" then keys else order) ++ ") AS _rn", decl.targetTable, "", "", "", none⟩

def rankedAround (n : Nat) (membership : Around) : Around :=
  membership.within ("WITH ranked AS (" ++ selectHead (rankedDesc decl) ++ " WHERE ")
    (") SELECT * FROM ranked WHERE _rn <= " ++ countText n)

/-- What a declaration writes around the key parameter. -/
def keyAround : Around :=
  match decl.keys, decl.dialect, decl.limit with
  | .single _ targetKey, .postgres, none =>
    flatAround decl ⟨decl.targetTable ++ "." ++ targetKey ++ " = ANY(",
      "::" ++ singleCast (some types) targetKey ++ ")"⟩
  | .single _ targetKey, .postgres, some _ =>
    lateralAround decl ⟨"unnest(", "::" ++ singleCast (some types) targetKey ++ ") AS _keys(key)"⟩
      (decl.targetTable ++ "." ++ targetKey ++ " = _keys.key")
  | .single _ targetKey, dialect, none => flatAround decl (inListAround dialect targetKey)
  | .single _ targetKey, dialect, some n => rankedAround decl n (inListAround dialect targetKey)
  | .composite pairs _, .postgres, none =>
    joinAround decl (keyRowsAround types (pairs.map (·.2)))
      (pgKeyConditions decl.targetTable (pairs.map (·.2)))
  | .composite pairs _, .postgres, some _ =>
    lateralAround decl (keyRowsAround types (pairs.map (·.2)))
      (pgKeyConditions decl.targetTable (pairs.map (·.2)))
  | .composite pairs _, dialect, none =>
    flatAround decl (tupleInAround dialect decl.targetTable (pairs.map (·.2)))
  | .composite pairs _, dialect, some n =>
    rankedAround decl n (tupleInAround dialect decl.targetTable (pairs.map (·.2)))

theorem flatAround_text (a : Around) : (flatAround decl a).text =
    compileSelect { flatDesc decl with condition := a.text } := by
  rw [compileSelect_eq, flatAround, Around.text_within, Around.clause_text]
  simp [selectHead, selectTail, flatDesc, clause, String.append_assoc]

theorem joinAround_text (a : Around) (condition : String) : (joinAround decl a condition).text =
    compileSelect { flatDesc decl with join := "JOIN " ++ a.text ++ " ON " ++ condition } := by
  have hjoin : "JOIN " ++ a.text ++ " ON " ++ condition ≠ "" := by
    intro h
    have hchars := congrArg String.toList h
    simp [String.toList_append] at hchars
  rw [compileSelect_eq, joinAround, Around.text_within, clause, if_neg hjoin]
  have hlead : " JOIN " = " " ++ "JOIN " := rfl
  simp only [hlead, selectHead, selectTail, flatDesc, clause, String.append_assoc]
  simp

theorem lateralAround_text (a : Around) (condition : String) :
    (lateralAround decl a condition).text = lateralText decl a.text condition := by
  rw [lateralAround, Around.text_within, lateralText]
  simp only [String.append_assoc]

theorem rankedAround_text (n : Nat) (a : Around) :
    (rankedAround decl n a).text = rankedText decl n a.text := by
  rw [rankedAround, Around.text_within, rankedText]
  simp only [compileSelect_eq, Around.clause_text]
  simp [selectHead, selectTail, rankedDesc, clause, String.append_assoc]
  rw [← String.append_assoc, ← String.append_assoc]
  rfl

end Texts

theorem compileSingleKey_eq (decl : RelationDecl) (types : String → ColumnType)
    {parentKey targetKey : String} (hk : decl.keys = .single parentKey targetKey) :
    compileSingleKey decl (some types) targetKey = (keyAround decl types).text := by
  have hany : " = ANY(?::" = " = ANY(" ++ ("?" ++ "::") := rfl
  have hunnest : "unnest(?::" = "unnest(" ++ ("?" ++ "::") := rfl
  cases hd : decl.dialect with
  | postgres =>
    cases hl : decl.limit with
    | none =>
      simp only [compileSingleKey, keyAround, hk, hd, hl, flatAround_text]
      simp only [flatDesc, Around.text, hany, String.append_assoc]
    | some n =>
      simp only [compileSingleKey, keyAround, hk, hd, hl, lateralAround_text]
      simp only [Around.text, hunnest, String.append_assoc]
  | mysql | sqlite =>
    cases hl : decl.limit with
    | none =>
      simp only [compileSingleKey, keyAround, hk, hd, hl, flatAround_text, inListAround_text, flatDesc]
    | some n =>
      simp only [compileSingleKey, keyAround, hk, hd, hl, rankedAround_text, inListAround_text]

theorem compileCompositeKeyStatic_eq (decl : RelationDecl) (types : String → ColumnType)
    {pairs : List (String × String)} {hne : pairs ≠ []} (hk : decl.keys = .composite pairs hne) :
    compileCompositeKeyStatic decl (some types) (pairs.map (·.2)) =
      .ok (keyAround decl types).text := by
  cases hd : decl.dialect with
  | postgres =>
    cases hl : decl.limit with
    | none =>
      simp only [compileCompositeKeyStatic, keyAround, hk, hd, hl, joinAround_text,
        keyRowsAround_text, flatDesc, String.append_assoc]
    | some n =>
      simp only [compileCompositeKeyStatic, keyAround, hk, hd, hl, lateralAround_text,
        keyRowsAround_text]
  | mysql | sqlite =>
    cases hl : decl.limit with
    | none =>
      simp only [compileCompositeKeyStatic, keyAround, hk, hd, hl, flatAround_text, flatDesc]
      rw [tupleInAround_text (by decide)]
    | some n =>
      simp only [compileCompositeKeyStatic, keyAround, hk, hd, hl, rankedAround_text]
      rw [tupleInAround_text (by decide)]

/-- A compiled statement is the declared text around its one question mark. -/
theorem compiled_text {decl : RelationDecl} {types : String → ColumnType} {op : RelationOp}
    (hop : compileRelationOp decl (some types) = .ok op) :
    op.sql.toList = (keyAround decl types).text.toList ∧ op.sql.toList.count '?' = 1 ∧
      op.dialect = decl.dialect ∧ op.keys = decl.keys := by
  have hassembled : ∀ sql, assembledText (keyAround decl types).text = .ok sql →
      sql.toList = (keyAround decl types).text.toList ∧ sql.toList.count '?' = 1 := by
    intro sql h
    obtain ⟨rfl, hcount⟩ := assembledText_ok.mp h
    exact ⟨rfl, hcount⟩
  rw [compileRelationOp] at hop
  rcases hsql : compiledBatchSql decl (some types) with e | sql
  · rw [hsql] at hop
    cases hop
  · rw [hsql] at hop
    cases hop
    rw [compiledBatchSql] at hsql
    cases hk : decl.keys with
    | single parentKey targetKey =>
      simp only [hk, compileSingleKey_eq decl types hk] at hsql
      obtain ⟨htext, hcount⟩ := hassembled sql hsql
      exact ⟨htext, hcount, rfl, rfl⟩
    | composite pairs hne =>
      simp only [hk, compileCompositeKeyStatic_eq decl types hk] at hsql
      obtain ⟨htext, hcount⟩ := hassembled sql hsql
      exact ⟨htext, hcount, rfl, rfl⟩

/-! ## The text that is sent -/

/-- Text without a question mark is written as it is; its apostrophes open and close strings. -/
theorem renderFrom_plain {a : List Char} (h : '?' ∉ a) (inString : Bool) (index : Nat)
    (rest : List Char) : renderFrom inString index (a ++ rest) =
      a ++ renderFrom (inString != (a.count '\'' % 2 == 1)) index rest := by
  induction a generalizing inString with
  | nil => simp
  | cons c a ih =>
    have hc : c ≠ '?' := fun heq => h (heq ▸ List.mem_cons_self)
    have ha : '?' ∉ a := fun hm => h (List.mem_cons_of_mem c hm)
    have hflip : ∀ b : Bool, ((!b) != (a.count '\'' % 2 == 1)) =
        (b != ((a.count '\'' + 1) % 2 == 1)) := by
      intro b
      rcases Nat.mod_two_eq_zero_or_one (a.count '\'') with hm | hm
      · have hs : (a.count '\'' + 1) % 2 = 1 := by omega
        rw [hm, hs]
        cases b <;> rfl
      · have hs : (a.count '\'' + 1) % 2 = 0 := by omega
        rw [hm, hs]
        cases b <;> rfl
    by_cases hq : c = '\''
    · subst hq
      rw [List.cons_append, List.count_cons_self, List.cons_append, ← hflip]
      cases inString with
      | true =>
        have hstep : renderFrom true index ('\'' :: (a ++ rest)) =
            '\'' :: renderFrom false index (a ++ rest) := rfl
        rw [hstep, ih ha]
        rfl
      | false =>
        have hstep : renderFrom false index ('\'' :: (a ++ rest)) =
            '\'' :: renderFrom true index (a ++ rest) := rfl
        rw [hstep, ih ha]
        rfl
    · have hstep : renderFrom inString index (c :: (a ++ rest)) =
          c :: renderFrom inString index (a ++ rest) := by
        cases inString with
        | true => rw [renderFrom, if_pos rfl, decide_eq_true hq]
        | false => rw [renderFrom, if_neg (by simp), if_neg hq, if_neg hc]
      rw [List.cons_append, hstep, ih ha, List.count_cons_of_ne hq, List.cons_append]

theorem renderFrom_self {a : List Char} (h : '?' ∉ a) (inString : Bool) (index : Nat) :
    renderFrom inString index a = a := by
  have hplain := renderFrom_plain h inString index []
  rwa [List.append_nil, renderFrom, List.append_nil] at hplain

/-- The one question mark of a text becomes `$1`, unless an apostrophe before it is left open. -/
theorem render_one {before after : List Char} (hb : '?' ∉ before) (ha : '?' ∉ after) :
    renderPlaceholders (before ++ '?' :: after) .postgres =
      if before.count '\'' % 2 = 0 then before ++ ['$', '1'] ++ after else before ++ '?' :: after := by
  change renderFrom false 0 (before ++ '?' :: after) = _
  rw [renderFrom_plain hb]
  split
  · next hm =>
    have hstep : renderFrom false 0 ('?' :: after) = '$' :: '1' :: renderFrom false 1 after := rfl
    rw [hm]
    change before ++ renderFrom false 0 ('?' :: after) = _
    rw [hstep, renderFrom_self ha]
    simp
  · next hm =>
    have hodd : before.count '\'' % 2 = 1 := by omega
    have hstep : renderFrom true 0 ('?' :: after) = '?' :: renderFrom true 0 after := rfl
    rw [hodd]
    change before ++ renderFrom true 0 ('?' :: after) = _
    rw [hstep, renderFrom_self ha]

/-- Two texts, equal or different in one piece that no scanner takes notice of. -/
inductive Like : List Char → List Char → Prop
  | refl (xs : List Char) : Like xs xs
  | swap {x y : List Char} (hx : Mute x) (hy : Mute y) (h t : List Char) :
    Like (h ++ x ++ t) (h ++ y ++ t)

theorem mute_count {x : List Char} (h : Mute x) : x.count '\'' = 0 :=
  List.count_eq_zero_of_not_mem fun hm => (h.inert _ hm).1 rfl

theorem mute_hole {x : List Char} (h : Mute x) : '?' ∉ x := fun hm => (h.plain _ hm).1 rfl

namespace Like
variable {xs ys : List Char}

theorem run (h : Like xs ys) (m : Mode) : m.run ys = m.run xs := by
  cases h with
  | refl => rfl
  | swap hx hy h t => exact run_swap hy hx h t m

theorem refs (h : Like xs ys) : dollarRefs ys = dollarRefs xs := by
  cases h with
  | refl => rfl
  | swap hx hy h t => exact refs_swap hy hx h t .none .code

theorem count (h : Like xs ys) : ys.count '\'' = xs.count '\'' := by
  cases h with
  | refl => rfl
  | swap hx hy h t => simp only [List.count_append, mute_count hx, mute_count hy]

theorem hole (h : Like xs ys) (hq : '?' ∉ xs) : '?' ∉ ys := by
  cases h with
  | refl => exact hq
  | swap hx hy h t =>
    simp only [List.mem_append, not_or] at hq ⊢
    exact ⟨⟨hq.1.1, mute_hole hy⟩, hq.2⟩

theorem head (h : Like xs ys) (hd : ∀ c ∈ xs.head?, c.isDigit = false) :
    ∀ c ∈ ys.head?, c.isDigit = false := by
  cases h with
  | refl => exact hd
  | swap hx hy h t =>
    cases h with
    | cons d h => exact hd
    | nil =>
      obtain ⟨c, y, rfl⟩ := List.exists_cons_of_ne_nil hy.ne
      intro d hd'
      obtain rfl : c = d := by simpa using hd'
      exact (hy.plain c List.mem_cons_self).2.2

end Like

theorem mute_token : Mute PG_ARRAY_CAST_TOKEN.toList := by
  refine ⟨?_, ?_, ?_⟩
  · simp [PG_ARRAY_CAST_TOKEN]
  · simp [PG_ARRAY_CAST_TOKEN, Mode.Inert]
  · simp [PG_ARRAY_CAST_TOKEN]

theorem mute_castType (values : List JsVal) :
    Mute (Relation.inferPgArrayType values).toList := by
  have hall : (["int", "numeric", "bigint", "boolean", "timestamp", "text"].all fun t =>
      !(t ++ "[]").toList.isEmpty && (t ++ "[]").toList.all fun c =>
        decide (Mode.Inert c) && (c ≠ '?' && c ≠ '$' && !c.isDigit)) = true := by decide
  have ht := List.all_eq_true.mp hall _ (inferPgElementType_mem values)
  rw [Bool.and_eq_true, List.all_eq_true] at ht
  obtain ⟨hne, hchars⟩ := ht
  rw [Bool.not_eq_true'] at hne
  refine ⟨List.isEmpty_eq_false_iff.mp hne, ?_, ?_⟩
  · intro c hc
    have h := hchars c hc
    rw [Bool.and_eq_true, decide_eq_true_eq] at h
    exact h.1
  · intro c hc
    have h := hchars c hc
    rw [Bool.and_eq_true] at h
    simpa [and_assoc] using h.2

/-- A piece without a question mark lies before or behind the one question mark. -/
theorem piece_beside {h x t b a : List Char} (hx : '?' ∉ x) (heq : h ++ x ++ t = b ++ '?' :: a) :
    (∃ u, b = h ++ x ++ u ∧ t = u ++ '?' :: a) ∨ ∃ u, h = b ++ '?' :: u ∧ a = u ++ x ++ t := by
  rcases List.append_eq_append_iff.mp heq with ⟨u, hb, ht⟩ | ⟨u, hpiece, ha⟩
  · exact .inl ⟨u, hb, ht⟩
  · cases u with
    | nil =>
      rw [List.append_nil] at hpiece
      exact .inl ⟨[], by rw [List.append_nil, hpiece], ha.symm⟩
    | cons c u =>
      rw [List.cons_append] at ha
      obtain ⟨rfl, rfl⟩ := List.cons.inj ha
      rcases List.append_eq_append_iff.mp hpiece with ⟨v, _, hv⟩ | ⟨v, hh, hv⟩
      · exact absurd (hv ▸ List.mem_append_right v List.mem_cons_self) hx
      · cases v with
        | nil => exact absurd (by rw [List.nil_append] at hv; exact hv ▸ List.mem_cons_self) hx
        | cons d v =>
          rw [List.cons_append] at hv
          obtain ⟨rfl, rfl⟩ := List.cons.inj hv
          exact .inr ⟨v, hh, rfl⟩

/-- The text whose placeholders are rendered: PostgreSQL's cast comes from the keys. -/
def castResolved (op : RelationOp) (tuples : List (List JsVal)) : List Char :=
  if op.dialect = .postgres ∧ op.keys.isComposite = false then
    resolvePgArrayCast op.sql.toList (firstComponents tuples)
  else op.sql.toList

theorem lazyStatement_eq (op : RelationOp) (tuples : List (List JsVal)) :
    lazyStatement op tuples = renderPlaceholders (castResolved op tuples) op.dialect := rfl

theorem castResolved_split {op : RelationOp} {before after : List Char}
    (hsql : op.sql.toList = before ++ '?' :: after) (tuples : List (List JsVal)) :
    ∃ b a, castResolved op tuples = b ++ '?' :: a ∧ Like before b ∧ Like after a := by
  have hself : ∃ b a, op.sql.toList = b ++ '?' :: a ∧ Like before b ∧ Like after a :=
    ⟨before, after, hsql, .refl _, .refl _⟩
  rw [castResolved]
  split
  · rw [resolvePgArrayCast]
    cases hcut : cutFirst PG_ARRAY_CAST_TOKEN.toList op.sql.toList with
    | none => exact hself
    | some p =>
      obtain ⟨h, t⟩ := p
      have hpieces := cutFirst_some hcut
      rw [hsql] at hpieces
      have htype := mute_castType (firstComponents tuples)
      rcases piece_beside (mute_hole mute_token) hpieces.symm with ⟨u, rfl, rfl⟩ | ⟨u, rfl, rfl⟩
      · refine ⟨h ++ (Relation.inferPgArrayType (firstComponents tuples)).toList ++ u, after, ?_,
          .swap mute_token htype h u, .refl _⟩
        simp
      · refine ⟨before, u ++ (Relation.inferPgArrayType (firstComponents tuples)).toList ++ t, ?_,
          .refl _, .swap mute_token htype u t⟩
        simp
  · exact hself

/-! ## One placeholder -/

def keyPlaceholder (d : Dialect) : List Char := if d = .postgres then ['$', '1'] else ['?']

/-- The numbers of the placeholders that the database reads in a sent text. -/
def placeholders (d : Dialect) (sent : List Char) : List Nat :=
  if d = .postgres then dollarRefs sent else List.range' 1 (holes (mark .code sent))

/-- The statement has a placeholder in the place of the key parameter, and no other. -/
structure KeyPlaceholder (op : RelationOp) (tuples : List (List JsVal)) : Prop where
  inPlace : ∃ before after, castResolved op tuples = before ++ '?' :: after ∧
    lazyStatement op tuples = before ++ keyPlaceholder op.dialect ++ after ∧
    (Mode.code.run before).live = true
  alone : placeholders op.dialect (lazyStatement op tuples) = [1]

/-- The texts around the parameter leave no quote or comment open before it, for the database or for
the renderer, and hold no numbered placeholder of their own. -/
structure Undisturbed (d : Dialect) (before after : List Char) : Prop where
  live : (Mode.code.run before).live = true
  even : d = .postgres → before.count '\'' % 2 = 0
  unnumbered : d = .postgres → dollarRefs before = [] ∧ dollarRefs after = []

theorem hole_unique {b a b' a' : List Char} (hb : '?' ∉ b) (ha : '?' ∉ a)
    (h : b ++ '?' :: a = b' ++ '?' :: a') : b' = b ∧ a' = a := by
  rcases List.append_eq_append_iff.mp h with ⟨u, rfl, hu⟩ | ⟨u, rfl, hu⟩
  · cases u with
    | nil => exact ⟨List.append_nil b, (List.cons.inj hu).2.symm⟩
    | cons c u => exact absurd ((List.cons.inj hu).2 ▸ List.mem_append_right u List.mem_cons_self) ha
  · cases u with
    | nil => exact ⟨(List.append_nil b').symm, (List.cons.inj hu).2⟩
    | cons c u =>
      rw [(List.cons.inj hu).1] at hb
      exact absurd (List.mem_append_right b' List.mem_cons_self) hb

/-- The first reference stands between those of the two sides. -/
theorem dollarRefs_around {b a : List Char} (hb : (Mode.code.run b).live = true)
    (ha : ∀ c ∈ a.head?, c.isDigit = false) :
    dollarRefs (b ++ ['$', '1'] ++ a) = dollarRefs b ++ 1 :: dollarRefs a := by
  have hdollar : (Mode.code.run b).step '$' = .code := Mode.step_plain hb (by decide)
  have hone : Mode.code.step '1' = .code := rfl
  have hnumber : refs .dollar (('1', true) :: mark .code a) = 1 :: dollarRefs a := by
    have hread : refs .dollar (('1', true) :: mark .code a) = refs (.num 1) (mark .code a) := by
      simp only [refs, show ('1' : Char).isDigit = true from rfl, and_self, if_true, Phase.digit]
      rfl
    rw [hread, dollarRefs]
    cases a with
    | nil => rfl
    | cons c a =>
      have hc := ha c rfl
      simp only [mark, refs, hc, Bool.false_eq_true, and_false, if_false]
      split
      · rfl
      · rfl
  rw [dollarRefs, List.append_assoc, mark_append]
  change refs .none (mark .code b ++ ('$', (Mode.code.run b).live) ::
    mark ((Mode.code.run b).step '$') ('1' :: a)) = _
  rw [hb, hdollar, refs_append_dollar, mark, hone]
  change dollarRefs b ++ refs .dollar (('1', true) :: mark .code a) = _
  rw [hnumber]

theorem like_undisturbed {d : Dialect} {b a b' a' : List Char} (hb : Like b b') (ha : Like a a') :
    Undisturbed d b' a' ↔ Undisturbed d b a := by
  constructor
  · rintro ⟨hlive, heven, hnum⟩
    rw [hb.run] at hlive
    rw [hb.count] at heven
    rw [hb.refs, ha.refs] at hnum
    exact ⟨hlive, heven, hnum⟩
  · rintro ⟨hlive, heven, hnum⟩
    refine ⟨?_, ?_, ?_⟩
    · rw [hb.run]
      exact hlive
    · rw [hb.count]
      exact heven
    · rw [hb.refs, ha.refs]
      exact hnum

theorem holes_around {b a : List Char} (hb : '?' ∉ b) (ha : '?' ∉ a) :
    holes (mark .code (b ++ '?' :: a)) = if (Mode.code.run b).live = true then 1 else 0 := by
  rw [mark_append, holes_append, holes_of_not_mem hb, mark, holes_cons, holes_of_not_mem ha]
  simp

theorem keyPlaceholder_iff {op : RelationOp} {before after : List Char}
    (hsql : op.sql.toList = before ++ '?' :: after) (hbefore : '?' ∉ before) (hafter : '?' ∉ after)
    (hhead : ∀ c ∈ after.head?, c.isDigit = false) (tuples : List (List JsVal)) :
    KeyPlaceholder op tuples ↔ Undisturbed op.dialect before after := by
  obtain ⟨b, a, hsplit, hlb, hla⟩ := castResolved_split hsql tuples
  have hb := hlb.hole hbefore
  have ha := hla.hole hafter
  have hha := hla.head hhead
  have hsent := lazyStatement_eq op tuples
  rw [hsplit] at hsent
  rw [← like_undisturbed hlb hla]
  by_cases hd : op.dialect = .postgres
  · rw [hd, render_one hb ha] at hsent
    constructor
    · rintro ⟨⟨b', a', hresolved, htext, hlive⟩, halone⟩
      obtain ⟨rfl, rfl⟩ := hole_unique hb ha (hsplit.symm.trans hresolved)
      rw [keyPlaceholder, if_pos hd] at htext
      by_cases heven : b'.count '\'' % 2 = 0
      · rw [placeholders, if_pos hd, htext, dollarRefs_around hlive hha] at halone
        have hlen := congrArg List.length halone
        simp only [List.length_append, List.length_cons, List.length_nil] at hlen
        refine ⟨hlive, fun _ => heven, fun _ => ⟨?_, ?_⟩⟩
        · exact List.length_eq_zero_iff.mp (by omega)
        · exact List.length_eq_zero_iff.mp (by omega)
      · rw [if_neg heven, htext, List.append_assoc] at hsent
        exact absurd (List.append_cancel_left hsent) (by simp)
    · rintro ⟨hlive, heven, hnum⟩
      rw [if_pos (heven hd)] at hsent
      refine ⟨⟨b, a, hsplit, ?_, hlive⟩, ?_⟩
      · rw [hsent, keyPlaceholder, if_pos hd]
      · rw [placeholders, if_pos hd, hsent, dollarRefs_around hlive hha, (hnum hd).1, (hnum hd).2]
        rfl
  · have hplain : lazyStatement op tuples = b ++ '?' :: a := by
      rw [hsent, renderPlaceholders, if_pos hd]
    constructor
    · rintro ⟨⟨b', a', hresolved, _, hlive⟩, _⟩
      obtain ⟨rfl, rfl⟩ := hole_unique hb ha (hsplit.symm.trans hresolved)
      exact ⟨hlive, fun h => absurd h hd, fun h => absurd h hd⟩
    · rintro ⟨hlive, _, _⟩
      refine ⟨⟨b, a, hsplit, ?_, hlive⟩, ?_⟩
      · rw [hplain, keyPlaceholder, if_neg hd, List.append_assoc]
        rfl
      · rw [placeholders, if_neg hd, hplain, holes_around hb ha, if_pos hlive]
        rfl

/-! ## The same text for all keys -/

/-- The renderer goes on behind a text from the state that the text leaves it in. -/
theorem renderFrom_append (h : List Char) (inString : Bool) (index : Nat) : ∃ inString' index',
    ∀ rest, renderFrom inString index (h ++ rest) =
      renderFrom inString index h ++ renderFrom inString' index' rest := by
  induction h generalizing inString index with
  | nil => exact ⟨inString, index, fun _ => rfl⟩
  | cons c h ih =>
    simp only [List.cons_append, renderFrom]
    cases inString with
    | true =>
      obtain ⟨s, i, hstep⟩ := ih (c ≠ '\'') index
      refine ⟨s, i, fun rest => ?_⟩
      rw [if_pos rfl, if_pos rfl, hstep rest, List.cons_append]
    | false =>
      by_cases hq : c = '\''
      · obtain ⟨s, i, hstep⟩ := ih true index
        refine ⟨s, i, fun rest => ?_⟩
        simp [hq, hstep rest]
      · by_cases hhole : c = '?'
        · obtain ⟨s, i, hstep⟩ := ih false (index + 1)
          refine ⟨s, i, fun rest => ?_⟩
          simp [hhole, hstep rest]
        · obtain ⟨s, i, hstep⟩ := ih false index
          refine ⟨s, i, fun rest => ?_⟩
          simp [hq, hhole, hstep rest]

theorem render_swap_iff {x y : List Char} (hx : Mute x) (hy : Mute y) (h t : List Char) :
    renderPlaceholders (h ++ x ++ t) .postgres = renderPlaceholders (h ++ y ++ t) .postgres ↔
      x = y := by
  obtain ⟨s, i, hgo⟩ := renderFrom_append h false 0
  have hpiece : ∀ z, Mute z →
      renderPlaceholders (h ++ z ++ t) .postgres = renderFrom false 0 h ++ (z ++ renderFrom s i t) := by
    intro z hz
    change renderFrom false 0 (h ++ z ++ t) = _
    rw [List.append_assoc, hgo, renderFrom_plain (mute_hole hz), mute_count hz]
    simp
  rw [hpiece x hx, hpiece y hy]
  constructor
  · intro heq
    exact List.append_cancel_right (List.append_cancel_left heq)
  · rintro rfl
    rfl

theorem inferPgArrayType_inj {vs ws : List JsVal} :
    (Relation.inferPgArrayType vs).toList = (Relation.inferPgArrayType ws).toList ↔
      inferPgElementType vs = inferPgElementType ws := by
  rw [Relation.inferPgArrayType, Relation.inferPgArrayType, String.toList_append,
    String.toList_append]
  constructor
  · intro h
    exact String.toList_injective (List.append_cancel_right h)
  · intro h
    rw [h]

theorem statement_alike_iff (op : RelationOp) (ks ks' : List (List JsVal)) :
    lazyStatement op ks = lazyStatement op ks' ↔
      (op.dialect = .postgres → op.keys.isComposite = false →
        cutFirst PG_ARRAY_CAST_TOKEN.toList op.sql.toList ≠ none →
        inferPgElementType (firstComponents ks) = inferPgElementType (firstComponents ks')) := by
  rw [lazyStatement_eq, lazyStatement_eq, castResolved, castResolved]
  by_cases hsingle : op.dialect = .postgres ∧ op.keys.isComposite = false
  · obtain ⟨hd, hk⟩ := hsingle
    rw [if_pos ⟨hd, hk⟩, if_pos ⟨hd, hk⟩, resolvePgArrayCast, resolvePgArrayCast, hd]
    simp only [hk, forall_const]
    cases hcut : cutFirst PG_ARRAY_CAST_TOKEN.toList op.sql.toList with
    | none => simp
    | some p =>
      obtain ⟨h, t⟩ := p
      simp only [ne_eq, reduceCtorEq, not_false_eq_true, forall_const]
      rw [render_swap_iff (mute_castType _) (mute_castType _), inferPgArrayType_inj]
  · rw [if_neg hsingle, if_neg hsingle]
    refine iff_of_true rfl fun hd hk => ?_
    exact absurd ⟨hd, hk⟩ hsingle

/-! ## What the parameter holds -/

mutual
/-- The JSON value that stands for a value; binary data, `undefined` and the numbers that JSON has
no text for stand for none. -/
def jsonOf (d : Dialect) : JsVal → Option (Doc Scalar)
  | .null => some (.leaf .null)
  | .bool b => some (.leaf (if d = .mysql then .num (boolNum b) else .bool b))
  | .num (.fin n) => some (.leaf (.num n))
  | .bigint i => some (.leaf (.num (Dec.ofInt i)))
  | .str s => some (.leaf (.str s))
  | .date iso => some (.leaf (.str iso))
  | .arr xs => (jsonsOf d xs).map .arr
  | .obj ps => (membersOf d ps).map .obj
  | .undefined | .num .nan | .num (.inf _) | .buffer _ => none

def jsonsOf (d : Dialect) : List JsVal → Option (List (Doc Scalar))
  | [] => some []
  | x :: xs => (jsonOf d x).bind fun t => (jsonsOf d xs).map (t :: ·)

def membersOf (d : Dialect) : List (String × JsVal) → Option (List (String × Doc Scalar))
  | [] => some []
  | (k, x) :: ps => (jsonOf d x).bind fun t => (membersOf d ps).map ((k, t) :: ·)
end

mutual
/-- The value has a JSON form, and no text of it looks like a marked bigint to the encoder. -/
def encodable : JsVal → Bool
  | .null | .bool _ | .num (.fin _) | .bigint _ => true
  | .str s | .date s => !forgesBigint s
  | .arr xs => encodables xs
  | .obj ps => encodableMembers ps
  | .undefined | .num .nan | .num (.inf _) | .buffer _ => false

def encodables : List JsVal → Bool
  | [] => true
  | x :: xs => encodable x && encodables xs

def encodableMembers : List (String × JsVal) → Bool
  | [] => true
  | (k, x) :: ps => !forgesBigint k && encodable x && encodableMembers ps
end

/-- A bound key set holds the keys, natively or as the JSON value that stands for them. -/
def Holds (d : Dialect) (keys : List JsVal) : BoundKeys → Prop
  | .array xs => xs = keys
  | .json text => ∃ t doc, text = some t ∧ jsonOf d (.arr keys) = some doc ∧ parse t = some doc

/-- The keys of a key set: its tuples, or the keys themselves where there is one column. -/
def keyContents (keys : RelationKeys) (tuples : List (List JsVal)) : List JsVal :=
  if keys.isComposite then tuples.map .arr else firstComponents tuples

theorem jsonTree_of_jsonOf {d : Dialect} {v : JsVal} {doc : Doc Scalar}
    (h : jsonOf d v = some doc) : ∃ t, jsonTree v = some t := by
  cases v with
  | undefined => cases h
  | num n => cases n <;> exact ⟨_, rfl⟩
  | _ => exact ⟨_, rfl⟩

mutual
theorem encoded_iff (d : Dialect) : (v : JsVal) →
    ((∃ t doc, jsonTree v = some t ∧ jsonOf d v = some doc ∧
      t.read (leafRead d) keyRead = some doc) ↔ encodable v = true)
  | .undefined => by simp [jsonTree, encodable]
  | .null => by simp [jsonTree, jsonOf, encodable, Doc.read, leafRead, documentedLeaf]
  | .bool b => by simp [jsonTree, jsonOf, encodable, Doc.read, leafRead, documentedLeaf]
  | .num (.fin n) => by simp [jsonTree, jsonOf, encodable, Doc.read, leafRead, documentedLeaf]
  | .num .nan => by simp [jsonOf, encodable]
  | .num (.inf b) => by simp [jsonOf, encodable]
  | .bigint i => by simp [jsonTree, jsonOf, encodable, Doc.read, leafRead, documentedLeaf]
  | .str s => by simp [jsonTree, jsonOf, encodable, Doc.read, leafRead, stringRead_eq_iff]
  | .date s => by simp [jsonTree, jsonOf, encodable, Doc.read, leafRead, stringRead_eq_iff]
  | .buffer bytes => by simp [jsonOf, encodable]
  | .arr xs => by
    have hxs := encodeds_iff d xs
    simp only [jsonTree, jsonOf, encodable, ← hxs, Option.some.injEq]
    constructor
    · rintro ⟨t, doc, rfl, hdoc, hread⟩
      obtain ⟨docs, hdocs, rfl⟩ := Option.map_eq_some_iff.mp hdoc
      rw [Doc.read, Option.map_eq_some_iff] at hread
      obtain ⟨docs', hread, heq⟩ := hread
      cases heq
      exact ⟨docs, hdocs, hread⟩
    · rintro ⟨docs, hdocs, hread⟩
      exact ⟨_, .arr docs, rfl, by rw [hdocs]; rfl, by rw [Doc.read, hread]; rfl⟩
  | .obj ps => by
    have hps := encodedMembers_iff d ps
    simp only [jsonTree, jsonOf, encodable, ← hps, Option.some.injEq]
    constructor
    · rintro ⟨t, doc, rfl, hdoc, hread⟩
      obtain ⟨docs, hdocs, rfl⟩ := Option.map_eq_some_iff.mp hdoc
      rw [Doc.read, Option.map_eq_some_iff] at hread
      obtain ⟨docs', hread, heq⟩ := hread
      cases heq
      exact ⟨docs, hdocs, hread⟩
    · rintro ⟨docs, hdocs, hread⟩
      exact ⟨_, .obj docs, rfl, by rw [hdocs]; rfl, by rw [Doc.read, hread]; rfl⟩

theorem encodeds_iff (d : Dialect) : (xs : List JsVal) →
    ((∃ docs, jsonsOf d xs = some docs ∧
      Doc.readElems (leafRead d) keyRead (jsonElems xs) = some docs) ↔ encodables xs = true)
  | [] => by simp [jsonsOf, jsonElems, Doc.readElems, encodables]
  | x :: xs => by
    have hx := encoded_iff d x
    have hxs := encodeds_iff d xs
    simp only [jsonsOf, jsonElems, Doc.readElems, encodables, Bool.and_eq_true, ← hx, ← hxs]
    constructor
    · rintro ⟨docs, hdocs, hread⟩
      obtain ⟨doc, hdoc, hrest⟩ := Option.bind_eq_some_iff.mp hdocs
      obtain ⟨docs', hdocs', rfl⟩ := Option.map_eq_some_iff.mp hrest
      obtain ⟨doc', hread', hrest'⟩ := Option.bind_eq_some_iff.mp hread
      obtain ⟨docs'', hreads, heq⟩ := Option.map_eq_some_iff.mp hrest'
      cases heq
      obtain ⟨t, ht⟩ := jsonTree_of_jsonOf hdoc
      rw [ht, Option.getD_some] at hread'
      exact ⟨⟨t, doc, ht, hdoc, hread'⟩, docs', hdocs', hreads⟩
    · rintro ⟨⟨t, doc, ht, hdoc, hread⟩, docs, hdocs, hreads⟩
      refine ⟨doc :: docs, ?_, ?_⟩
      · rw [hdoc, hdocs]
        rfl
      · rw [ht, Option.getD_some, hread, hreads]
        rfl

theorem encodedMembers_iff (d : Dialect) : (ps : List (String × JsVal)) →
    ((∃ docs, membersOf d ps = some docs ∧
      Doc.readMembers (leafRead d) keyRead (jsonMembers ps) = some docs) ↔
      encodableMembers ps = true)
  | [] => by simp [membersOf, jsonMembers, Doc.readMembers, encodableMembers]
  | (k, x) :: ps => by
    have hx := encoded_iff d x
    have hps := encodedMembers_iff d ps
    have hk := keyRead_eq_iff k
    simp only [membersOf, jsonMembers, encodableMembers, Bool.and_eq_true, Bool.not_eq_true', ← hx,
      ← hps, ← hk]
    constructor
    · rintro ⟨docs, hdocs, hread⟩
      obtain ⟨doc, hdoc, hrest⟩ := Option.bind_eq_some_iff.mp hdocs
      obtain ⟨docs', hdocs', rfl⟩ := Option.map_eq_some_iff.mp hrest
      obtain ⟨t, ht⟩ := jsonTree_of_jsonOf hdoc
      simp only [ht, Doc.readMembers] at hread
      obtain ⟨k', hkey, hread⟩ := Option.bind_eq_some_iff.mp hread
      obtain ⟨doc', hread', hrest'⟩ := Option.bind_eq_some_iff.mp hread
      obtain ⟨docs'', hreads, heq⟩ := Option.map_eq_some_iff.mp hrest'
      cases heq
      exact ⟨⟨hkey, t, doc, ht, hdoc, hread'⟩, docs', hdocs', hreads⟩
    · rintro ⟨⟨hkey, t, doc, ht, hdoc, hread⟩, docs, hdocs, hreads⟩
      refine ⟨(k, doc) :: docs, ?_, ?_⟩
      · rw [hdoc, hdocs]
        rfl
      · simp only [ht, Doc.readMembers]
        rw [hkey, hread, hreads]
        rfl
end

theorem holds_encoded_iff (d : Dialect) (keys : List JsVal) :
    Holds d keys (encodeJsonArrayParam d keys) ↔ encodables keys = true := by
  have harr := encoded_iff d (.arr keys)
  rw [encodable] at harr
  rw [← harr]
  obtain ⟨text, henc, hparse⟩ := parse_encodeJsonParam d (.arr keys) (t := .arr (jsonElems keys)) rfl
  rw [encodeJsonArrayParam, Holds, henc]
  constructor
  · rintro ⟨t, doc, heq, hdoc, hread⟩
    cases heq
    exact ⟨_, doc, rfl, hdoc, hparse ▸ hread⟩
  · rintro ⟨t, doc, heq, hdoc, hread⟩
    cases heq
    exact ⟨text, doc, rfl, hdoc, hparse.trans hread⟩

theorem bindKeys_holds_iff (op : RelationOp) (tuples : List (List JsVal)) :
    Holds op.dialect (keyContents op.keys tuples) (bindKeys op tuples) ↔
      (op.dialect = .postgres ∧ op.keys.isComposite = false ∨
        encodables (keyContents op.keys tuples) = true) := by
  cases hk : op.keys.isComposite with
  | true =>
    simp only [bindKeys, keyContents, hk, if_true, holds_encoded_iff]
    simp
  | false =>
    by_cases hd : op.dialect = .postgres
    · simp only [bindKeys, keyContents, hk, Bool.false_eq_true, if_false, hd, if_true, Holds]
      simp
    · simp only [bindKeys, keyContents, hk, Bool.false_eq_true, if_false, hd, holds_encoded_iff]
      simp

/-! ## When the keys stay out of the text -/

/-- The statement of a batch holds one placeholder for its keys, and the parameter holds the keys. -/
structure BindsKeys (op : RelationOp) (tuples : List (List JsVal)) : Prop where
  placeholder : KeyPlaceholder op tuples
  contents : Holds op.dialect (keyContents op.keys tuples) (bindKeys op tuples)

/-- Two key sets are sent with one text, each as its parameter. -/
structure KeysApart (op : RelationOp) (ks ks' : List (List JsVal)) : Prop where
  text : lazyStatement op ks = lazyStatement op ks'
  first : BindsKeys op ks
  second : BindsKeys op ks'

/-- The declared texts do not disturb the placeholder and leave no cast to keys of different types;
keys that are bound as JSON have a JSON form that the encoder keeps. -/
structure KeysSafe (decl : RelationDecl) (types : String → ColumnType)
    (ks ks' : List (List JsVal)) : Prop where
  undisturbed : Undisturbed decl.dialect (keyAround decl types).before.toList
    (keyAround decl types).after.toList
  castAlike : decl.dialect = .postgres → decl.keys.isComposite = false →
    cutFirst PG_ARRAY_CAST_TOKEN.toList (keyAround decl types).text.toList ≠ none →
    inferPgElementType (firstComponents ks) = inferPgElementType (firstComponents ks')
  encoded : decl.dialect = .postgres ∧ decl.keys.isComposite = false ∨
    ∀ tuples ∈ [ks, ks'], encodables (keyContents decl.keys tuples) = true

/-- What follows the parameter does not run into its number. -/
def Apart (a : Around) : Prop := ∃ c cs, a.after.toList = c :: cs ∧ c.isDigit = false

theorem Apart.within {a : Around} (h : Apart a) (lead trail : String) :
    Apart (a.within lead trail) := by
  obtain ⟨c, cs, ha, hc⟩ := h
  exact ⟨c, cs ++ trail.toList, by rw [Around.within, String.toList_append, ha]; rfl, hc⟩

theorem apart_lead (before lead rest : String) {c : Char} {cs : List Char}
    (h : lead.toList = c :: cs) (hc : c.isDigit = false) : Apart ⟨before, lead ++ rest⟩ := by
  refine ⟨c, cs ++ rest.toList, ?_, hc⟩
  rw [String.toList_append, h]
  rfl

theorem apart_cast (before cast trail : String) : Apart ⟨before, "::" ++ cast ++ trail⟩ := by
  rw [String.append_assoc]
  exact apart_lead before "::" (cast ++ trail) rfl rfl

theorem apart_inList (dialect : Dialect) (col : String) : Apart (inListAround dialect col) := by
  cases dialect with
  | postgres => exact ⟨')', [], by simp [inListAround], rfl⟩
  | mysql => exact ⟨',', _, String.toList_ofList, rfl⟩
  | sqlite => exact ⟨')', [')'], by simp [inListAround], rfl⟩

theorem apart_tupleIn (dialect : Dialect) (table : String) (columns : List String) :
    Apart (tupleInAround dialect table columns) := by
  cases dialect with
  | postgres => exact ⟨')', [')'], by simp [tupleInAround], rfl⟩
  | mysql =>
    rw [tupleInAround]
    simp only [String.append_assoc]
    exact apart_lead _ ", '$[*]' COLUMNS(" _ String.toList_ofList rfl
  | sqlite => exact ⟨')', [')'], by simp [tupleInAround], rfl⟩

theorem apart_keyRows (types : String → ColumnType) (targetKeys : List String) :
    Apart (keyRowsAround types targetKeys) := ⟨':', _, String.toList_ofList, rfl⟩

theorem keyAround_apart (decl : RelationDecl) (types : String → ColumnType) :
    Apart (keyAround decl types) := by
  rw [keyAround]
  split
  · exact (apart_cast _ _ _).within _ _
  · exact (apart_cast _ _ _).within _ _
  · exact (apart_inList _ _).within _ _
  · exact (apart_inList _ _).within _ _
  · exact (apart_keyRows _ _).within _ _
  · exact (apart_keyRows _ _).within _ _
  · exact (apart_tupleIn _ _ _).within _ _
  · exact (apart_tupleIn _ _ _).within _ _

/-- The keys of a relation stay in its one parameter exactly when the declared texts leave the
placeholder and the cast alone and the keys have a JSON form that the encoder keeps. -/
theorem keysApart_iff {decl : RelationDecl} {types : String → ColumnType} {op : RelationOp}
    (hop : compileRelationOp decl (some types) = .ok op) (ks ks' : List (List JsVal)) :
    KeysApart op ks ks' ↔ KeysSafe decl types ks ks' := by
  obtain ⟨htext, hcount, hd, hk⟩ := compiled_text hop
  have hsides : (keyAround decl types).text.toList =
      (keyAround decl types).before.toList ++ '?' :: (keyAround decl types).after.toList := by
    rw [Around.text, String.toList_append, String.toList_append, List.append_assoc]
    rfl
  have hsql := htext.trans hsides
  rw [hsql, List.count_append, List.count_cons_self] at hcount
  have hbefore : '?' ∉ (keyAround decl types).before.toList :=
    List.count_eq_zero.mp (by omega)
  have hafter : '?' ∉ (keyAround decl types).after.toList :=
    List.count_eq_zero.mp (by omega)
  have hhead : ∀ c ∈ (keyAround decl types).after.toList.head?, c.isDigit = false := by
    obtain ⟨d, cs, ha, hdigit⟩ := keyAround_apart decl types
    intro c hc
    rw [ha, List.head?_cons, Option.mem_some_iff] at hc
    rw [← hc]
    exact hdigit
  have hplace := keyPlaceholder_iff hsql hbefore hafter hhead
  have halike := statement_alike_iff op ks ks'
  have hholds := bindKeys_holds_iff op
  rw [htext] at halike
  simp only [hd, hk] at hplace halike hholds
  constructor
  · rintro ⟨hsame, hfirst, hsecond⟩
    refine ⟨(hplace ks).mp hfirst.placeholder, halike.mp hsame, ?_⟩
    have hc := hfirst.contents
    have hc' := hsecond.contents
    rw [hd, hk, hholds] at hc hc'
    rcases hc with hnative | hc
    · exact .inl hnative
    · rcases hc' with hnative | hc'
      · exact .inl hnative
      · right
        intro tuples hmem
        simp only [List.mem_cons, List.not_mem_nil, or_false] at hmem
        rcases hmem with rfl | rfl
        · exact hc
        · exact hc'
  · rintro ⟨hundisturbed, hcast, hencoded⟩
    have hbinds : ∀ tuples ∈ [ks, ks'], BindsKeys op tuples := by
      intro tuples hmem
      refine ⟨(hplace tuples).mpr hundisturbed, ?_⟩
      rw [hd, hk, hholds]
      rcases hencoded with hnative | hencoded
      · exact .inl hnative
      · exact .inr (hencoded tuples hmem)
    exact ⟨halike.mpr hcast, hbinds ks (by simp), hbinds ks' (by simp)⟩

theorem codePosts_limited : (none : Option Nat).isSome = true →
    RelationType.hasMany = .hasMany ∧ (none : Option String).isSome = true := by
  intro h
  cases h

/-- `@hasMany(() => [User.code, Post.userCode])` on SQLite. -/
def codePosts : RelationDecl where
  name := "posts"
  kind := .hasMany
  targetTable := "posts"
  select := ["user_code", "title"]
  keys := .single "code" "user_code"
  order := none
  limit := none
  hardLimit := none
  dialect := .sqlite
  limited := codePosts_limited

theorem codePosts_compiles : ∃ op, compileRelationOp codePosts (some fun _ => .text) = .ok op := by
  have hcount : (compileSingleKey codePosts (some fun _ => .text) "user_code").toList.count '?' = 1 := by
    decide +kernel
  have hsql : compiledBatchSql codePosts (some fun _ => .text) =
      .ok (compileSingleKey codePosts (some fun _ => .text) "user_code") :=
    assembledText_ok.mpr ⟨rfl, hcount⟩
  exact ⟨_, by rw [compileRelationOp, hsql]; rfl⟩

theorem codePosts_keysApart : ∃ op, compileRelationOp codePosts (some fun _ => .text) = .ok op ∧
    KeysApart op [[.str "a"]] [[.str "b?"], [.bigint 7]] := by
  obtain ⟨op, hop⟩ := codePosts_compiles
  refine ⟨op, hop, (keysApart_iff hop _ _).mpr ?_⟩
  have hbefore : (keyAround codePosts fun _ => .text).before =
      "SELECT user_code, title FROM posts WHERE user_code IN (SELECT value FROM json_each(" := by
    decide +kernel
  have hd : codePosts.dialect ≠ .postgres := by
    intro h
    cases h
  refine ⟨⟨?_, fun h => absurd h hd, fun h => absurd h hd⟩, fun h => absurd h hd, .inr ?_⟩
  · rw [hbefore]
    decide +kernel
  · decide

/-- A key NUL `int:5` is sent to the database as the number 5. -/
theorem forged_key_sent : ¬ ∀ (decl : RelationDecl) (types : String → ColumnType) (op : RelationOp),
    compileRelationOp decl (some types) = .ok op → ∀ ks ks', KeysApart op ks ks' := by
  intro h
  obtain ⟨op, hop⟩ := codePosts_compiles
  obtain ⟨_, _, hd, hk⟩ := compiled_text hop
  have hcontents := (h _ _ op hop [[.str "\x00int:5"]] []).first.contents
  rcases (bindKeys_holds_iff op _).mp hcontents with ⟨hpg, _⟩ | hencodes
  · rw [hd] at hpg
    cases hpg
  · rw [hk] at hencodes
    revert hencodes
    decide

end LiteDb.KeyParameter
