import LiteDbModel.Conditions
import LiteDbModel.Lib.SqlText

/-!
# Placeholders and parameters

`conditionsChunks` is `DBConditions.compile` with its text kept in the pieces
that the source concatenates, each with the values pushed along with it. The
placeholders of the whole text match the parameters, in order, when every piece
has as many live question marks as values.
-/

namespace LiteDb
set_option autoImplicit false
open SqlText

/-! ## Chunks -/

/-- The text and the parameters of a list of chunks. -/
def whole : List Piece → Piece
  | [] => ⟨"", []⟩
  | p :: ps => ⟨p.sql ++ (whole ps).sql, p.params ++ (whole ps).params⟩

def chunk (sql : String) : Piece := ⟨sql, []⟩

/-- The parts with a separator between them. -/
def sepChunks (sep : String) : List (List Piece) → List Piece
  | [] => []
  | [p] => p
  | p :: q :: ps => p ++ chunk sep :: sepChunks sep (q :: ps)

/-- The parts that have a text, with a separator between them. -/
def joinChunks (sep : String) : Bool → List (List Piece) → List Piece
  | _, [] => []
  | started, p :: ps =>
    if (whole p).sql = "" then p ++ joinChunks sep started ps
    else (if started then [chunk sep] else []) ++ (p ++ joinChunks sep true ps)

def wrapChunks (ps : List Piece) : List Piece := chunk "(" :: (ps ++ [chunk ")"])

def groupChunks (ps : List Piece) : List Piece := if (whole ps).sql = "" then ps else wrapChunks ps

def listChunks (placeholder : String) (values : List CondVal) : List Piece :=
  sepChunks ", " (values.map fun v => [⟨placeholder, [v]⟩])

def inListChunks (key placeholder : String) (values : List CondVal) : List Piece :=
  if values = [] then [chunk "1 = 0"]
  else chunk (keyed key " IN (" "(") :: (listChunks placeholder values ++ [chunk ")"])

def whereChunks (parts : List (List Piece)) : List Piece :=
  if parts = [] then [] else chunk " WHERE " :: sepChunks " AND " parts

mutual
def DBToken.chunks (fmt : Formatter) (key : String) : DBToken → List Piece
  | .value v operator => [chunk (keyed key (" " ++ operator ++ " ") ""), ⟨"?", [v]⟩]
  | .cast v sqlType operator =>
    [chunk (keyed key (" " ++ operator ++ " ") ""), ⟨fmt.format "?" sqlType, [v]⟩]
  | .array values => inListChunks key "?" values
  | .castArray values sqlType => inListChunks key (fmt.format "?" sqlType) values
  | .tupleIn columns tuples =>
    if tuples = [] then [chunk "1 = 0"]
    else
      chunk ("(" ++ join ", " columns ++ ") IN (") ::
        (sepChunks ", " (tuples.map fun t => wrapChunks (listChunks "?" t)) ++ [chunk ")"])
  | .subquery parentColumns tableName selectColumns conditions notIn =>
    [chunk (parentList parentColumns ++ (if notIn then " NOT IN (" else " IN (")),
      chunk ("SELECT " ++ columnList selectColumns ++ " FROM "), chunk tableName] ++
      (whereChunks (subqueryChunks conditions) ++ [chunk ")"])
  | .existsIn tableName conditions notExists =>
    [chunk ((if notExists then "NOT EXISTS" else "EXISTS") ++ " (SELECT 1 FROM "),
      chunk tableName] ++ (whereChunks (subqueryChunks conditions) ++ [chunk ")"])
  | t => [t.compile fmt key]

def subqueryChunks : List (ColumnRef × CondVal) → List (List Piece)
  | [] => []
  | (col, v) :: conds => subqueryConditionChunks (formatColumn col) v :: subqueryChunks conds

def subqueryConditionChunks (colRef : String) : CondVal → List Piece
  | .token (.parentRef column) => [chunk (colRef ++ " = "), chunk (formatColumn column)]
  | .token t => t.chunks none colRef
  | .js .null _ => [chunk (colRef ++ " IS NULL")]
  | .arr xs =>
    if xs = [] then [chunk "1 = 0"]
    else chunk (colRef ++ " IN (") :: (listChunks "?" xs ++ [chunk ")"])
  | v => [chunk (colRef ++ " = "), ⟨"?", [v]⟩]
end

def arrayChunks (key : String) (values : List CondVal) : List Piece :=
  if hasHole key then [compileCustomArray key values]
  else if values = [] then [chunk "1 = 0"]
  else chunk (key ++ " IN (") :: (listChunks "?" values ++ [chunk ")"])

def scalarChunks (key : String) (v : CondVal) : List Piece :=
  if hasHole key then [⟨key, [v]⟩] else [chunk (key ++ " = "), ⟨"?", [v]⟩]

def jsChunks (key : String) : (v : JsVal) → v.isAtom = true → List Piece
  | .null, _ => [chunk (key ++ " IS NULL")]
  | .bool b, _ => [compileBool key b]
  | v, h => scalarChunks key (.js v h)

def orChunks (groups : List (List Piece)) : List Piece :=
  groupChunks (joinChunks " OR " false (groups.map groupChunks))

mutual
def conditionChunks (fmt : Formatter) (key : String) : CondVal → List Piece
  | .arr xs =>
    if key = "__or__" then orChunks (groupsChunks fmt xs)
    else if key = "__raw__" then [compileRaw (.arr xs)]
    else if reserved key then []
    else arrayChunks key xs
  | .token t => if key = "__raw__" then [] else t.chunks fmt key
  | .nested c => if key = "__raw__" then [] else wrapChunks (chunks fmt c)
  | .js v h =>
    if key = "__raw__" then [compileRaw (.js v h)]
    else if reserved key then []
    else jsChunks key v h
  | .skip => if reserved key then [] else scalarChunks key .skip
  | .obj ps => if reserved key then [] else scalarChunks key (.obj ps)

def groupsChunks (fmt : Formatter) : List CondVal → List (List Piece)
  | [] => []
  | .obj ps :: xs => joinChunks " AND " false (entriesChunks fmt ps) :: groupsChunks fmt xs
  | _ :: xs => [] :: groupsChunks fmt xs

def entriesChunks (fmt : Formatter) : List (String × CondVal) → List (List Piece)
  | [] => []
  | (k, v) :: ps => conditionChunks fmt k v :: entriesChunks fmt ps

/-- `DBConditions.compile`, piece by piece. -/
def chunks (fmt : Formatter) : DBConditions → List Piece
  | .mk conditions operator nested =>
    joinChunks (" " ++ operator.text ++ " ") false
      (entriesChunks fmt conditions ++ nestedChunks fmt nested)

def nestedChunks (fmt : Formatter) : List DBConditions → List (List Piece)
  | [] => []
  | c :: cs => groupChunks (chunks fmt c) :: nestedChunks fmt cs
end

/-! ## The chunks are the compiled text -/

@[simp] theorem whole_nil : whole [] = ⟨"", []⟩ := rfl

@[simp] theorem whole_cons (p : Piece) (ps : List Piece) :
    whole (p :: ps) = ⟨p.sql ++ (whole ps).sql, p.params ++ (whole ps).params⟩ := rfl

@[simp] theorem whole_append (ps qs : List Piece) :
    whole (ps ++ qs) =
      ⟨(whole ps).sql ++ (whole qs).sql, (whole ps).params ++ (whole qs).params⟩ := by
  induction ps with
  | nil => simp
  | cons p ps ih => simp [ih, String.append_assoc]

theorem join_cons (sep s : String) (ss : List String) :
    join sep (s :: ss) = s ++ ss.foldr (fun t acc => sep ++ t ++ acc) "" := by
  induction ss generalizing s with
  | nil => simp [join]
  | cons t ss ih => simp [join, ih, String.append_assoc]

theorem whole_sepChunks (sep : String) (ps : List (List Piece)) :
    whole (sepChunks sep ps) =
      ⟨join sep (ps.map fun p => (whole p).sql), ps.flatMap fun p => (whole p).params⟩ := by
  induction ps with
  | nil => rfl
  | cons p ps ih =>
    cases ps with
    | nil => simp [sepChunks, join]
    | cons q ps =>
      simp only [sepChunks, whole_append, whole_cons, ih]
      simp [chunk, join, String.append_assoc]

/-- The filtered texts of the parts. -/
def partTexts (ps : List (List Piece)) : List String :=
  (ps.map fun p => (whole p).sql).filter (· ≠ "")

theorem whole_joinChunks_true (sep : String) (ps : List (List Piece)) :
    whole (joinChunks sep true ps) =
      ⟨(partTexts ps).foldr (fun t acc => sep ++ t ++ acc) "",
        ps.flatMap fun p => (whole p).params⟩ := by
  induction ps with
  | nil => rfl
  | cons p ps ih =>
    simp only [joinChunks]
    split
    · rename_i h
      simp [ih, h, partTexts]
    · rename_i h
      simp [ih, h, partTexts, chunk, String.append_assoc]

theorem whole_joinChunks (sep : String) (ps : List (List Piece)) :
    whole (joinChunks sep false ps) = joinPieces sep (ps.map whole) := by
  have htexts : ∀ ps : List (List Piece),
      ((ps.map whole).map Piece.sql).filter (· ≠ "") = partTexts ps := by
    intro ps
    simp [partTexts, Function.comp_def]
  induction ps with
  | nil => rfl
  | cons p ps ih =>
    simp only [joinChunks]
    split
    · rename_i h
      simp [ih, h, joinPieces]
    · rename_i h
      simp only [Bool.false_eq_true, if_false, List.nil_append, whole_append,
        whole_joinChunks_true, joinPieces, htexts]
      simp [partTexts, h, join_cons, List.flatMap_map]

theorem whole_wrapChunks (ps : List Piece) : whole (wrapChunks ps) = (whole ps).wrap := by
  simp [wrapChunks, chunk, Piece.wrap, String.append_assoc]

theorem whole_groupChunks (ps : List Piece) : whole (groupChunks ps) = (whole ps).group := by
  unfold groupChunks Piece.group
  split
  · rfl
  · exact whole_wrapChunks ps

theorem whole_listChunks (placeholder : String) (values : List CondVal) :
    whole (listChunks placeholder values) = ⟨placeholders placeholder values, values⟩ := by
  rw [listChunks, whole_sepChunks]
  simp [placeholders, Function.comp_def, List.flatMap_map]

theorem keyed_append (key rest keyless t : String) :
    keyed key rest keyless ++ t = keyed key (rest ++ t) (keyless ++ t) := by
  unfold keyed
  split
  · exact String.append_assoc
  · rfl

theorem whole_inListChunks (key placeholder : String) (values : List CondVal) :
    whole (inListChunks key placeholder values) = inList key placeholder values := by
  unfold inListChunks inList
  split
  · simp [chunk]
  · have hin : " IN (" = " IN " ++ "(" := by decide
    simp only [whole_cons, whole_append, whole_listChunks, chunk, whole_nil, keyed_append, hin,
      String.append_assoc, String.append_empty, List.nil_append, List.append_nil]

theorem whole_whereChunks (ps : List (List Piece)) :
    whole (whereChunks ps) = whereClause (ps.map whole) := by
  unfold whereChunks whereClause
  cases ps with
  | nil => rfl
  | cons p ps => simp [whole_sepChunks, chunk, Function.comp_def, List.flatMap_map]

mutual
theorem DBToken.whole_chunks (fmt : Formatter) (key : String) (t : DBToken) :
    whole (t.chunks fmt key) = t.compile fmt key := by
  cases t with
  | value v operator =>
    simp [DBToken.chunks, DBToken.compile, chunk, keyed_append, String.append_assoc]
  | cast v sqlType operator =>
    simp [DBToken.chunks, DBToken.compile, chunk, keyed_append, String.append_assoc]
  | array values => exact whole_inListChunks key "?" values
  | castArray values sqlType => exact whole_inListChunks key _ values
  | tupleIn columns tuples =>
    simp only [DBToken.chunks, DBToken.compile]
    split
    · simp [chunk]
    · have hwrap : ∀ t : List CondVal, (whole (wrapChunks (listChunks "?" t))) =
          ⟨"(" ++ placeholders "?" t ++ ")", t⟩ := by
        intro t
        rw [whole_wrapChunks, whole_listChunks, Piece.wrap]
      simp only [whole_cons, whole_append, whole_sepChunks, List.map_map, Function.comp_def, hwrap,
        List.flatMap_map, chunk, whole_nil]
      simp [String.append_assoc, List.flatMap_id']
  | subquery parentColumns tableName selectColumns conditions notIn =>
    simp only [DBToken.chunks, DBToken.compile, whole_append, whole_cons, whole_whereChunks,
      whole_subqueryChunks conditions, chunk, whole_nil]
    simp [String.append_assoc]
  | existsIn tableName conditions notExists =>
    simp only [DBToken.chunks, DBToken.compile, whole_append, whole_cons, whole_whereChunks,
      whole_subqueryChunks conditions, chunk, whole_nil]
    simp [String.append_assoc]
  | _ => simp [DBToken.chunks]

theorem whole_subqueryChunks (conditions : List (ColumnRef × CondVal)) :
    (subqueryChunks conditions).map whole = subqueryConditions conditions := by
  cases conditions with
  | nil => rfl
  | cons c conditions =>
    obtain ⟨col, v⟩ := c
    simp only [subqueryChunks, subqueryConditions, List.map_cons]
    rw [whole_subqueryConditionChunks (formatColumn col) v, whole_subqueryChunks conditions]

theorem whole_subqueryConditionChunks (colRef : String) (v : CondVal) :
    whole (subqueryConditionChunks colRef v) = subqueryCondition colRef v := by
  cases v with
  | token t =>
    have ih := DBToken.whole_chunks none colRef t
    cases t with
    | parentRef column => simp [subqueryConditionChunks, subqueryCondition, chunk]
    | _ => exact ih
  | js v h =>
    cases v with
    | null => simp [subqueryConditionChunks, subqueryCondition, chunk]
    | _ => simp [subqueryConditionChunks, subqueryCondition, chunk, String.append_assoc]
  | arr xs =>
    simp only [subqueryConditionChunks, subqueryCondition]
    split
    · simp [chunk]
    · simp [chunk, whole_listChunks, String.append_assoc]
  | _ => simp [subqueryConditionChunks, subqueryCondition, chunk, String.append_assoc]
end

theorem whole_arrayChunks (key : String) (values : List CondVal) :
    whole (arrayChunks key values) = compileArray key values := by
  unfold arrayChunks compileArray
  split
  · simp
  · split
    · simp [chunk]
    · simp [chunk, whole_listChunks, String.append_assoc]

theorem whole_scalarChunks (key : String) (v : CondVal) :
    whole (scalarChunks key v) = compileScalar key v := by
  unfold scalarChunks compileScalar
  split <;> simp [chunk, String.append_assoc]

theorem whole_jsChunks (key : String) (v : JsVal) (h : v.isAtom = true) :
    whole (jsChunks key v h) = compileJs key v h := by
  cases v with
  | null => simp [jsChunks, compileJs, chunk]
  | bool b => simp [jsChunks, compileJs]
  | _ => exact whole_scalarChunks key _

theorem whole_orChunks (groups : List (List Piece)) :
    whole (orChunks groups) = compileOr (groups.map whole) := by
  rw [orChunks, whole_groupChunks, whole_joinChunks, compileOr]
  simp [whole_groupChunks, Function.comp_def]

mutual
theorem whole_conditionChunks (fmt : Formatter) (key : String) (v : CondVal) :
    whole (conditionChunks fmt key v) = compileCondition fmt key v := by
  cases v with
  | js v h =>
    simp only [conditionChunks, compileCondition]
    split
    · simp
    · split
      · rfl
      · exact whole_jsChunks key v h
  | skip =>
    simp only [conditionChunks, compileCondition]
    split
    · rfl
    · exact whole_scalarChunks key .skip
  | obj ps =>
    simp only [conditionChunks, compileCondition]
    split
    · rfl
    · exact whole_scalarChunks key (.obj ps)
  | token t =>
    simp only [conditionChunks, compileCondition]
    split
    · rfl
    · exact t.whole_chunks fmt key
  | nested c =>
    simp only [conditionChunks, compileCondition]
    split
    · rfl
    · rw [whole_wrapChunks, whole_chunks fmt c]
  | arr xs =>
    simp only [conditionChunks, compileCondition]
    split
    · rw [whole_orChunks, whole_groupsChunks fmt xs]
    · split
      · simp
      · split
        · rfl
        · exact whole_arrayChunks key xs

theorem whole_groupsChunks (fmt : Formatter) (xs : List CondVal) :
    (groupsChunks fmt xs).map whole = compileGroups fmt xs := by
  cases xs with
  | nil => rfl
  | cons x xs =>
    have ih := whole_groupsChunks fmt xs
    cases x with
    | obj ps =>
      simp only [groupsChunks, compileGroups, List.map_cons, whole_joinChunks, ih]
      rw [whole_entriesChunks fmt ps]
    | _ => simp [groupsChunks, compileGroups, ih, joinPieces, join]

theorem whole_entriesChunks (fmt : Formatter) (ps : List (String × CondVal)) :
    (entriesChunks fmt ps).map whole = compileEntries fmt ps := by
  cases ps with
  | nil => rfl
  | cons p ps =>
    obtain ⟨k, v⟩ := p
    simp only [entriesChunks, compileEntries, List.map_cons]
    rw [whole_conditionChunks fmt k v, whole_entriesChunks fmt ps]

theorem whole_chunks (fmt : Formatter) (c : DBConditions) : whole (chunks fmt c) = compile fmt c := by
  cases c with
  | mk conditions operator nested =>
    rw [chunks, compile, whole_joinChunks, List.map_append, whole_entriesChunks fmt conditions,
      whole_nestedChunks fmt nested]

theorem whole_nestedChunks (fmt : Formatter) (cs : List DBConditions) :
    (nestedChunks fmt cs).map whole = compileNested fmt cs := by
  cases cs with
  | nil => rfl
  | cons c cs =>
    simp only [nestedChunks, compileNested, List.map_cons, whole_groupChunks]
    rw [whole_chunks fmt c, whole_nestedChunks fmt cs]
end

/-! ## Matching chunks -/

/-- Read the chunks: each has as many live question marks as values. -/
def walk (m : Mode) : List Piece → Option Mode
  | [] => some m
  | p :: ps =>
    if holes (mark m p.sql.toList) = p.params.length then walk (m.run p.sql.toList) ps else none

/-- The placeholders of the compiled text match its parameters, chunk by chunk. -/
def PlaceholdersMatch (fmt : Formatter) (c : DBConditions) : Prop :=
  (walk .code (chunks fmt c)).isSome

/-! ## When they match -/

/-- A text with `n` placeholders, and the mode that it leaves the scanner in. -/
def textFits (n : Nat) (s : String) (m : Mode) : Option Mode :=
  if holes (mark m s.toList) = n then some (m.run s.toList).settle else none

/-- One placeholder for each value. -/
def listFits (placeholder : String) (values : List CondVal) (m : Mode) : Option Mode :=
  values.foldlM (fun m _ => textFits 1 placeholder m) m

def inListFits (key placeholder : String) (values : List CondVal) (m : Mode) : Option Mode :=
  if values = [] then some m
  else (textFits 0 key m).bind (listFits placeholder values)

mutual
def DBToken.fits (fmt : Formatter) (key : String) : DBToken → Mode → Option Mode
  | .value _ operator, m =>
    (textFits 0 (keyed key (" " ++ operator) "") m).bind (textFits 1 "?")
  | .cast _ sqlType operator, m =>
    (textFits 0 (keyed key (" " ++ operator) "") m).bind (textFits 1 (fmt.format "?" sqlType))
  | .array values, m => inListFits key "?" values m
  | .castArray values sqlType, m => inListFits key (fmt.format "?" sqlType) values m
  | .tupleIn columns tuples, m =>
    if tuples = [] then some m
    else (textFits 0 (join ", " columns) m).bind (listFits "?" tuples.flatten)
  | .immediate text operator, m => textFits 0 (keyed key (" " ++ operator ++ " " ++ text) text) m
  | .nullValue, m => textFits 0 key m
  | .notNullValue, m => textFits 0 key m
  | .dynamic func values, m => textFits values.length (keyed key (" = " ++ func) func) m
  | .raw sql, m => textFits 0 (keyed key (" = " ++ sql) sql) m
  | .parentRef column, m => textFits 0 (formatColumn column) m
  | .subquery parentColumns tableName selectColumns conditions _, m =>
    (textFits 0 (columnList parentColumns) m).bind fun m =>
      (textFits 0 (columnList selectColumns) m).bind fun m =>
        (textFits 0 tableName m).bind (subqueryFits conditions)
  | .existsIn tableName conditions _, m => (textFits 0 tableName m).bind (subqueryFits conditions)

def subqueryFits : List (ColumnRef × CondVal) → Mode → Option Mode
  | [], m => some m
  | (col, v) :: conds, m =>
    (subqueryConditionFits (formatColumn col) v m).bind (subqueryFits conds)

def subqueryConditionFits (colRef : String) : CondVal → Mode → Option Mode
  | .token (.parentRef column), m => (textFits 0 colRef m).bind (textFits 0 (formatColumn column))
  | .token t, m => t.fits none colRef m
  | .js .null _, m => textFits 0 colRef m
  | .arr xs, m => if xs = [] then some m else (textFits 0 colRef m).bind (listFits "?" xs)
  | _, m => (textFits 0 colRef m).bind (textFits 1 "?")
end

/-- A list fills a lone question mark, and otherwise one question mark for each value. -/
def arrayFits (key : String) (values : List CondVal) (m : Mode) : Option Mode :=
  if hasHole key then
    if key.toList.count '?' = 1 then
      if values = [] then some (m.run key.toList).settle else textFits 1 key m
    else textFits values.length key m
  else if values = [] then some m
  else (textFits 0 key m).bind (listFits "?" values)

def scalarFits (key : String) (m : Mode) : Option Mode :=
  if hasHole key then textFits 1 key m else (textFits 0 key m).bind (textFits 1 "?")

def jsFits (key : String) : JsVal → Mode → Option Mode
  | .null, m => textFits 0 key m
  | .bool _, m => textFits 0 key m
  | _, m => scalarFits key m

def rawFits (v : CondVal) (m : Mode) : Option Mode :=
  match v with
  | .js (.str s) _ => textFits 0 s m
  | .arr [.js (.str s) _, .arr params] => textFits params.length s m
  | .arr xs => textFits 0 (join " AND " (texts xs)) m
  | _ => some m

mutual
/-- The keys and texts that fit the values, entry by entry; the mode goes from one to the next. -/
def conditionFits (fmt : Formatter) (key : String) : CondVal → Mode → Option Mode
  | .arr xs, m =>
    if key = "__or__" then groupsFits fmt xs m
    else if key = "__raw__" then rawFits (.arr xs) m
    else if reserved key then some m
    else arrayFits key xs m
  | .token t, m => if key = "__raw__" then some m else t.fits fmt key m
  | .nested c, m => if key = "__raw__" then some m else fits fmt c m
  | .js v h, m =>
    if key = "__raw__" then rawFits (.js v h) m
    else if reserved key then some m
    else jsFits key v m
  | .skip, m => if reserved key then some m else scalarFits key m
  | .obj _, m => if reserved key then some m else scalarFits key m

def groupsFits (fmt : Formatter) : List CondVal → Mode → Option Mode
  | [], m => some m
  | .obj ps :: xs, m => (entriesFits fmt ps m).bind (groupsFits fmt xs)
  | _ :: xs, m => groupsFits fmt xs m

def entriesFits (fmt : Formatter) : List (String × CondVal) → Mode → Option Mode
  | [], m => some m
  | (k, v) :: ps, m => (conditionFits fmt k v m).bind (entriesFits fmt ps)

def fits (fmt : Formatter) : DBConditions → Mode → Option Mode
  | .mk conditions _ nested, m => (entriesFits fmt conditions m).bind (nestedFits fmt nested)

def nestedFits (fmt : Formatter) : List DBConditions → Mode → Option Mode
  | [], m => some m
  | c :: cs, m => (fits fmt c m).bind (nestedFits fmt cs)
end

/-! ## Reading chunks -/

theorem walk_append (m : Mode) (ps qs : List Piece) :
    walk m (ps ++ qs) = (walk m ps).bind fun m' => walk m' qs := by
  induction ps generalizing m with
  | nil => rfl
  | cons p ps ih =>
    simp only [List.cons_append, walk]
    split
    · exact ih _
    · rfl

/-- No quote, dash, slash, star or newline, and no question mark. -/
def Separator (s : String) : Prop :=
  s ≠ "" ∧ s.toList.all fun c => decide (Mode.Inert c ∧ c ≠ '?')

instance (s : String) : Decidable (Separator s) := inferInstanceAs (Decidable (_ ∧ _))

theorem holes_separator (m : Mode) {cs : List Char} (h : ∀ c ∈ cs, c ≠ '?') :
    holes (mark m cs) = 0 := by
  induction cs generalizing m with
  | nil => rfl
  | cons c cs ih =>
    have hc : c ≠ '?' := h c List.mem_cons_self
    simp [mark, hc, ih _ fun d hd => h d (List.mem_cons_of_mem c hd)]

theorem Separator.inert {s : String} (h : Separator s) : ∀ c ∈ s.toList, Mode.Inert c ∧ c ≠ '?' :=
  fun c hc => of_decide_eq_true (List.all_eq_true.mp h.2 c hc)

theorem Separator.run {s : String} (h : Separator s) (m : Mode) : m.run s.toList = m.settle := by
  apply Mode.run_inert
  · intro hnil
    exact h.1 (String.toList_eq_nil_iff.mp hnil)
  · exact fun c hc => (h.inert c hc).1

theorem Separator.holes {s : String} (h : Separator s) (m : Mode) :
    SqlText.holes (mark m s.toList) = 0 := holes_separator m fun c hc => (h.inert c hc).2

theorem walk_separator {s : String} (h : Separator s) (m : Mode) (ps : List Piece) :
    walk m (chunk s :: ps) = walk m.settle ps := by
  simp [walk, chunk, h.run, h.holes]

/-- A text that ends in a separator. -/
theorem walk_text_separator {t : String} (h : Separator t) (s : String) (vs : List CondVal)
    (m : Mode) (ps : List Piece) :
    walk m (⟨s ++ t, vs⟩ :: ps) = (textFits vs.length s m).bind fun m' => walk m' ps := by
  simp only [walk, textFits, String.toList_append, mark_append, holes_append, h.holes,
    Nat.add_zero, Mode.run_append, h.run]
  split <;> rfl

/-- A text that begins with a separator. -/
theorem walk_separator_text {t : String} (h : Separator t) (s : String) (vs : List CondVal)
    (m : Mode) (ps : List Piece) :
    walk m (⟨t ++ s, vs⟩ :: ps) = walk m.settle (⟨s, vs⟩ :: ps) := by
  simp only [walk, String.toList_append, mark_append, holes_append, h.holes, Nat.zero_add,
    Mode.run_append, h.run]

/-- What the chunks of a part require, from a mode that remembers no character. -/
def Reads (ps : List Piece) (f : Mode → Option Mode) : Prop :=
  ∀ m : Mode, m.settle = m → (walk m ps).map Mode.settle = f m

theorem Reads.settled {ps : List Piece} {f : Mode → Option Mode} (h : Reads ps f) {m m' : Mode}
    (hm : m.settle = m) (hf : f m = some m') : m'.settle = m' := by
  rw [← h m hm] at hf
  obtain ⟨m'', -, rfl⟩ := Option.map_eq_some_iff.mp hf
  exact Mode.settle_settle m''

theorem reads_text (s : String) (vs : List CondVal) : Reads [⟨s, vs⟩] (textFits vs.length s) := by
  intro m _
  simp only [walk, textFits]
  split <;> rfl

theorem reads_nil : Reads [] some := by
  intro m hm
  simp [walk, hm]

theorem reads_separator {s : String} (h : Separator s) : Reads [chunk s] some := by
  intro m hm
  rw [walk_separator h, walk, Option.map_some, Mode.settle_settle, hm]

def thread : List (Mode → Option Mode) → Mode → Option Mode
  | [], m => some m
  | f :: fs, m => (f m).bind (thread fs)

/-- Reading on after a part, from the mode that the part leaves. -/
theorem Reads.bind {ps qs : List Piece} {f g : Mode → Option Mode} (hp : Reads ps f)
    (hq : ∀ m, (walk m qs).map Mode.settle = g m.settle) :
    Reads (ps ++ qs) fun m => (f m).bind g := by
  intro m hm
  dsimp only
  rw [walk_append, ← hp m hm]
  rcases walk m ps with _ | m'
  · rfl
  · exact hq m'

theorem Reads.after_separator {s : String} (hs : Separator s) {qs : List Piece}
    {g : Mode → Option Mode} (hq : Reads qs g) (m : Mode) :
    (walk m (chunk s :: qs)).map Mode.settle = g m.settle := by
  rw [walk_separator hs]
  exact hq _ (Mode.settle_settle m)

theorem reads_sepChunks {sep : String} (hsep : Separator sep) {ps : List (List Piece)}
    {fs : List (Mode → Option Mode)} (h : List.Forall₂ Reads ps fs) :
    Reads (sepChunks sep ps) (thread fs) := by
  induction h with
  | nil => exact reads_nil
  | @cons p f ps fs hp hps ih =>
    cases hps with
    | nil =>
      intro m hm
      simp only [sepChunks, thread, hp m hm]
      rcases f m with _ | m' <;> rfl
    | @cons q g qs gs hq hqs =>
      exact hp.bind fun m => Reads.after_separator hsep ih m

theorem walk_blank {ps : List Piece} (h : (whole ps).sql = "") (m : Mode) :
    walk m ps = if (whole ps).params = [] then some m else none := by
  induction ps with
  | nil => rfl
  | cons p ps ih =>
    have hp : p.sql = "" := by
      by_contra hne
      exact append_ne_empty_left hne h
    have hps : (whole ps).sql = "" := by
      by_contra hne
      exact append_ne_empty hne h
    rw [walk, hp]
    simp only [String.toList_empty, mark, holes_nil, Mode.run_nil, ih hps, whole_cons]
    by_cases hv : p.params = []
    · simp [hv]
    · have hl : 0 ≠ p.params.length := fun h0 => hv (List.length_eq_zero_iff.mp h0.symm)
      simp [hv, hl]

theorem walk_joinChunks {sep : String} (hsep : Separator sep) {ps : List (List Piece)}
    {fs : List (Mode → Option Mode)} (h : List.Forall₂ Reads ps fs) (started : Bool) (m : Mode)
    (hm : started = false → m.settle = m) :
    (walk m (joinChunks sep started ps)).map Mode.settle = thread fs m.settle := by
  induction h generalizing started m with
  | nil => rfl
  | @cons p f ps fs hp hps ih =>
    rw [joinChunks, thread]
    split
    · rename_i hblank
      rw [walk_append, ← hp m.settle (Mode.settle_settle m), walk_blank hblank, walk_blank hblank]
      split
      · simpa using ih started m hm
      · rfl
    · have hpart := (hp.bind fun m' => ih true m' (by simp)) m.settle (Mode.settle_settle m)
      cases started with
      | true => simpa [walk_separator hsep] using hpart
      | false => simpa [hm rfl] using hpart

theorem reads_joinChunks {sep : String} (hsep : Separator sep) {ps : List (List Piece)}
    {fs : List (Mode → Option Mode)} (h : List.Forall₂ Reads ps fs) :
    Reads (joinChunks sep false ps) (thread fs) := by
  intro m hm
  rw [walk_joinChunks hsep h false m fun _ => hm, hm]

theorem separator_open : Separator "(" := by decide

theorem separator_close : Separator ")" := by decide

theorem Reads.wrap {ps : List Piece} {f : Mode → Option Mode} (h : Reads ps f) :
    Reads (wrapChunks ps) f := by
  intro m hm
  rw [wrapChunks, walk_separator separator_open, walk_append, ← h m hm, hm]
  rcases walk m ps with _ | m'
  · rfl
  · dsimp only [Option.bind_some, Option.map_some]
    rw [walk_separator separator_close, walk, Option.map_some, Mode.settle_settle]

theorem Reads.group {ps : List Piece} {f : Mode → Option Mode} (h : Reads ps f) :
    Reads (groupChunks ps) f := by
  unfold groupChunks
  split
  · exact h
  · exact h.wrap

/-! ## The chunks of each kind of value -/

theorem Reads.text_separator {t : String} (ht : Separator t) (s : String) (vs : List CondVal)
    {qs : List Piece} {g : Mode → Option Mode} (hq : Reads qs g) :
    Reads (⟨s ++ t, vs⟩ :: qs) fun m => (textFits vs.length s m).bind g := by
  intro m _
  rw [walk_text_separator ht]
  by_cases hh : holes (mark m s.toList) = vs.length
  · simpa [textFits, hh] using hq _ (Mode.settle_settle _)
  · simp [textFits, hh]

theorem Reads.separator_text {t : String} (ht : Separator t) {s : String} {vs : List CondVal}
    {qs : List Piece} {f : Mode → Option Mode} (h : Reads (⟨s, vs⟩ :: qs) f) :
    Reads (⟨t ++ s, vs⟩ :: qs) f := by
  intro m hm
  rw [walk_separator_text ht, hm]
  exact h m hm

theorem Reads.close {s : String} (hs : Separator s) {ps : List Piece} {f : Mode → Option Mode}
    (h : Reads ps f) : Reads (ps ++ [chunk s]) f := by
  intro m hm
  rw [walk_append, ← h m hm]
  rcases walk m ps with _ | m'
  · rfl
  · dsimp only [Option.bind_some, Option.map_some]
    rw [walk_separator hs, walk, Option.map_some, Mode.settle_settle]

theorem keyed_eq (key rest keyless : String) :
    keyed key rest keyless = key ++ (if key ≠ "" then rest else keyless) := by
  unfold keyed
  split
  · rfl
  · rename_i h
    rw [not_not.mp h, String.empty_append]

theorem Reads.keyed {rest keyless : String} (hr : Separator rest) (hk : Separator keyless)
    (key : String) {qs : List Piece} {g : Mode → Option Mode} (hq : Reads qs g) :
    Reads (chunk (keyed key rest keyless) :: qs) fun m => (textFits 0 key m).bind g := by
  rw [keyed_eq]
  split
  · exact Reads.text_separator hr key [] hq
  · exact Reads.text_separator hk key [] hq

theorem reads_text_separator {t : String} (ht : Separator t) (s : String) (vs : List CondVal) :
    Reads [⟨s ++ t, vs⟩] (textFits vs.length s) := by
  intro m hm
  have h := Reads.text_separator ht s vs reads_nil m hm
  simp only [Option.bind_fun_some] at h
  exact h

theorem Reads.keyed_last {rest keyless : String} (hr : Separator rest) (hk : Separator keyless)
    (key : String) : Reads [chunk (LiteDb.keyed key rest keyless)] (textFits 0 key) := by
  rw [keyed_eq]
  split
  · exact reads_text_separator hr key []
  · exact reads_text_separator hk key []

theorem Reads.stem (key operator : String) {qs : List Piece} {g : Mode → Option Mode}
    (hq : Reads qs g) :
    Reads (chunk (LiteDb.keyed key (" " ++ operator ++ " ") "") :: qs) fun m =>
      (textFits 0 (LiteDb.keyed key (" " ++ operator) "") m).bind g := by
  have hspace : Separator " " := by decide
  unfold LiteDb.keyed
  split
  · rw [← String.append_assoc]
    exact Reads.text_separator hspace _ [] hq
  · intro m hm
    simpa [chunk, walk, textFits, mark, hm] using hq m hm

theorem thread_map_const (f : Mode → Option Mode) (values : List CondVal) (m : Mode) :
    thread (values.map fun _ => f) m = values.foldlM (fun m _ => f m) m := by
  induction values generalizing m with
  | nil => rfl
  | cons v values ih =>
    simp only [List.map_cons, thread, List.foldlM_cons]
    rcases f m with _ | m'
    · rfl
    · exact ih m'

theorem forall₂_map {α : Type} {c : α → List Piece} {f : α → Mode → Option Mode}
    (h : ∀ x, Reads (c x) (f x)) (xs : List α) : List.Forall₂ Reads (xs.map c) (xs.map f) := by
  induction xs with
  | nil => exact List.Forall₂.nil
  | cons x xs ih => exact List.Forall₂.cons (h x) ih

theorem separator_comma : Separator ", " := by decide

theorem reads_listChunks (placeholder : String) (values : List CondVal) :
    Reads (listChunks placeholder values) (listFits placeholder values) := by
  intro m hm
  have hparts := forall₂_map (fun v => reads_text placeholder [v]) values
  rw [listChunks, reads_sepChunks separator_comma hparts m hm]
  exact thread_map_const (textFits 1 placeholder) values m

theorem reads_false : Reads [chunk "1 = 0"] some := reads_separator (by decide)

theorem reads_inListChunks (key placeholder : String) (values : List CondVal) :
    Reads (inListChunks key placeholder values) (inListFits key placeholder values) := by
  unfold inListChunks inListFits
  by_cases hv : values = []
  · simp only [hv, if_true]
    exact reads_false
  · simp only [hv, if_false]
    have hin : Separator " IN (" := by decide
    exact Reads.keyed hin separator_open key ((reads_listChunks _ _).close separator_close)

theorem listFits_append (placeholder : String) (vs ws : List CondVal) (m : Mode) :
    listFits placeholder (vs ++ ws) m =
      (listFits placeholder vs m).bind (listFits placeholder ws) :=
  List.foldlM_append

theorem thread_lists (placeholder : String) (tuples : List (List CondVal)) (m : Mode) :
    thread (tuples.map (listFits placeholder)) m = listFits placeholder tuples.flatten m := by
  induction tuples generalizing m with
  | nil => rfl
  | cons t tuples ih =>
    simp only [List.map_cons, thread, List.flatten_cons, listFits_append]
    rcases listFits placeholder t m with _ | m'
    · rfl
    · exact ih m'

theorem reads_tuples (tuples : List (List CondVal)) :
    Reads (sepChunks ", " (tuples.map fun t => wrapChunks (listChunks "?" t)))
      (listFits "?" tuples.flatten) := by
  intro m hm
  have hparts := forall₂_map (fun t => (reads_listChunks "?" t).wrap) tuples
  rw [reads_sepChunks separator_comma hparts m hm]
  exact thread_lists "?" tuples m

/-- A table name, the conditions of its WHERE clause and the closing parenthesis. -/
theorem reads_table (tableName : String) {parts : List (List Piece)}
    {fs : List (Mode → Option Mode)} (h : List.Forall₂ Reads parts fs) :
    Reads (chunk tableName :: (whereChunks parts ++ [chunk ")"])) fun m =>
      (textFits 0 tableName m).bind (thread fs) := by
  have hrest : ∀ m, (walk m (whereChunks parts ++ [chunk ")"])).map Mode.settle =
      thread fs m.settle := by
    intro m
    cases h with
    | nil => exact Reads.after_separator separator_close reads_nil m
    | @cons p f ps fs hp hps =>
      have hwhere : Separator " WHERE " := by decide
      have hand : Separator " AND " := by decide
      have hparts := reads_sepChunks hand (List.Forall₂.cons hp hps)
      exact Reads.after_separator hwhere (hparts.close separator_close) m
  exact (reads_text tableName []).bind hrest

theorem reads_parents (parentColumns : List ColumnRef) {t : String} (ht : Separator t)
    {qs : List Piece} {g : Mode → Option Mode} (hq : Reads qs g) :
    Reads (chunk (parentList parentColumns ++ t) :: qs) fun m =>
      (textFits 0 (columnList parentColumns) m).bind g := by
  have hlist : Reads (chunk ("(" ++ (columnList parentColumns ++ (")" ++ t))) :: qs) fun m =>
      (textFits 0 (columnList parentColumns) m).bind g := by
    apply Reads.separator_text separator_open
    refine Reads.text_separator ?_ _ [] hq
    refine ⟨append_ne_empty_left (by decide), ?_⟩
    rw [String.toList_append, List.all_append, ht.2]
    decide
  unfold parentList
  split
  · exact Reads.text_separator ht _ [] hq
  · rw [String.append_assoc, String.append_assoc]
    exact hlist

theorem thread_subquery {fs : List (Mode → Option Mode)} {conditions : List (ColumnRef × CondVal)}
    (h : fs = conditions.map fun c => subqueryConditionFits (formatColumn c.1) c.2) :
    thread fs = subqueryFits conditions := by
  subst h
  induction conditions with
  | nil => rfl
  | cons c conditions ih =>
    funext m
    simp only [List.map_cons, thread, subqueryFits, ih]

mutual
theorem DBToken.reads_chunks (fmt : Formatter) (key : String) (t : DBToken) :
    Reads (t.chunks fmt key) (t.fits fmt key) := by
  cases t with
  | value v operator => exact Reads.stem key operator (reads_text "?" [v])
  | cast v sqlType operator => exact Reads.stem key operator (reads_text _ [v])
  | array values => exact reads_inListChunks key "?" values
  | castArray values sqlType => exact reads_inListChunks key _ values
  | tupleIn columns tuples =>
    intro m hm
    simp only [DBToken.chunks, DBToken.fits]
    split
    · exact reads_false m hm
    · have hin : Separator ") IN (" := by decide
      have hlist := Reads.text_separator hin (join ", " columns) []
        ((reads_tuples tuples).close separator_close)
      have h := Reads.separator_text separator_open hlist m hm
      rwa [← String.append_assoc] at h
  | immediate text operator => exact reads_text _ []
  | nullValue =>
    have hnull : Separator " IS NULL" := by decide
    have hbare : Separator "NULL" := by decide
    exact Reads.keyed_last hnull hbare key
  | notNullValue =>
    have hnull : Separator " IS NOT NULL" := by decide
    have hbare : Separator "NOT NULL" := by decide
    exact Reads.keyed_last hnull hbare key
  | dynamic func values => exact reads_text _ values
  | raw sql => exact reads_text _ []
  | parentRef column => exact reads_text _ []
  | subquery parentColumns tableName selectColumns conditions notIn =>
    have hselect : Separator "SELECT " := by decide
    have hfrom : Separator " FROM " := by decide
    have hop : Separator (if notIn then " NOT IN (" else " IN (") := by
      cases notIn <;> decide
    have htable := reads_table tableName (reads_subqueryChunks conditions)
    rw [thread_subquery rfl] at htable
    refine reads_parents parentColumns hop ?_
    rw [String.append_assoc]
    exact Reads.separator_text hselect (Reads.text_separator hfrom _ [] htable)
  | existsIn tableName conditions notExists =>
    have hop : Separator ((if notExists then "NOT EXISTS" else "EXISTS") ++ " (SELECT 1 FROM ") := by
      cases notExists <;> decide
    have htable := reads_table tableName (reads_subqueryChunks conditions)
    rw [thread_subquery rfl] at htable
    intro m hm
    have h := Reads.after_separator hop htable m
    rwa [hm] at h

theorem reads_subqueryChunks (conditions : List (ColumnRef × CondVal)) :
    List.Forall₂ Reads (subqueryChunks conditions)
      (conditions.map fun c => subqueryConditionFits (formatColumn c.1) c.2) := by
  cases conditions with
  | nil => exact List.Forall₂.nil
  | cons c conditions =>
    obtain ⟨col, v⟩ := c
    exact List.Forall₂.cons (reads_subqueryConditionChunks (formatColumn col) v)
      (reads_subqueryChunks conditions)

theorem reads_subqueryConditionChunks (colRef : String) (v : CondVal) :
    Reads (subqueryConditionChunks colRef v) (subqueryConditionFits colRef v) := by
  have hequal : Separator " = " := by decide
  have hscalar : ∀ v : CondVal, Reads [chunk (colRef ++ " = "), ⟨"?", [v]⟩] fun m =>
      (textFits 0 colRef m).bind (textFits 1 "?") :=
    fun v => Reads.text_separator hequal colRef [] (reads_text "?" [v])
  cases v with
  | token t =>
    have ih := DBToken.reads_chunks none colRef t
    cases t with
    | parentRef column => exact Reads.text_separator hequal colRef [] (reads_text _ [])
    | _ => exact ih
  | js v h =>
    cases v with
    | null =>
      have hnull : Separator " IS NULL" := by decide
      exact reads_text_separator hnull colRef []
    | _ => exact hscalar _
  | arr xs =>
    have hin : Separator " IN (" := by decide
    intro m hm
    simp only [subqueryConditionChunks, subqueryConditionFits]
    split
    · exact reads_false m hm
    · exact Reads.text_separator hin colRef [] ((reads_listChunks "?" xs).close separator_close) m hm
  | _ => exact hscalar _
end

/-! ## The chunks of a condition object -/

theorem replaceHole_split {text a b : List Char} (ha : '?' ∉ a) :
    replaceHole text (a ++ '?' :: b) = a ++ (text ++ b) := by
  induction a with
  | nil => simp [replaceHole]
  | cons c a ih =>
    simp only [List.mem_cons, not_or] at ha
    simp [replaceHole, Ne.symm ha.1, ih ha.2]

theorem holes_inert (m : Mode) {cs : List Char} (h : ∀ c ∈ cs, Mode.Inert c) :
    holes (mark m cs) = if m.live then cs.count '?' else 0 := by
  induction cs generalizing m with
  | nil => simp [mark]
  | cons c cs ih =>
    have hrest := ih m.settle fun d hd => h d (List.mem_cons_of_mem c hd)
    rw [mark, holes_cons, Mode.step_inert m (h c List.mem_cons_self), hrest, Mode.live_settle]
    cases m.live <;> by_cases hc : c = '?' <;> simp [hc]

theorem single_hole {cs : List Char} (h : cs.count '?' = 1) :
    ∃ a b, cs = a ++ '?' :: b ∧ '?' ∉ a ∧ '?' ∉ b := by
  have hmem : '?' ∈ cs := List.count_pos_iff.mp (by omega)
  obtain ⟨a, b, rfl, ha⟩ := List.eq_append_cons_of_mem hmem
  refine ⟨a, b, rfl, ha, ?_⟩
  rw [List.count_append, List.count_cons_self, List.count_eq_zero_of_not_mem ha] at h
  exact List.count_eq_zero.mp (by omega)

theorem inert_hole : Mode.Inert '?' := by decide

/-- An inert text in the place of a lone question mark. -/
theorem mark_replaceHole (m : Mode) {text cs : List Char} (hne : text ≠ [])
    (ht : ∀ c ∈ text, Mode.Inert c) (h : cs.count '?' = 1) :
    m.run (replaceHole text cs) = m.run cs ∧
      holes (mark m (replaceHole text cs)) = text.count '?' * holes (mark m cs) := by
  obtain ⟨a, b, rfl, ha, hb⟩ := single_hole h
  have hzero : ∀ (m : Mode) (cs : List Char), '?' ∉ cs → holes (mark m cs) = 0 := by
    intro m cs hcs
    apply holes_separator
    rintro c hc rfl
    exact hcs hc
  rw [replaceHole_split ha]
  constructor
  · simp only [Mode.run_append, Mode.run_cons, Mode.run_inert _ hne ht,
      Mode.step_inert _ inert_hole]
  · simp only [mark_append, holes_append, mark, holes_cons, hzero _ _ ha, hzero _ _ hb,
      holes_inert _ ht]
    cases (m.run a).live <;> simp

theorem placeholders_inert (values : List CondVal) :
    ∀ c ∈ (placeholders "?" values).toList, Mode.Inert c := by
  have hcomma : ∀ c ∈ ", ".toList, Mode.Inert c := fun c hc => (separator_comma.inert c hc).1
  induction values with
  | nil => simp [placeholders, join]
  | cons v values ih =>
    cases values with
    | nil =>
      intro c hc
      have : c = '?' := by simpa [placeholders, join] using hc
      exact this ▸ inert_hole
    | cons w values =>
      intro c hc
      have hc' : c ∈ "?".toList ∨ c ∈ ", ".toList ∨ c ∈ (placeholders "?" (w :: values)).toList := by
        simpa only [placeholders, List.map_cons, join, String.toList_append, List.mem_append,
          or_assoc] using hc
      rcases hc' with hc | hc | hc
      · have : c = '?' := by simpa using hc
        exact this ▸ inert_hole
      · exact hcomma c hc
      · exact ih c hc

theorem placeholders_count (values : List CondVal) :
    (placeholders "?" values).toList.count '?' = values.length := by
  induction values with
  | nil => rfl
  | cons v values ih =>
    cases values with
    | nil => simp [placeholders, join]
    | cons w values =>
      have hcount : "?".toList.count '?' = 1 := by decide
      have hcomma : ", ".toList.count '?' = 0 := by decide
      simp only [placeholders, List.map_cons, join, String.toList_append, List.count_append,
        hcount, hcomma] at ih ⊢
      rw [ih]
      simp [Nat.add_comm]

theorem reads_compileCustomArray {key : String} (hh : hasHole key = true)
    (values : List CondVal) : Reads [compileCustomArray key values] (arrayFits key values) := by
  intro m hm
  have hnull : ∀ c ∈ "NULL".toList, Mode.Inert c := by simp [Mode.Inert]
  simp only [arrayFits, hh, if_true, compileCustomArray]
  by_cases hone : key.toList.count '?' = 1
  · by_cases hv : values = []
    · obtain ⟨hrun, hholes⟩ := mark_replaceHole m (by decide) hnull hone
      have hzero : "NULL".toList.count '?' = 0 := by decide
      simp only [hone, hv, and_self, if_true, walk, String.toList_ofList, hrun, hholes, hzero,
        Nat.zero_mul, List.length_nil, Option.map_some]
    · by_cases hlen : values.length = 1
      · have h := reads_text key values m hm
        simpa [hone, hv, hlen] using h
      · have hne : (placeholders "?" values).toList ≠ [] := by
          have hp : placeholders "?" values ≠ "" := placeholders_ne_empty (by decide) hv
          simpa using hp
        obtain ⟨hrun, hholes⟩ := mark_replaceHole m hne (placeholders_inert values) hone
        have hpos : 0 < values.length := List.length_pos_iff.mpr hv
        have hiff : values.length * holes (mark m key.toList) = values.length ↔
            holes (mark m key.toList) = 1 := by
          constructor
          · intro h
            exact Nat.eq_of_mul_eq_mul_left hpos (by omega)
          · intro h
            rw [h, Nat.mul_one]
        simp only [hone, hv, hlen, walk, textFits, and_false, if_false, ne_eq,
          not_false_eq_true, and_self, if_true, String.toList_ofList, hrun, hholes,
          placeholders_count, hiff]
        split <;> rfl
  · have h := reads_text key values m hm
    simpa [hone] using h

theorem reads_arrayChunks (key : String) (values : List CondVal) :
    Reads (arrayChunks key values) (arrayFits key values) := by
  unfold arrayChunks
  split
  · rename_i hh
    exact reads_compileCustomArray hh values
  · rename_i hh
    have hin : Separator " IN (" := by decide
    unfold arrayFits
    simp only [hh, if_false, Bool.false_eq_true]
    by_cases hv : values = []
    · simp only [hv, if_true]
      exact reads_false
    · simp only [hv, if_false]
      exact Reads.text_separator hin key [] ((reads_listChunks "?" values).close separator_close)

theorem reads_scalarChunks (key : String) (v : CondVal) :
    Reads (scalarChunks key v) (scalarFits key) := by
  have hequal : Separator " = " := by decide
  intro m hm
  unfold scalarChunks scalarFits
  split
  · exact reads_text key [v] m hm
  · exact Reads.text_separator hequal key [] (reads_text "?" [v]) m hm

theorem reads_compileBool (key : String) (b : Bool) :
    Reads [compileBool key b] (textFits 0 key) := by
  have htrue : Separator " = TRUE" := by decide
  have hfalse : Separator " = FALSE" := by decide
  unfold compileBool
  split
  · exact reads_text key []
  · rw [String.append_assoc]
    cases b with
    | true => exact reads_text_separator htrue key []
    | false => exact reads_text_separator hfalse key []

theorem reads_jsChunks (key : String) (v : JsVal) (h : v.isAtom = true) :
    Reads (jsChunks key v h) (jsFits key v) := by
  cases v with
  | null =>
    have hnull : Separator " IS NULL" := by decide
    exact reads_text_separator hnull key []
  | bool b => exact reads_compileBool key b
  | _ => exact reads_scalarChunks key _

theorem reads_compileRaw (v : CondVal) : Reads [compileRaw v] (rawFits v) := by
  intro m hm
  fun_cases compileRaw v with
  | case1 s h => exact reads_text s [] m hm
  | case2 s h params => exact reads_text s params m hm
  | case3 xs hpair =>
    rw [rawFits.eq_3 m xs hpair]
    exact reads_text _ [] m hm
  | case4 v hstr harr hpair => simp [rawFits, walk, mark, hm]

theorem reads_orChunks {groups : List (List Piece)} {fs : List (Mode → Option Mode)}
    (h : List.Forall₂ Reads groups fs) : Reads (orChunks groups) (thread fs) := by
  have hor : Separator " OR " := by decide
  apply Reads.group
  apply reads_joinChunks hor
  exact List.forall₂_map_left_iff.mpr (h.imp fun _ _ hr => hr.group)

theorem separator_operator (operator : Operator) : Separator (" " ++ operator.text ++ " ") := by
  cases operator <;> decide

/-- The parts of a list of entries or groups, and what each of them requires. -/
def Threads (ps : List (List Piece)) (f : Mode → Option Mode) : Prop :=
  ∃ fs, List.Forall₂ Reads ps fs ∧ thread fs = f

theorem Threads.nil : Threads [] some := ⟨[], List.Forall₂.nil, rfl⟩

theorem Threads.cons {p : List Piece} {ps : List (List Piece)} {f g : Mode → Option Mode}
    (hp : Reads p f) (hps : Threads ps g) : Threads (p :: ps) fun m => (f m).bind g := by
  obtain ⟨fs, hfs, rfl⟩ := hps
  exact ⟨f :: fs, List.Forall₂.cons hp hfs, rfl⟩

theorem Threads.append {ps qs : List (List Piece)} {f g : Mode → Option Mode}
    (hp : Threads ps f) (hq : Threads qs g) : Threads (ps ++ qs) fun m => (f m).bind g := by
  obtain ⟨fs, hfs, rfl⟩ := hp
  obtain ⟨gs, hgs, rfl⟩ := hq
  refine ⟨fs ++ gs, List.rel_append hfs hgs, ?_⟩
  clear hfs hgs
  funext m
  induction fs generalizing m with
  | nil => rfl
  | cons f fs ih =>
    simp only [List.cons_append, thread]
    rcases f m with _ | m'
    · rfl
    · exact ih m'

mutual
theorem reads_conditionChunks (fmt : Formatter) (key : String) (v : CondVal) :
    Reads (conditionChunks fmt key v) (conditionFits fmt key v) := by
  intro m hm
  cases v with
  | js v h =>
    simp only [conditionChunks, conditionFits]
    split
    · exact reads_compileRaw _ m hm
    · split
      · exact reads_nil m hm
      · exact reads_jsChunks key v h m hm
  | skip =>
    simp only [conditionChunks, conditionFits]
    split
    · exact reads_nil m hm
    · exact reads_scalarChunks key .skip m hm
  | obj ps =>
    simp only [conditionChunks, conditionFits]
    split
    · exact reads_nil m hm
    · exact reads_scalarChunks key (.obj ps) m hm
  | token t =>
    simp only [conditionChunks, conditionFits]
    split
    · exact reads_nil m hm
    · exact t.reads_chunks fmt key m hm
  | nested c =>
    simp only [conditionChunks, conditionFits]
    split
    · exact reads_nil m hm
    · exact (reads_chunks fmt c).wrap m hm
  | arr xs =>
    simp only [conditionChunks, conditionFits]
    split
    · obtain ⟨fs, hfs, heq⟩ := threads_groupsChunks fmt xs
      rw [← heq]
      exact reads_orChunks hfs m hm
    · split
      · exact reads_compileRaw _ m hm
      · split
        · exact reads_nil m hm
        · exact reads_arrayChunks key xs m hm

theorem threads_groupsChunks (fmt : Formatter) (xs : List CondVal) :
    Threads (groupsChunks fmt xs) (groupsFits fmt xs) := by
  have hand : Separator " AND " := by decide
  cases xs with
  | nil => exact Threads.nil
  | cons x xs =>
    have ih := threads_groupsChunks fmt xs
    cases x with
    | obj ps =>
      obtain ⟨fs, hfs, heq⟩ := threads_entriesChunks fmt ps
      have hp := reads_joinChunks hand hfs
      rw [heq] at hp
      exact Threads.cons hp ih
    | _ => exact Threads.cons reads_nil ih

theorem threads_entriesChunks (fmt : Formatter) (ps : List (String × CondVal)) :
    Threads (entriesChunks fmt ps) (entriesFits fmt ps) := by
  cases ps with
  | nil => exact Threads.nil
  | cons p ps =>
    obtain ⟨k, v⟩ := p
    exact Threads.cons (reads_conditionChunks fmt k v) (threads_entriesChunks fmt ps)

theorem reads_chunks (fmt : Formatter) (c : DBConditions) :
    Reads (chunks fmt c) (fits fmt c) := by
  cases c with
  | mk conditions operator nested =>
    obtain ⟨fs, hfs, heq⟩ :=
      (threads_entriesChunks fmt conditions).append (threads_nestedChunks fmt nested)
    have h := reads_joinChunks (separator_operator operator) hfs
    rw [heq] at h
    exact h

theorem threads_nestedChunks (fmt : Formatter) (cs : List DBConditions) :
    Threads (nestedChunks fmt cs) (nestedFits fmt cs) := by
  cases cs with
  | nil => exact Threads.nil
  | cons c cs => exact Threads.cons (reads_chunks fmt c).group (threads_nestedChunks fmt cs)
end

/--
The chunks are the compiled text and parameters, and their placeholders match exactly when every
key and text fits the kind of its value.
-/
theorem placeholdersMatch_iff (fmt : Formatter) (c : DBConditions) :
    whole (chunks fmt c) = compile fmt c ∧
      (PlaceholdersMatch fmt c ↔ (fits fmt c .code).isSome) := by
  refine ⟨whole_chunks fmt c, ?_⟩
  rw [← reads_chunks fmt c .code rfl, Option.isSome_map]
  exact Iff.rfl

/-- A key with a placeholder loses its value when the value is null. -/
theorem placeholders_null :
    ¬ PlaceholdersMatch none (.mk [("age > ?", .js .null rfl)] .and []) := by
  rw [PlaceholdersMatch, ← Option.isSome_map (f := Mode.settle), reads_chunks none _ .code rfl]
  decide

end LiteDb
