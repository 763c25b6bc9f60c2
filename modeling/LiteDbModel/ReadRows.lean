import LiteDbModel.Lib.Exit
import LiteDbModel.TxOutput

/-!
# The row of a read

A projection is read twice: the row's type and the classes its cells are materialized by are
derived column by column, and so are the classes of a relation's child rows. Selected relations
are nested under their names.
-/

namespace LiteDb.ReadRows
set_option autoImplicit false
open CellTypes (OutType isLineEnd)
open Scan (isWordChar dropWord dropSpaces trim)
open TxOutput (PortableType nameAt)

/-! ## Projected columns -/

inductive ProjectionEntry
  | column (underlying outputKey : List Char) (qualifier : Option (List Char))
  | computed (text : List Char)
deriving DecidableEq

/-- `[A-Za-z_][A-Za-z0-9_]*` as a whole. -/
def isName (cs : List Char) : Bool := nameAt cs = some cs

/-- The groups of `/^(.*?)\s+AS\s+([A-Za-z_][A-Za-z0-9_]*)$/i`; read from the end, where the alias
and the blanks around the word stand in one way. -/
def splitAlias (raw : List Char) : Option (List Char × List Char) :=
  let name := (raw.reverse.takeWhile isWordChar).reverse
  let rest := raw.reverse.dropWhile isWordChar
  if isName name then
    (((dropSpaces rest).bind (dropWord "sa".toList)).bind dropSpaces).bind fun rest =>
      if rest.any isLineEnd then none else some (rest.reverse, name)
  else none

/-- The groups of a bare or qualified column reference. -/
def columnRef (expr : List Char) : Option (Option (List Char) × List Char) :=
  match expr.splitOn '.' with
  | [col] => if isName col then some (none, col) else none
  | [qualifier, col] => if isName qualifier && isName col then some (some qualifier, col) else none
  | _ => none

def wildcard (raw table : List Char) (at_ : String) : String :=
  "outtype: " ++ at_ ++ ": SELECT on '" ++ String.ofList table ++ "' projects '" ++
    String.ofList raw ++ "' (a wildcard). A typed de-box needs the concrete column list to " ++
    "build the row struct + type each column — spec §4.1 is column-typed. Project explicit columns " ++
    "(no-assume, no-fallback)."

def parseProjectionColumn (col table : List Char) (at_ : String) : Except String ProjectionEntry :=
  let raw := trim col
  if raw = ['*'] ∨ ".*".toList <:+ raw then .error (wildcard raw table at_)
  else
    let asMatch := splitAlias raw
    let expr := (asMatch.map fun m => trim m.1).getD raw
    match columnRef expr with
    | some (qualifier, underlying) =>
      .ok (.column underlying ((asMatch.map Prod.snd).getD underlying) qualifier)
    | none => .ok (.computed raw)

/-! ## Declared types -/

/-- `\s+NULL\b` at the head, in any case. -/
def nullAt (cs : List Char) : Bool :=
  match dropSpaces cs with
  | some rest => (rest.takeWhile isWordChar).map Char.toLower = "null".toList
  | none => false

/-- `/\bNOT\s+NULL\b/i.test`; the flag is whether a word character stands before. -/
def sqlTypeIsNotNull : Bool → List Char → Bool
  | _, [] => false
  | inWord, c :: cs =>
    (!inWord && ((c :: cs).takeWhile isWordChar).map Char.toLower = "not".toList &&
      nullAt ((c :: cs).dropWhile isWordChar)) || sqlTypeIsNotNull (isWordChar c) cs

def portable : OutType → PortableType
  | .scalar s => .scalar s
  | .list s => .arr (.scalar s)

/-- The type that a column's cells are read as; one that may be NULL is optional. -/
def cellType (sqlType : List Char) : Except String PortableType :=
  (CellTypes.outType sqlType).map fun type =>
    if sqlTypeIsNotNull false sqlType then portable type else .opt (portable type)

/-! ## The derived row -/

structure ReadRow where
  obj : List (String × PortableType)
  materializers : List (String × MaterializeClass)

def ReadRow.outType (row : ReadRow) : PortableType := .arr (.obj row.obj)

/-- A class of `passthrough` is left out. -/
def addClass (materializers : List (String × MaterializeClass)) (key : String) :
    Option MaterializeClass → List (String × MaterializeClass)
  | some klass => Props.set materializers key klass
  | none => materializers

section Derive
variable (table : List Char) (resolveColumnType : TxOutput.ColumnTypeResolver) (at_ : String)

def deriveColumns (row : ReadRow) : List (List Char) → Except String ReadRow
  | [] => .ok row
  | col :: projection =>
    match parseProjectionColumn col table at_ with
    | .error e => .error e
    | .ok (.computed _) => deriveColumns row projection
    | .ok (.column underlying outputKey qualifier) => do
      let sqlType ← resolveColumnType (qualifier.getD table) underlying
      let type ← cellType sqlType
      let klass ← CellTypes.sqlTypeToMaterializeClass sqlType
      deriveColumns ⟨Props.set row.obj (String.ofList outputKey) type,
        addClass row.materializers (String.ofList outputKey) klass⟩ projection

def deriveReadRow (projection : List (List Char)) : Except String ReadRow :=
  deriveColumns table resolveColumnType at_ ⟨[], []⟩ projection

/-- The child materializers that `compileRelationOp` bakes. -/
def bakeMaterializers (materializers : List (String × MaterializeClass)) :
    List (List Char) → Except String (List (String × MaterializeClass))
  | [] => .ok materializers
  | col :: select =>
    match parseProjectionColumn col table at_ with
    | .error e => .error e
    | .ok (.computed _) => bakeMaterializers materializers select
    | .ok (.column underlying outputKey qualifier) => do
      let sqlType ← resolveColumnType (qualifier.getD table) underlying
      let klass ← CellTypes.sqlTypeToMaterializeClass sqlType
      bakeMaterializers (addClass materializers (String.ofList outputKey) klass) select

end Derive

/-! ## Nested relations -/

/-- A selected relation of a model, with the relations selected below it. -/
inductive Selection
  | mk (name : String) (single : Bool) (targetTable : List Char) (select : List (List Char))
    (resolver : TxOutput.ColumnTypeResolver) (nested : List Selection)

def Selection.name : Selection → String
  | mk name .. => name

def Selection.single : Selection → Bool
  | mk _ single .. => single

/-- A level of the graph: the row's object type with the relations below it, and the classes of
its own cells. -/
structure Level where
  obj : List (String × PortableType)
  materializers : List (String × MaterializeClass)

/-- `obj[sel.name] = …` for one relation after the other. -/
def attach (obj : List (String × PortableType)) (children : List (String × PortableType)) :
    List (String × PortableType) := children.foldl (fun obj c => Props.set obj c.1 c.2) obj

def childType (single : Bool) (obj : List (String × PortableType)) : PortableType :=
  if single then .opt (.obj obj) else .arr (.obj obj)

mutual
/-- One relation level; `at_` is where it stands. -/
def emitRelation (at_ : String) : Selection → Except String Level
  | .mk name _ targetTable select resolver nested => do
    let materializers ← bakeMaterializers targetTable resolver ("relation '" ++ name ++ "'") []
      select
    let row ← deriveReadRow targetTable resolver (at_ ++ " relation '" ++ name ++ "'") select
    let children ← emitRelations (at_ ++ "." ++ name) nested
    .ok ⟨attach row.obj children, materializers⟩

/-- The types of the relations selected below a level. -/
def emitRelations (at_ : String) : List Selection → Except String (List (String × PortableType))
  | [] => .ok []
  | sel :: selections => do
    let level ← emitRelation at_ sel
    let children ← emitRelations at_ selections
    .ok ((sel.name, childType sel.single level.obj) :: children)
end

/-- The row of a read endpoint with its selected relations. -/
def emitRead (name : String) (table : List Char) (projection : List (List Char))
    (resolver : TxOutput.ColumnTypeResolver) (selections : List Selection) :
    Except String Level := do
  let at_ := "endpoint '" ++ name ++ "'"
  let row ← deriveReadRow table resolver at_ projection
  let children ← emitRelations at_ selections
  .ok ⟨attach row.obj children, row.materializers⟩

/-! ## What a projection names -/

def qualified (qualifier : Option (List Char)) (underlying : List Char) : List Char :=
  (qualifier.map (· ++ ['.'])).getD [] ++ underlying

/-- The text is a column's reference, with an alias or without. -/
inductive Spells : List Char → List Char → List Char → Option (List Char) → Prop
  | bare {b b' underlying : List Char} {qualifier : Option (List Char)} (hb : Scan.Blank b)
    (hb' : Scan.Blank b') (hu : isName underlying) (hq : ∀ q ∈ qualifier, isName q) :
    Spells (b ++ (qualified qualifier underlying ++ b')) underlying underlying qualifier
  | aliased {b s as_ s' b' underlying name : List Char} {qualifier : Option (List Char)}
    (hb : Scan.Blank b) (hb' : Scan.Blank b') (hu : isName underlying)
    (hq : ∀ q ∈ qualifier, isName q) (hs : Scan.Blank s ∧ s ≠ []) (hs' : Scan.Blank s' ∧ s' ≠ [])
    (has : as_.map Char.toLower = "as".toList) (hn : isName name) :
    Spells (b ++ ((qualified qualifier underlying ++ (s ++ (as_ ++ (s' ++ name)))) ++ b'))
      underlying name qualifier

/-- The columns that a projection names, in its order, with their declared types. -/
inductive Projects (table : List Char) (resolve : TxOutput.ColumnTypeResolver) :
    List (List Char) → List (String × List Char) → Prop
  | nil : Projects table resolve [] []
  | column {col underlying key : List Char} {qualifier : Option (List Char)} {sqlType : List Char}
    {projection : List (List Char)} {columns : List (String × List Char)}
    (spells : Spells col underlying key qualifier)
    (declared : resolve (qualifier.getD table) underlying = .ok sqlType)
    (rest : Projects table resolve projection columns) :
    Projects table resolve (col :: projection) ((String.ofList key, sqlType) :: columns)
  | computed {col : List Char} {projection : List (List Char)}
    {columns : List (String × List Char)}
    (none : ∀ underlying key qualifier, ¬ Spells col underlying key qualifier)
    (rest : Projects table resolve projection columns) :
    Projects table resolve (col :: projection) columns

/-! ## Reading a reference -/

theorem name_chars {cs : List Char} (h : isName cs) : cs ≠ [] ∧ ∀ c ∈ cs, isWordChar c = true := by
  cases cs with
  | nil => exact absurd h (by decide)
  | cons c cs =>
    have hname : nameAt (c :: cs) = some (c :: cs) := by simpa [isName] using h
    rw [nameAt] at hname
    split at hname
    · refine ⟨List.cons_ne_nil c cs, ?_⟩
      have htake := Option.some.inj hname
      intro d hd
      rw [← htake] at hd
      exact List.mem_takeWhile_imp hd
    · cases hname

theorem wordChar_not_space {c : Char} (h : isWordChar c = true) : Text.isSpace c = false := by
  cases hc : Text.isSpace c with
  | false => rfl
  | true =>
    have hspace := Scan.space_range hc
    have hword := Scan.wordChar_range h
    omega

theorem dot_not_mem {cs : List Char} (h : isName cs) : '.' ∉ cs := by
  intro hmem
  have hword := (name_chars h).2 '.' hmem
  exact absurd hword (by decide)

theorem columnRef_qualified {qualifier : Option (List Char)} {underlying : List Char}
    (hu : isName underlying) (hq : ∀ q ∈ qualifier, isName q) :
    columnRef (qualified qualifier underlying) = some (qualifier, underlying) := by
  have hsplit : ∀ cs, isName cs → cs.splitOn '.' = [cs] :=
    fun cs hcs => List.splitOn_eq_singleton (dot_not_mem hcs)
  cases qualifier with
  | none =>
    have hplain : qualified none underlying = underlying := rfl
    rw [hplain, columnRef, hsplit underlying hu]
    simp [hu]
  | some q =>
    have hname := hq q rfl
    have hdot : qualified (some q) underlying = q ++ '.' :: underlying := by
      rw [qualified, Option.map_some, Option.getD_some, List.append_assoc]
      rfl
    have hcut : (q ++ '.' :: underlying).splitOn '.' = [q, underlying] := by
      rw [List.splitOn_append_cons_self_of_not_mem (dot_not_mem hname), hsplit underlying hu]
    rw [hdot, columnRef, hcut]
    simp [hu, hname]

theorem columnRef_some {expr underlying : List Char} {qualifier : Option (List Char)}
    (h : columnRef expr = some (qualifier, underlying)) :
    expr = qualified qualifier underlying ∧ isName underlying ∧ ∀ q ∈ qualifier, isName q := by
  have hjoin : ['.'].intercalate (expr.splitOn '.') = expr := List.intercalate_splitOn '.'
  rw [columnRef] at h
  split at h
  · next col hcol =>
    rw [hcol] at hjoin
    split at h
    · next hname =>
      obtain ⟨rfl, rfl⟩ := Prod.mk.inj (Option.some.inj h)
      refine ⟨?_, hname, fun q hq => nomatch hq⟩
      rw [← hjoin, List.intercalate_singleton]
      rfl
    · exact nomatch h
  · next q col hcol =>
    rw [hcol] at hjoin
    split at h
    · next hname =>
      obtain ⟨rfl, rfl⟩ := Prod.mk.inj (Option.some.inj h)
      obtain ⟨hq, hc⟩ := Bool.and_eq_true_iff.mp hname
      refine ⟨?_, hc, ?_⟩
      · rw [← hjoin, qualified]
        simp [List.intercalate]
      · intro q' hq'
        rw [← Option.some.inj hq']
        exact hq
    · exact nomatch h
  · exact nomatch h

theorem qualified_chars {underlying : List Char} {qualifier : Option (List Char)}
    (hu : isName underlying) (hq : ∀ q ∈ qualifier, isName q) :
    qualified qualifier underlying ≠ [] ∧
      ∀ c ∈ qualified qualifier underlying, isWordChar c = true ∨ c = '.' := by
  refine ⟨?_, ?_⟩
  · intro h
    exact (name_chars hu).1 (List.append_eq_nil_iff.mp h).2
  · intro c hc
    rcases List.mem_append.mp hc with hc | hc
    · cases qualifier with
      | none => exact nomatch hc
      | some q =>
        rcases List.mem_append.mp hc with hc | hc
        · exact Or.inl ((name_chars (hq q rfl)).2 c hc)
        · exact Or.inr (List.mem_singleton.mp hc)
    · exact Or.inl ((name_chars hu).2 c hc)

theorem qualified_last {underlying : List Char} (qualifier : Option (List Char))
    (hu : isName underlying) : ∃ l c, qualified qualifier underlying = l ++ [c] ∧
      isWordChar c = true := by
  obtain ⟨hne, hchars⟩ := name_chars hu
  obtain ⟨l, c, rfl⟩ := (List.eq_nil_or_concat underlying).resolve_left hne
  rw [List.concat_eq_append] at hchars ⊢
  exact ⟨(qualifier.map (· ++ ['.'])).getD [] ++ l, c, (List.append_assoc _ l [c]).symm,
    hchars c (by simp)⟩

theorem not_space {c : Char} (h : isWordChar c = true ∨ c = '.') : Text.isSpace c = false := by
  rcases h with h | rfl
  · exact wordChar_not_space h
  · decide

theorem qualified_trimmed {underlying : List Char} {qualifier : Option (List Char)}
    (hu : isName underlying) (hq : ∀ q ∈ qualifier, isName q) :
    Scan.Trimmed (qualified qualifier underlying) := by
  have hchars := (qualified_chars hu hq).2
  constructor
  · exact Text.stops_of_forall fun c hc => not_space (hchars c hc)
  · exact Text.stops_of_forall fun c hc => not_space (hchars c (List.mem_reverse.mp hc))

/-- What stands before the word at a text's end. -/
theorem takeWhile_last {l name : List Char} (hn : ∀ c ∈ name, isWordChar c = true)
    (hl : Text.Stops isWordChar l.reverse) :
    ((l ++ name).reverse.takeWhile isWordChar).reverse = name ∧
      (l ++ name).reverse.dropWhile isWordChar = l.reverse := by
  have hrev : ∀ c ∈ name.reverse, isWordChar c = true := fun c hc => hn c (List.mem_reverse.mp hc)
  rw [List.reverse_append, Text.takeWhile_stop hrev hl, Text.dropWhile_stop hrev hl,
    List.reverse_reverse]
  exact ⟨rfl, rfl⟩

/-- No alias is split off a plain reference. -/
theorem splitAlias_qualified {underlying : List Char} {qualifier : Option (List Char)}
    (hu : isName underlying) : splitAlias (qualified qualifier underlying) = none := by
  have hstop : Text.Stops isWordChar ((qualifier.map (· ++ ['.'])).getD []).reverse := by
    cases qualifier with
    | none => exact fun c hc => nomatch hc
    | some q =>
      intro c hc
      rw [Option.map_some, Option.getD_some, List.reverse_append] at hc
      obtain rfl : '.' = c := Option.some.inj hc
      decide
  obtain ⟨hname, hrest⟩ := takeWhile_last (name_chars hu).2 hstop
  rw [splitAlias, qualified, hname, hrest, if_pos hu]
  cases qualifier with
  | none => rfl
  | some q =>
    rw [Option.map_some, Option.getD_some, List.reverse_append]
    rfl

theorem splitAlias_aliased {expr s as_ s' name : List Char} (hs : Scan.Blank s ∧ s ≠ [])
    (hs' : Scan.Blank s' ∧ s' ≠ []) (has : as_.map Char.toLower = "as".toList)
    (hn : isName name) (hend : Text.Stops Text.isSpace expr.reverse)
    (hline : expr.any isLineEnd = false) :
    splitAlias (expr ++ (s ++ (as_ ++ (s' ++ name)))) = some (expr, name) := by
  have hrev : ∀ {b : List Char}, Scan.Blank b → Scan.Blank b.reverse :=
    fun hb c hc => hb c (List.mem_reverse.mp hc)
  have hlower : as_.reverse.map Char.toLower = "sa".toList := by
    rw [List.map_reverse, has]
    rfl
  have hblank : ∀ c, Text.isSpace c = true → isWordChar c = false := by
    intro c hc
    cases hword : isWordChar c with
    | false => rfl
    | true => exact absurd hc (by rw [wordChar_not_space hword]; exact Bool.false_ne_true)
  have hfront : Text.Stops isWordChar (expr ++ (s ++ (as_ ++ s'))).reverse := by
    intro c hc
    simp only [List.reverse_append, List.append_assoc] at hc
    have hhead : c ∈ s'.reverse.head? := by
      rwa [List.head?_append_of_ne_nil _ (by simpa using hs'.2)] at hc
    exact hblank c (hrev hs'.1 c (List.mem_of_mem_head? hhead))
  have hassoc : expr ++ (s ++ (as_ ++ (s' ++ name))) = (expr ++ (s ++ (as_ ++ s'))) ++ name := by
    simp only [List.append_assoc]
  obtain ⟨hname, hrest⟩ := takeWhile_last (name_chars hn).2 hfront
  have hstop := (Scan.stops_word hlower (by decide) (by
    intro c hc
    obtain rfl : 's' = c := Option.some.inj hc
    decide) (s.reverse ++ expr.reverse)).2
  rw [hassoc, splitAlias, hname, hrest, if_pos hn]
  simp only [List.reverse_append, List.append_assoc]
  rw [Scan.dropSpaces_append (by simpa using hs'.2) (hrev hs'.1) hstop, Option.bind_some,
    Scan.dropWord_append hlower, Option.bind_some,
    Scan.dropSpaces_append (by simpa using hs.2) (hrev hs.1) hend, Option.bind_some]
  have hany : expr.reverse.any isLineEnd = false := by rw [List.any_reverse, hline]
  rw [hany, List.reverse_reverse]
  rfl

theorem splitAlias_some {raw expr name : List Char} (h : splitAlias raw = some (expr, name)) :
    isName name ∧ ∃ s as_ s', (Scan.Blank s ∧ s ≠ []) ∧ (Scan.Blank s' ∧ s' ≠ []) ∧
      as_.map Char.toLower = "as".toList ∧ raw = expr ++ (s ++ (as_ ++ (s' ++ name))) := by
  have hspaces : ∀ {cs r : List Char}, dropSpaces cs = some r →
      ∃ b, (Scan.Blank b ∧ b ≠ []) ∧ cs = b ++ r := by
    intro cs r hr
    obtain ⟨c, t, rfl, hc, rfl⟩ := Scan.dropSpaces_some hr
    refine ⟨(c :: t).takeWhile Text.isSpace, ⟨fun d hd => List.mem_takeWhile_imp hd, ?_⟩,
      List.takeWhile_append_dropWhile.symm⟩
    rw [List.takeWhile_cons_of_pos hc]
    exact List.cons_ne_nil c _
  have hcut : raw = (raw.reverse.dropWhile isWordChar).reverse ++
      (raw.reverse.takeWhile isWordChar).reverse := by
    rw [← List.reverse_append, List.takeWhile_append_dropWhile, List.reverse_reverse]
  rw [splitAlias] at h
  split at h
  · next hname =>
    obtain ⟨r₃, hr₃, hlast⟩ := Option.bind_eq_some_iff.mp h
    obtain ⟨r₂, hr₂, hr₃⟩ := Option.bind_eq_some_iff.mp hr₃
    obtain ⟨r₁, hr₁, hr₂⟩ := Option.bind_eq_some_iff.mp hr₂
    obtain ⟨b', hb', hdrop⟩ := hspaces hr₁
    obtain ⟨w, rfl, hw⟩ := Scan.dropWord_some hr₂
    obtain ⟨b, hb, rfl⟩ := hspaces hr₃
    split at hlast
    · exact nomatch hlast
    · obtain ⟨rfl, rfl⟩ := Prod.mk.inj (Option.some.inj hlast)
      refine ⟨hname, b.reverse, w.reverse, b'.reverse,
        ⟨fun c hc => hb.1 c (List.mem_reverse.mp hc), by simpa using hb.2⟩,
        ⟨fun c hc => hb'.1 c (List.mem_reverse.mp hc), by simpa using hb'.2⟩, ?_, ?_⟩
      · rw [List.map_reverse, hw]
        rfl
      · rw [hdrop] at hcut
        simpa using hcut
  · exact nomatch h

theorem not_wildcard {cs l : List Char} {c : Char} (h : cs = l ++ [c]) (hc : c ≠ '*') :
    ¬ (cs = ['*'] ∨ ".*".toList <:+ cs) := by
  rintro (heq | ⟨t, ht⟩)
  · rw [h] at heq
    have heq' : l ++ [c] = [] ++ ['*'] := heq
    exact hc (List.cons.inj (List.append_inj_right' heq' rfl)).1
  · have hend : t ++ ".*".toList = (t ++ ['.']) ++ ['*'] := by simp
    rw [h, hend] at ht
    exact hc (List.cons.inj (List.append_inj_right' ht rfl)).1.symm

/-- A column's reference is read as it is spelled, and nothing else is read as one. -/
theorem parse_column_iff (table : List Char) (at_ : String) {col underlying key : List Char}
    {qualifier : Option (List Char)} :
    parseProjectionColumn col table at_ = .ok (.column underlying key qualifier) ↔
      Spells col underlying key qualifier := by
  constructor
  · intro h
    obtain ⟨b, b', hb, hb', -, heq⟩ := Scan.exists_trim col
    rw [parseProjectionColumn] at h
    split at h
    · exact nomatch h
    · cases halias : splitAlias (trim col) with
      | none =>
        rw [halias] at h
        dsimp only [Option.map_none, Option.getD_none] at h
        split at h
        · next q u href =>
          obtain ⟨hraw, hu, hq⟩ := columnRef_some href
          obtain ⟨rfl, rfl, rfl⟩ := ProjectionEntry.column.inj (Except.ok.inj h)
          rw [heq, hraw]
          exact .bare hb hb' hu hq
        · exact nomatch h
      | some m =>
        obtain ⟨expr, name⟩ := m
        rw [halias] at h
        dsimp only [Option.map_some, Option.getD_some] at h
        split at h
        · next q u href =>
          obtain ⟨hexpr, hu, hq⟩ := columnRef_some href
          obtain ⟨rfl, rfl, rfl⟩ := ProjectionEntry.column.inj (Except.ok.inj h)
          obtain ⟨hn, s, as_, s', hs, hs', has, hraw⟩ := splitAlias_some halias
          obtain ⟨d, d', hd, hd', -, hsplit⟩ := Scan.exists_trim expr
          have hcol : col = (b ++ d) ++
              ((qualified q u ++ ((d' ++ s) ++ (as_ ++ (s' ++ name)))) ++ b') := by
            rw [heq, hraw, ← hexpr]
            conv_lhs => rw [hsplit]
            simp only [List.append_assoc]
          have hblank : ∀ {x y : List Char}, Scan.Blank x → Scan.Blank y → Scan.Blank (x ++ y) :=
            fun hx hy c hc => (List.mem_append.mp hc).elim (hx c) (hy c)
          rw [hcol]
          exact .aliased (hblank hb hd) hb' hu hq ⟨hblank hd' hs.1, by simp [hs.2]⟩ hs' has hn
        · exact nomatch h
  · intro h
    cases h with
    | @bare b b' _ _ hb hb' hu hq =>
      obtain ⟨l, c, hlast, hc⟩ := qualified_last qualifier hu
      have hstar : c ≠ '*' := by
        rintro rfl
        exact absurd hc (by decide)
      rw [parseProjectionColumn, Scan.trim_blank hb hb' (qualified_trimmed hu hq),
        if_neg (not_wildcard hlast hstar), splitAlias_qualified hu]
      dsimp only [Option.map_none, Option.getD_none]
      rw [columnRef_qualified hu hq]
    | @aliased b s as_ s' b' _ _ _ hb hb' hu hq hs hs' has hn =>
      obtain ⟨hne, hchars⟩ := qualified_chars hu hq
      have htrim := qualified_trimmed hu hq
      obtain ⟨l, c, hname⟩ := (List.eq_nil_or_concat key).resolve_left (name_chars hn).1
      rw [List.concat_eq_append] at hname
      have hc := (name_chars hn).2 c (by simp [hname])
      have hstar : c ≠ '*' := by
        rintro rfl
        exact absurd hc (by decide)
      have hwhole : Scan.Trimmed
          (qualified qualifier underlying ++ (s ++ (as_ ++ (s' ++ key)))) := by
        refine ⟨Text.stops_append hne htrim.1 _, ?_⟩
        intro d hd
        rw [hname] at hd
        simp only [List.reverse_append, List.append_assoc, List.reverse_singleton] at hd
        obtain rfl : c = d := Option.some.inj hd
        exact wordChar_not_space hc
      have hline : (qualified qualifier underlying).any isLineEnd = false := by
        apply List.any_eq_false.mpr
        intro d hd hend
        have hspace : Text.isSpace d = true := by
          simp only [isLineEnd, Bool.or_eq_true, decide_eq_true_eq] at hend
          rcases hend with ((rfl | rfl) | rfl) | rfl <;> decide
        rw [not_space (hchars d hd)] at hspace
        exact nomatch hspace
      have hend : qualified qualifier underlying ++ (s ++ (as_ ++ (s' ++ key))) =
          (qualified qualifier underlying ++ (s ++ (as_ ++ (s' ++ l)))) ++ [c] := by
        rw [hname]
        simp only [List.append_assoc]
      rw [parseProjectionColumn, Scan.trim_blank hb hb' hwhole, if_neg (not_wildcard hend hstar),
        splitAlias_aliased hs hs' has hn htrim.2 hline]
      dsimp only [Option.map_some, Option.getD_some]
      rw [Scan.trim_trimmed htrim, columnRef_qualified hu hq]

/-- Where a column stands is said in messages only. -/
theorem parse_elsewhere {col table : List Char} {at_ : String} {e : ProjectionEntry}
    (h : parseProjectionColumn col table at_ = .ok e) (table' : List Char) (at' : String) :
    parseProjectionColumn col table' at' = .ok e := by
  rw [parseProjectionColumn] at h ⊢
  split at h
  · exact nomatch h
  · next hwild =>
    rw [if_neg hwild]
    exact h

theorem parse_computed {col table : List Char} {at_ : String} {e : ProjectionEntry}
    (h : parseProjectionColumn col table at_ = .ok e) (hno : ∃ text, e = .computed text) :
    ∀ underlying key qualifier, ¬ Spells col underlying key qualifier := by
  intro underlying key qualifier hspells
  obtain ⟨text, rfl⟩ := hno
  rw [(parse_column_iff table at_).mpr hspells] at h
  exact ProjectionEntry.noConfusion (Except.ok.inj h)

/-- A projection names its columns in one way. -/
theorem Projects.unique {table : List Char} {resolve : TxOutput.ColumnTypeResolver}
    {projection : List (List Char)} {columns columns' : List (String × List Char)}
    (h : Projects table resolve projection columns)
    (h' : Projects table resolve projection columns') : columns = columns' := by
  have hone : ∀ {col u k u' k' : List Char} {q q' : Option (List Char)}, Spells col u k q →
      Spells col u' k' q' → u = u' ∧ k = k' ∧ q = q' := by
    intro col u k u' k' q q' hs hs'
    have heq := (parse_column_iff [] "").mpr hs
    rw [(parse_column_iff [] "").mpr hs'] at heq
    obtain ⟨rfl, rfl, rfl⟩ := ProjectionEntry.column.inj (Except.ok.inj heq)
    exact ⟨rfl, rfl, rfl⟩
  induction h generalizing columns' with
  | nil =>
    cases h'
    rfl
  | column spells declared rest ih =>
    cases h' with
    | column spells' declared' rest' =>
      obtain ⟨rfl, rfl, rfl⟩ := hone spells spells'
      rw [declared] at declared'
      rw [Except.ok.inj declared', ih rest']
    | computed none' rest' => exact absurd spells (none' _ _ _)
  | computed none rest ih =>
    cases h' with
    | column spells' declared' rest' => exact absurd spells' (none _ _ _)
    | computed none' rest' => exact ih rest'

/-! ## What a row is promised to say -/

/-- The last value under a key, which is the one that an object filled in this order has there. -/
def lastOf {α : Type} (ps : List (String × α)) (k : String) : Option α :=
  (ps.filter fun p => p.1 = k).getLast?.map Prod.snd

/-- The class that a declared type's cells are materialized by; none is `passthrough`. -/
def classOf (sqlType : List Char) : Option MaterializeClass :=
  (CellTypes.sqlTypeToMaterializeClass sqlType).toOption.join

def named (selections : List Selection) : List (String × Selection) :=
  selections.map fun sel => (sel.name, sel)

/-- A level has the keys of the columns that its projection names and of its relations. Under a
relation's key is the type of the relation's level, under another one the type of the column; and
the classes are those of the columns. -/
structure Named (at_ : String) (columns : List (String × List Char)) (selections : List Selection)
    (level : Level) : Prop where
  keys : ∀ k, k ∈ Props.keys level.obj ↔
    k ∈ columns.map Prod.fst ∨ k ∈ selections.map Selection.name
  types : ∀ k ∉ selections.map Selection.name, ∀ sqlType, lastOf columns k = some sqlType →
    ∃ type, cellType sqlType = .ok type ∧ Props.get level.obj k = some type
  relations : ∀ k sel, lastOf (named selections) k = some sel →
    ∃ child, emitRelation at_ sel = .ok child ∧
      Props.get level.obj k = some (childType sel.single child.obj)
  classes : ∀ k, Props.get level.materializers k = (lastOf columns k).bind classOf

/-- No key is `__proto__`, and no class is left from a column that another one of `passthrough`
comes behind under the same key. -/
structure Steady (columns : List (String × List Char)) (selections : List Selection) : Prop where
  columnKeys : "__proto__" ∉ columns.map Prod.fst
  relationKeys : "__proto__" ∉ selections.map Selection.name
  passthrough : ∀ k sqlType, lastOf columns k = some sqlType → classOf sqlType = none →
    ∀ p ∈ columns, p.1 = k → classOf p.2 = none

section Levels
variable (table : List Char) (resolver : TxOutput.ColumnTypeResolver)
  (projection : List (List Char)) (selections : List Selection)

def LevelNamed (at_ : String) (level : Level) : Prop :=
  ∀ columns, Projects table resolver projection columns → Named at_ columns selections level

def LevelSteady : Prop :=
  ∀ columns, Projects table resolver projection columns → Steady columns selections

end Levels

mutual
/-- Every level of a relation names its columns. -/
def RelationNamed (at_ : String) : Selection → Prop
  | .mk name single targetTable select resolver nested =>
    (∀ level, emitRelation at_ (.mk name single targetTable select resolver nested) = .ok level →
      LevelNamed targetTable resolver select nested (at_ ++ "." ++ name) level) ∧
    RelationsNamed (at_ ++ "." ++ name) nested

def RelationsNamed (at_ : String) : List Selection → Prop
  | [] => True
  | sel :: selections => RelationNamed at_ sel ∧ RelationsNamed at_ selections
end

mutual
def RelationSteady : Selection → Prop
  | .mk _ _ targetTable select resolver nested =>
    LevelSteady targetTable resolver select nested ∧ RelationsSteady nested

def RelationsSteady : List Selection → Prop
  | [] => True
  | sel :: selections => RelationSteady sel ∧ RelationsSteady selections
end

/-! ## Reading an object that was filled in order -/

section Last
variable {α β : Type} {ps : List (String × α)} {k : String}

theorem lastOf_append (p : String × α) :
    lastOf (ps ++ [p]) k = if p.1 = k then some p.2 else lastOf ps k := by
  rw [lastOf, lastOf, List.filter_append]
  by_cases hk : p.1 = k
  · rw [List.filter_cons_of_pos (by simpa using hk), List.filter_nil, List.getLast?_append,
      if_pos hk]
    rfl
  · rw [List.filter_cons_of_neg (by simpa using hk), List.filter_nil, List.append_nil, if_neg hk]

theorem lastOf_none_iff : lastOf ps k = none ↔ k ∉ ps.map Prod.fst := by
  rw [lastOf, Option.map_eq_none_iff, List.getLast?_eq_none_iff, List.filter_eq_nil_iff,
    List.mem_map]
  constructor
  · rintro h ⟨p, hp, hk⟩
    exact h p hp (by simpa using hk)
  · intro h p hp hk
    exact h ⟨p, hp, by simpa using hk⟩

theorem lastOf_mem {v : α} (h : lastOf ps k = some v) : (k, v) ∈ ps := by
  obtain ⟨p, hp, rfl⟩ := Option.map_eq_some_iff.mp h
  obtain ⟨hmem, hk⟩ := List.mem_filter.mp (List.mem_of_getLast? hp)
  obtain rfl : p.1 = k := by simpa using hk
  exact hmem

theorem lastOf_map (f : α → β) (ps : List (String × α)) (k : String) :
    lastOf (ps.map fun p => (p.1, f p.2)) k = (lastOf ps k).map f := by
  induction ps using List.reverseRecOn with
  | nil => rfl
  | append_singleton ps p ih =>
    rw [List.map_append, List.map_cons, List.map_nil, lastOf_append, lastOf_append, ih]
    by_cases hk : p.1 = k
    · rw [if_pos hk, if_pos hk]
      rfl
    · rw [if_neg hk, if_neg hk]

theorem get_set_proto (ps : List (String × α)) (k : String) (v : α) :
    Props.get (Props.set ps k v) "__proto__" = Props.get ps "__proto__" := by
  by_cases hk : k = "__proto__"
  · rw [Props.set, if_pos hk]
  · rw [Props.get_set hk, if_neg (Ne.symm hk)]

/-- The object has the last value under a key. -/
theorem get_foldl_set (obj ps : List (String × α)) (k : String) :
    Props.get (ps.foldl (fun obj p => Props.set obj p.1 p.2) obj) k =
      if k = "__proto__" then Props.get obj k else (lastOf ps k).or (Props.get obj k) := by
  induction ps using List.reverseRecOn with
  | nil => simp [lastOf]
  | append_singleton ps p ih =>
    rw [List.foldl_append, List.foldl_cons, List.foldl_nil, lastOf_append]
    by_cases hproto : k = "__proto__"
    · subst hproto
      rw [get_set_proto, ih, if_pos rfl, if_pos rfl]
    · rw [if_neg hproto] at ih ⊢
      by_cases hp : p.1 = "__proto__"
      · rw [Props.set, if_pos hp, ih, if_neg fun h => hproto (h.symm.trans hp)]
      · rw [Props.get_set hp, ih]
        by_cases hk : p.1 = k
        · rw [if_pos hk.symm, if_pos hk, Option.some_or]
        · rw [if_neg (Ne.symm hk), if_neg hk]

theorem mem_keys_iff : k ∈ Props.keys ps ↔ (Props.get ps k).isSome := by
  constructor
  · intro h
    obtain ⟨v, hv⟩ := Props.exists_get h
    rw [hv]
    rfl
  · intro h
    obtain ⟨v, hv⟩ := Option.isSome_iff_exists.mp h
    exact Props.mem_keys_of_get hv

end Last

/-! ## Reading the derived row -/

section Reading
variable {table : List Char} {resolve : TxOutput.ColumnTypeResolver} {at_ : String}
  {projection : List (List Char)} {columns : List (String × List Char)} {k : String}

def typeOf (sqlType : List Char) : PortableType := (cellType sqlType).toOption.getD .null

def typed (columns : List (String × List Char)) : List (String × PortableType) :=
  columns.map fun p => (p.1, typeOf p.2)

def addClassOf (materializers : List (String × MaterializeClass)) (p : String × List Char) :
    List (String × MaterializeClass) := addClass materializers p.1 (classOf p.2)

/-- The row is the columns' types and classes, set one after the other. -/
theorem deriveColumns_ok {row row' : ReadRow}
    (h : deriveColumns table resolve at_ row projection = .ok row') :
    ∃ columns, Projects table resolve projection columns ∧
      (∀ p ∈ columns, ∃ type, cellType p.2 = .ok type) ∧
      row'.obj = attach row.obj (typed columns) ∧
      row'.materializers = columns.foldl addClassOf row.materializers := by
  induction projection generalizing row with
  | nil =>
    obtain rfl := Except.ok.inj h
    exact ⟨[], .nil, List.forall_mem_nil _, rfl, rfl⟩
  | cons col projection ih =>
    rw [deriveColumns] at h
    split at h
    · exact nomatch h
    · next text hentry =>
      obtain ⟨columns, hproj, htypes, hobj, hmat⟩ := ih h
      exact ⟨columns, .computed (parse_computed hentry ⟨text, rfl⟩) hproj, htypes, hobj, hmat⟩
    · next underlying outputKey qualifier hentry =>
      obtain ⟨sqlType, hdecl, h⟩ := Exit.bind_ok_iff.mp h
      obtain ⟨type, htype, h⟩ := Exit.bind_ok_iff.mp h
      obtain ⟨klass, hclass, h⟩ := Exit.bind_ok_iff.mp h
      obtain ⟨columns, hproj, htypes, hobj, hmat⟩ := ih h
      refine ⟨(String.ofList outputKey, sqlType) :: columns,
        .column ((parse_column_iff table at_).mp hentry) hdecl hproj, ?_, ?_, ?_⟩
      · exact List.forall_mem_cons.mpr ⟨⟨type, htype⟩, htypes⟩
      · have htypeOf : typeOf sqlType = type := by
          rw [typeOf, htype]
          rfl
        rw [hobj, ← htypeOf]
        rfl
      · rw [hmat, List.foldl_cons, addClassOf, classOf, hclass]
        rfl

/-- The baked classes are the row's. -/
theorem bake_eq {row row' : ReadRow} {at' : String}
    (h : deriveColumns table resolve at_ row projection = .ok row') :
    bakeMaterializers table resolve at' row.materializers projection = .ok row'.materializers := by
  induction projection generalizing row with
  | nil =>
    obtain rfl := Except.ok.inj h
    rfl
  | cons col projection ih =>
    rw [deriveColumns] at h
    split at h
    · exact nomatch h
    · next text hentry =>
      rw [bakeMaterializers, parse_elsewhere hentry table at']
      exact ih h
    · next underlying outputKey qualifier hentry =>
      obtain ⟨sqlType, hdecl, h⟩ := Exit.bind_ok_iff.mp h
      obtain ⟨type, htype, h⟩ := Exit.bind_ok_iff.mp h
      obtain ⟨klass, hclass, h⟩ := Exit.bind_ok_iff.mp h
      rw [bakeMaterializers, parse_elsewhere hentry table at']
      exact Exit.bind_ok_iff.mpr ⟨sqlType, hdecl, Exit.bind_ok_iff.mpr ⟨klass, hclass, ih h⟩⟩

/-- The row has the last class under a key, whichever columns come behind it. -/
theorem get_classes (columns : List (String × List Char)) (k : String) :
    Props.get (columns.foldl addClassOf []) k =
      if k = "__proto__" then none
      else (columns.filterMap fun p => if p.1 = k then classOf p.2 else none).getLast? := by
  induction columns using List.reverseRecOn with
  | nil => simp [Props.get]
  | append_singleton columns p ih =>
    rw [List.foldl_append, List.foldl_cons, List.foldl_nil, addClassOf, List.filterMap_append]
    cases hclass : classOf p.2 with
    | none =>
      have hnone : [p].filterMap (fun p => if p.1 = k then classOf p.2 else none) = [] := by
        simp [hclass]
      rw [addClass, ih, hnone, List.append_nil]
    | some klass =>
      rw [addClass]
      by_cases hproto : k = "__proto__"
      · subst hproto
        rw [get_set_proto, ih, if_pos rfl, if_pos rfl]
      · rw [if_neg hproto] at ih ⊢
        by_cases hp : p.1 = "__proto__"
        · have hk : p.1 ≠ k := fun h => hproto (h.symm.trans hp)
          rw [Props.set, if_pos hp, ih]
          simp [hk]
        · rw [Props.get_set hp, ih]
          by_cases hk : p.1 = k
          · simp [hk, hclass]
          · simp [hk, Ne.symm hk]

/-- The last column under a key gives the last class, unless it is of `passthrough`. -/
theorem last_class {sqlType : List Char} {klass : MaterializeClass}
    (h : lastOf columns k = some sqlType) (hclass : classOf sqlType = some klass) :
    (columns.filterMap fun p => if p.1 = k then classOf p.2 else none).getLast? = some klass := by
  obtain ⟨p, hp, rfl⟩ := Option.map_eq_some_iff.mp h
  obtain ⟨l, hl⟩ := List.getLast?_eq_some_iff.mp hp
  have hfilter : (columns.filterMap fun p => if p.1 = k then classOf p.2 else none) =
      (columns.filter fun p => p.1 = k).filterMap fun p => classOf p.2 := by
    rw [List.filterMap_filter]
    congr 1
    funext p
    by_cases hk : p.1 = k <;> simp [hk]
  rw [hfilter, hl, List.filterMap_append]
  simp [hclass]

def typeOfRelation (at_ : String) (sel : Selection) : PortableType :=
  ((emitRelation at_ sel).toOption.map fun child => childType sel.single child.obj).getD .null

/-- The relations' types are set in their order. -/
theorem emitRelations_ok {selections : List Selection} {children : List (String × PortableType)}
    (h : emitRelations at_ selections = .ok children) :
    (∀ sel ∈ selections, ∃ child, emitRelation at_ sel = .ok child) ∧
      children = (named selections).map fun p => (p.1, typeOfRelation at_ p.2) := by
  induction selections generalizing children with
  | nil =>
    rw [emitRelations] at h
    obtain rfl := Except.ok.inj h
    exact ⟨List.forall_mem_nil _, rfl⟩
  | cons sel selections ih =>
    rw [emitRelations] at h
    obtain ⟨child, hchild, h⟩ := Exit.bind_ok_iff.mp h
    obtain ⟨children', hchildren, h⟩ := Exit.bind_ok_iff.mp h
    obtain rfl := Except.ok.inj h
    obtain ⟨hall, heq⟩ := ih hchildren
    refine ⟨List.forall_mem_cons.mpr ⟨⟨child, hchild⟩, hall⟩, ?_⟩
    rw [heq, named, named, List.map_cons, List.map_cons, typeOfRelation, hchild]
    rfl
/-- A level is as promised exactly when no class is left behind and no key is lost. -/
theorem named_iff {selections : List Selection} {children : List (String × PortableType)}
    {level : Level} (htypes : ∀ p ∈ columns, ∃ type, cellType p.2 = .ok type)
    (hchildren : emitRelations at_ selections = .ok children)
    (hobj : level.obj = attach (attach [] (typed columns)) children)
    (hmat : level.materializers = columns.foldl addClassOf []) :
    Named at_ columns selections level ↔ Steady columns selections := by
  obtain ⟨hemit, hchild⟩ := emitRelations_ok hchildren
  have hnames : ∀ k, lastOf (named selections) k = none ↔ k ∉ selections.map Selection.name := by
    intro k
    rw [lastOf_none_iff, named, List.map_map]
    exact Iff.rfl
  have hget : ∀ k, Props.get level.obj k = if k = "__proto__" then none else
      ((lastOf (named selections) k).map (typeOfRelation at_)).or
        ((lastOf columns k).map typeOf) := by
    intro k
    have hnil : Props.get ([] : List (String × PortableType)) k = none := rfl
    rw [hobj, attach, attach, get_foldl_set, get_foldl_set, hchild, lastOf_map, typed, lastOf_map,
      hnil, Option.or_none]
    split
    · rfl
    · rfl
  have hclass : ∀ k, Props.get level.materializers k = if k = "__proto__" then none else
      (columns.filterMap fun p => if p.1 = k then classOf p.2 else none).getLast? := by
    intro k
    rw [hmat, get_classes]
  constructor
  · intro h
    have hproto : ¬("__proto__" ∈ columns.map Prod.fst ∨
        "__proto__" ∈ selections.map Selection.name) := by
      intro hmem
      have hkey := (h.keys _).mpr hmem
      rw [mem_keys_iff, hget, if_pos rfl] at hkey
      exact nomatch hkey
    refine ⟨fun hmem => hproto (Or.inl hmem), fun hmem => hproto (Or.inr hmem), ?_⟩
    intro k sqlType hlast hnone p hp hpk
    by_contra hsome
    obtain ⟨klass, hklass⟩ := Option.ne_none_iff_exists'.mp hsome
    have hne : k ≠ "__proto__" := by
      rintro rfl
      exact hproto (Or.inl (List.mem_map.mpr ⟨p, hp, hpk⟩))
    have hleft := h.classes k
    rw [hclass, if_neg hne, hlast, Option.bind_some, hnone, List.getLast?_eq_none_iff,
      List.filterMap_eq_nil_iff] at hleft
    have hp' := hleft p hp
    rw [if_pos hpk, hklass] at hp'
    exact nomatch hp'
  · intro h
    refine ⟨?_, ?_, ?_, ?_⟩
    · intro k
      rw [mem_keys_iff, hget]
      split
      · next hproto =>
        subst hproto
        constructor
        · intro hsome
          exact nomatch hsome
        · intro hmem
          exact (hmem.elim h.columnKeys h.relationKeys).elim
      · rw [Option.isSome_or, Option.isSome_map, Option.isSome_map, Bool.or_eq_true,
          Option.isSome_iff_ne_none, Option.isSome_iff_ne_none, ne_eq, ne_eq, hnames,
          lastOf_none_iff, not_not, not_not]
        exact or_comm
    · intro k hk sqlType hlast
      have hmem := lastOf_mem hlast
      obtain ⟨type, htype⟩ := htypes _ hmem
      have hne : k ≠ "__proto__" := by
        rintro rfl
        exact h.columnKeys (List.mem_map.mpr ⟨_, hmem, rfl⟩)
      refine ⟨type, htype, ?_⟩
      rw [hget, if_neg hne, (hnames k).mpr hk, hlast, Option.map_none, Option.none_or,
        Option.map_some, typeOf, htype]
      rfl
    · intro k sel hlast
      have hsel := lastOf_mem hlast
      obtain ⟨sel', hmem, heq⟩ := List.mem_map.mp hsel
      obtain ⟨rfl, rfl⟩ := Prod.mk.inj heq
      obtain ⟨child, hok⟩ := hemit _ hmem
      have hne : sel'.name ≠ "__proto__" := by
        intro hname
        exact h.relationKeys (hname ▸ List.mem_map_of_mem hmem)
      refine ⟨child, hok, ?_⟩
      rw [hget, if_neg hne, hlast, Option.map_some, Option.some_or, typeOfRelation, hok]
      rfl
    · intro k
      rw [hclass]
      cases hlast : lastOf columns k with
      | none =>
        have hno := lastOf_none_iff.mp hlast
        split
        · rfl
        · rw [Option.bind_none, List.getLast?_eq_none_iff, List.filterMap_eq_nil_iff]
          intro p hp
          rw [if_neg fun hpk => hno (List.mem_map.mpr ⟨p, hp, hpk⟩)]
      | some sqlType =>
        have hmem := lastOf_mem hlast
        have hne : k ≠ "__proto__" := by
          rintro rfl
          exact h.columnKeys (List.mem_map.mpr ⟨_, hmem, rfl⟩)
        rw [if_neg hne, Option.bind_some]
        cases hklass : classOf sqlType with
        | some klass => exact last_class hlast hklass
        | none =>
          rw [List.getLast?_eq_none_iff, List.filterMap_eq_nil_iff]
          intro p hp
          by_cases hpk : p.1 = k
          · rw [if_pos hpk, h.passthrough k sqlType hlast hklass p hp hpk]
          · rw [if_neg hpk]

end Reading
/-! ## The levels of a read -/

section Emit
variable {table : List Char} {resolver : TxOutput.ColumnTypeResolver} {at_ : String}

theorem level_named_iff {at' : String} {projection : List (List Char)} {row : ReadRow}
    {selections : List Selection} {children : List (String × PortableType)}
    (hrow : deriveReadRow table resolver at' projection = .ok row)
    (hchildren : emitRelations at_ selections = .ok children) :
    LevelNamed table resolver projection selections at_
        ⟨attach row.obj children, row.materializers⟩ ↔
      LevelSteady table resolver projection selections := by
  obtain ⟨columns, hproj, htypes, hobj, hmat⟩ := deriveColumns_ok hrow
  have hiff : Named at_ columns selections ⟨attach row.obj children, row.materializers⟩ ↔
      Steady columns selections :=
    named_iff htypes hchildren (congrArg (attach · children) hobj) hmat
  constructor
  · intro h columns' hproj'
    rw [hproj'.unique hproj]
    exact hiff.mp (h columns hproj)
  · intro h columns' hproj'
    rw [hproj'.unique hproj]
    exact hiff.mpr (h columns hproj)

/-- A relation's level is its row with the relations below it. -/
theorem emitRelation_ok {name : String} {single : Bool} {select : List (List Char)}
    {nested : List Selection} {level : Level}
    (h : emitRelation at_ (.mk name single table select resolver nested) = .ok level) :
    ∃ row children, deriveReadRow table resolver (at_ ++ " relation '" ++ name ++ "'") select =
        .ok row ∧ emitRelations (at_ ++ "." ++ name) nested = .ok children ∧
      level = ⟨attach row.obj children, row.materializers⟩ := by
  rw [emitRelation] at h
  obtain ⟨materializers, hbake, h⟩ := Exit.bind_ok_iff.mp h
  obtain ⟨row, hrow, h⟩ := Exit.bind_ok_iff.mp h
  obtain ⟨children, hchildren, h⟩ := Exit.bind_ok_iff.mp h
  have hbake' : bakeMaterializers table resolver ("relation '" ++ name ++ "'") [] select =
      .ok row.materializers := bake_eq hrow
  rw [hbake] at hbake'
  obtain rfl := Except.ok.inj hbake'
  exact ⟨row, children, hrow, hchildren, (Except.ok.inj h).symm⟩

end Emit

/-- Keys that differ are enough. -/
theorem steady_of_nodup {columns : List (String × List Char)} {selections : List Selection}
    (hkeys : (columns.map Prod.fst).Nodup) (hcolumns : "__proto__" ∉ columns.map Prod.fst)
    (hrelations : "__proto__" ∉ selections.map Selection.name) : Steady columns selections := by
  refine ⟨hcolumns, hrelations, ?_⟩
  intro k sqlType hlast hnone p hp hpk
  have hsame : p = (k, sqlType) := List.inj_on_of_nodup_map hkeys hp (lastOf_mem hlast) hpk
  rw [hsame, hnone]

mutual
theorem relation_named_iff {at_ : String} : ∀ {sel : Selection} {level : Level},
    emitRelation at_ sel = .ok level → (RelationNamed at_ sel ↔ RelationSteady sel)
  | .mk name single targetTable select resolver nested, level, h => by
    obtain ⟨row, children, hrow, hchildren, rfl⟩ := emitRelation_ok h
    have hlevel := level_named_iff hrow hchildren
    have hnested := relations_named_iff hchildren
    rw [RelationNamed, RelationSteady]
    constructor
    · rintro ⟨hnamed, hbelow⟩
      exact ⟨hlevel.mp (hnamed _ h), hnested.mp hbelow⟩
    · rintro ⟨hsteady, hbelow⟩
      refine ⟨?_, hnested.mpr hbelow⟩
      intro level' h'
      rw [h] at h'
      obtain rfl := Except.ok.inj h'
      exact hlevel.mpr hsteady

theorem relations_named_iff {at_ : String} : ∀ {selections : List Selection}
    {children : List (String × PortableType)}, emitRelations at_ selections = .ok children →
      (RelationsNamed at_ selections ↔ RelationsSteady selections)
  | [], _, _ => by rw [RelationsNamed, RelationsSteady]
  | sel :: selections, children, h => by
    rw [emitRelations] at h
    obtain ⟨level, hlevel, h⟩ := Exit.bind_ok_iff.mp h
    obtain ⟨children', hchildren, -⟩ := Exit.bind_ok_iff.mp h
    rw [RelationsNamed, RelationsSteady, relation_named_iff hlevel,
      relations_named_iff hchildren]
end

/-- The levels of a read name their columns exactly when none is left with a class that another
column's, and no key is lost. -/
theorem emitRead_named_iff {name : String} {table : List Char} {projection : List (List Char)}
    {resolver : TxOutput.ColumnTypeResolver} {selections : List Selection} {level : Level}
    (h : emitRead name table projection resolver selections = .ok level) :
    (LevelNamed table resolver projection selections ("endpoint '" ++ name ++ "'") level ∧
        RelationsNamed ("endpoint '" ++ name ++ "'") selections) ↔
      (LevelSteady table resolver projection selections ∧ RelationsSteady selections) := by
  rw [emitRead] at h
  obtain ⟨row, hrow, h⟩ := Exit.bind_ok_iff.mp h
  obtain ⟨children, hchildren, h⟩ := Exit.bind_ok_iff.mp h
  obtain rfl := Except.ok.inj h
  rw [level_named_iff hrow hchildren, relations_named_iff hchildren]

theorem scalar_class {sqlType : List Char} (base : List Char)
    (harray : CellTypes.arrayElementType sqlType = none)
    (hbase : CellTypes.normalizeSqlTypeToken sqlType = base) :
    CellTypes.sqlTypeToMaterializeClass sqlType = CellTypes.classOfName sqlType base := by
  rw [CellTypes.sqlTypeToMaterializeClass.eq_def]
  split
  · next h =>
      rw [harray] at h
      cases h
  · rw [hbase]

theorem scalar_types :
    (CellTypes.arrayElementType "BIGINT NOT NULL".toList = none ∧
        CellTypes.normalizeSqlTypeToken "BIGINT NOT NULL".toList = "BIGINT".toList ∧
        sqlTypeIsNotNull false "BIGINT NOT NULL".toList = true) ∧
      CellTypes.arrayElementType "UUID".toList = none ∧
        CellTypes.normalizeSqlTypeToken "UUID".toList = "UUID".toList ∧
        sqlTypeIsNotNull false "UUID".toList = false ∧
        CellTypes.sqlTypeToBcScalar "UUID".toList = .ok .string := by
  decide +kernel

theorem bigint_class :
    CellTypes.sqlTypeToMaterializeClass "BIGINT NOT NULL".toList = .ok (some .int) := by
  obtain ⟨⟨harray, hbase, -⟩, -⟩ := scalar_types
  rw [scalar_class "BIGINT".toList harray hbase]
  rfl

theorem bigint_cell : cellType "BIGINT NOT NULL".toList = .ok (.scalar .int) := by
  obtain ⟨⟨harray, -, hnull⟩, -⟩ := scalar_types
  rw [cellType, CellTypes.outType, harray]
  simp only [CellTypes.keyArrayElemScalar, bigint_class, Except.map, hnull]
  rfl

theorem uuid_class : CellTypes.sqlTypeToMaterializeClass "UUID".toList = .ok none := by
  obtain ⟨-, harray, hbase, -⟩ := scalar_types
  rw [scalar_class "UUID".toList harray hbase]
  rfl

theorem uuid_cell : cellType "UUID".toList = .ok (.opt (.scalar .string)) := by
  obtain ⟨-, harray, -, hnull, hscalar⟩ := scalar_types
  rw [cellType, CellTypes.outType, harray]
  simp only [CellTypes.keyArrayElemScalar, uuid_class, hscalar, Except.map, hnull]
  rfl

/-- Posts that are joined to their authors, with ids of two types. -/
def joined : TxOutput.ColumnTypeResolver := fun table _ =>
  .ok (if table = "users".toList then "BIGINT NOT NULL" else "UUID").toList

theorem joined_entries :
    parseProjectionColumn "users.id".toList "posts".toList "endpoint 'feed'" =
        .ok (.column "id".toList "id".toList (some "users".toList)) ∧
      parseProjectionColumn "posts.id".toList "posts".toList "endpoint 'feed'" =
        .ok (.column "id".toList "id".toList (some "posts".toList)) ∧
      parseProjectionColumn "id AS post_id".toList "posts".toList "endpoint 'feed'" =
        .ok (.column "id".toList "post_id".toList none) ∧
      parseProjectionColumn "id".toList "users".toList "" =
        .ok (.column "id".toList "id".toList none) := by
  decide +kernel

theorem joined_types : joined "users".toList "id".toList = .ok "BIGINT NOT NULL".toList ∧
    joined "posts".toList "id".toList = .ok "UUID".toList := by
  constructor <;> rfl

theorem deriveColumns_cons {table col underlying outputKey sqlType : List Char}
    {qualifier : Option (List Char)} {resolve : TxOutput.ColumnTypeResolver} {at_ : String}
    {type : PortableType} {klass : Option MaterializeClass}
    (hentry : parseProjectionColumn col table at_ = .ok (.column underlying outputKey qualifier))
    (hdecl : resolve (qualifier.getD table) underlying = .ok sqlType)
    (htype : cellType sqlType = .ok type)
    (hclass : CellTypes.sqlTypeToMaterializeClass sqlType = .ok klass) (row : ReadRow)
    (projection : List (List Char)) :
    deriveColumns table resolve at_ row (col :: projection) =
      deriveColumns table resolve at_ ⟨Props.set row.obj (String.ofList outputKey) type,
        addClass row.materializers (String.ofList outputKey) klass⟩ projection := by
  rw [deriveColumns, hentry]
  simp only [hdecl, htype, hclass, bind, Except.bind]

/-- The ids under names of their own, with the author below the post. -/
theorem emitRead_named_aliased :
    let projection := ["id AS post_id".toList, "users.id".toList]
    let author := Selection.mk "author" true "users".toList ["id".toList] joined []
    ∃ level, emitRead "feed" "posts".toList projection joined [author] = .ok level ∧
      LevelNamed "posts".toList joined projection [author] "endpoint 'feed'" level ∧
      RelationsNamed "endpoint 'feed'" [author] := by
  intro projection author
  obtain ⟨husers, -, haliased, hown⟩ := joined_entries
  obtain ⟨hbigint, huuid⟩ := joined_types
  have hpost : Projects "posts".toList joined projection
      [("post_id", "UUID".toList), ("id", "BIGINT NOT NULL".toList)] :=
    .column ((parse_column_iff _ _).mp haliased) huuid
      (.column ((parse_column_iff _ _).mp husers) hbigint .nil)
  have hauthor : Projects "users".toList joined ["id".toList] [("id", "BIGINT NOT NULL".toList)] :=
    .column ((parse_column_iff _ _).mp hown) hbigint .nil
  have hlevel : emitRead "feed" "posts".toList projection joined [author] =
      .ok ⟨attach [("post_id", .opt (.scalar .string)), ("id", .scalar .int)]
        [("author", .opt (.obj [("id", .scalar .int)]))], [("id", .int)]⟩ := by
    have hrow : ∀ at_, deriveReadRow "posts".toList joined at_ projection =
        .ok ⟨[("post_id", .opt (.scalar .string)), ("id", .scalar .int)], [("id", .int)]⟩ := by
      intro at_
      have hentry := parse_elsewhere haliased "posts".toList at_
      refine (deriveColumns_cons hentry huuid uuid_cell uuid_class _ _).trans ?_
      exact deriveColumns_cons (parse_elsewhere husers _ at_) hbigint bigint_cell bigint_class _ _
    have hchild : ∀ at_, deriveReadRow "users".toList joined at_ ["id".toList] =
        .ok ⟨[("id", .scalar .int)], [("id", .int)]⟩ := fun at_ =>
      deriveColumns_cons (parse_elsewhere hown _ at_) hbigint bigint_cell bigint_class _ _
    have hbake : ∀ at_, bakeMaterializers "users".toList joined at_ [] ["id".toList] =
        .ok [("id", .int)] := fun at_ => bake_eq (hchild at_)
    have hnil : ∀ at_, emitRelations at_ [] = .ok [] := fun at_ => by rw [emitRelations]
    rw [emitRead, hrow, emitRelations, emitRelation, hchild, hbake, hnil, hnil]
    rfl
  refine ⟨_, hlevel, (emitRead_named_iff hlevel).mpr ⟨?_, ?_⟩⟩
  · intro columns hcolumns
    rw [hcolumns.unique hpost]
    exact steady_of_nodup (by decide) (by decide) (by decide)
  · rw [RelationsSteady, RelationSteady, RelationsSteady]
    refine ⟨⟨?_, trivial⟩, trivial⟩
    intro columns hcolumns
    rw [hcolumns.unique hauthor]
    exact steady_of_nodup (by decide) (by decide) (by decide)

/-- An id that is a text keeps the class of the id that it is joined to. -/
theorem joined_ids_keep_class :
    let projection := ["users.id".toList, "posts.id".toList]
    let level : Level := ⟨[("id", .opt (.scalar .string))], [("id", .int)]⟩
    emitRead "feed" "posts".toList projection joined [] = .ok level ∧
      ¬ LevelNamed "posts".toList joined projection [] "endpoint 'feed'" level := by
  intro projection level
  obtain ⟨husers, hposts, -⟩ := joined_entries
  obtain ⟨hbigint, huuid⟩ := joined_types
  have hproj : Projects "posts".toList joined projection
      [("id", "BIGINT NOT NULL".toList), ("id", "UUID".toList)] :=
    .column ((parse_column_iff _ _).mp husers) hbigint
      (.column ((parse_column_iff _ _).mp hposts) huuid .nil)
  constructor
  · have hrow : ∀ at_, deriveReadRow "posts".toList joined at_ projection =
        .ok ⟨[("id", .opt (.scalar .string))], [("id", .int)]⟩ := by
      intro at_
      have hentry := parse_elsewhere husers "posts".toList at_
      refine (deriveColumns_cons hentry hbigint bigint_cell bigint_class _ _).trans ?_
      exact deriveColumns_cons (parse_elsewhere hposts _ at_) huuid uuid_cell uuid_class _ _
    rw [emitRead, hrow, emitRelations]
    rfl
  · intro h
    have hclass := (h _ hproj).classes "id"
    have hlast : lastOf [("id", "BIGINT NOT NULL".toList), ("id", "UUID".toList)] "id" =
      some "UUID".toList := by decide
    have hnone : classOf "UUID".toList = none := by
      rw [classOf, uuid_class]
      rfl
    rw [hlast, Option.bind_some, hnone] at hclass
    exact nomatch hclass

end LiteDb.ReadRows
