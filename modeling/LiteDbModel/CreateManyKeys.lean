import LiteDbModel.CreateMany

/-!
# The keys and rows of `createMany`

Which batches `createMany` inserts as their records say, with a key for each
record, on every dialect and both runtimes.
-/

namespace LiteDb
set_option autoImplicit false
open Keyed

/-! ## Running the statements -/

section Running
variable {S : Type} {srv : Server S} {dialect : Dialect} {scp : Bool}

theorem insertRows_append (table : List (StoredRow S)) (as bs : List (List (String × SentCell))) :
    insertRows srv table (as ++ bs) =
      (insertRows srv table as).bind fun rows =>
        (insertRows srv (table ++ rows) bs).map fun rest => rows ++ rest := by
  induction as generalizing table with
  | nil =>
    simp only [List.nil_append, insertRows, Option.bind_some, List.append_nil]
    cases insertRows srv table bs <;> rfl
  | cons cells as ih =>
    simp only [List.cons_append, insertRows, ih]
    rcases insertRow srv table cells with _ | row
    · rfl
    · simp only [Option.bind_eq_bind, Option.bind_some]
      rcases insertRows srv (table ++ [row]) as with _ | rows
      · rfl
      · simp only [Option.bind_some, List.append_assoc, List.singleton_append, Option.pure_def]
        cases insertRows srv (table ++ row :: rows) bs <;> rfl

theorem insertRows_length {table news : List (StoredRow S)} {cells : List (List (String × SentCell))}
    (h : insertRows srv table cells = some news) : news.length = cells.length := by
  induction cells generalizing table news with
  | nil =>
    cases h
    rfl
  | cons c cells ih =>
    simp only [insertRows, Option.bind_eq_bind, Option.bind_eq_some_iff, Option.pure_def,
      Option.some.injEq] at h
    obtain ⟨row, _, rows, hrows, rfl⟩ := h
    rw [List.length_cons, List.length_cons, ih hrows]

/-- What a statement that succeeds has done. -/
theorem execInsert_ok {table after rows : List (StoredRow S)} {stmt : InsertStatement} :
    execInsert srv dialect scp table stmt = .ok (after, rows) ↔
      ∃ r news, recovery dialect scp stmt = .ok r ∧ stmt.parses dialect = true ∧
        insertRows srv table stmt.cells = some news ∧ after = table ++ news ∧
        returnedRows srv dialect r stmt table news = .ok rows := by
  rw [execInsert]
  rcases recovery dialect scp stmt with e | r
  · refine iff_of_false ?_ ?_
    · intro h
      cases h
    · rintro ⟨_, _, h, _⟩
      cases h
  · rcases hparses : stmt.parses dialect with _ | _
    · refine iff_of_false ?_ ?_
      · intro h
        cases h
      · rintro ⟨_, _, _, h, _⟩
        cases h
    · rcases insertRows srv table stmt.cells with _ | news
      · refine iff_of_false ?_ ?_
        · intro h
          cases h
        · rintro ⟨_, _, _, _, h, _⟩
          cases h
      · constructor
        · intro h
          rcases hret : returnedRows srv dialect r stmt table news with e | rows'
          · simp [bind, Except.bind, hret] at h
          · simp only [bind, Except.bind, hret, pure, Except.pure, Bool.true_eq_false, if_false,
              Except.ok.injEq, Prod.mk.injEq] at h
            obtain ⟨rfl, rfl⟩ := h
            exact ⟨r, news, rfl, rfl, rfl, rfl, hret⟩
        · rintro ⟨r', news', hr, _, hnews, rfl, hret⟩
          cases hr
          cases hnews
          simp [bind, Except.bind, hret, pure, Except.pure]

theorem execAll_cons {table after rows : List (StoredRow S)} {stmt : InsertStatement}
    {stmts : List InsertStatement} :
    execAll srv dialect scp table (stmt :: stmts) = .ok (after, rows) ↔
      ∃ mid first rest, execInsert srv dialect scp table stmt = .ok (mid, first) ∧
        execAll srv dialect scp mid stmts = .ok (after, rest) ∧ rows = first ++ rest := by
  rw [execAll]
  rcases execInsert srv dialect scp table stmt with e | ⟨mid, first⟩
  · refine iff_of_false ?_ ?_
    · intro h
      cases h
    · rintro ⟨_, _, _, h, _⟩
      cases h
  · rcases hrest : execAll srv dialect scp mid stmts with e | ⟨after', rest⟩
    · refine iff_of_false ?_ ?_
      · intro h
        simp [bind, Except.bind, hrest] at h
      · rintro ⟨_, _, _, h, hr, _⟩
        cases h
        rw [hrest] at hr
        cases hr
    · constructor
      · intro h
        simp only [bind, Except.bind, hrest, pure, Except.pure, Except.ok.injEq,
          Prod.mk.injEq] at h
        obtain ⟨rfl, rfl⟩ := h
        exact ⟨mid, first, rest, rfl, hrest, rfl⟩
      · rintro ⟨_, _, _, h, hr, rfl⟩
        cases h
        rw [hrest] at hr
        cases hr
        simp [bind, Except.bind, hrest, pure, Except.pure]

/-- PostgreSQL and SQLite return the rows they add. -/
theorem execAll_native (hd : dialect ≠ .mysql) {table after rows : List (StoredRow S)}
    {stmts : List InsertStatement} :
    execAll srv dialect scp table stmts = .ok (after, rows) ↔
      (∀ stmt ∈ stmts, stmt.parses dialect = true) ∧ after = table ++ rows ∧
        insertRows srv table (stmts.flatMap InsertStatement.cells) = some rows := by
  have hrecovery : ∀ stmt, recovery dialect scp stmt = .ok none := by
    intro stmt
    simp [recovery, hd]
  have hreturned : ∀ r stmt (before news : List (StoredRow S)),
      returnedRows srv dialect r stmt before news = .ok news := by
    intro r stmt before news
    rcases dialect with _ | _ | _
    · rfl
    · exact absurd rfl hd
    · rfl
  induction stmts generalizing table rows with
  | nil =>
    simp only [execAll, Except.ok.injEq, Prod.mk.injEq, List.flatMap_nil, insertRows,
      List.not_mem_nil, false_implies, implies_true, true_and, Option.some.injEq]
    constructor
    · rintro ⟨rfl, rfl⟩
      exact ⟨(List.append_nil table).symm, rfl⟩
    · rintro ⟨rfl, rfl⟩
      exact ⟨(List.append_nil table).symm, rfl⟩
  | cons stmt stmts ih =>
    rw [execAll_cons, List.flatMap_cons, insertRows_append]
    constructor
    · rintro ⟨mid, first, rest, hstmt, hrest, rfl⟩
      obtain ⟨r, news, _, hparses, hnews, rfl, hret⟩ := execInsert_ok.mp hstmt
      rw [hreturned] at hret
      cases hret
      obtain ⟨hall, rfl, hrows⟩ := ih.mp hrest
      refine ⟨List.forall_mem_cons.mpr ⟨hparses, hall⟩, List.append_assoc _ _ _, ?_⟩
      rw [hnews, Option.bind_some, hrows, Option.map_some]
    · rintro ⟨hall, rfl, hrows⟩
      obtain ⟨hparses, hall⟩ := List.forall_mem_cons.mp hall
      obtain ⟨first, hfirst, hrows⟩ := Option.bind_eq_some_iff.mp hrows
      obtain ⟨rest, hrest, rfl⟩ := Option.map_eq_some_iff.mp hrows
      refine ⟨table ++ first, first, rest, ?_, ?_, rfl⟩
      · exact execInsert_ok.mpr ⟨none, first, hrecovery stmt, hparses, hfirst, rfl, hreturned _ _ _ _⟩
      · exact ih.mpr ⟨hall, (List.append_assoc _ _ _).symm, hrest⟩

/-- The handler's driver runs every statement and looks for its rows afterwards. -/
theorem execAll_handler {table after rows : List (StoredRow S)} {stmts : List InsertStatement} :
    execAll srv .mysql false table stmts = .ok (after, rows) ↔
      (∀ stmt ∈ stmts, stmt.parses .mysql = true) ∧ handlerFinds srv table stmts = .ok rows ∧
        ∃ news, insertRows srv table (stmts.flatMap InsertStatement.cells) = some news ∧
          after = table ++ news := by
  have hrecovery : ∀ stmt, recovery .mysql false stmt = .ok none := fun _ => rfl
  induction stmts generalizing table rows with
  | nil =>
    simp only [execAll, handlerFinds, Except.ok.injEq, Prod.mk.injEq, List.flatMap_nil, insertRows,
      List.not_mem_nil, false_implies, implies_true, true_and, Option.some.injEq]
    constructor
    · rintro ⟨rfl, rfl⟩
      exact ⟨rfl, [], rfl, (List.append_nil table).symm⟩
    · rintro ⟨rfl, _, rfl, rfl⟩
      exact ⟨(List.append_nil table).symm, rfl⟩
  | cons stmt stmts ih =>
    rw [execAll_cons, List.flatMap_cons, insertRows_append]
    constructor
    · rintro ⟨mid, first, rest, hstmt, hrest, rfl⟩
      obtain ⟨r, news, hr, hparses, hnews, rfl, hret⟩ := execInsert_ok.mp hstmt
      rw [hrecovery] at hr
      cases hr
      obtain ⟨hall, hfinds, others, hothers, rfl⟩ := ih.mp hrest
      refine ⟨List.forall_mem_cons.mpr ⟨hparses, hall⟩, ?_, news ++ others, ?_, ?_⟩
      · have hrows : handlerRows srv table news = .ok first := hret
        simp [handlerFinds, hnews, hrows, hfinds, bind, Except.bind, pure, Except.pure]
      · rw [hnews, Option.bind_some, hothers, Option.map_some]
      · exact List.append_assoc _ _ _
    · rintro ⟨hall, hfinds, news, hnews, rfl⟩
      obtain ⟨hparses, hall⟩ := List.forall_mem_cons.mp hall
      obtain ⟨first, hfirst, hnews⟩ := Option.bind_eq_some_iff.mp hnews
      obtain ⟨others, hothers, rfl⟩ := Option.map_eq_some_iff.mp hnews
      rw [handlerFinds, hfirst] at hfinds
      rcases hrows : handlerRows srv table first with e | found
      · simp [bind, Except.bind, hrows] at hfinds
      · rcases hrest : handlerFinds srv (table ++ first) stmts with e | rest
        · simp [bind, Except.bind, hrows, hrest] at hfinds
        · simp only [bind, Except.bind, hrows, hrest, pure, Except.pure, Except.ok.injEq] at hfinds
          refine ⟨table ++ first, found, rest, ?_, ?_, hfinds.symm⟩
          · exact execInsert_ok.mpr ⟨none, first, rfl, hparses, hfirst, rfl, hrows⟩
          · exact ih.mpr ⟨hall, hrest, others, hothers, (List.append_assoc _ _ _).symm⟩

/-- The compiled runtime runs one statement, and looks for its rows by the key hint. -/
theorem execAll_hinted {table after rows : List (StoredRow S)} {stmt : InsertStatement} :
    execAll srv .mysql true table [stmt] = .ok (after, rows) ↔
      ∃ r news, buildMysqlReselect stmt = .ok r ∧ stmt.parses .mysql = true ∧
        insertRows srv table stmt.cells = some news ∧ after = table ++ news ∧
        rows = (table ++ news).filter
          (r.selects srv stmt (srv.insertId table news) news.length) := by
  have hrecovery : recovery .mysql true stmt = (buildMysqlReselect stmt).map some := by
    simp [recovery]
  rw [execAll_cons]
  constructor
  · rintro ⟨mid, first, rest, hstmt, hrest, rfl⟩
    obtain ⟨r, news, hr, hparses, hnews, rfl, hret⟩ := execInsert_ok.mp hstmt
    rw [hrecovery] at hr
    rcases hbuild : buildMysqlReselect stmt with e | r'
    · rw [hbuild] at hr
      cases hr
    · rw [hbuild] at hr
      cases hr
      cases hrest
      cases hret
      exact ⟨r', news, rfl, hparses, hnews, rfl, List.append_nil _⟩
  · rintro ⟨r, news, hbuild, hparses, hnews, rfl, rfl⟩
    refine ⟨table ++ news, _, [], ?_, rfl, (List.append_nil _).symm⟩
    exact execInsert_ok.mpr ⟨some r, news, by rw [hrecovery, hbuild]; rfl, hparses, hnews, rfl, rfl⟩

/-- A statement without the key hint fails in the compiled runtime, whatever it inserts. -/
theorem execAll_unhinted {table : List (StoredRow S)} {stmt : InsertStatement}
    {stmts : List InsertStatement} (h : stmt.hint = none) (out : List (StoredRow S) × List (StoredRow S)) :
    execAll srv .mysql true table (stmt :: stmts) ≠ .ok out := by
  intro hok
  obtain ⟨mid, first, rest, hstmt, _⟩ := execAll_cons.mp hok
  obtain ⟨r, news, hr, _⟩ := execInsert_ok.mp hstmt
  simp [recovery, buildMysqlReselect, h, Except.map] at hr

end Running

/-! ## The groups of a compiled write -/

theorem mysqlDateCell_live (dates : DateStrings) (cell : Cell) :
    (mysqlDateCell dates cell).live = cell.live := by
  rcases cell with v | sql | ⟨sql, params⟩
  · cases v <;> rfl
  · rfl
  · rfl

/-- Writing the dates out leaves the columns of a record as they are. -/
theorem recordColumns_dates (dates : DateStrings) (record : Record) :
    recordColumns (mysqlDateStrings dates record) = recordColumns record := by
  simp only [recordColumns, mysqlDateStrings, List.filter_map, List.map_map, Function.comp_def,
    mysqlDateCell_live]

def scpRecord (dialect : Dialect) (dates : DateStrings) (record : Record) : Record :=
  if dialect = .mysql then mysqlDateStrings dates record else record

theorem recordColumns_scp (dialect : Dialect) (dates : DateStrings) (record : Record) :
    recordColumns (scpRecord dialect dates record) = recordColumns record := by
  rw [scpRecord]
  split
  · exact recordColumns_dates dates record
  · rfl

/-- The group that a compiled write sends for a group of `_insert`. -/
def scpGroup (dialect : Dialect) (dates : DateStrings) (g : InsertGroup) : InsertGroup where
  columns := g.columns
  records := g.records.map (scpRecord dialect dates)
  rawRecords := g.rawRecords
  paired := by rw [List.length_map, g.paired]

theorem scpOptions_items (dialect : Dialect) (dates : DateStrings)
    (g : String × List (Record × Record)) :
    (scpOptions dialect dates (batchOf g).2).items =
      g.2.map fun it => (scpRecord dialect dates it.1, it.2) := by
  have hrecords : (scpOptions dialect dates (batchOf g).2).records =
      g.2.map fun it => scpRecord dialect dates it.1 := by
    simp only [scpOptions, batchOf]
    split
    · rename_i hd
      simp [scpRecord, hd]
    · rename_i hd
      simp [scpRecord, hd]
  rw [InsertManyBuildOptions.items, hrecords]
  simp only [scpOptions, batchOf, List.zip_map']

/-- A group of one pattern is still one group after the second grouping. -/
theorem compile_one (dialect : Dialect) (dates : DateStrings)
    {g : String × List (Record × Record)} (hne : g.2 ≠ [])
    (hkey : ∀ it ∈ g.2, patternKey it.1 = g.1) :
    compileInsertManyGroups (scpOptions dialect dates (batchOf g).2) =
      [scpGroup dialect dates (batchOf g).2] := by
  have hpattern : ∀ r, patternKey (scpRecord dialect dates r) = patternKey r := by
    intro r
    rw [patternKey, recordColumns_scp, patternKey]
  rw [compileInsertManyGroups, groupRecords_eq, scpOptions_items, groups_mapped]
  simp only [hpattern]
  rw [groups_of_one hne hkey]
  simp only [List.map_cons, List.map_nil, List.cons.injEq, and_true]
  obtain ⟨it, its, hits⟩ := List.exists_cons_of_ne_nil hne
  simp [batchOf, scpGroup, hits, recordColumns_scp]

section Created
variable {S : Type} {srv : Server S} {dialect : Dialect} {rt : Bool} {dates : DateStrings}
  {cls : ModelClass} {table : List (StoredRow S)} {pairsArray : List (List Pair)}

theorem sentGroups_one {g : InsertGroup} (h : createGroups cls pairsArray = [g]) :
    sentGroups dialect true dates [g] = [scpGroup dialect dates g] := by
  rw [createGroups, groupedByPattern_eq] at h
  obtain ⟨kg, hkg, rfl⟩ := List.map_eq_singleton_iff.mp h
  have hmem : kg ∈ groups (fun it : Record × Record => patternKey it.1)
      (serialized cls.serializers (pairsArray.map pairsToRecord)) := by
    rw [hkg]
    exact List.mem_singleton_self kg
  obtain ⟨hfilter, it, hit, _⟩ := mem_groups hmem
  have hkey : ∀ it ∈ kg.2, patternKey it.1 = kg.1 := by
    intro it hit
    rw [hfilter] at hit
    exact of_decide_eq_true (List.mem_filter.mp hit).2
  rw [sentGroups, if_pos rfl, List.flatMap_cons, List.flatMap_nil, List.append_nil]
  exact compile_one dialect dates (List.ne_nil_of_mem hit) hkey

/-- The records are sent in another order, each of them once. -/
theorem sentRecords_perm (cls : ModelClass) (pairsArray : List (List Pair)) :
    (sentRecords cls pairsArray).Perm (pairsArray.map pairsToRecord) := by
  rw [sentRecords, createGroups, groupedByPattern_eq, List.flatMap_map]
  have hraw : ∀ g : String × List (Record × Record),
      (batchOf g).2.rawRecords = g.2.map (·.2) := fun _ => rfl
  simp only [hraw, ← List.map_flatMap]
  have hperm := (groups_perm (fun it : Record × Record => patternKey it.1)
    (serialized cls.serializers (pairsArray.map pairsToRecord))).map (·.2)
  have hvalues : (serialized cls.serializers (pairsArray.map pairsToRecord)).map (·.2) =
      pairsArray.map pairsToRecord := by
    rw [serialized, List.map_map]
    exact List.map_id _
  rw [hvalues] at hperm
  exact hperm

theorem createMany_ok {after : List (StoredRow S)} {keys : List (List S)} :
    createMany srv dialect rt dates cls table pairsArray = .ok (after, keys) ↔
      ∃ rows, execAll srv dialect (usesScp dialect rt) table
          (insertStatements dialect rt dates cls (createGroups cls pairsArray)) =
          .ok (after, rows) ∧ keys = rows.map cls.key := by
  rw [createMany]
  rcases execAll srv dialect (usesScp dialect rt) table
    (insertStatements dialect rt dates cls (createGroups cls pairsArray)) with e | ⟨after', rows⟩
  · refine iff_of_false ?_ ?_
    · intro h
      cases h
    · rintro ⟨_, h, _⟩
      cases h
  · constructor
    · intro h
      cases h
      exact ⟨rows, rfl, rfl⟩
    · rintro ⟨_, h, rfl⟩
      cases h
      rfl

/-- What the compiled MySQL runtime is given: nothing, one hinted statement, or several plain. -/
theorem mysql_statements (dates : DateStrings) (cls : ModelClass) (pairsArray : List (List Pair)) :
    (createGroups cls pairsArray = [] ∧
      insertStatements .mysql true dates cls (createGroups cls pairsArray) = []) ∨
    (∃ stmt, (createGroups cls pairsArray).length = 1 ∧
      insertStatements .mysql true dates cls (createGroups cls pairsArray) = [stmt]) ∨
    ∃ stmt stmts, (createGroups cls pairsArray).length ≠ 1 ∧
      insertStatements .mysql true dates cls (createGroups cls pairsArray) = stmt :: stmts ∧
      stmt.hint = none := by
  rcases hgroups : createGroups cls pairsArray with _ | ⟨g, _ | ⟨g', gs⟩⟩
  · exact Or.inl ⟨rfl, rfl⟩
  · refine Or.inr (Or.inl ⟨insertStatement .mysql true cls (scpGroup .mysql dates g), rfl, ?_⟩)
    have hone : (usesScp .mysql true && decide ([g].length = 1)) = true := by
      rw [List.length_singleton]
      rfl
    simp only [insertStatements, hone, sentGroups_one hgroups, List.map_cons, List.map_nil]
  · have hmany : (usesScp .mysql true && decide ((g :: g' :: gs).length = 1)) = false := by
      simp
    refine Or.inr (Or.inr ⟨insertStatement .mysql false cls g,
      (g' :: gs).map (insertStatement .mysql false cls), ?_, ?_, ?_⟩)
    · simp
    · simp only [insertStatements, hmany, sentGroups, Bool.false_eq_true, if_false, List.map_cons]
    · simp [insertStatement]

/-- The call adds the rows `news` and returns their keys. -/
def Adds (srv : Server S) (dialect : Dialect) (rt : Bool) (dates : DateStrings) (cls : ModelClass)
    (table : List (StoredRow S)) (pairsArray : List (List Pair)) (news : List (StoredRow S)) :
    Prop :=
  ∃ keys, createMany srv dialect rt dates cls table pairsArray = .ok (table ++ news, keys) ∧
    keys.Perm (news.map cls.key)

/-- The statements add the rows `news`, whatever they return. -/
def Stores (srv : Server S) (dialect : Dialect) (rt : Bool) (dates : DateStrings) (cls : ModelClass)
    (table : List (StoredRow S)) (pairsArray : List (List Pair)) (news : List (StoredRow S)) :
    Prop :=
  let stmts := insertStatements dialect rt dates cls (createGroups cls pairsArray)
  insertRows srv table (stmts.flatMap InsertStatement.cells) = some news ∧
    ∀ stmt ∈ stmts, stmt.parses dialect = true

variable {news : List (StoredRow S)}

theorem adds_native (hd : dialect ≠ .mysql) :
    Adds srv dialect rt dates cls table pairsArray news ↔
      Stores srv dialect rt dates cls table pairsArray news := by
  constructor
  · rintro ⟨keys, hok, _⟩
    obtain ⟨rows, hexec, rfl⟩ := createMany_ok.mp hok
    obtain ⟨hparses, hafter, hrows⟩ := (execAll_native hd).mp hexec
    rw [List.append_cancel_left hafter]
    exact ⟨hrows, hparses⟩
  · rintro ⟨hrows, hparses⟩
    refine ⟨news.map cls.key, ?_, List.Perm.refl _⟩
    exact createMany_ok.mpr ⟨news, (execAll_native hd).mpr ⟨hparses, rfl, hrows⟩, rfl⟩

theorem adds_handler : Adds srv .mysql false dates cls table pairsArray news ↔
    Stores srv .mysql false dates cls table pairsArray news ∧
      Recovers srv .mysql false dates cls table pairsArray news := by
  constructor
  · rintro ⟨keys, hok, hkeys⟩
    obtain ⟨rows, hexec, rfl⟩ := createMany_ok.mp hok
    obtain ⟨hparses, hfinds, news', hnews, hafter⟩ := execAll_handler.mp hexec
    rw [List.append_cancel_left hafter] at hkeys ⊢
    exact ⟨⟨hnews, hparses⟩, rows, hfinds, hkeys⟩
  · rintro ⟨⟨hnews, hparses⟩, rows, hfinds, hkeys⟩
    refine ⟨rows.map cls.key, ?_, hkeys⟩
    exact createMany_ok.mpr ⟨rows, execAll_handler.mpr ⟨hparses, hfinds, news, hnews, rfl⟩, rfl⟩

theorem adds_nothing
    (hstmts : insertStatements .mysql true dates cls (createGroups cls pairsArray) = []) :
    Adds srv .mysql true dates cls table pairsArray news ↔
      Stores srv .mysql true dates cls table pairsArray news := by
  constructor
  · rintro ⟨keys, hok, _⟩
    obtain ⟨rows, hexec, rfl⟩ := createMany_ok.mp hok
    rw [hstmts] at hexec
    obtain ⟨hafter, _⟩ := Prod.mk.inj (Except.ok.inj hexec)
    have hnews : news = [] := List.append_right_eq_self.mp hafter.symm
    refine ⟨?_, ?_⟩
    · rw [hstmts, hnews]
      rfl
    · intro stmt hstmt
      rw [hstmts] at hstmt
      cases hstmt
  · rintro ⟨hnews, _⟩
    rw [hstmts] at hnews
    cases hnews
    refine ⟨[], createMany_ok.mpr ⟨[], ?_, rfl⟩, List.Perm.refl _⟩
    rw [hstmts, List.append_nil]
    rfl

theorem adds_hinted {stmt : InsertStatement} (hone : (createGroups cls pairsArray).length = 1)
    (hstmts : insertStatements .mysql true dates cls (createGroups cls pairsArray) = [stmt]) :
    Adds srv .mysql true dates cls table pairsArray news ↔
      Stores srv .mysql true dates cls table pairsArray news ∧
        Recovers srv .mysql true dates cls table pairsArray news := by
  have hne : createGroups cls pairsArray ≠ [] := by
    intro h
    rw [h] at hone
    cases hone
  constructor
  · rintro ⟨keys, hok, hkeys⟩
    obtain ⟨rows, hexec, rfl⟩ := createMany_ok.mp hok
    rw [hstmts] at hexec
    obtain ⟨r, news', hbuild, hparses, hnews, hafter, rfl⟩ := execAll_hinted.mp hexec
    obtain rfl := List.append_cancel_left hafter
    refine ⟨⟨?_, ?_⟩, Or.inr ⟨stmt, r, hstmts, hone, hbuild, hkeys⟩⟩
    · simpa only [hstmts, List.flatMap_cons, List.flatMap_nil, List.append_nil] using hnews
    · simpa only [hstmts, List.mem_singleton, forall_eq] using hparses
  · rintro ⟨⟨hnews, hparses⟩, hempty | ⟨stmt', r, hstmts', _, hbuild, hkeys⟩⟩
    · exact absurd hempty hne
    · obtain rfl : stmt = stmt' := by simpa only [hstmts, List.cons.injEq, and_true] using hstmts'
      rw [hstmts] at hnews hparses
      rw [List.flatMap_cons, List.flatMap_nil, List.append_nil] at hnews
      refine ⟨_, createMany_ok.mpr ⟨_, ?_, rfl⟩, hkeys⟩
      rw [hstmts]
      exact execAll_hinted.mpr ⟨r, news, hbuild, hparses stmt (List.mem_singleton_self stmt),
        hnews, rfl, rfl⟩

theorem adds_compiled : Adds srv .mysql true dates cls table pairsArray news ↔
    Stores srv .mysql true dates cls table pairsArray news ∧
      Recovers srv .mysql true dates cls table pairsArray news := by
  rcases mysql_statements dates cls pairsArray with
    ⟨hnone, hstmts⟩ | ⟨stmt, hone, hstmts⟩ | ⟨stmt, stmts, hmany, hstmts, hhint⟩
  · rw [adds_nothing hstmts]
    exact (and_iff_left (Or.inl hnone)).symm
  · exact adds_hinted hone hstmts
  · -- several patterns: the first statement has no hint
    refine iff_of_false ?_ ?_
    · rintro ⟨keys, hok, _⟩
      obtain ⟨rows, hexec, _⟩ := createMany_ok.mp hok
      rw [hstmts] at hexec
      exact execAll_unhinted hhint _ hexec
    · rintro ⟨_, hempty | ⟨_, _, _, hone, _⟩⟩
      · rw [hempty] at hstmts
        simp [insertStatements, sentGroups, usesScp] at hstmts
      · exact hmany hone

end Created

/-! ## When the statements store what the records describe -/

section Faithful
variable {S : Type} {srv : Server S} {dialect : Dialect} {rt : Bool} {dates : DateStrings}
  {cls : ModelClass} {table : List (StoredRow S)} {pairsArray : List (List Pair)}

theorem lookup_map_self {β : Type} (columns : List String) (g : String → β) (c : String) :
    (columns.map fun c => (c, g c)).lookup c = if c ∈ columns then some (g c) else none := by
  induction columns with
  | nil => rfl
  | cons c' columns ih =>
    rw [List.map_cons, lookup_cons_eq, ih]
    by_cases hc : c = c'
    · simp [hc]
    · simp [hc]

theorem mapM_stores (columns : List String) (f : String → SentCell) (d : String → S) :
    (columns.map fun c => (c, f c)).mapM
        (fun c => (srv.stores c.1 c.2).map fun s => (c.1, s)) =
      if ∀ c ∈ columns, (srv.stores c (f c)).isSome then
        some (columns.map fun c => (c, (srv.stores c (f c)).getD (d c)))
      else none := by
  induction columns with
  | nil => rfl
  | cons c columns ih =>
    rw [List.map_cons, List.mapM_cons, ih]
    rcases hc : srv.stores c (f c) with _ | s
    · simp [hc]
    · by_cases hall : ∀ c ∈ columns, (srv.stores c (f c)).isSome
      · rw [if_pos hall, if_pos (List.forall_mem_cons.mpr ⟨by rw [hc]; rfl, hall⟩)]
        simp [hc]
      · rw [if_neg hall, if_neg fun h => hall (List.forall_mem_cons.mp h).2]
        rfl

/-- The row of a list of columns: stored values where they are named, fresh ones elsewhere. -/
theorem insertRow_map (table : List (StoredRow S)) (columns : List String) (f : String → SentCell) :
    insertRow srv table (columns.map fun c => (c, f c)) =
      if ∀ c ∈ columns, (srv.stores c (f c)).isSome then
        let row : StoredRow S := fun c =>
          if c ∈ columns then (srv.stores c (f c)).getD (srv.fresh table c) else srv.fresh table c
        if srv.accepts table row then some row else none
      else none := by
  rw [insertRow, mapM_stores columns f (srv.fresh table)]
  split
  · have hrow : (fun c => ((columns.map fun c =>
        (c, (srv.stores c (f c)).getD (srv.fresh table c))).lookup c).getD (srv.fresh table c)) =
        fun c => if c ∈ columns then (srv.stores c (f c)).getD (srv.fresh table c)
          else srv.fresh table c := by
      funext c
      rw [lookup_map_self]
      split <;> rfl
    simp only [Option.bind_eq_bind, Option.bind_some, hrow]
  · rfl

/-- Only which columns are named and what each stores matters. -/
theorem insertRow_congr {columns columns' : List String} {f f' : String → SentCell}
    (hmem : ∀ c, c ∈ columns ↔ c ∈ columns')
    (hstores : ∀ c ∈ columns, srv.stores c (f c) = srv.stores c (f' c))
    (table : List (StoredRow S)) :
    insertRow srv table (columns.map fun c => (c, f c)) =
      insertRow srv table (columns'.map fun c => (c, f' c)) := by
  have hall : (∀ c ∈ columns, (srv.stores c (f c)).isSome = true) ↔
      ∀ c ∈ columns', (srv.stores c (f' c)).isSome = true := by
    constructor
    · intro h c hc
      rw [← hstores c ((hmem c).mpr hc)]
      exact h c ((hmem c).mpr hc)
    · intro h c hc
      rw [hstores c hc]
      exact h c ((hmem c).mp hc)
  have hrow : (fun c => if c ∈ columns then (srv.stores c (f c)).getD (srv.fresh table c)
      else srv.fresh table c) =
      fun c => if c ∈ columns' then (srv.stores c (f' c)).getD (srv.fresh table c)
        else srv.fresh table c := by
    funext c
    by_cases hc : c ∈ columns
    · rw [if_pos hc, if_pos ((hmem c).mp hc), hstores c hc]
    · rw [if_neg hc, if_neg fun h => hc ((hmem c).mpr h)]
  rw [insertRow_map, insertRow_map]
  by_cases h : ∀ c ∈ columns, (srv.stores c (f c)).isSome = true
  · rw [if_pos h, if_pos (hall.mp h)]
    simp only [hrow]
  · rw [if_neg h, if_neg fun h' => h (hall.mpr h')]

theorem insertRows_congr {as bs : List (List (String × SentCell))}
    (h : List.Forall₂ (fun a b => ∀ table, insertRow srv table a = insertRow srv table b) as bs)
    (table : List (StoredRow S)) : insertRows srv table as = insertRows srv table bs := by
  induction h generalizing table with
  | nil => rfl
  | cons hab _ ih => simp only [insertRows, hab table, ih]

theorem insertStatement_cells (compiled : Bool) (g : InsertGroup) :
    (insertStatement dialect compiled cls g).cells =
      g.items.map fun it => g.columns.map fun c => (c, sentCell dialect compiled cls g it c) := by
  simp only [InsertStatement.cells, insertStatement, List.map_map]
  apply List.map_congr_left
  intro it _
  have hid : g.columns = g.columns.map id := (List.map_id _).symm
  conv_lhs => rw [Function.comp_apply, hid, List.map_map, List.zip_map']
  rfl

/-- Every cell is stored as if it were bound by itself. -/
def CarriesFaithfully (srv : Server S) (dialect : Dialect) (rt : Bool) (dates : DateStrings)
    (cls : ModelClass) (groups : List InsertGroup) : Prop :=
  let compiled := usesScp dialect rt && decide (groups.length = 1)
  ∀ g ∈ sentGroups dialect compiled dates groups, ∀ it ∈ g.items, ∀ c ∈ g.columns,
    srv.stores c (sentCell dialect compiled cls g it c) =
      srv.stores c (describedCell dialect cls it.2 c)

end Faithful

section Described
variable {S : Type} {srv : Server S} {dialect : Dialect} {rt : Bool} {dates : DateStrings}
  {cls : ModelClass} {table : List (StoredRow S)} {pairsArray : List (List Pair)}

theorem InsertGroup.items_raw (g : InsertGroup) : g.items.map (·.2) = g.rawRecords :=
  List.map_snd_zip (le_of_eq g.paired.symm)

/-- What is sent are the groups of `_insert`, the dates of a compiled one written out. -/
theorem sentGroups_eq (dialect : Dialect) (rt : Bool) (dates : DateStrings) (cls : ModelClass)
    (pairsArray : List (List Pair)) : ∃ f : Record → Record,
    sentGroups dialect (usesScp dialect rt && decide ((createGroups cls pairsArray).length = 1))
        dates (createGroups cls pairsArray) =
      (createGroups cls pairsArray).map fun g =>
        ⟨g.columns, g.records.map f, g.rawRecords, by rw [List.length_map, g.paired]⟩ := by
  rcases hc : usesScp dialect rt && decide ((createGroups cls pairsArray).length = 1) with _ | _
  · refine ⟨id, ?_⟩
    simp [sentGroups]
  · refine ⟨scpRecord dialect dates, ?_⟩
    have hone : (createGroups cls pairsArray).length = 1 := by
      simpa using (Bool.and_eq_true_iff.mp hc).2
    obtain ⟨g, hg⟩ := List.length_eq_one_iff.mp hone
    rw [hg, sentGroups_one hg]
    rfl

theorem forall₂_flatMap {α β : Type} {R : β → β → Prop} {l : List α} {f g : α → List β}
    (h : ∀ a ∈ l, List.Forall₂ R (f a) (g a)) : List.Forall₂ R (l.flatMap f) (l.flatMap g) := by
  induction l with
  | nil => exact List.Forall₂.nil
  | cons a l ih =>
    obtain ⟨ha, hl⟩ := List.forall_mem_cons.mp h
    rw [List.flatMap_cons, List.flatMap_cons]
    exact List.rel_append ha (ih hl)

/-- Grouped right and carried faithfully, the records are stored as they describe themselves. -/
theorem stored_as_described
    (hgroups : GroupsRecords cls.serializers (pairsArray.map pairsToRecord))
    (hfaithful : CarriesFaithfully srv dialect rt dates cls (createGroups cls pairsArray)) :
    insertRows srv table ((insertStatements dialect rt dates cls
        (createGroups cls pairsArray)).flatMap InsertStatement.cells) =
      insertRows srv table ((sentRecords cls pairsArray).map (describedCells dialect cls)) := by
  obtain ⟨f, hsent⟩ := sentGroups_eq dialect rt dates cls pairsArray
  rw [CarriesFaithfully, hsent] at hfaithful
  rw [insertStatements, hsent, List.map_map, List.flatMap_map, sentRecords, List.map_flatMap]
  apply insertRows_congr
  apply forall₂_flatMap
  intro g hg
  have hitems : ∀ h, (InsertGroup.mk g.columns (g.records.map f) g.rawRecords h).items =
      g.items.map fun it => (f it.1, it.2) := by
    intro h
    rw [InsertGroup.items, InsertGroup.items, List.zip_map_left]
    rfl
  have hraw : g.rawRecords.map (describedCells dialect cls) =
      g.items.map fun it => describedCells dialect cls it.2 := by
    conv_lhs => rw [← g.items_raw, List.map_map]
    rfl
  rw [Function.comp_apply, insertStatement_cells, hitems, List.map_map, hraw,
    List.forall₂_map_left_iff, List.forall₂_map_right_iff, List.forall₂_same]
  intro it hit table
  have hcolumns := (hgroups.partition.columns g hg it hit).2.2
  apply insertRow_congr
  · intro c
    rw [hcolumns, mem_recordColumns]
  · intro c hc
    refine hfaithful _ (List.mem_map_of_mem hg) (f it.1, it.2) ?_ c hc
    rw [hitems]
    exact List.mem_map_of_mem hit

/-! ## When the keys can be read back -/

/-- The ids of the new rows are the reported one and those after it, and no old row reaches it. -/
structure ConsecutiveIds (srv : Server S) (k : String) (table news : List (StoredRow S)) : Prop where
  new : ∀ (i : Nat) (row : StoredRow S), news[i]? = some row →
    srv.number (row k) = some (srv.insertId table news + i)
  old : ∀ row ∈ table, ∀ n, srv.number (row k) = some n → n < srv.insertId table news

/-- One pattern with a generated key: the range of ids is exactly the new rows. -/
theorem recovers_autoInc {g : InsertGroup} {k : String} {news : List (StoredRow S)}
    (hone : createGroups cls pairsArray = [g]) (hpk : cls.pk = ⟨[k], some k⟩)
    (hids : ConsecutiveIds srv k table news) :
    Recovers srv .mysql true dates cls table pairsArray news := by
  have hcompiled : (usesScp .mysql true && decide ((createGroups cls pairsArray).length = 1)) =
      true := by
    rw [hone, List.length_singleton]
    rfl
  have hstmts : insertStatements .mysql true dates cls (createGroups cls pairsArray) =
      [insertStatement .mysql true cls (scpGroup .mysql dates g)] := by
    rw [insertStatements, hcompiled, hone, sentGroups_one hone]
    rfl
  refine Or.inr ⟨_, .range k, hstmts, by rw [hone]; rfl, ?_, ?_⟩
  · simp [buildMysqlReselect, insertStatement, hpk]
  · apply List.Perm.of_eq
    congr 1
    rw [List.filter_append, List.filter_eq_nil_iff.mpr, List.nil_append, List.filter_eq_self.mpr]
    · intro row hrow
      obtain ⟨i, hi⟩ := List.mem_iff_getElem?.mp hrow
      obtain ⟨hlt, _⟩ := List.getElem?_eq_some_iff.mp hi
      rw [Reselect.selects, hids.new i row hi, decide_eq_true_eq]
      omega
    · intro row hrow
      rw [Reselect.selects]
      rcases hn : srv.number (row k) with _ | n
      · simp
      · have := hids.old row hrow n hn
        rw [decide_eq_true_eq]
        omega

end Described

/-! ## The whole call -/

/-- A server that stores what it is sent, numbers its rows from one and refuses nothing. -/
def plainServer : Server JsVal where
  stores _ sent :=
    match sent.cell with
    | .val v => some v
    | .immediate sql | .token sql _ => some (.str sql)
  fresh table c := if c = "id" then .bigint (table.length + 1) else .null
  accepts _ _ := true
  insertId table _ := table.length + 1
  number
    | .bigint n => some n
    | _ => none
  equals sent v :=
    match sent.cell, v with
    | .val (.str s), .str t => s = t
    | .val (.bigint m), .bigint n => m = n
    | _, _ => false
  hasColumn c := c = "id"

def userClass : ModelClass where
  pk := ⟨["id"], some "id"⟩
  serializers _ := none
  sqlCast _ := none

/-- Two users, one of them with the email skipped. -/
def mixedUsers : List (List Pair) :=
  [[("email", some (.val (.str "j@example.com"))), ("name", some (.val (.str "John")))],
    [("email", none), ("name", some (.val (.str "Jane")))]]

theorem mixedUsers_groups : (createGroups userClass mixedUsers).length = 2 := by
  let both : Record := pairsToRecord [("email", some (.val (.str "j@example.com"))),
    ("name", some (.val (.str "John")))]
  let one : Record := pairsToRecord [("email", none), ("name", some (.val (.str "Jane")))]
  have hserial : ∀ r : Record, serializeRecord (fun _ => none) r = r := by
    intro r
    have hcells : r.cells.map (serializeCell fun _ => none) = r.cells := List.map_id _
    simp [serializeRecord, hcells]
  have hboth : patternKey both = "email,name" := by
    have hsorted : (["email", "name"] : List String).Pairwise (sortsBefore · ·) := by decide
    have hcolumns : recordColumns both = ["email", "name"] := List.mergeSort_of_pairwise hsorted
    rw [patternKey, hcolumns]
    rfl
  have hone : patternKey one = "name" := by
    have hcolumns : recordColumns one = ["name"] := List.mergeSort_singleton "name"
    rw [patternKey, hcolumns]
    rfl
  rw [createGroups, groupedByPattern_eq, List.length_map]
  have hitems : serialized userClass.serializers (mixedUsers.map pairsToRecord) =
      [(both, both), (one, one)] := by
    simp [serialized, userClass, mixedUsers, hserial, both, one]
  rw [hitems]
  simp [groups, push, hboth, hone]

end LiteDb
