import LiteDbModel.Fragments

/-!
# Fragments and the statement of the present conditions

The runtime joins the texts of the fragments that are present; for plain values that is the
statement which the builders make of the present conditions. A value that a builder writes into the
text, or spreads, is a parameter of the fragment.
-/

namespace LiteDb.Fragments
set_option autoImplicit false

/-! ## Question marks in a text -/

theorem length_chunks (cs : List Char) : (chunks cs).2.length = cs.count '?' := by
  induction cs with
  | nil => rfl
  | cons c cs ih =>
    rw [chunks, List.count_cons]
    by_cases h : c = '?'
    · rw [if_pos h, List.length_cons, ih, if_pos (by simpa using h)]
    · rw [if_neg h, ih, if_neg (by simpa using h), Nat.add_zero]

theorem chunks_append (cs : List Char) :
    (chunks cs).1 ++ (chunks cs).2.flatMap ('?' :: ·) = cs := by
  induction cs with
  | nil => rfl
  | cons c cs ih =>
    rw [chunks]
    by_cases h : c = '?'
    · rw [if_pos h, List.nil_append, List.flatMap_cons, List.cons_append, ih, h]
    · rw [if_neg h, List.cons_append, ih]

theorem hasHole_eq_false {s : String} : hasHole s = false ↔ s.toList.count '?' = 0 := by
  rw [hasHole, ← Bool.not_eq_true, List.contains_iff_mem, List.count_eq_zero]

/-! ## Fragments of value-specs -/

section Assemble
variable {plus : CondVal → CondVal → CondVal} {scope : Scope}

theorem assembleFragment_nil (sql : String) (skip : Option (List String)) :
    assembleFragment plus scope (.mk sql [] skip) =
      if sql.toList.count '?' = 0 then .ok ⟨sql, []⟩
      else .error (placeholderMismatch sql (sql.toList.count '?') 0) := by
  have happ := chunks_append sql.toList
  have hlen := length_chunks sql.toList
  rw [assembleFragment, hlen, List.length_nil, ite_not]
  split
  · next h =>
    rw [h] at hlen
    rw [List.length_eq_zero_iff.mp hlen, List.flatMap_nil, List.append_nil] at happ
    rw [happ, List.length_eq_zero_iff.mp hlen, assembleParams, Except.map]
    · simp
    · simp
  · rfl

theorem assembleFragment_spec (sql : String) (s : ValueSpec) (skip : Option (List String)) :
    assembleFragment plus scope (.mk sql [.spec s] skip) =
      if sql.toList.count '?' = 1 then (evalValueSpec plus scope s).map fun v => ⟨sql, [v]⟩
      else .error (placeholderMismatch sql (sql.toList.count '?') 1) := by
  have happ := chunks_append sql.toList
  have hlen := length_chunks sql.toList
  rw [assembleFragment, hlen, List.length_singleton, ite_not]
  split
  · next h =>
    rw [h] at hlen
    obtain ⟨chunk, hchunk⟩ := List.length_eq_one_iff.mp hlen
    rw [hchunk, List.flatMap_singleton] at happ
    rw [hchunk, assembleParams, assembleParam]
    cases evalValueSpec plus scope s with
    | error e => rfl
    | ok v =>
      have hsql : sql = String.ofList (chunks sql.toList).1 ++ ("?" ++ String.ofList chunk) := by
        apply String.toList_injective
        rw [String.toList_append, String.toList_append, String.toList_ofList, String.toList_ofList]
        exact happ.symm.trans (by simp)
      simp only [Except.map, assembleParams, String.append_empty, List.append_nil]
      rw [← hsql]
  · rfl

theorem assemble_cons (node : Node) (nodes : List Node) (p : Piece) :
    assemble plus scope (node :: nodes) = .ok p ↔
      ∃ q rest, assembleNode plus scope node = .ok q ∧ assemble plus scope nodes = .ok rest ∧
        p = ⟨q.sql ++ rest.sql, q.params ++ rest.params⟩ := by
  rw [assemble]
  cases assembleNode plus scope node with
  | error e => simp [bind, Except.bind]
  | ok q =>
    cases assemble plus scope nodes with
    | error e => simp [bind, Except.bind]
    | ok rest => simp [bind, Except.bind, pure, Except.pure, eq_comm]

theorem assemble_append (xs ys : List Node) (p : Piece) :
    assemble plus scope (xs ++ ys) = .ok p ↔
      ∃ q rest, assemble plus scope xs = .ok q ∧ assemble plus scope ys = .ok rest ∧
        p = ⟨q.sql ++ rest.sql, q.params ++ rest.params⟩ := by
  induction xs generalizing p with
  | nil => simp [assemble]
  | cons x xs ih =>
    rw [List.cons_append, assemble_cons]
    constructor
    · rintro ⟨q, rest, hq, hrest, rfl⟩
      obtain ⟨q', rest', hq', hrest', rfl⟩ := (ih rest).mp hrest
      refine ⟨⟨q.sql ++ q'.sql, q.params ++ q'.params⟩, rest', ?_, hrest', ?_⟩
      · exact (assemble_cons x xs _).mpr ⟨q, q', hq, hq', rfl⟩
      · simp only [String.append_assoc, List.append_assoc]
    · rintro ⟨q, rest, hq, hrest, rfl⟩
      obtain ⟨q₁, q₂, hq₁, hq₂, rfl⟩ := (assemble_cons x xs q).mp hq
      refine ⟨q₁, ⟨q₂.sql ++ rest.sql, q₂.params ++ rest.params⟩, hq₁,
        (ih _).mpr ⟨q₂, rest, hq₂, hrest, rfl⟩, ?_⟩
      simp only [String.append_assoc, List.append_assoc]

theorem assemble_singleton (node : Node) (p : Piece) :
    assemble plus scope [node] = .ok p ↔ assembleNode plus scope node = .ok p := by
  rw [assemble_cons]
  constructor
  · rintro ⟨q, rest, hq, hrest, rfl⟩
    obtain rfl := Except.ok.inj hrest
    rw [hq]
    simp
  · intro h
    exact ⟨p, ⟨"", []⟩, h, rfl, by simp⟩

/-! ## One condition -/

/-- A column whose text has one placeholder. -/
def OneHole (column : String) : Prop := reserved column = false ∧ column.toList.count '?' ≤ 1

theorem ne_raw {column : String} (h : reserved column = false) : column ≠ "__raw__" := by
  rintro rfl
  exact absurd h (by decide)

theorem compile_js (fmt : Formatter) (column : String) (v : JsVal) (atom : v.isAtom = true) :
    compileCondition fmt column (.js v atom) =
      if column = "__raw__" then compileRaw (.js v atom)
      else if reserved column then ⟨"", []⟩ else compileJs column v atom := by
  rw [compileCondition]

theorem core_eq (column : String) :
    core column = (if column = "__raw__" then ⟨"__probe__", []⟩
      else if reserved column then ⟨"", []⟩
      else compileScalar column WriteNode.probe : Piece).sql := by
  rw [core, WriteNode.v1ConditionText, compile_and, List.map_singleton, joinPieces_single]
  exact congrArg Piece.sql (compile_js none column _ _)

theorem core_of_free {column : String} (h : reserved column = false) :
    core column = if hasHole column then column else column ++ " = ?" := by
  rw [core_eq, if_neg (ne_raw h), h]
  simp only [Bool.false_eq_true, if_false, compileScalar]
  split <;> rfl

/-- The column's text has one placeholder exactly when it is compiled to one. -/
theorem count_core (column : String) : (core column).toList.count '?' = 1 ↔ OneHole column := by
  cases hres : reserved column with
  | true =>
    have hcount : (core column).toList.count '?' = 0 := by
      rw [core_eq, hres]
      split
      · decide
      · rfl
    rw [hcount]
    simp [OneHole, hres]
  | false =>
    rw [core_of_free hres]
    cases hhole : hasHole column with
    | true =>
      have hpos : column.toList.count '?' ≠ 0 := by
        intro h0
        rw [hasHole_eq_false.mpr h0] at hhole
        cases hhole
      simp only [if_true, OneHole, hres, true_and]
      omega
    | false =>
      have hzero := hasHole_eq_false.mp hhole
      have hrest : (" = ?" : String).toList.count '?' = 1 := by decide
      rw [if_neg (by simp), String.toList_append, List.count_append, hzero, hrest]
      simp [OneHole, hres, hzero]

theorem core_ne_empty {column : String} (h : OneHole column) : core column ≠ "" := by
  intro hempty
  have hcount := (count_core column).mpr h
  rw [hempty] at hcount
  exact absurd hcount (by decide)

/-- A plain value is compiled to its column's text and itself. -/
theorem compile_equality {fmt : Formatter} {p : String × CondVal} (h : Equality p)
    (hnull : nullish p.2 = false) : compileCondition fmt p.1 p.2 = ⟨core p.1, [p.2]⟩ := by
  obtain ⟨column, v⟩ := p
  obtain ⟨hres, -, hplain⟩ := h
  have hscalar : compileScalar column v = ⟨core column, [v]⟩ := by
    rw [core_of_free hres, compileScalar]
    split <;> rfl
  cases v with
  | js v atom =>
    rw [compile_js, if_neg (ne_raw hres), hres]
    simp only [Bool.false_eq_true, if_false]
    cases v with
    | undefined => exact absurd hnull (by simp [nullish, JsVal.nullish])
    | null => exact absurd hnull (by simp [nullish, JsVal.nullish])
    | bool b => exact absurd hplain (by simp [plain])
    | arr xs => cases atom
    | obj ps => cases atom
    | _ => exact hscalar
  | skip =>
    rw [compileCondition, hres]
    exact hscalar
  | obj ps =>
    rw [compileCondition, hres]
    exact hscalar
  | _ => exact absurd hplain (by simp [plain])

end Assemble

/-! ## Parameters are parts of the value -/

/-- The sizes of the parameters together. -/
noncomputable def load (ps : List CondVal) : Nat := (ps.map sizeOf).sum

theorem load_nil : load [] = 0 := rfl

theorem load_append (ps qs : List CondVal) : load (ps ++ qs) = load ps + load qs := by
  rw [load, List.map_append, List.sum_append]
  rfl

theorem load_singleton (v : CondVal) : load [v] = sizeOf v := by simp [load]

theorem load_le (xs : List CondVal) : load xs ≤ sizeOf xs := by
  induction xs with
  | nil => exact Nat.zero_le _
  | cons x xs ih =>
    have hcons : load (x :: xs) = sizeOf x + load xs := by simp [load]
    rw [hcons, List.cons.sizeOf_spec]
    omega

theorem load_flatten (xss : List (List CondVal)) : load xss.flatten ≤ sizeOf xss := by
  induction xss with
  | nil => exact Nat.zero_le _
  | cons xs xss ih =>
    have hxs := load_le xs
    rw [List.flatten_cons, load_append, List.cons.sizeOf_spec]
    omega

theorem load_inList (key placeholder : String) (values : List CondVal) :
    load (inList key placeholder values).params ≤ sizeOf values := by
  rw [inList]
  split
  · exact Nat.zero_le _
  · exact load_le values

theorem load_whereClause (ps : List Piece) :
    load (whereClause ps).params ≤ load (ps.flatMap Piece.params) := by
  rw [whereClause]
  split
  · exact Nat.zero_le _
  · exact le_refl _

theorem load_joinPieces (sep : String) (ps : List Piece) :
    load (joinPieces sep ps).params = load (ps.flatMap Piece.params) := rfl

theorem params_group (p : Piece) : p.group.params = p.params := by
  rw [Piece.group]
  split <;> rfl

mutual
theorem load_token (fmt : Formatter) (key : String) :
    (t : DBToken) → load (t.compile fmt key).params < sizeOf t
  | .value v _ => by
    rw [DBToken.compile, load_singleton, DBToken.value.sizeOf_spec]
    omega
  | .immediate _ _ => by
    rw [DBToken.compile, load_nil, DBToken.immediate.sizeOf_spec]
    omega
  | .nullValue => by
    rw [DBToken.compile, load_nil, DBToken.nullValue.sizeOf_spec]
    omega
  | .notNullValue => by
    rw [DBToken.compile, load_nil, DBToken.notNullValue.sizeOf_spec]
    omega
  | .array values => by
    have h := load_inList key "?" values
    rw [DBToken.compile, DBToken.array.sizeOf_spec]
    omega
  | .dynamic _ values => by
    have h := load_le values
    rw [DBToken.compile, DBToken.dynamic.sizeOf_spec]
    change load values < _
    omega
  | .raw _ => by
    rw [DBToken.compile, load_nil, DBToken.raw.sizeOf_spec]
    omega
  | .tupleIn _ tuples => by
    have h := load_flatten tuples
    rw [DBToken.compile, DBToken.tupleIn.sizeOf_spec]
    split
    · rw [load_nil]
      omega
    · change load tuples.flatten < _
      omega
  | .cast v _ _ => by
    rw [DBToken.compile, load_singleton, DBToken.cast.sizeOf_spec]
    omega
  | .castArray values sqlType => by
    have h := load_inList key (fmt.format "?" sqlType) values
    rw [DBToken.compile, DBToken.castArray.sizeOf_spec]
    omega
  | .parentRef _ => by
    rw [DBToken.compile, load_nil, DBToken.parentRef.sizeOf_spec]
    omega
  | .subquery _ _ _ conditions _ => by
    have h := (load_whereClause _).trans (load_subquery conditions)
    rw [DBToken.compile, DBToken.subquery.sizeOf_spec]
    change load (whereClause (subqueryConditions conditions)).params < _
    omega
  | .existsIn _ conditions _ => by
    have h := (load_whereClause _).trans (load_subquery conditions)
    rw [DBToken.compile, DBToken.existsIn.sizeOf_spec]
    change load (whereClause (subqueryConditions conditions)).params < _
    omega

theorem load_subquery : (conditions : List (ColumnRef × CondVal)) →
    load ((subqueryConditions conditions).flatMap Piece.params) ≤ sizeOf conditions
  | [] => Nat.zero_le _
  | (col, v) :: conditions => by
    have hv := load_subqueryCondition (formatColumn col) v
    have hrest := load_subquery conditions
    rw [subqueryConditions, List.flatMap_cons, load_append, List.cons.sizeOf_spec,
      Prod.mk.sizeOf_spec]
    omega

theorem load_subqueryCondition (colRef : String) :
    (v : CondVal) → load (subqueryCondition colRef v).params ≤ sizeOf v
  | .token t => by
    have h := load_token none colRef t
    rw [CondVal.token.sizeOf_spec]
    cases t with
    | parentRef column => exact Nat.zero_le _
    | _ =>
      rw [subqueryCondition]
      · omega
      · simp
  | .arr xs => by
    have h := load_le xs
    rw [subqueryCondition, CondVal.arr.sizeOf_spec]
    split
    · exact Nat.zero_le _
    · change load xs ≤ _
      omega
  | .js v atom => by
    cases v with
    | null => exact Nat.zero_le _
    | _ => exact (load_singleton _).le
  | .skip => (load_singleton _).le
  | .obj _ => (load_singleton _).le
  | .nested _ => (load_singleton _).le
end

theorem load_array (key : String) (xs : List CondVal) :
    load (compileArray key xs).params ≤ sizeOf xs := by
  have h := load_le xs
  unfold compileArray compileCustomArray
  split
  · dsimp only
    split
    · exact Nat.zero_le _
    · split <;> exact h
  · split
    · exact Nat.zero_le _
    · exact h

theorem load_scalar (key : String) (v : CondVal) :
    load (compileScalar key v).params = sizeOf v := by
  rw [compileScalar]
  split <;> exact load_singleton v

theorem load_js (key : String) (v : JsVal) (atom : v.isAtom = true) :
    load (compileJs key v atom).params ≤ sizeOf (CondVal.js v atom) := by
  cases v with
  | null => exact Nat.zero_le _
  | bool b =>
    rw [compileJs, compileBool]
    split <;> exact Nat.zero_le _
  | arr xs => cases atom
  | obj ps => cases atom
  | _ => exact (load_scalar key _).le

theorem load_bool (key : String) (b : Bool) (atom : (JsVal.bool b).isAtom = true) :
    load (compileJs key (.bool b) atom).params = 0 := by
  rw [compileJs, compileBool]
  split <;> rfl

theorem load_raw (xs : List CondVal) : load (compileRaw (.arr xs)).params ≤ sizeOf xs := by
  rw [compileRaw.eq_def]
  split
  · exact Nat.zero_le _
  · next params heq =>
    obtain rfl := CondVal.arr.inj heq
    have h := load_le params
    simp only [List.cons.sizeOf_spec, CondVal.arr.sizeOf_spec]
    omega
  · exact Nat.zero_le _
  · exact Nat.zero_le _

theorem params_or (groups : List Piece) :
    (compileOr groups).params = groups.flatMap Piece.params := by
  rw [compileOr, params_group, joinPieces, List.flatMap_map]
  exact List.flatMap_congr fun g _ => params_group g

mutual
/-- What a condition binds is part of its value, a proper one unless the value is plain. -/
theorem load_condition (fmt : Formatter) (key : String) : (v : CondVal) →
    load (compileCondition fmt key v).params ≤ sizeOf v ∧
      (plain v = false → load (compileCondition fmt key v).params < sizeOf v)
  | .arr xs => by
    have hgroups := load_groups fmt xs
    have hraw := load_raw xs
    have harray := load_array key xs
    have hlt : load (compileCondition fmt key (.arr xs)).params < sizeOf (CondVal.arr xs) := by
      rw [compileCondition, CondVal.arr.sizeOf_spec]
      split
      · rw [params_or]
        omega
      · split
        · omega
        · split
          · rw [load_nil]
            omega
          · omega
    exact ⟨hlt.le, fun _ => hlt⟩
  | .token t => by
    have h := load_token fmt key t
    have hlt : load (compileCondition fmt key (.token t)).params < sizeOf (CondVal.token t) := by
      rw [compileCondition, CondVal.token.sizeOf_spec]
      split
      · rw [load_nil]
        omega
      · omega
    exact ⟨hlt.le, fun _ => hlt⟩
  | .nested c => by
    have h := load_conditions fmt c
    have hlt : load (compileCondition fmt key (.nested c)).params < sizeOf (CondVal.nested c) := by
      rw [compileCondition, CondVal.nested.sizeOf_spec]
      split
      · rw [load_nil]
        omega
      · change load (compile fmt c).params < _
        omega
    exact ⟨hlt.le, fun _ => hlt⟩
  | .js v atom => by
    have hjs := load_js key v atom
    rw [compile_js]
    constructor
    · split
      · cases v <;> exact Nat.zero_le _
      · split
        · exact Nat.zero_le _
        · exact hjs
    · cases v with
      | bool b =>
        intro _
        have hpos : 0 < sizeOf (CondVal.js (.bool b) atom) := by
          rw [CondVal.js.sizeOf_spec]
          omega
        split
        · exact hpos
        · split
          · exact hpos
          · rw [load_bool]
            exact hpos
      | _ => exact fun h => absurd h (by simp [plain])
  | .skip => by
    refine ⟨?_, by simp [plain]⟩
    rw [compileCondition]
    split
    · exact Nat.zero_le _
    · exact (load_scalar key _).le
  | .obj ps => by
    refine ⟨?_, by simp [plain]⟩
    rw [compileCondition]
    split
    · exact Nat.zero_le _
    · exact (load_scalar key _).le

theorem load_groups (fmt : Formatter) : (xs : List CondVal) →
    load ((compileGroups fmt xs).flatMap Piece.params) ≤ sizeOf xs
  | [] => Nat.zero_le _
  | x :: xs => by
    have hrest := load_groups fmt xs
    rw [List.cons.sizeOf_spec]
    cases x with
    | obj ps =>
      have hps := load_entries fmt ps
      rw [compileGroups, List.flatMap_cons, load_append, load_joinPieces, CondVal.obj.sizeOf_spec]
      omega
    | _ =>
      rw [compileGroups, List.flatMap_cons, load_append, load_joinPieces, List.flatMap_nil,
        load_nil]
      · omega
      · simp

theorem load_entries (fmt : Formatter) : (ps : List (String × CondVal)) →
    load ((compileEntries fmt ps).flatMap Piece.params) ≤ sizeOf ps
  | [] => Nat.zero_le _
  | (k, v) :: ps => by
    have hv := (load_condition fmt k v).1
    have hrest := load_entries fmt ps
    rw [compileEntries, List.flatMap_cons, load_append, List.cons.sizeOf_spec, Prod.mk.sizeOf_spec]
    omega

theorem load_conditions (fmt : Formatter) : (c : DBConditions) →
    load (compile fmt c).params < sizeOf c
  | .mk conditions operator nested => by
    have hps := load_entries fmt conditions
    have hcs := load_nested fmt nested
    rw [compile, load_joinPieces, List.flatMap_append, load_append, DBConditions.mk.sizeOf_spec]
    omega

theorem load_nested (fmt : Formatter) : (cs : List DBConditions) →
    load ((compileNested fmt cs).flatMap Piece.params) ≤ sizeOf cs
  | [] => Nat.zero_le _
  | c :: cs => by
    have hc := load_conditions fmt c
    have hrest := load_nested fmt cs
    rw [compileNested, List.flatMap_cons, params_group, load_append, List.cons.sizeOf_spec]
    omega
end

/-! ## The present conditions -/

/-- The texts of the conditions behind one that is always there. -/
def andTexts : List (String × CondVal) → String
  | [] => ""
  | q :: qs => " AND " ++ core q.1 ++ andTexts qs

def whereText : List (String × CondVal) → String
  | [] => ""
  | q :: qs => " WHERE " ++ core q.1 ++ andTexts qs

theorem join_and (s : String) (ps : List (String × CondVal)) :
    join " AND " (s :: ps.map fun q => core q.1) = s ++ andTexts ps := by
  induction ps generalizing s with
  | nil => rw [List.map_nil, join, andTexts, String.append_empty]
  | cons q ps ih => rw [List.map_cons, join, ih, andTexts]; simp only [String.append_assoc]

theorem present_cons (scope : Scope) (c : OptionalEq) (cs : List OptionalEq) :
    present scope (c :: cs) =
      if nullish (scope.read c.inputPath) then present scope cs
      else (c.column, scope.read c.inputPath) :: present scope cs := by
  rw [present, List.map_cons, List.filter_cons]
  cases nullish (scope.read c.inputPath) <;> rfl

theorem nullish_present {scope : Scope} {cs : List OptionalEq} {q : String × CondVal}
    (h : q ∈ present scope cs) : nullish q.2 = false := by
  have h := (List.mem_filter.mp h).2
  simpa using h

section Filters
variable {plus : CondVal → CondVal → CondVal} {scope : Scope}

theorem eval_input (path : List String) :
    evalValueSpec plus scope (.input path) = .ok (scope.read path) := rfl

/-- The guarded fragment of a condition. -/
theorem assemble_optional (c : OptionalEq) (p : Piece) :
    assembleNode plus scope (.fragment (compileOptionalEq c)) = .ok p ↔
      if nullish (scope.read c.inputPath) then p = ⟨"", []⟩
      else OneHole c.column ∧ p = ⟨" AND " ++ core c.column, [scope.read c.inputPath]⟩ := by
  have hcount : (" AND " ++ core c.column).toList.count '?' = (core c.column).toList.count '?' := by
    rw [String.toList_append, List.count_append]
    exact Nat.zero_add _
  have hnode : assembleNode plus scope (.fragment (compileOptionalEq c)) =
      if nullish (scope.read c.inputPath) then .ok ⟨"", []⟩
      else assembleFragment plus scope (compileOptionalEq c) := rfl
  rw [hnode]
  split
  · rw [Except.ok.injEq, eq_comm]
  · rw [compileOptionalEq, assembleFragment_spec, hcount, eval_input]
    split
    · next h =>
      rw [Except.map, Except.ok.injEq, eq_comm]
      exact (and_iff_right ((count_core _).mp h)).symm
    · next h =>
      refine ⟨(by intro he; cases he), fun hp => ?_⟩
      exact absurd ((count_core _).mpr hp.1) h

theorem assemble_filters (cs : List OptionalEq) (p : Piece) :
    assemble plus scope (cs.map fun c => .fragment (compileOptionalEq c)) = .ok p ↔
      (∀ q ∈ present scope cs, OneHole q.1) ∧
        p = ⟨andTexts (present scope cs), (present scope cs).map (·.2)⟩ := by
  induction cs generalizing p with
  | nil => simp [assemble, present, andTexts, eq_comm]
  | cons c cs ih =>
    rw [List.map_cons, assemble_cons, present_cons]
    simp only [assemble_optional, ih]
    split
    · constructor
      · rintro ⟨q, rest, rfl, ⟨hholes, rfl⟩, rfl⟩
        exact ⟨hholes, by simp⟩
      · rintro ⟨hholes, rfl⟩
        exact ⟨_, _, rfl, ⟨hholes, rfl⟩, by simp⟩
    · rw [List.forall_mem_cons]
      constructor
      · rintro ⟨q, rest, ⟨hhole, rfl⟩, ⟨hholes, rfl⟩, rfl⟩
        exact ⟨⟨hhole, hholes⟩, rfl⟩
      · rintro ⟨⟨hhole, hholes⟩, rfl⟩
        exact ⟨_, _, ⟨hhole, rfl⟩, ⟨hholes, rfl⟩, rfl⟩

/-- A member of the WHERE group. -/
def bare (c : OptionalEq) : Fragment :=
  .mk (core c.column) [.spec (.input c.inputPath)] (some c.inputPath)

theorem assemble_bare (c : OptionalEq) (p : Piece) :
    assembleFragment plus scope (bare c) = .ok p ↔
      OneHole c.column ∧ p = ⟨core c.column, [scope.read c.inputPath]⟩ := by
  rw [bare, assembleFragment_spec, eval_input]
  split
  · next h =>
    rw [Except.map, Except.ok.injEq, eq_comm]
    exact (and_iff_right ((count_core _).mp h)).symm
  · next h =>
    refine ⟨(by intro he; cases he), fun hp => ?_⟩
    exact absurd ((count_core _).mpr hp.1) h

theorem mapM_cons_ok {α : Type} (f : α → Except String Piece) (x : α) (xs : List α)
    (ps : List Piece) :
    (x :: xs).mapM f = .ok ps ↔ ∃ p rest, f x = .ok p ∧ xs.mapM f = .ok rest ∧ ps = p :: rest := by
  rw [List.mapM_cons]
  cases f x with
  | error e => simp [bind, Except.bind]
  | ok p =>
    cases xs.mapM f with
    | error e => simp [bind, Except.bind]
    | ok rest => simp [bind, Except.bind, pure, Except.pure, eq_comm]

/-- The members that survive. -/
theorem mapM_members (cs : List OptionalEq) (ps : List Piece) :
    ((cs.map bare).filter fun f => !isSkipped f.skip scope).mapM (assembleFragment plus scope) =
        .ok ps ↔
      (∀ q ∈ present scope cs, OneHole q.1) ∧
        ps = (present scope cs).map fun q => ⟨core q.1, [q.2]⟩ := by
  induction cs generalizing ps with
  | nil => simp [present, pure, Except.pure, eq_comm]
  | cons c cs ih =>
    have hskip : isSkipped (bare c).skip scope = nullish (scope.read c.inputPath) := rfl
    rw [List.map_cons, List.filter_cons, present_cons, hskip]
    cases hnull : nullish (scope.read c.inputPath) with
    | true => exact ih ps
    | false =>
      rw [if_pos (by simp), if_neg (by simp), mapM_cons_ok, List.forall_mem_cons, List.map_cons]
      simp only [assemble_bare, ih]
      constructor
      · rintro ⟨p, rest, ⟨hhole, rfl⟩, ⟨hholes, rfl⟩, rfl⟩
        exact ⟨⟨hhole, hholes⟩, rfl⟩
      · rintro ⟨⟨hhole, hholes⟩, rfl⟩
        exact ⟨_, _, ⟨hhole, rfl⟩, ⟨hholes, rfl⟩, rfl⟩

theorem whereClause_cores (ps : List (String × CondVal)) :
    whereClause (ps.map fun q => ⟨core q.1, [q.2]⟩) = ⟨whereText ps, ps.map (·.2)⟩ := by
  cases ps with
  | nil => rfl
  | cons q qs =>
    have hsql : ((q :: qs).map fun q => (⟨core q.1, [q.2]⟩ : Piece)).map Piece.sql =
        core q.1 :: qs.map fun q => core q.1 := by simp
    have hparams : ((q :: qs).map fun q => (⟨core q.1, [q.2]⟩ : Piece)).flatMap Piece.params =
        (q :: qs).map (·.2) := by
      rw [List.flatMap_map, List.map_eq_flatMap]
    rw [whereClause, if_neg (by simp), hsql, hparams, join_and, whereText, String.append_assoc]

theorem assemble_group (cs : List OptionalEq) (p : Piece) :
    assembleNode plus scope (.where (cs.map bare)) = .ok p ↔
      (∀ q ∈ present scope cs, OneHole q.1) ∧
        p = ⟨whereText (present scope cs), (present scope cs).map (·.2)⟩ := by
  rw [assembleNode, assembleWhereGroup]
  constructor
  · intro h
    cases hps : ((cs.map bare).filter fun f => !isSkipped f.skip scope).mapM
        (assembleFragment plus scope) with
    | error e =>
      rw [hps] at h
      cases h
    | ok ps =>
      rw [hps] at h
      obtain ⟨hholes, rfl⟩ := (mapM_members cs ps).mp hps
      exact ⟨hholes, (Except.ok.inj h).symm.trans (whereClause_cores _)⟩
  · rintro ⟨hholes, rfl⟩
    rw [(mapM_members cs _).mpr ⟨hholes, rfl⟩]
    exact congrArg Except.ok (whereClause_cores _)

end Filters

/-! ## The parameters decide -/

theorem loads_le (fmt : Formatter) (ps : List (String × CondVal)) :
    load (ps.flatMap fun q => (compileCondition fmt q.1 q.2).params) ≤ load (ps.map (·.2)) ∧
      ((∃ q ∈ ps, plain q.2 = false) →
        load (ps.flatMap fun q => (compileCondition fmt q.1 q.2).params) <
          load (ps.map (·.2))) := by
  induction ps with
  | nil => simp
  | cons q ps ih =>
    obtain ⟨hle, hlt⟩ := load_condition fmt q.1 q.2
    have hmap : load ((q :: ps).map (·.2)) = sizeOf q.2 + load (ps.map (·.2)) := by simp [load]
    rw [List.flatMap_cons, load_append, hmap]
    refine ⟨by omega, ?_⟩
    rintro ⟨r, hr, hplain⟩
    rcases List.mem_cons.mp hr with rfl | hr
    · have := hlt hplain
      omega
    · have := ih.2 ⟨r, hr, hplain⟩
      omega

/-- Parameters that are the values themselves are of plain values. -/
theorem plain_of_params (fmt : Formatter) {ps : List (String × CondVal)}
    (h : ps.map (·.2) = ps.flatMap fun q => (compileCondition fmt q.1 q.2).params) :
    ∀ q ∈ ps, plain q.2 = true := by
  intro q hq
  by_contra hplain
  have hlt := (loads_le fmt ps).2 ⟨q, hq, by simpa using hplain⟩
  rw [← h] at hlt
  exact lt_irrefl _ hlt

/-! ## The statement built directly -/

section Direct
variable {ps : List (String × CondVal)}

/-- The conditions behind a part that is always there. -/
theorem where_and (fmt : Formatter) (raw : Piece) (hraw : raw.sql ≠ "")
    (hnull : ∀ q ∈ ps, nullish q.2 = false) (h : ∀ q ∈ ps, Equality q) :
    joinPieces " AND " (raw :: ps.map fun q => compileCondition fmt q.1 q.2) =
      ⟨raw.sql ++ andTexts ps, raw.params ++ ps.map (·.2)⟩ := by
  have hpieces : (ps.map fun q => compileCondition fmt q.1 q.2) =
      ps.map fun q => ⟨core q.1, [q.2]⟩ :=
    List.map_congr_left fun q hq => compile_equality (h q hq) (hnull q hq)
  have hsql : ((raw :: ps.map fun q => (⟨core q.1, [q.2]⟩ : Piece)).map Piece.sql).filter
      (· ≠ "") = raw.sql :: ps.map fun q => core q.1 := by
    rw [List.map_cons, List.map_map, List.filter_eq_self.mpr]
    · rfl
    · intro s hs
      rcases List.mem_cons.mp hs with rfl | hs
      · simpa using hraw
      · obtain ⟨q, hq, rfl⟩ := List.mem_map.mp hs
        simpa using core_ne_empty ⟨(h q hq).1, (h q hq).2.1⟩
  rw [hpieces, joinPieces, hsql, join_and, List.flatMap_cons, List.flatMap_map,
    List.map_eq_flatMap]

theorem where_alone (fmt : Formatter) (hnull : ∀ q ∈ ps, nullish q.2 = false)
    (h : ∀ q ∈ ps, Equality q) :
    (if (compile fmt (.mk ps .and [])).sql ≠ "" then " WHERE " ++ (compile fmt (.mk ps .and [])).sql
      else "") = whereText ps ∧ (compile fmt (.mk ps .and [])).params = ps.map (·.2) := by
  rw [compile_and]
  cases ps with
  | nil => exact ⟨rfl, rfl⟩
  | cons q qs =>
    obtain ⟨hq, hqs⟩ := List.forall_mem_cons.mp h
    obtain ⟨hqnull, hqsnull⟩ := List.forall_mem_cons.mp hnull
    have hne := core_ne_empty ⟨hq.1, hq.2.1⟩
    rw [List.map_cons, compile_equality hq hqnull, where_and fmt ⟨core q.1, [q.2]⟩ hne
      hqsnull hqs, whereText]
    refine ⟨?_, rfl⟩
    rw [if_pos (by simp [hne]), String.append_assoc]

end Direct

/-! ## Texts of the declarations -/

theorem limitText_free (limit : JsNum) : limit.text.toList.count '?' = 0 := by
  cases limit with
  | fin d =>
    rw [JsNum.text, String.toList_ofList, List.count_eq_zero]
    intro hmem
    exact absurd (Decimal.print_chars d _ hmem) (by decide)
  | nan => decide
  | inf neg => cases neg <;> decide

theorem middle_eq (head tail : String) {a b : String}
    (h : head ++ a ++ tail = head ++ b ++ tail) : a = b := by
  apply String.toList_injective
  have hlist := congrArg String.toList h
  simp only [String.toList_append] at hlist
  exact List.append_cancel_left (List.append_cancel_right hlist)

/-- The text of the base of a batch load, with the key's type. -/
def anyArrayHead (o : RelationOptions) (pgType : String) : String :=
  "SELECT " ++ selectOf o.selectColumn ++ " FROM " ++ o.tableName ++ " WHERE " ++
    anyArrayText o pgType

def lateralHead (o : RelationOptions) (pgType : String) : String :=
  "SELECT " ++ o.tableName ++ ".* FROM unnest(?::" ++ pgType ++
    ") AS _keys(key) CROSS JOIN LATERAL (" ++
    "SELECT " ++ selectOf o.selectColumn ++ " FROM " ++ o.tableName ++ " WHERE " ++
    o.tableName ++ "." ++ o.targetKey ++ " = _keys.key"

/-- The names of a relation and its key's type have no placeholder. -/
def HeadFree (o : RelationOptions) (pgType : String) : Prop :=
  holeFree [selectOf o.selectColumn, o.tableName, o.targetKey, pgType]

theorem headFree_iff (o : RelationOptions) (pgType : String) :
    HeadFree o pgType ↔ (selectOf o.selectColumn).toList.count '?' = 0 ∧
      o.tableName.toList.count '?' = 0 ∧ o.targetKey.toList.count '?' = 0 ∧
      pgType.toList.count '?' = 0 := by
  simp [HeadFree, holeFree, hasHole_eq_false]

theorem count_anyArrayHead (o : RelationOptions) (pgType : String) :
    (anyArrayHead o pgType).toList.count '?' = 1 ↔ HeadFree o pgType := by
  rw [headFree_iff, anyArrayHead, anyArrayText]
  simp
  omega

theorem count_lateralHead (o : RelationOptions) (pgType : String) :
    (lateralHead o pgType).toList.count '?' = 1 ↔ HeadFree o pgType := by
  have hcross : (") AS _keys(key) CROSS JOIN LATERAL (" : String).toList.count '?' = 0 := by
    decide +kernel
  have hunnest : (".* FROM unnest(?::" : String).toList.count '?' = 1 := by decide +kernel
  rw [headFree_iff]
  unfold lateralHead
  simp only [String.toList_append, List.count_append, hcross, hunnest]
  simp
  omega

section Declarations
variable {plus : CondVal → CondVal → CondVal} {scope : Scope}

/-- A fragment without parameters. -/
theorem assemble_text (sql : String) (p : Piece) :
    assembleNode plus scope (.fragment (.mk sql [] none)) = .ok p ↔
      sql.toList.count '?' = 0 ∧ p = ⟨sql, []⟩ := by
  have hnode : assembleNode plus scope (.fragment (.mk sql [] none)) =
      assembleFragment plus scope (.mk sql [] none) := rfl
  rw [hnode, assembleFragment_nil]
  split
  · next h => rw [Except.ok.injEq, eq_comm]; exact (and_iff_right h).symm
  · next h => exact ⟨(by intro he; cases he), fun hp => absurd hp.1 h⟩

/-- The fragment of the key parameter. -/
theorem assemble_head {keys : ValueSpec} {values : List CondVal}
    (hkeys : evalValueSpec plus scope keys = .ok (.arr values)) (sql : String) (p : Piece) :
    assembleNode plus scope (.fragment (.mk sql [.spec keys] none)) = .ok p ↔
      sql.toList.count '?' = 1 ∧ p = ⟨sql, [.arr values]⟩ := by
  have hnode : assembleNode plus scope (.fragment (.mk sql [.spec keys] none)) =
      assembleFragment plus scope (.mk sql [.spec keys] none) := rfl
  rw [hnode, assembleFragment_spec, hkeys]
  split
  · next h => rw [Except.map, Except.ok.injEq, eq_comm]; exact (and_iff_right h).symm
  · next h => exact ⟨(by intro he; cases he), fun hp => absurd hp.1 h⟩

theorem equalities {ps : List (String × CondVal)} (hholes : ∀ q ∈ ps, OneHole q.1)
    (hplain : ∀ q ∈ ps, plain q.2 = true) : ∀ q ∈ ps, Equality q :=
  fun q hq => ⟨(hholes q hq).1, (hholes q hq).2, hplain q hq⟩

theorem oneHoles {ps : List (String × CondVal)} (h : ∀ q ∈ ps, Equality q) :
    ∀ q ∈ ps, OneHole q.1 := fun q hq => ⟨(h q hq).1, (h q hq).2.1⟩

theorem baseSelect_iff (tableName : String) (selectColumn : Option String)
    (cs : List OptionalEq) :
    assemble plus scope (compileBaseSelect tableName selectColumn cs) =
        .ok (buildSelectSQL (selectOf selectColumn) tableName (present scope cs) none none) ↔
      holeFree [selectOf selectColumn, tableName] ∧ ∀ q ∈ present scope cs, Equality q := by
  have hcount : ("SELECT " ++ selectOf selectColumn ++ " FROM " ++ tableName).toList.count '?' = 0 ↔
      holeFree [selectOf selectColumn, tableName] := by
    simp [holeFree, hasHole_eq_false, List.count_append]
  have hgroup : compileBaseSelect tableName selectColumn cs =
      [.fragment (.mk ("SELECT " ++ selectOf selectColumn ++ " FROM " ++ tableName) [] none),
        .where (cs.map bare)] := rfl
  have hnull : ∀ q ∈ present scope cs, nullish q.2 = false := fun q hq => nullish_present hq
  rw [hgroup, assemble_cons]
  simp only [assemble_text, assemble_singleton, assemble_group, hcount]
  constructor
  · rintro ⟨q, rest, ⟨hfree, rfl⟩, ⟨hholes, rfl⟩, hp⟩
    refine ⟨hfree, equalities hholes (plain_of_params (getSqlCastFormatter .postgres) ?_)⟩
    have hparams := congrArg Piece.params hp
    rw [buildSelectSQL, compile_and, joinPieces, List.flatMap_map] at hparams
    exact hparams.symm
  · rintro ⟨hfree, heq⟩
    obtain ⟨hsql, hparams⟩ := where_alone (getSqlCastFormatter .postgres) hnull heq
    refine ⟨_, _, ⟨hfree, rfl⟩, ⟨oneHoles heq, rfl⟩, ?_⟩
    rw [buildSelectSQL]
    dsimp only
    rw [hsql, hparams, orderClause, limitClause, String.append_empty, String.append_empty,
      List.nil_append]

/-- The compiled order, when there is one. -/
def orderNodes : Option String → List Node
  | none | some "" => []
  | some order => [.fragment (.mk (" ORDER BY " ++ order) [] none)]

theorem orderClause_some {order : String} (h : order ≠ "") :
    orderClause (some order) = " ORDER BY " ++ order := by
  rw [orderClause]
  exact h

theorem orderNodes_some {order : String} (h : order ≠ "") :
    orderNodes (some order) = [.fragment (.mk (" ORDER BY " ++ order) [] none)] := by
  rw [orderNodes]
  exact h

theorem assemble_order (order : Option String) (p : Piece) :
    assemble plus scope (orderNodes order) = .ok p ↔
      holeFree order.toList ∧ p = ⟨orderClause order, []⟩ := by
  have hfree : ∀ s : String,
      (" ORDER BY " ++ s).toList.count '?' = 0 ↔ holeFree (some s).toList := by
    intro s
    simp [holeFree, hasHole_eq_false]
  have hblank : assemble plus scope [] = .ok p ↔ p = ⟨"", []⟩ := by
    rw [assemble, Except.ok.injEq, eq_comm]
  cases order with
  | none => exact hblank.trans (and_iff_right (by simp [holeFree])).symm
  | some s =>
    by_cases hs : s = ""
    · subst hs
      exact hblank.trans (and_iff_right (by simp [holeFree, hasHole])).symm
    · rw [orderNodes_some hs, orderClause_some hs, assemble_singleton, assemble_text, hfree]

theorem raw_pair (fmt : Formatter) (t : String) (values : List CondVal) :
    compileCondition fmt "__raw__" (.arr [.js (.str t) rfl, .arr [.arr values]]) =
      ⟨t, [.arr values]⟩ := by
  rw [compileCondition, if_neg (by decide), if_pos rfl]
  rfl

theorem raw_text (fmt : Formatter) (t : String) :
    compileCondition fmt "__raw__" (.js (.str t) rfl) = ⟨t, []⟩ := by
  have h := compile_js fmt "__raw__" (.str t) rfl
  rw [if_pos rfl] at h
  exact h

/-- The batch load of the present conditions. -/
theorem anyArray_eq (o : RelationOptions) (values : List CondVal) {ps : List (String × CondVal)}
    (order : Option String) (hnull : ∀ q ∈ ps, nullish q.2 = false) (h : ∀ q ∈ ps, Equality q) :
    batchLoadWithAnyArray o values ps order =
      ⟨anyArrayHead o (inferPgArrayType values o.sqlCast) ++ (andTexts ps ++ orderClause order),
        .arr values :: ps.map (·.2)⟩ := by
  have htext : anyArrayText o (inferPgArrayType values o.sqlCast) ≠ "" := by
    rw [anyArrayText]
    exact append_ne_empty (by decide)
  have hraw := raw_pair (getSqlCastFormatter .postgres)
    (anyArrayText o (inferPgArrayType values o.sqlCast)) values
  rw [batchLoadWithAnyArray, buildSelectSQL, compile_and, List.map_cons, hraw,
    where_and _ ⟨anyArrayText o (inferPgArrayType values o.sqlCast), [.arr values]⟩ htext hnull h]
  dsimp only
  rw [if_pos (by simp [htext]), limitClause, String.append_empty, anyArrayHead]
  simp only [String.append_assoc, List.singleton_append]

/-- The limited load of the present conditions. -/
theorem lateral_eq (o : RelationOptions) (values : List CondVal) {ps : List (String × CondVal)}
    (order : String) (limit : JsNum) (hnull : ∀ q ∈ ps, nullish q.2 = false)
    (h : ∀ q ∈ ps, Equality q) :
    batchLoadWithLateral o values ps order limit =
      ⟨lateralHead o (inferPgArrayType values o.sqlCast) ++ (andTexts ps ++
        (orderClause (some order) ++ " LIMIT " ++ limit.text ++ ") " ++ o.tableName)),
        .arr values :: ps.map (·.2)⟩ := by
  have htext : o.tableName ++ "." ++ o.targetKey ++ " = _keys.key" ≠ "" :=
    append_ne_empty (by decide)
  have hraw := raw_text (getSqlCastFormatter .postgres)
    (o.tableName ++ "." ++ o.targetKey ++ " = _keys.key")
  rw [batchLoadWithLateral, buildSelectSQL, compile_and, List.map_cons, hraw,
    where_and _ ⟨o.tableName ++ "." ++ o.targetKey ++ " = _keys.key", []⟩ htext hnull h]
  dsimp only
  have hne : o.tableName ++ "." ++ o.targetKey ++ " = _keys.key" ++ andTexts ps ≠ "" := by
    simp
  rw [if_pos hne, limitClause]
  unfold lateralHead
  simp only [String.append_assoc, List.nil_append]

theorem params_lateral (o : RelationOptions) (values : List CondVal)
    (ps : List (String × CondVal)) (order : String) (limit : JsNum) :
    (batchLoadWithLateral o values ps order limit).params = .arr values ::
      ps.flatMap fun q => (compileCondition (getSqlCastFormatter .postgres) q.1 q.2).params := by
  have hraw := raw_text (getSqlCastFormatter .postgres)
    (o.tableName ++ "." ++ o.targetKey ++ " = _keys.key")
  rw [batchLoadWithLateral, buildSelectSQL, compile_and, List.map_cons, hraw, joinPieces,
    List.flatMap_cons, List.flatMap_map, List.nil_append]

theorem params_anyArray (o : RelationOptions) (values : List CondVal)
    (ps : List (String × CondVal)) (order : Option String) :
    (batchLoadWithAnyArray o values ps order).params = .arr values ::
      ps.flatMap fun q => (compileCondition (getSqlCastFormatter .postgres) q.1 q.2).params := by
  rw [batchLoadWithAnyArray, buildSelectSQL, compile_and]
  rw [joinPieces, List.map_cons, List.flatMap_cons, List.flatMap_map, compileCondition]
  rfl

theorem length_lateralHead (o : RelationOptions) (pgType : String) :
    (lateralHead o pgType).length = (lateralHead o "").length + pgType.length := by
  unfold lateralHead
  simp only [String.length_append]
  rw [show ("" : String).length = 0 from rfl]
  omega

/-- The cast of the keys is one of a few types, unless it is declared. -/
theorem inferPgArrayType_lengths (xs ys : List CondVal) (sqlCast : Option String) :
    inferPgArrayType xs sqlCast = inferPgArrayType ys sqlCast ∨
      (inferPgArrayType xs sqlCast).length < (inferPgArrayType ys sqlCast).length + 10 ∧
        (inferPgArrayType ys sqlCast).length < (inferPgArrayType xs sqlCast).length + 10 := by
  have hlen : ∀ values : List JsVal, 3 ≤ (inferPgElementType values).length ∧
      (inferPgElementType values).length ≤ 9 := by
    intro values
    rw [inferPgElementType]
    split
    · split <;> decide
    · decide
    · decide
    · decide
    · decide
  rw [inferPgArrayType.eq_def, inferPgArrayType.eq_def]
  have hx := hlen (xs.map cell)
  have hy := hlen (ys.map cell)
  have happ : ∀ values, (Relation.inferPgArrayType values).length =
      (inferPgElementType values).length + 2 := by
    intro values
    rw [Relation.inferPgArrayType, String.length_append]
    rfl
  split
  · right
    simp only [happ]
    omega
  · right
    simp only [happ]
    omega
  · exact Or.inl rfl

section Relations
variable {o : RelationOptions} {values : List CondVal}
  (hkeys : evalValueSpec plus scope o.keys = .ok (.arr values))
include hkeys

theorem hasManyAny_iff (order : Option String) :
    assemble plus scope (compileHasManyAny o order) =
        .ok (batchLoadWithAnyArray o values (present scope o.filters) order) ↔
      RelationFits scope values o ∧ holeFree order.toList := by
  have hcompiled : compileHasManyAny o order =
      .fragment (.mk (anyArrayHead o (inferPgArrayType o.sampleKeys o.sqlCast)) [.spec o.keys]
        none) ::
        (o.filters.map (fun c => .fragment (compileOptionalEq c)) ++ orderNodes order) := rfl
  have hnull : ∀ q ∈ present scope o.filters, nullish q.2 = false := fun q hq => nullish_present hq
  rw [hcompiled, assemble_cons]
  simp only [assemble_head hkeys, assemble_append, assemble_filters, assemble_order,
    count_anyArrayHead]
  constructor
  · rintro ⟨q, rest, ⟨hfree, rfl⟩, ⟨q', rest', ⟨hholes, rfl⟩, ⟨horder, rfl⟩, rfl⟩, hp⟩
    have hparams := congrArg Piece.params hp
    rw [params_anyArray] at hparams
    have heq := equalities hholes (plain_of_params (getSqlCastFormatter .postgres)
      ((List.cons.inj hparams).2.trans (List.append_nil _)).symm)
    rw [anyArray_eq o values order hnull heq] at hp
    have htype := middle_eq ("SELECT " ++ selectOf o.selectColumn ++ " FROM " ++
      o.tableName ++ " WHERE " ++ (o.tableName ++ "." ++ o.targetKey ++ " = ANY(?::"))
      (")" ++ (andTexts (present scope o.filters) ++ orderClause order))
      (by simpa only [anyArrayHead, anyArrayText, String.append_assoc] using congrArg Piece.sql hp)
    exact ⟨⟨htype ▸ hfree, htype.symm, heq⟩, horder⟩
  · rintro ⟨⟨hfree, htype, heq⟩, horder⟩
    refine ⟨_, _, ⟨htype.symm ▸ hfree, rfl⟩, ⟨_, _, ⟨oneHoles heq, rfl⟩, ⟨horder, rfl⟩, rfl⟩, ?_⟩
    rw [anyArray_eq o values order hnull heq, htype]
    simp

theorem hasManyLimited_iff (order : String) (limit : JsNum) :
    assemble plus scope (compileHasManyLimited o order limit) =
        .ok (batchLoadWithLateral o values (present scope o.filters) order limit) ↔
      RelationFits scope values o ∧ hasHole order = false ∧ order ≠ "" := by
  have hcompiled : compileHasManyLimited o order limit =
      .fragment (.mk (lateralHead o (inferPgArrayType o.sampleKeys o.sqlCast)) [.spec o.keys]
        none) ::
        (o.filters.map (fun c => .fragment (compileOptionalEq c)) ++
          [.fragment (.mk (" ORDER BY " ++ order ++ " LIMIT " ++ limit.text ++ ") " ++ o.tableName)
            [] none)]) := rfl
  have hnull : ∀ q ∈ present scope o.filters, nullish q.2 = false := fun q hq => nullish_present hq
  have htail :
      (" ORDER BY " ++ order ++ " LIMIT " ++ limit.text ++ ") " ++ o.tableName).toList.count '?' = 0 ↔
        hasHole order = false ∧ hasHole o.tableName = false := by
    have hlimit := limitText_free limit
    simp only [hasHole_eq_false]
    simp
    omega
  rw [hcompiled, assemble_cons]
  simp only [assemble_head hkeys, assemble_append, assemble_filters, assemble_singleton,
    assemble_text, htail, count_lateralHead]
  constructor
  · rintro ⟨q, rest, ⟨hfree, rfl⟩, ⟨q', rest', ⟨hholes, rfl⟩, ⟨⟨horder, -⟩, rfl⟩, rfl⟩, hp⟩
    have hparams := congrArg Piece.params hp
    rw [params_lateral] at hparams
    have heq := equalities hholes (plain_of_params (getSqlCastFormatter .postgres)
      ((List.cons.inj hparams).2.trans (List.append_nil _)).symm)
    rw [lateral_eq o values order limit hnull heq] at hp
    have hsql : lateralHead o (inferPgArrayType values o.sqlCast) ++
        (andTexts (present scope o.filters) ++
          (orderClause (some order) ++ " LIMIT " ++ limit.text ++ ") " ++ o.tableName)) =
        lateralHead o (inferPgArrayType o.sampleKeys o.sqlCast) ++
        (andTexts (present scope o.filters) ++
          (" ORDER BY " ++ order ++ " LIMIT " ++ limit.text ++ ") " ++ o.tableName)) :=
      congrArg Piece.sql hp
    have hne : order ≠ "" := by
      -- without an order the texts have different lengths
      rintro rfl
      have hlength := congrArg String.length hsql
      have hhead := length_lateralHead o (inferPgArrayType values o.sqlCast)
      have hsample := length_lateralHead o (inferPgArrayType o.sampleKeys o.sqlCast)
      simp only [String.length_append] at hlength
      rw [show (orderClause (some "")).length = 0 from rfl,
        show (" ORDER BY " : String).length = 10 from rfl,
        show ("" : String).length = 0 from rfl] at hlength
      rcases inferPgArrayType_lengths values o.sampleKeys o.sqlCast with heqType | hlengths
      · rw [heqType] at hlength
        omega
      · omega
    rw [orderClause_some hne] at hsql
    have htype : inferPgArrayType values o.sqlCast = inferPgArrayType o.sampleKeys o.sqlCast := by
      unfold lateralHead at hsql
      exact middle_eq ("SELECT " ++ o.tableName ++ ".* FROM unnest(?::") _
        (by simpa only [String.append_assoc] using hsql)
    exact ⟨⟨htype ▸ hfree, htype.symm, heq⟩, horder, hne⟩
  · rintro ⟨⟨hfree, htype, heq⟩, horder, hne⟩
    have htable : hasHole o.tableName = false := hfree _ (by simp)
    refine ⟨_, _, ⟨htype.symm ▸ hfree, rfl⟩,
      ⟨_, _, ⟨oneHoles heq, rfl⟩, ⟨⟨horder, htable⟩, rfl⟩, rfl⟩, ?_⟩
    rw [lateral_eq o values order limit hnull heq, htype, orderClause_some hne]
    simp

end Relations

/-- The compiled fragments give the statement that is built of the present conditions exactly when
the names have no placeholder, the samples have the keys' type and each condition is one placeholder
with a plain value. -/
theorem assembled_iff (d : Declaration) (values : List CondVal)
    (hkeys : d.KeysAre plus scope values) :
    assemble plus scope d.compiled = .ok (d.direct scope values) ↔ d.Fits scope values := by
  cases d with
  | baseSelect tableName selectColumn cs => exact baseSelect_iff tableName selectColumn cs
  | belongsTo o =>
    have hany := hasManyAny_iff hkeys none
    rw [compileHasManyAny, List.append_nil] at hany
    exact hany.trans (and_iff_left (by simp [holeFree]))
  | hasManyAny o order => exact hasManyAny_iff hkeys order
  | hasManyLimited o order limit => exact hasManyLimited_iff hkeys order limit

end Declarations

/-! ## Posts -/

/-- `compileHasManyAny` of authors' posts, by their status and with a bound of views. -/
def postsOfAuthors : Declaration :=
  .hasManyAny ⟨"posts", none, "author_id", [.js (.bigint 1) rfl],
    .literal (.arr [.js (.bigint 10) rfl, .js (.bigint 11) rfl]), none,
    [⟨"status", ["status"]⟩, ⟨"views > ?", ["views"]⟩]⟩ (some "id")

def activeScope : Scope := ⟨[("status", .js (.str "active") rfl)], none⟩

/-- The status is given and the bound is not. -/
theorem assembled_posts :
    assemble (fun v _ => v) activeScope postsOfAuthors.compiled =
      .ok (postsOfAuthors.direct activeScope [.js (.bigint 10) rfl, .js (.bigint 11) rfl]) := by
  refine (assembled_iff postsOfAuthors _ rfl).mpr ⟨⟨?_, rfl, ?_⟩, ?_⟩
  · unfold holeFree
    decide
  · intro q hq
    obtain rfl := List.mem_singleton.mp hq
    exact ⟨by decide, by decide, rfl⟩
  · unfold holeFree
    decide

/-- A boolean is a parameter of the fragment, and a keyword where the statement is built at once. -/
theorem boolean_differs :
    ¬ ∀ plus scope (d : Declaration) values, d.KeysAre plus scope values →
      assemble plus scope d.compiled = .ok (d.direct scope values) := by
  intro h
  have hbase := h (fun v _ => v) ⟨[("published", .js (.bool true) rfl)], none⟩
    (.baseSelect "posts" none [⟨"published", ["published"]⟩]) [] rfl
  obtain ⟨-, hplain⟩ := (baseSelect_iff "posts" none [⟨"published", ["published"]⟩]).mp hbase
  have hbool := (hplain ("published", .js (.bool true) rfl) List.mem_cons_self).2.2
  cases hbool

end LiteDb.Fragments
