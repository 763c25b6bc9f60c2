import LiteDbModel.Conditions

/-!
# Condition lists

`condsToRecord` turns a list of condition tuples into the object that
`DBConditions` compiles. The object has one property a key, so tuples whose
keys coincide meet there.
-/

namespace LiteDb
set_option autoImplicit false

structure Column where
  columnName : String
  sqlCast : Option String
  /-- The family's serialization, with the driver's `typeCast` applied. -/
  serialize : Option (CondVal → CondVal)

def serializeCondValue (col : Column) (value : CondVal) : CondVal :=
  match col.serialize with
  | none => value
  | some f =>
    match value with
    | .arr xs => .arr (xs.map f)
    | v => f v

/-- An element of a condition list. -/
inductive CondElem
  | skip
  | or (conditions : List (List CondElem))
  | fragment (sql : String) (params : List CondVal)
  /-- `[text]`. -/
  | bare (text : String)
  /-- `[text, value]`, the text a string or a typed fragment's. -/
  | raw (key : String) (value : CondVal)
  | column (col : Column) (value : CondVal)
  /-- The tuples of a composite key, `none` for `SKIP`; a value beyond the columns throws. -/
  | composite (columns : List Column)
      (tuples : Option (List {t : List CondVal // t.length ≤ columns.length}))

def sqlFragmentToKeyValue (sql : String) : List CondVal → String × CondVal
  | [] => (sql, .js (.bool true) rfl)
  | [v] => (sql, v)
  | vs => (sql, .arr vs)

/-- A column's value, wrapped for its SQL cast unless it is a token already. -/
def columnValue (col : Column) : CondVal → CondVal
  | .token t => .token t
  | value =>
    let bound := serializeCondValue col value
    match col.sqlCast with
    | none | some "" => bound
    | some sqlCast =>
      match bound with
      | .arr xs => .token (.castArray xs sqlCast)
      | v => .token (.cast v sqlCast "=")

/-- `condToKeyValue` and `sqlFragmentToKeyValue`: every kind of element but `User.or`. -/
def CondElem.keyValue : CondElem → Option (String × CondVal)
  | .skip | .or _ | .raw _ .skip | .column _ .skip | .composite _ none => none
  | .fragment sql params => some (sqlFragmentToKeyValue sql params)
  | .bare text => some (text, .js (.bool true) rfl)
  | .raw key value => some (key, value)
  | .column col value => some (col.columnName, columnValue col value)
  | .composite columns (some tuples) =>
    some ("__tuple__", .token (.tupleIn (columns.map Column.columnName)
      (tuples.map fun t => List.zipWith serializeCondValue columns t.1)))

mutual
/-- The property that an element sets. -/
def CondElem.entry : CondElem → Option (String × CondVal)
  | .or conditions => some ("__or__", .arr (orGroups conditions))
  | e => e.keyValue

/-- The assignments of the loop, in order. -/
def entries : List CondElem → List (String × CondVal)
  | [] => []
  | e :: es => e.entry.toList ++ entries es

def orGroups : List (List CondElem) → List CondVal
  | [] => []
  | group :: groups => .obj (Props.ofEntries (entries group)) :: orGroups groups
end

def condsToRecord (conditions : List CondElem) : List (String × CondVal) :=
  Props.ofEntries (entries conditions)

/-! ## The conjunction of a list -/

/-- An entry's own text and parameters. -/
def own (fmt : Formatter) (p : String × CondVal) : Piece := compileCondition fmt p.1 p.2

/-- The parts joined by `AND`, in any order. -/
def Conjunct (parts : List Piece → Prop) (p : Piece) : Prop :=
  ∃ ps qs, parts ps ∧ ps.Perm qs ∧ p = joinPieces " AND " qs

mutual
/-- The part of an element: a tuple's own text, never empty; the alternatives of an `or`. -/
def CondElem.Part (fmt : Formatter) : CondElem → List Piece → Prop
  | .or conditions, ps => ∃ gs, Groups fmt conditions gs ∧ ps = [compileOr gs]
  | e, ps =>
    match e.keyValue with
    | none => ps = []
    | some kv => (own fmt kv).sql ≠ "" ∧ ps = [own fmt kv]

def Parts (fmt : Formatter) : List CondElem → List Piece → Prop
  | [], ps => ps = []
  | e :: es, ps => ∃ part rest, e.Part fmt part ∧ Parts fmt es rest ∧ ps = part ++ rest

def Groups (fmt : Formatter) : List (List CondElem) → List Piece → Prop
  | [], gs => gs = []
  | group :: groups, gs =>
    ∃ g rest, Conjunct (Parts fmt group) g ∧ Groups fmt groups rest ∧ gs = g :: rest
end

/-- The conjunction of all the elements whose value is not `SKIP`. -/
def Conjunction (fmt : Formatter) (es : List CondElem) (p : Piece) : Prop :=
  Conjunct (Parts fmt es) p

/-! ## When the object keeps the list -/

mutual
/-- A skipped element, or an `or` of groups of such. -/
def CondElem.Vacuous : CondElem → Prop
  | .or conditions => VacuousGroups conditions
  | e => e.keyValue = none

def Vacuous : List CondElem → Prop
  | [] => True
  | e :: es => e.Vacuous ∧ Vacuous es

def VacuousGroups : List (List CondElem) → Prop
  | [] => True
  | group :: groups => Vacuous group ∧ VacuousGroups groups
end

/-- A later element sets the same property, or the property is `__proto__`. -/
def CondElem.Lost (e : CondElem) (es : List CondElem) : Prop :=
  ∃ kv ∈ e.entry, kv.1 = "__proto__" ∨ kv.1 ∈ Props.keys (entries es)

mutual
/-- No tuple is empty on its own, and no element is lost unless it is vacuous. -/
def CondElem.Kept (fmt : Formatter) : CondElem → Prop
  | .or conditions => KeptGroups fmt conditions
  | e => ∀ kv ∈ e.keyValue, ¬ silent fmt kv.1 kv.2

def Kept (fmt : Formatter) : List CondElem → Prop
  | [] => True
  | e :: es => e.Kept fmt ∧ (e.Lost es → e.Vacuous) ∧ Kept fmt es

def KeptGroups (fmt : Formatter) : List (List CondElem) → Prop
  | [] => True
  | group :: groups => Kept fmt group ∧ KeptGroups fmt groups
end

/-- What `DBConditions` makes of the record of a list. -/
def compileRecord (fmt : Formatter) (es : List CondElem) : Piece :=
  joinPieces " AND " ((condsToRecord es).map (own fmt))

theorem compileGroups_orGroups (fmt : Formatter) (groups : List (List CondElem)) :
    compileGroups fmt (orGroups groups) = groups.map (compileRecord fmt) := by
  induction groups with
  | nil => simp [orGroups, compileGroups]
  | cons group groups ih =>
    simp only [orGroups, compileGroups, List.map_cons, ih, compileEntries_eq]
    rfl

theorem own_or (fmt : Formatter) (groups : List (List CondElem)) :
    own fmt ("__or__", .arr (orGroups groups)) = compileOr (groups.map (compileRecord fmt)) := by
  simp only [own, compileCondition, if_true, compileGroups_orGroups]

/-! ## Pieces without text or parameters -/

def Piece.blank : Piece := ⟨"", []⟩

theorem joinPieces_filter_blank {sep : String} {ps qs : List Piece}
    (h : ∀ p ∈ qs, p = Piece.blank) : joinPieces sep (ps ++ qs) = joinPieces sep ps := by
  have hsql : ((qs.map Piece.sql).filter (· ≠ "")) = [] := by
    apply List.filter_eq_nil_iff.mpr
    intro s hs
    obtain ⟨p, hp, rfl⟩ := List.mem_map.mp hs
    simp [h p hp, Piece.blank]
  have hparams : qs.flatMap Piece.params = [] := by
    apply List.flatMap_eq_nil_iff.mpr
    intro p hp
    simp [h p hp, Piece.blank]
  simp only [joinPieces, List.map_append, List.filter_append, hsql, List.append_nil,
    List.flatMap_append, hparams]

theorem joinPieces_blank {sep : String} {ps : List Piece} (h : ∀ p ∈ ps, p = Piece.blank) :
    joinPieces sep ps = Piece.blank := by
  have hnil : joinPieces sep ([] ++ ps) = joinPieces sep [] := joinPieces_filter_blank h
  exact hnil

theorem compileOr_blank {gs : List Piece} (h : ∀ g ∈ gs, g = Piece.blank) :
    compileOr gs = Piece.blank := by
  have hgroup : ∀ p ∈ gs.map Piece.group, p = Piece.blank := by
    intro p hp
    obtain ⟨g, hg, rfl⟩ := List.mem_map.mp hp
    simp [h g hg, Piece.group, Piece.blank]
  rw [compileOr, joinPieces_blank hgroup]
  simp [Piece.group, Piece.blank]

theorem compileRecord_blank {fmt : Formatter} {es : List CondElem}
    (h : ∀ kv ∈ entries es, own fmt kv = Piece.blank) : compileRecord fmt es = Piece.blank := by
  apply joinPieces_blank
  intro p hp
  obtain ⟨kv, hkv, rfl⟩ := List.mem_map.mp hp
  exact h kv (Props.survivors_subset _ ((Props.ofEntries_perm _).subset hkv))

mutual
theorem CondElem.own_of_vacuous (fmt : Formatter) (e : CondElem) (hv : e.Vacuous) :
    ∀ kv ∈ e.entry, own fmt kv = Piece.blank := by
  cases e with
  | or conditions =>
    intro kv hkv
    obtain rfl := Option.some.inj hkv
    rw [own_or]
    exact compileOr_blank (records_of_vacuous fmt conditions hv)
  | _ =>
    intro kv hkv
    exact absurd (hv.symm.trans hkv) (by simp)

theorem own_of_vacuous (fmt : Formatter) (es : List CondElem) (hv : Vacuous es) :
    ∀ kv ∈ entries es, own fmt kv = Piece.blank := by
  cases es with
  | nil => simp [entries]
  | cons e es =>
    intro kv hkv
    rcases List.mem_append.mp hkv with hkv | hkv
    · exact e.own_of_vacuous fmt hv.1 kv (Option.mem_toList.mp hkv)
    · exact own_of_vacuous fmt es hv.2 kv hkv

theorem records_of_vacuous (fmt : Formatter) (groups : List (List CondElem))
    (hv : VacuousGroups groups) : ∀ g ∈ groups.map (compileRecord fmt), g = Piece.blank := by
  cases groups with
  | nil => simp
  | cons group groups =>
    intro g hg
    rcases List.mem_cons.mp hg with rfl | hg
    · exact compileRecord_blank (own_of_vacuous fmt group hv.1)
    · exact records_of_vacuous fmt groups hv.2 g hg
end

/-! ## A kept list is compiled to its conjunction -/

theorem lost_blank {fmt : Formatter} {es : List CondElem} (hk : Kept fmt es) :
    ∀ kv ∈ Props.lost (entries es), own fmt kv = Piece.blank := by
  induction es with
  | nil => simp [entries, Props.lost]
  | cons e es ih =>
    obtain ⟨-, hlost, hes⟩ := hk
    rcases he : e.entry with _ | kv
    · simpa [entries, he] using ih hes
    · intro kv' hkv'
      simp only [entries, he, Option.toList_some, List.singleton_append, Props.lost] at hkv'
      split at hkv'
      · rename_i hover
        rcases List.mem_cons.mp hkv' with rfl | hkv'
        · exact e.own_of_vacuous fmt (hlost ⟨_, he, hover⟩) _ he
        · exact ih hes kv' hkv'
      · exact ih hes kv' hkv'

theorem conjunction_of_parts {fmt : Formatter} {es : List CondElem} (hk : Kept fmt es)
    (hp : Parts fmt es ((entries es).map (own fmt))) :
    Conjunction fmt es (compileRecord fmt es) := by
  refine ⟨_, (condsToRecord es).map (own fmt) ++ (Props.lost (entries es)).map (own fmt), hp,
    ?_, ?_⟩
  · rw [← List.map_append]
    apply List.Perm.map
    have hrecord : (condsToRecord es).Perm (Props.survivors (entries es)) := Props.ofEntries_perm _
    exact (Props.survivors_lost (entries es)).symm.trans (hrecord.symm.append_right _)
  · refine (joinPieces_filter_blank ?_).symm
    intro p hp
    obtain ⟨kv, hkv, rfl⟩ := List.mem_map.mp hp
    exact lost_blank hk kv hkv

mutual
theorem CondElem.part_of_kept {fmt : Formatter} (e : CondElem) (hk : e.Kept fmt) :
    e.Part fmt (e.entry.toList.map (own fmt)) := by
  cases e with
  | or conditions =>
    refine ⟨conditions.map (compileRecord fmt), groups_of_kept conditions hk, ?_⟩
    rw [← own_or]
    rfl
  | _ =>
    simp only [CondElem.Part, CondElem.entry]
    split
    · rename_i hnone
      rw [hnone]
      rfl
    · rename_i kv hsome
      rw [hsome]
      refine ⟨?_, rfl⟩
      intro hempty
      exact hk kv hsome ((compileCondition_sql_eq_empty fmt kv.1 kv.2).mp hempty)

theorem parts_of_kept {fmt : Formatter} (es : List CondElem) (hk : Kept fmt es) :
    Parts fmt es ((entries es).map (own fmt)) := by
  cases es with
  | nil => rfl
  | cons e es =>
    refine ⟨_, _, e.part_of_kept hk.1, parts_of_kept es hk.2.2, ?_⟩
    rw [← List.map_append]
    rfl

theorem groups_of_kept {fmt : Formatter} (groups : List (List CondElem))
    (hk : KeptGroups fmt groups) : Groups fmt groups (groups.map (compileRecord fmt)) := by
  cases groups with
  | nil => rfl
  | cons group groups =>
    refine ⟨compileRecord fmt group, _, ?_, groups_of_kept groups hk.2, rfl⟩
    exact conjunction_of_parts hk.1 (parts_of_kept group hk.1)
end

/-! ## Lengths -/

/-- What a text adds to a joined text: its own length and a separator's, or nothing. -/
def weight (sep n : Nat) : Nat := if n = 0 then 0 else n + sep

def span (sep : Nat) (ls : List Nat) : Nat := (ls.map (weight sep)).sum

def lengths (ps : List Piece) : List Nat := ps.map fun p => p.sql.length

theorem weight_le {sep m n : Nat} (h : m ≤ n) : weight sep m ≤ weight sep n := by
  unfold weight
  split <;> split <;> omega

theorem weight_inj {sep m n : Nat} (h : weight sep m = weight sep n) : m = n := by
  unfold weight at h
  split at h <;> split at h <;> omega

theorem span_eq_zero_or (sep : Nat) (ls : List Nat) : span sep ls = 0 ∨ sep < span sep ls := by
  induction ls with
  | nil => exact Or.inl rfl
  | cons n ls ih =>
    have hcons : span sep (n :: ls) = weight sep n + span sep ls := rfl
    rw [hcons, weight]
    split <;> omega

theorem joined_length {sep : String} {ss : List String} (h : ∀ s ∈ ss, s ≠ "") :
    (join sep ss).length = span sep.length (ss.map String.length) - sep.length := by
  induction ss with
  | nil => simp [join, span]
  | cons s ss ih =>
    have hs : s.length ≠ 0 := by
      intro h0
      exact h s List.mem_cons_self (String.length_eq_zero_iff.mp h0)
    have hrest := ih fun t ht => h t (List.mem_cons_of_mem s ht)
    have hcons : span sep.length ((s :: ss).map String.length) =
        s.length + sep.length + span sep.length (ss.map String.length) := by
      simp [span, weight, hs]
    rw [hcons]
    cases ss with
    | nil => simp [join, span]
    | cons t ss =>
      have ht : t.length ≠ 0 := by
        intro h0
        exact h t (by simp) (String.length_eq_zero_iff.mp h0)
      have hpos : sep.length < span sep.length ((t :: ss).map String.length) := by
        rcases span_eq_zero_or sep.length ((t :: ss).map String.length) with h0 | hpos
        · simp [span, weight, ht] at h0
        · exact hpos
      simp only [join, String.length_append, hrest]
      omega

theorem span_filter (sep : Nat) (ps : List Piece) :
    span sep (((ps.map Piece.sql).filter (· ≠ "")).map String.length) = span sep (lengths ps) := by
  induction ps with
  | nil => rfl
  | cons p ps ih =>
    by_cases hp : p.sql = ""
    · simpa [span, lengths, hp, weight] using ih
    · simpa [span, lengths, hp] using ih

theorem joinPieces_length (sep : String) (ps : List Piece) :
    (joinPieces sep ps).sql.length = span sep.length (lengths ps) - sep.length := by
  rw [joinPieces, joined_length, span_filter]
  intro s hs
  simpa using (List.mem_filter.mp hs).2

theorem group_length (p : Piece) : p.group.sql.length = weight 2 p.sql.length := by
  have hopen : "(".length = 1 := by decide
  have hclose : ")".length = 1 := by decide
  unfold Piece.group weight
  split
  · rename_i h
    simp [h]
  · rename_i h
    have : p.sql.length ≠ 0 := fun h0 => h (String.length_eq_zero_iff.mp h0)
    simp only [Piece.wrap, String.length_append, this, if_false]
    omega

def orLength (ls : List Nat) : Nat := weight 2 (span 4 (ls.map (weight 2)) - 4)

theorem compileOr_length (gs : List Piece) : (compileOr gs).sql.length = orLength (lengths gs) := by
  have hsep : " OR ".length = 4 := by decide
  have hgroups : lengths (gs.map Piece.group) = (lengths gs).map (weight 2) := by
    simp [lengths, group_length]
  rw [compileOr, group_length, joinPieces_length, hsep, hgroups, orLength]

theorem span_append (sep : Nat) (ls ms : List Nat) :
    span sep (ls ++ ms) = span sep ls + span sep ms := by
  simp [span]

theorem lengths_append (ps qs : List Piece) : lengths (ps ++ qs) = lengths ps ++ lengths qs :=
  List.map_append

theorem span_perm {sep : Nat} {ls ms : List Nat} (h : ls.Perm ms) : span sep ls = span sep ms :=
  (h.map (weight sep)).sum_eq

theorem span_eq_zero {sep : Nat} {ps : List Piece} (h : span sep (lengths ps) = 0) :
    ∀ p ∈ ps, p.sql = "" := by
  intro p hp
  have hz := List.sum_eq_zero_iff.mp h (weight sep p.sql.length) (by
    apply List.mem_map_of_mem
    exact List.mem_map_of_mem hp)
  unfold weight at hz
  split at hz
  · rename_i h0
    exact String.length_eq_zero_iff.mp h0
  · omega

/-- Joining does not hide a difference of spans. -/
theorem span_sub_inj {sep : Nat} {ls ms : List Nat} (h : span sep ls - sep = span sep ms - sep) :
    span sep ls = span sep ms := by
  rcases span_eq_zero_or sep ls with h1 | h1 <;> rcases span_eq_zero_or sep ms with h2 | h2 <;>
    omega

/-! ## Only a kept list is compiled to its conjunction -/

mutual
theorem CondElem.vacuous_of_part {fmt : Formatter} (e : CondElem) {part : List Piece}
    (hp : e.Part fmt part) (hz : ∀ p ∈ part, p.sql = "") : e.Vacuous := by
  cases e with
  | or conditions =>
    obtain ⟨gs, hgs, rfl⟩ := hp
    have hempty := compileOr_sql_eq_empty.mp (hz _ List.mem_cons_self)
    exact vacuous_of_groups conditions hgs hempty
  | _ =>
    simp only [CondElem.Part] at hp
    split at hp
    · rename_i hnone
      exact hnone
    · obtain ⟨hne, rfl⟩ := hp
      exact absurd (hz _ List.mem_cons_self) hne

theorem vacuous_of_parts {fmt : Formatter} (es : List CondElem) {ps : List Piece}
    (hp : Parts fmt es ps) (hz : ∀ p ∈ ps, p.sql = "") : Vacuous es := by
  cases es with
  | nil => trivial
  | cons e es =>
    obtain ⟨part, rest, hpart, hrest, rfl⟩ := hp
    exact ⟨e.vacuous_of_part hpart fun p hm => hz p (List.mem_append_left _ hm),
      vacuous_of_parts es hrest fun p hm => hz p (List.mem_append_right _ hm)⟩

theorem vacuous_of_groups {fmt : Formatter} (groups : List (List CondElem)) {gs : List Piece}
    (hp : Groups fmt groups gs) (hz : ∀ g ∈ gs, g.sql = "") : VacuousGroups groups := by
  cases groups with
  | nil => trivial
  | cons group groups =>
    obtain ⟨g, rest, ⟨ps, qs, hps, hperm, rfl⟩, hrest, rfl⟩ := hp
    refine ⟨vacuous_of_parts group hps ?_, vacuous_of_groups groups hrest
      fun p hm => hz p (List.mem_cons_of_mem _ hm)⟩
    intro p hm
    exact joinPieces_sql_eq_empty.mp (hz _ List.mem_cons_self) p (hperm.subset hm)
end

/-- The span of what the record keeps of a list. -/
def recordSpan (fmt : Formatter) (es : List CondElem) : Nat :=
  span 5 (lengths ((Props.survivors (entries es)).map (own fmt)))

theorem compileRecord_length (fmt : Formatter) (es : List CondElem) :
    (compileRecord fmt es).sql.length = recordSpan fmt es - 5 := by
  have hsep : " AND ".length = 5 := by decide
  have hrecord : (condsToRecord es).Perm (Props.survivors (entries es)) := Props.ofEntries_perm _
  rw [compileRecord, joinPieces_length, hsep, recordSpan]
  exact congrArg (· - 5) (span_perm ((hrecord.map (own fmt)).map _))

theorem recordSpan_lost {fmt : Formatter} {e : CondElem} {es : List CondElem} (h : e.Lost es) :
    recordSpan fmt (e :: es) = recordSpan fmt es := by
  obtain ⟨kv, he, hover⟩ := h
  have he' : e.entry = some kv := he
  simp only [recordSpan, entries, he', Option.toList_some, List.singleton_append, Props.survivors,
    if_pos hover]

theorem recordSpan_kept {fmt : Formatter} {e : CondElem} {es : List CondElem} (h : ¬ e.Lost es) :
    recordSpan fmt (e :: es) =
      span 5 (lengths (e.entry.toList.map (own fmt))) + recordSpan fmt es := by
  rcases he : e.entry with _ | kv
  · simp [recordSpan, entries, he, lengths, span]
  · have hover : ¬ (kv.1 = "__proto__" ∨ kv.1 ∈ Props.keys (entries es)) :=
      fun hover => h ⟨kv, he, hover⟩
    simp only [recordSpan, entries, he, Option.toList_some, List.singleton_append,
      Props.survivors, if_neg hover]
    rw [← span_append, ← lengths_append]
    rfl

/-- The record's text is no longer than a conjunction of the list, and shorter if it lost one. -/
theorem conjunction_length {fmt : Formatter} {es : List CondElem} {p : Piece}
    (hspan : ∀ ps, Parts fmt es ps → recordSpan fmt es ≤ span 5 (lengths ps) ∧
      (recordSpan fmt es = span 5 (lengths ps) → Kept fmt es))
    (hc : Conjunction fmt es p) :
    (compileRecord fmt es).sql.length ≤ p.sql.length ∧
      ((compileRecord fmt es).sql.length = p.sql.length → Kept fmt es) := by
  obtain ⟨ps, qs, hps, hperm, rfl⟩ := hc
  have hsep : " AND ".length = 5 := by decide
  have hqs : span 5 (lengths qs) = span 5 (lengths ps) := span_perm (hperm.symm.map _)
  obtain ⟨hle, heq⟩ := hspan ps hps
  rw [compileRecord_length, joinPieces_length, hsep, hqs]
  exact ⟨by omega, fun h => heq (span_sub_inj h)⟩

mutual
theorem CondElem.part_span {fmt : Formatter} (e : CondElem) {part : List Piece}
    (hp : e.Part fmt part) :
    span 5 (lengths (e.entry.toList.map (own fmt))) ≤ span 5 (lengths part) ∧
      (span 5 (lengths (e.entry.toList.map (own fmt))) = span 5 (lengths part) → e.Kept fmt) := by
  cases e with
  | or conditions =>
    obtain ⟨gs, hgs, rfl⟩ := hp
    obtain ⟨hle, heq⟩ := groups_span conditions hgs
    have hown : lengths ((CondElem.or conditions).entry.toList.map (own fmt)) =
        [orLength (lengths (conditions.map (compileRecord fmt)))] := by
      rw [← compileOr_length, ← own_or]
      rfl
    have hpart : lengths [compileOr gs] = [orLength (lengths gs)] := by
      rw [← compileOr_length]
      rfl
    have hsingle : ∀ n, span 5 [n] = weight 5 n := fun n => Nat.add_zero _
    rw [hown, hpart, hsingle, hsingle]
    constructor
    · exact weight_le (weight_le (by omega))
    · intro h
      exact heq (span_sub_inj (weight_inj (weight_inj h)))
  | _ =>
    simp only [CondElem.Part, CondElem.entry] at hp ⊢
    split at hp
    · rename_i hnone
      rw [hnone, hp]
      refine ⟨le_rfl, ?_⟩
      intro _ kv hkv
      exact absurd (hnone.symm.trans hkv) (by simp)
    · rename_i kv hsome
      obtain ⟨hne, rfl⟩ := hp
      rw [hsome]
      refine ⟨le_rfl, ?_⟩
      intro _ kv' hkv'
      obtain rfl := Option.some.inj (hsome.symm.trans hkv')
      intro hsilent
      exact hne ((compileCondition_sql_eq_empty fmt kv.1 kv.2).mpr hsilent)

theorem parts_span {fmt : Formatter} (es : List CondElem) {ps : List Piece}
    (hp : Parts fmt es ps) : recordSpan fmt es ≤ span 5 (lengths ps) ∧
      (recordSpan fmt es = span 5 (lengths ps) → Kept fmt es) := by
  cases es with
  | nil => exact ⟨Nat.zero_le _, fun _ => trivial⟩
  | cons e es =>
    obtain ⟨part, rest, hpart, hrest, rfl⟩ := hp
    obtain ⟨hle, heq⟩ := e.part_span hpart
    obtain ⟨hles, heqs⟩ := parts_span es hrest
    rw [lengths_append, span_append]
    by_cases hl : e.Lost es
    · rw [recordSpan_lost hl]
      refine ⟨by omega, ?_⟩
      intro h
      have hzero : span 5 (lengths part) = 0 := by omega
      exact ⟨heq (by omega), fun _ => e.vacuous_of_part hpart (span_eq_zero hzero),
        heqs (by omega)⟩
    · rw [recordSpan_kept hl]
      refine ⟨by omega, ?_⟩
      intro h
      exact ⟨heq (by omega), fun hl' => absurd hl' hl, heqs (by omega)⟩

theorem groups_span {fmt : Formatter} (groups : List (List CondElem)) {gs : List Piece}
    (hp : Groups fmt groups gs) :
    span 4 ((lengths (groups.map (compileRecord fmt))).map (weight 2)) ≤
        span 4 ((lengths gs).map (weight 2)) ∧
      (span 4 ((lengths (groups.map (compileRecord fmt))).map (weight 2)) =
        span 4 ((lengths gs).map (weight 2)) → KeptGroups fmt groups) := by
  cases groups with
  | nil => exact ⟨Nat.zero_le _, fun _ => trivial⟩
  | cons group groups =>
    obtain ⟨g, rest, hg, hrest, rfl⟩ := hp
    obtain ⟨hle, heq⟩ := groups_span groups hrest
    obtain ⟨hlen, hkept⟩ := conjunction_length (fun ps hps => parts_span group hps) hg
    have hcons : ∀ q qs, span 4 ((lengths (q :: qs)).map (weight 2)) =
        weight 4 (weight 2 q.sql.length) + span 4 ((lengths qs).map (weight 2)) := fun _ _ => rfl
    have hw : weight 4 (weight 2 _) ≤ weight 4 (weight 2 _) := weight_le (weight_le hlen)
    rw [List.map_cons, hcons, hcons]
    refine ⟨by omega, ?_⟩
    intro h
    have hhead : weight 4 (weight 2 (compileRecord fmt group).sql.length) =
        weight 4 (weight 2 g.sql.length) := by omega
    exact ⟨hkept (weight_inj (weight_inj hhead)), heq (by omega)⟩
end

/--
The WHERE clause of a condition list is the conjunction of its elements exactly when no tuple is
empty on its own and no element sets a property that a later one sets again.
-/
theorem condsToRecord_conjunction_iff (fmt : Formatter) (es : List CondElem) :
    Conjunction fmt es (compile fmt (.mk (condsToRecord es) .and [])) ↔ Kept fmt es := by
  have hrecord : compile fmt (.mk (condsToRecord es) .and []) = compileRecord fmt es :=
    compile_and fmt _
  rw [hrecord]
  constructor
  · intro hc
    exact (conjunction_length (fun ps hps => parts_span es hps) hc).2 rfl
  · intro hk
    exact conjunction_of_parts hk (parts_of_kept es hk)

/-- The second `User.or` of a list replaces the first. -/
theorem condsToRecord_drops_or :
    let two (a b : String) : CondElem :=
      .or [[.raw a (.js (.str "x") rfl)], [.raw b (.js (.str "y") rfl)]]
    ¬ Conjunction none [two "a" "b", two "c" "d"]
      (compile none (.mk (condsToRecord [two "a" "b", two "c" "d"]) .and [])) := by
  intro two hc
  rw [compile_and] at hc
  have hk := (conjunction_length (fun ps hps => parts_span _ hps) hc).2 rfl
  have hlost : (two "a" "b").Lost [two "c" "d"] :=
    ⟨_, rfl, Or.inr (List.mem_cons_self (a := "__or__"))⟩
  have hv : (two "a" "b").Vacuous := hk.2.1 hlost
  exact absurd hv.1.1 (by simp [CondElem.Vacuous, CondElem.keyValue])

end LiteDb
