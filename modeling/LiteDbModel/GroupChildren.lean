import LiteDbModel.KeyIdentity
import LiteDbModel.Lib.LastUse

/-!
# Children moved into their parents

Rust's `group` leaf moves each bucket of children into the last parent of its key and copies it
before. Key columns and the nested column are looked for where the first row has them.
-/

namespace LiteDb.GroupChildren
set_option autoImplicit false
open LastUse

/-! ## Wire values -/

inductive WireValue
  | Null
  | Bool (b : Bool)
  | Str (s : String)
  | Int (n : Int) (fits : IsI64 n)
  | Float (w : Binary64.Word)
  | Row (entries : List (String × WireValue))
  | List (items : List WireValue)

/-- The entries of a row, by column. -/
abbrev Entries := List (String × WireValue)

/-- A row holds a column once. -/
def WireValue.IsRecord : WireValue → Prop
  | .Row entries => (entries.map (·.1)).Nodup
  | _ => True

abbrev WireRow := { v : WireValue // v.IsRecord }

def WireValue.entries : WireValue → Option Entries
  | .Row entries => some entries
  | _ => none

/-! ## Keys -/

inductive KeyCell
  | scalar (c : Rust.KeyCell)
  | Null
  | Row
  | List
deriving DecidableEq

def keyCell : WireValue → KeyCell
  | .Null => .Null
  | .Bool b => .scalar (Rust.keyCell (.bool b))
  | .Str s => .scalar (Rust.keyCell (.str s))
  | .Int n fits => .scalar (Rust.keyCell (.int n fits))
  | .Float w => .scalar (Rust.keyCell (.float w))
  | .Row _ => .Row
  | .List _ => .List

inductive KeyIdentity
  | One (a : KeyCell)
  | Two (a b : KeyCell)
  | Many (cells : List KeyCell)
deriving DecidableEq

def keyIdentity : List WireValue → KeyIdentity
  | [a] => .One (keyCell a)
  | [a, b] => .Two (keyCell a) (keyCell b)
  | values => .Many (values.map keyCell)

/-- The cell of a column by its name. -/
def field (row : WireValue) (col : String) : Option WireValue :=
  row.entries.bind fun entries => entries.lookup col

/-- Where a row has a column. -/
def position (col : String) (entries : Entries) : Option Nat :=
  entries.findIdx? fun p => p.1 = col

def resolveIndices (sample : WireValue) (cols : List String) : Option (List (Option Nat)) :=
  sample.entries.map fun entries => cols.map fun c => position c entries

/-- The places of the key columns in the first row of all. -/
def resolveKeyIndices (rows : List WireRow) (cols : List String) : List (Option Nat) :=
  (rows.findSome? fun r => resolveIndices r.val cols).getD (cols.map fun _ => none)

def isNull : WireValue → Bool
  | .Null => true
  | _ => false

/-- A key column's cell, at its place or else by its name; an absent and a null cell are none. -/
def keyCellAt (row : WireValue) (entries : Entries) (col : String) (i : Option Nat) :
    Option WireValue :=
  let cell := match i.bind fun i => entries[i]? with
    | some (k, v) => if k = col then some v else field row col
    | none => field row col
  cell.filter fun v => !isNull v

def rowKey (row : WireValue) (cols : List String) (idx : List (Option Nat)) :
    Option KeyIdentity :=
  match row.entries with
  | none => none
  | some entries =>
    match cols, idx with
    | [c0], [i0] => (keyCellAt row entries c0 i0).map fun a => .One (keyCell a)
    | [c0, c1], [i0, i1] =>
      (keyCellAt row entries c0 i0).bind fun a =>
        (keyCellAt row entries c1 i1).map fun b => .Two (keyCell a) (keyCell b)
    | cols, idx =>
      ((cols.zip idx).mapM fun p => (keyCellAt row entries p.1 p.2).map keyCell).map .Many

/-! ## Grouping -/

abbrev ByKey := KeyIdentity → Option (List WireValue)

/-- Each child moved behind the others of its key; one without a key is dropped. -/
def groupByKey (children : List WireRow) (fkCols : List String) : ByKey :=
  let idx := resolveKeyIndices children fkCols
  children.foldl (fun byKey child =>
    match rowKey child.val fkCols idx with
    | none => byKey
    | some key => Function.update byKey key (some ((byKey key).getD [] ++ [child.val])))
    fun _ => none

def countParentKeys (parents : List WireRow) (pkCols : List String) (pkIdx : List (Option Nat)) :
    KeyIdentity → Option Nat :=
  counted (fun parent : WireRow => rowKey parent.val pkCols pkIdx) parents

/-- What a parent is given of the children found for it. -/
def nestedValue (single : Bool) (rows : Option (List WireValue)) : WireValue :=
  if single then
    match rows with
    | some (child :: _) => child
    | _ => .Null
  else .List (rows.getD [])

def attachToParent (parent : WireValue) (pkCols : List String) (pkIdx : List (Option Nat))
    (store : Store KeyIdentity (List WireValue)) (single : Bool) :
    WireValue × Store KeyIdentity (List WireValue) :=
  let claimed := claimOf store (rowKey parent pkCols pkIdx)
  (nestedValue single claimed.1, claimed.2)

/-- The nested value is set at the place where the first row with the column has it, or appended. -/
def setInto (into : String) (intoPos : Option Nat) (parent nested : WireValue) : WireValue :=
  match parent with
  | .Row entries =>
    match intoPos with
    | some i =>
      match entries[i]? with
      | some (k, _) =>
        if k = into then .Row (entries.set i (k, nested)) else .Row (entries ++ [(into, nested)])
      | none => .Row (entries ++ [(into, nested)])
    | none => .Row (entries ++ [(into, nested)])
  | other => other

def attachAll (pk : List String) (pkIdx : List (Option Nat)) (into : String) (intoPos : Option Nat)
    (single : Bool) (store : Store KeyIdentity (List WireValue)) : List WireRow → List WireValue
  | [] => []
  | p :: parents =>
    let attached := attachToParent p.val pk pkIdx store single
    setInto into intoPos p.val attached.1 ::
      attachAll pk pkIdx into intoPos single attached.2 parents

/-- The place of the column in the first row that has it. -/
def intoPosition (into : String) (parents : List WireRow) : Option Nat :=
  parents.findSome? fun p => p.val.entries.bind (position into)

def groupChildren (parents children : List WireRow) (pk fk : List String) (into : String)
    (single : Bool) : List WireValue :=
  let byKey := groupByKey children fk
  let pkIdx := resolveKeyIndices parents pk
  attachAll pk pkIdx into (intoPosition into parents) single
    ⟨byKey, countParentKeys parents pk pkIdx⟩ parents

/-! ## Naive grouping -/

/-- A row's key, by the names of its columns alone. -/
def naiveKey (row : WireValue) (cols : List String) : Option KeyIdentity :=
  row.entries.bind fun _ =>
    (cols.mapM fun c => (field row c).filter fun v => !isNull v).map keyIdentity

/-- All children with the parent's key, in their order. -/
def childrenOf (children : List WireRow) (pk fk : List String) (parent : WireValue) :
    List WireValue :=
  match naiveKey parent pk with
  | none => []
  | some key => (children.map (·.val)).filter fun child => naiveKey child fk = some key

/-- A row with a column set: in its place, or behind the others. -/
def setColumn (entries : Entries) (name : String) (v : WireValue) : Entries :=
  if name ∈ entries.map (·.1) then entries.map fun p => if p.1 = name then (p.1, v) else p
  else entries ++ [(name, v)]

def naiveNested (children : List WireRow) (pk fk : List String) (single : Bool)
    (parent : WireValue) : WireValue :=
  let rows := childrenOf children pk fk parent
  if single then rows.head?.getD .Null else .List rows

def naiveParent (children : List WireRow) (pk fk : List String) (into : String) (single : Bool)
    (parent : WireValue) : WireValue :=
  match parent with
  | .Row entries =>
    .Row (setColumn entries into (naiveNested children pk fk single parent))
  | other => other

/-- Each parent with its own children. -/
def naiveGroup (parents children : List WireRow) (pk fk : List String) (into : String)
    (single : Bool) : List WireValue :=
  parents.map fun p => naiveParent children pk fk into single p.val

/-- Every parent that has the nested column has it where the first of them does. -/
def SamePlace (into : String) (parents : List WireRow) : Prop :=
  ∀ p ∈ parents, ∀ entries, p.val = .Row entries → ∀ i, position into entries = some i →
    intoPosition into parents = some i

/-! ## Keys by place and by name -/

section Keys

theorem lookup_of_getElem? {entries : Entries} (h : (entries.map (·.1)).Nodup) {i : Nat}
    {p : String × WireValue} (hi : entries[i]? = some p) : entries.lookup p.1 = some p.2 :=
  Keyed.lookup_of_mem h (List.mem_of_getElem? hi)

/-- A cell at its place is the cell of the name. -/
theorem keyCellAt_eq {entries : Entries} (h : (entries.map (·.1)).Nodup) (col : String)
    (i : Option Nat) : keyCellAt (.Row entries) entries col i =
      (field (.Row entries) col).filter fun v => !isNull v := by
  unfold keyCellAt
  cases hi : i.bind fun i => entries[i]? with
  | none => rfl
  | some p =>
    obtain ⟨k, v⟩ := p
    dsimp only
    by_cases hk : k = col
    · subst hk
      obtain ⟨j, _, hj⟩ := Option.bind_eq_some_iff.mp hi
      rw [if_pos rfl]
      have hlookup : field (.Row entries) k = some v := lookup_of_getElem? h hj
      rw [hlookup]
    · rw [if_neg hk]

theorem mapM_zip {α β γ δ : Type} (f : α → Option β) (g : β → γ) {as : List α} {ds : List δ}
    (hlen : ds.length = as.length) :
    (as.zip ds).mapM (fun p => (f p.1).map g) = (as.mapM f).map (List.map g) := by
  induction as generalizing ds with
  | nil => rfl
  | cons a as ih =>
    cases ds with
    | nil => cases hlen
    | cons d ds =>
      rw [List.zip_cons_cons, List.mapM_cons, List.mapM_cons, ih (Nat.succ.inj hlen)]
      cases f a with
      | none => rfl
      | some b =>
        cases as.mapM f <;> rfl

theorem length_mapM {α β : Type} {f : α → Option β} {as : List α} {bs : List β}
    (h : as.mapM f = some bs) : bs.length = as.length := by
  induction as generalizing bs with
  | nil =>
    cases h
    rfl
  | cons a as ih =>
    rw [List.mapM_cons] at h
    obtain ⟨b, _, h⟩ := Option.bind_eq_some_iff.mp h
    obtain ⟨bs', hbs, h⟩ := Option.bind_eq_some_iff.mp h
    cases h
    rw [List.length_cons, List.length_cons, ih hbs]

/-- With a place for each column the key is the naive one. -/
theorem rowKey_eq {row : WireValue} (h : row.IsRecord) {cols : List String}
    {idx : List (Option Nat)} (hlen : idx.length = cols.length) :
    rowKey row cols idx = naiveKey row cols := by
  unfold rowKey naiveKey
  cases row with
  | Row entries =>
    have hnodup : (entries.map (·.1)).Nodup := h
    simp only [WireValue.entries, keyCellAt_eq hnodup, Option.bind_some]
    split
    · next c0 i0 =>
      simp only [List.mapM_cons, List.mapM_nil]
      cases (field (.Row entries) c0).filter fun v => !isNull v <;> rfl
    · next c0 c1 i0 i1 =>
      simp only [List.mapM_cons, List.mapM_nil]
      cases (field (.Row entries) c0).filter fun v => !isNull v with
      | none => rfl
      | some a =>
        cases (field (.Row entries) c1).filter fun v => !isNull v <;> rfl
    · next cols idx hone htwo =>
      rw [mapM_zip (fun c => (field (.Row entries) c).filter fun v => !isNull v) keyCell hlen,
        Option.map_map]
      refine Option.map_congr fun values hvalues => ?_
      have hlength := length_mapM hvalues
      unfold keyIdentity
      split
      · obtain ⟨c, rfl⟩ := List.length_eq_one_iff.mp hlength.symm
        obtain ⟨i, rfl⟩ := List.length_eq_one_iff.mp hlen
        exact absurd rfl (hone c i rfl)
      · obtain ⟨c, d, rfl⟩ := List.length_eq_two.mp hlength.symm
        obtain ⟨i, j, rfl⟩ := List.length_eq_two.mp hlen
        exact absurd rfl (htwo c d i j rfl)
      · rfl
  | _ => rfl

theorem resolveKeyIndices_length (rows : List WireRow) (cols : List String) :
    (resolveKeyIndices rows cols).length = cols.length := by
  unfold resolveKeyIndices
  cases h : rows.findSome? fun r => resolveIndices r.val cols with
  | none => exact List.length_map _
  | some idx =>
    obtain ⟨r, _, hr⟩ := List.exists_of_findSome?_eq_some h
    obtain ⟨entries, _, rfl⟩ := Option.map_eq_some_iff.mp hr
    exact List.length_map _

theorem rowKey_resolved (rows : List WireRow) (row : WireRow) (cols : List String) :
    rowKey row.val cols (resolveKeyIndices rows cols) = naiveKey row.val cols :=
  rowKey_eq row.property (resolveKeyIndices_length rows cols)

end Keys

/-! ## Buckets -/

/-- A bucket holds the children of its key, in their order, and there is none without children. -/
theorem groupByKey_eq (children : List WireRow) (fk : List String) (key : KeyIdentity) :
    (groupByKey children fk key).getD [] =
      (children.map (·.val)).filter fun child => naiveKey child fk = some key := by
  unfold groupByKey
  simp only [rowKey_resolved]
  induction children using List.reverseRecOn with
  | nil => rfl
  | append_singleton children child ih =>
    rw [List.foldl_append, List.foldl_cons, List.foldl_nil, List.map_append, List.filter_append,
      ← ih]
    cases hkey : naiveKey child.val fk with
    | none => simp [hkey]
    | some k =>
      by_cases heq : key = k
      · subst heq
        simp [hkey]
      · have hne : ¬ k = key := fun h => heq h.symm
        simp [hkey, hne, Function.update_of_ne heq]

theorem nestedValue_eq (children : List WireRow) (pk fk : List String) (single : Bool)
    (parent : WireValue) :
    nestedValue single ((naiveKey parent pk).bind (groupByKey children fk)) =
      naiveNested children pk fk single parent := by
  unfold naiveNested childrenOf
  cases hkey : naiveKey parent pk with
  | none =>
    cases single <;> rfl
  | some key =>
    dsimp only [Option.bind_some]
    rw [← groupByKey_eq]
    unfold nestedValue
    cases single with
    | false => rfl
    | true =>
      cases groupByKey children fk key with
      | none => rfl
      | some rows => cases rows <;> rfl

/-- Each parent is attached what its claim gives. -/
theorem attachAll_eq (pk : List String) (pkIdx : List (Option Nat)) (into : String)
    (intoPos : Option Nat) (single : Bool) (store : Store KeyIdentity (List WireValue))
    (parents : List WireRow) : attachAll pk pkIdx into intoPos single store parents =
      List.zipWith (fun p rows => setInto into intoPos p.val (nestedValue single rows)) parents
        (claims (fun p : WireRow => rowKey p.val pk pkIdx) store parents) := by
  induction parents generalizing store with
  | nil => rfl
  | cons p parents ih =>
    rw [attachAll, claims, List.zipWith_cons_cons, ih]
    rfl

theorem groupChildren_eq (parents children : List WireRow) (pk fk : List String) (into : String)
    (single : Bool) : groupChildren parents children pk fk into single =
      parents.map fun p => setInto into (intoPosition into parents) p.val
        (naiveNested children pk fk single p.val) := by
  have hclaims := claims_eq (covers_counted
    (fun p : WireRow => rowKey p.val pk (resolveKeyIndices parents pk)) (groupByKey children fk)
    parents)
  unfold groupChildren
  dsimp only
  rw [attachAll_eq, countParentKeys, hclaims, List.zipWith_map_right, List.zipWith_self]
  refine List.map_congr_left fun p _ => ?_
  rw [rowKey_resolved, nestedValue_eq]

/-! ## The nested column -/

section Into
variable {into : String} {entries : Entries}

theorem position_none (h : position into entries = none) : into ∉ entries.map (·.1) := by
  intro hmem
  obtain ⟨p, hp, hname⟩ := List.mem_map.mp hmem
  have hno := List.findIdx?_eq_none_iff.mp h p hp
  simp [hname] at hno

theorem position_some {i : Nat} (h : position into entries = some i) :
    ∃ v, entries[i]? = some (into, v) := by
  obtain ⟨hlt, hname, _⟩ := List.findIdx?_eq_some_iff_getElem.mp h
  have hname' : entries[i].1 = into := by simpa using hname
  refine ⟨entries[i].2, ?_⟩
  rw [List.getElem?_eq_getElem hlt, ← hname']

/-- The place of a column that a record has once. -/
theorem place_unique (hnodup : (entries.map (·.1)).Nodup) {i j : Nat} {v w : WireValue}
    (hi : entries[i]? = some (into, v)) (hj : entries[j]? = some (into, w)) : i = j := by
  have hi' : (entries.map (·.1))[i]? = some into := by rw [List.getElem?_map, hi]; rfl
  have hj' : (entries.map (·.1))[j]? = some into := by rw [List.getElem?_map, hj]; rfl
  obtain ⟨hlti, hgeti⟩ := List.getElem?_eq_some_iff.mp hi'
  obtain ⟨hltj, hgetj⟩ := List.getElem?_eq_some_iff.mp hj'
  exact (hnodup.getElem_inj_iff).mp (hgeti.trans hgetj.symm)

theorem set_place (hnodup : (entries.map (·.1)).Nodup) {i : Nat} {w : WireValue}
    (h : entries[i]? = some (into, w)) (v : WireValue) :
    entries.set i (into, v) = setColumn entries into v := by
  have hmem : into ∈ entries.map (·.1) :=
    List.mem_map.mpr ⟨(into, w), List.mem_of_getElem? h, rfl⟩
  rw [setColumn, if_pos hmem]
  apply List.ext_getElem?
  intro j
  rw [List.getElem?_map, List.getElem?_set]
  by_cases hij : i = j
  · subst hij
    obtain ⟨hlt, _⟩ := List.getElem?_eq_some_iff.mp h
    rw [if_pos rfl, if_pos hlt, h]
    simp
  · rw [if_neg hij]
    cases hj : entries[j]? with
    | none => rfl
    | some p =>
      have hname : ¬ p.1 = into := by
        rintro rfl
        exact hij (place_unique hnodup h hj)
      rw [Option.map_some, if_neg hname]

/-- The nested value is set as the column's name says exactly when its place is the searched one. -/
theorem setInto_eq_iff (hnodup : (entries.map (·.1)).Nodup) (intoPos : Option Nat)
    (v : WireValue) : setInto into intoPos (.Row entries) v = .Row (setColumn entries into v) ↔
      ∀ i, position into entries = some i → intoPos = some i := by
  have happend : ∀ pos : Option Nat, (∀ i, pos = some i → ∀ w, entries[i]? ≠ some (into, w)) →
      setInto into pos (.Row entries) v = .Row (entries ++ [(into, v)]) := by
    intro pos hpos
    unfold setInto
    cases pos with
    | none => rfl
    | some i =>
      dsimp only
      split
      · next k w hk =>
        rw [if_neg]
        rintro rfl
        exact hpos i rfl w hk
      · rfl
  cases hposition : position into entries with
  | none =>
    have habsent := position_none hposition
    have hnone : ∀ i, intoPos = some i → ∀ w, entries[i]? ≠ some (into, w) := by
      intro i _ w hi
      exact habsent (List.mem_map.mpr ⟨_, List.mem_of_getElem? hi, rfl⟩)
    rw [happend intoPos hnone, setColumn, if_neg habsent]
    simp
  | some i =>
    obtain ⟨w, hw⟩ := position_some hposition
    simp only [Option.some.injEq, forall_eq']
    constructor
    · intro heq
      by_contra hne
      have hother : ∀ j, intoPos = some j → ∀ u, entries[j]? ≠ some (into, u) := by
        rintro j rfl u hj
        exact hne (congrArg some (place_unique hnodup hj hw))
      rw [happend intoPos hother, ← set_place hnodup hw] at heq
      have hlen := congrArg List.length (WireValue.Row.inj heq)
      rw [List.length_append, List.length_set, List.length_singleton] at hlen
      omega
    · rintro rfl
      unfold setInto
      simp only [hw, if_true]
      exact congrArg _ (set_place hnodup hw v)

end Into

/-- The children are nested as by their keys alone exactly when every parent that has the nested
column has it where the first of them does. -/
theorem groupChildren_iff (parents children : List WireRow) (pk fk : List String) (into : String)
    (single : Bool) : groupChildren parents children pk fk into single =
      naiveGroup parents children pk fk into single ↔ SamePlace into parents := by
  rw [groupChildren_eq, naiveGroup, List.map_inj_left, SamePlace]
  refine forall_congr' fun p => forall_congr' fun hp => ?_
  obtain ⟨v, hrecord⟩ := p
  unfold naiveParent
  cases v with
  | Row entries =>
    have hnodup : (entries.map (·.1)).Nodup := hrecord
    simp only [WireValue.Row.injEq, forall_eq']
    exact setInto_eq_iff hnodup _ _
  | _ => simp [setInto]

/-- A parent whose nested column stands behind its key. -/
def keyFirst : WireValue := .Row [("id", .Str "a"), ("kids", .Null)]

/-- A parent whose nested column stands before its key. -/
def kidsFirst : WireValue := .Row [("kids", .Null), ("id", .Str "b")]

theorem keyFirst_isRecord : keyFirst.IsRecord := by
  change ["id", "kids"].Nodup
  decide

theorem kidsFirst_isRecord : kidsFirst.IsRecord := by
  change ["kids", "id"].Nodup
  decide

/-- The second parent is given a second `kids` column, and keeps its old one. -/
theorem kids_twice :
    groupChildren [⟨keyFirst, keyFirst_isRecord⟩, ⟨kidsFirst, kidsFirst_isRecord⟩] [] ["id"]
      ["parent"] "kids" false ≠
    naiveGroup [⟨keyFirst, keyFirst_isRecord⟩, ⟨kidsFirst, kidsFirst_isRecord⟩] [] ["id"]
      ["parent"] "kids" false := by
  intro h
  have hcolumns := congrArg (List.map fun v => v.entries.map fun es => es.map (·.1)) h
  revert hcolumns
  decide

end LiteDb.GroupChildren
