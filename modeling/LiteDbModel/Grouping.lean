import LiteDbModel.Values
import LiteDbModel.Lib.Keyed
import LiteDbModel.Lib.Text

/-!
# Relation grouping

The shared core of relation loading: key identity, the deduplicated batch of key
tuples, and the distribution of child rows to their parents.
-/

namespace LiteDb
set_option autoImplicit false
open Keyed

/-! ## Texts of values -/

/-- What `String(v)` takes from the host: a date's local text, a buffer's bytes decoded. -/
structure Host where
  dateText : String → String
  bufferText : List UInt8 → String

def JsNum.text : JsNum → String
  | .fin d => String.ofList d.print
  | .nan => "NaN"
  | .inf true => "-Infinity"
  | .inf false => "Infinity"

mutual

/-- `String(v)`. -/
def JsVal.text (H : Host) : JsVal → String
  | .undefined => "undefined"
  | .null => "null"
  | .bool b => if b then "true" else "false"
  | .num n => n.text
  | .bigint i => String.ofList (Decimal.intText i)
  | .str s => s
  | .date iso => H.dateText iso
  | .buffer bytes => H.bufferText bytes
  | .arr xs => ",".intercalate (joinTexts H xs)
  | .obj _ => "[object Object]"

/-- The texts that `xs.join` puts its separator between: a null element has none. -/
def joinTexts (H : Host) : List JsVal → List String
  | [] => []
  | x :: xs => (if x.nullish then "" else x.text H) :: joinTexts H xs

end

/-! ## Rows and their key tuples -/

/-- A row object: which object it is, and its own columns. -/
structure Obj where
  id : Nat
  cols : List (String × JsVal)

def Obj.get (o : Obj) (col : String) : JsVal := (Props.get o.cols col).getD .undefined

/-- `cols.map((c) => o[c])`. -/
def Obj.tuple (o : Obj) (cols : List String) : List JsVal := cols.map o.get

/-- Some component is null or missing. -/
def partialKey (t : List JsVal) : Bool := t.any JsVal.nullish

def KEY_SEP : Char := '\x00'

/-- The text a tuple is grouped under: one value's own, several joined with NUL. -/
def keyIdentity (H : Host) : List JsVal → String
  | [v] => v.text H
  | [v, w] => v.text H ++ String.singleton KEY_SEP ++ w.text H
  | vs => (String.singleton KEY_SEP).intercalate (vs.map (JsVal.text H))

/-- The loop of `dedupeKeyTuples`, with the identities seen so far. -/
def dedupeFrom (H : Host) (keyCols : List String) : List String → List Obj → List (List JsVal)
  | _, [] => []
  | seen, r :: rows =>
    let tuple := r.tuple keyCols
    if partialKey tuple then dedupeFrom H keyCols seen rows
    else if keyIdentity H tuple ∈ seen then dedupeFrom H keyCols seen rows
    else tuple :: dedupeFrom H keyCols (keyIdentity H tuple :: seen) rows

def dedupeKeyTuples (H : Host) (rows : List Obj) (keyCols : List String) : List (List JsVal) :=
  dedupeFrom H keyCols [] rows

abbrev ByKey := List (String × List Obj)

def groupByKey (H : Host) (children : List Obj) (fkCols : List String) : ByKey :=
  children.foldl (fun byKey c =>
    let tuple := c.tuple fkCols
    if partialKey tuple then byKey else push (keyIdentity H tuple) c byKey) []

/-- What a parent gets: a list (`hasMany`), or one child or `null`. -/
inductive Attached
  | many (rows : List Obj)
  | one (row : Option Obj)

def Attached.rows : Attached → List Obj
  | .many rows => rows
  | .one row => row.toList

def attachToParent (H : Host) (parent : Obj) (pkCols : List String) (byKey : ByKey)
    (single : Bool) : Attached :=
  let tuple := parent.tuple pkCols
  let rows := if partialKey tuple then none else byKey.lookup (keyIdentity H tuple)
  if single then
    match rows with
    | some (r :: _) => .one (some r)
    | _ => .one none
  else .many (rows.getD [])

/-- The batch key set: scalars for one key column, tuples for several. -/
def pluck (H : Host) (rows : List Obj) (col : List String) : List JsVal :=
  let tuples := dedupeKeyTuples H rows col
  if col.length = 1 then tuples.map fun t => t.headD .undefined else tuples.map .arr

/-- A parent with the attached children under `into` and its own columns beside it. -/
structure Nested where
  parent : Obj
  into : String
  value : Attached

def group (H : Host) (parents children : List Obj) (pk fk : List String) (into : String)
    (single : Bool) : List Nested :=
  let byKey := groupByKey H children fk
  parents.map fun par => ⟨par, into, attachToParent H par pk byKey single⟩

/-! ## What grouping is for -/

/-- The attachment that these children make. -/
def Attached.of (single : Bool) (rows : List Obj) : Attached :=
  if single then .one rows.head? else .many rows

/-- Parent and child agree on every key pair: neither side is null, and the texts are the same. -/
def Agrees (H : Host) (keys : List (String × String)) (parent child : Obj) : Prop :=
  ∀ k ∈ keys, (parent.get k.1).nullish = false ∧ (child.get k.2).nullish = false ∧
    (parent.get k.1).text H = (child.get k.2).text H

instance (H : Host) (keys : List (String × String)) (parent child : Obj) :
    Decidable (Agrees H keys parent child) :=
  inferInstanceAs (Decidable (∀ k ∈ keys, _))

/-- The tuples of the rows that have every key, in row order. -/
def fullTuples (rows : List Obj) (cols : List String) : List (List JsVal) :=
  (rows.map fun r => r.tuple cols).filter fun t => !partialKey t

/-- Each parent gets the children that agree with it, in batch order, and the batch key set has
the first tuple of each class of texts. -/
structure GroupsByKey (H : Host) (keys : List (String × String)) (parents children : List Obj) :
    Prop where
  attached : ∀ single, ∀ parent ∈ parents,
    attachToParent H parent (keys.map (·.1)) (groupByKey H children (keys.map (·.2))) single =
      Attached.of single (children.filter fun c => Agrees H keys parent c)
  batch : dedupeKeyTuples H parents (keys.map (·.1)) =
    firsts (fun t => t.map (JsVal.text H)) (fullTuples parents (keys.map (·.1)))

/-- The texts of a tuple, each cut at its NULs. -/
def cutTexts (H : Host) (t : List JsVal) : List (List Char) :=
  (t.map (JsVal.text H)).flatMap fun s => s.toList.splitOn KEY_SEP

/-- Two tuples whose texts differ, but only in which of their NULs stand between components. -/
def Collide (H : Host) (t u : List JsVal) : Prop :=
  t.map (JsVal.text H) ≠ u.map (JsVal.text H) ∧ cutTexts H t = cutTexts H u

/-- No two of the key tuples that are compared collide. -/
def NoCollision (H : Host) (keys : List (String × String)) (parents children : List Obj) : Prop :=
  (∀ t ∈ fullTuples parents (keys.map (·.1)), ∀ u ∈ fullTuples children (keys.map (·.2)),
    ¬ Collide H t u) ∧
  ∀ t ∈ fullTuples parents (keys.map (·.1)), ∀ u ∈ fullTuples parents (keys.map (·.1)),
    ¬ Collide H t u

/-! ## Identities -/

variable {H : Host}

theorem keyIdentity_eq (vs : List JsVal) :
    keyIdentity H vs = (String.singleton KEY_SEP).intercalate (vs.map (JsVal.text H)) := by
  rcases vs with _ | ⟨v, _ | ⟨w, _ | ⟨x, vs⟩⟩⟩
  · rfl
  · simp [keyIdentity]
  · simp [keyIdentity]
  · rfl

theorem keyIdentity_eq_iff {t u : List JsVal} (h : t.length = u.length) :
    keyIdentity H t = keyIdentity H u ↔ cutTexts H t = cutTexts H u := by
  rcases t with _ | ⟨v, t⟩
  · obtain rfl := List.length_eq_zero_iff.mp h.symm
    exact iff_of_true rfl rfl
  rcases u with _ | ⟨w, u⟩
  · cases h
  have htexts : ∀ t : List JsVal, (keyIdentity H t).toList =
      [KEY_SEP].intercalate ((t.map (JsVal.text H)).map String.toList) := by
    intro t
    rw [keyIdentity_eq, String.toList_intercalate, String.toList_singleton]
  rw [← String.toList_inj, htexts, htexts, Text.intercalate_eq_iff _ (by simp) (by simp),
    cutTexts, cutTexts]
  simp only [List.flatMap_map]

/-- Two tuples of one arity have one identity exactly when their texts agree or they collide. -/
theorem keyIdentity_iff_or {t u : List JsVal} (h : t.length = u.length) :
    keyIdentity H t = keyIdentity H u ↔
      t.map (JsVal.text H) = u.map (JsVal.text H) ∨ Collide H t u := by
  rw [keyIdentity_eq_iff h]
  constructor
  · intro heq
    by_cases htexts : t.map (JsVal.text H) = u.map (JsVal.text H)
    · exact Or.inl htexts
    · exact Or.inr ⟨htexts, heq⟩
  · rintro (heq | ⟨_, heq⟩)
    · rw [cutTexts, heq, cutTexts]
    · exact heq

theorem length_tuple (o : Obj) (cols : List String) : (o.tuple cols).length = cols.length := by
  simp [Obj.tuple]

theorem mem_fullTuples {rows : List Obj} {cols : List String} {t : List JsVal} :
    t ∈ fullTuples rows cols ↔ ∃ r ∈ rows, r.tuple cols = t ∧ partialKey t = false := by
  simp only [fullTuples, List.mem_filter, List.mem_map, Bool.not_eq_true']
  constructor
  · rintro ⟨⟨r, hr, heq⟩, hfull⟩
    exact ⟨r, hr, heq, hfull⟩
  · rintro ⟨r, hr, heq, hfull⟩
    exact ⟨⟨r, hr, heq⟩, hfull⟩

theorem length_of_mem_fullTuples {rows : List Obj} {cols : List String} {t : List JsVal}
    (h : t ∈ fullTuples rows cols) : t.length = cols.length := by
  obtain ⟨r, _, rfl, _⟩ := mem_fullTuples.mp h
  exact length_tuple r cols

/-! ## Deduplication -/

theorem dedupeFrom_eq (keyCols : List String) (seen : List String) (rows : List Obj) :
    dedupeFrom H keyCols seen rows = fresh (keyIdentity H) seen (fullTuples rows keyCols) := by
  induction rows generalizing seen with
  | nil => rfl
  | cons r rows ih =>
    have hcons : fullTuples (r :: rows) keyCols =
        if partialKey (r.tuple keyCols) then fullTuples rows keyCols
        else r.tuple keyCols :: fullTuples rows keyCols := by
      cases hp : partialKey (r.tuple keyCols) <;> simp [fullTuples, hp]
    simp only [dedupeFrom, hcons]
    split
    · exact ih seen
    · simp only [fresh, ih]

theorem dedupeKeyTuples_eq (rows : List Obj) (keyCols : List String) :
    dedupeKeyTuples H rows keyCols = firsts (keyIdentity H) (fullTuples rows keyCols) := by
  rw [dedupeKeyTuples, dedupeFrom_eq, fresh_nil]

/-! ## Distribution -/

/-- The children the code puts under a parent's identity. -/
def filedUnder (H : Host) (keys : List (String × String)) (parent : Obj) (children : List Obj) :
    List Obj :=
  children.filter fun c => !partialKey (parent.tuple (keys.map (·.1))) &&
    !partialKey (c.tuple (keys.map (·.2))) &&
    keyIdentity H (c.tuple (keys.map (·.2))) = keyIdentity H (parent.tuple (keys.map (·.1)))

theorem groupByKey_lookup (children : List Obj) (fkCols : List String) (k : String) :
    ((groupByKey H children fkCols).lookup k).getD [] =
      children.filter fun c => !partialKey (c.tuple fkCols) && keyIdentity H (c.tuple fkCols) = k := by
  have hfold : groupByKey H children fkCols =
      groups (fun c => keyIdentity H (c.tuple fkCols))
        (children.filter fun c => !partialKey (c.tuple fkCols)) := by
    rw [groups, List.foldl_filter]
    simp only [groupByKey, Bool.not_eq_true', ← Bool.not_eq_true, ite_not]
  rw [hfold, lookup_groups, List.filter_filter]
  apply List.filter_congr
  intro c _
  exact Bool.and_comm _ _

theorem attachToParent_eq (keys : List (String × String)) (parent : Obj) (children : List Obj)
    (single : Bool) :
    attachToParent H parent (keys.map (·.1)) (groupByKey H children (keys.map (·.2))) single =
      Attached.of single (filedUnder H keys parent children) := by
  have hrows : ((if partialKey (parent.tuple (keys.map (·.1))) then none
      else (groupByKey H children (keys.map (·.2))).lookup
        (keyIdentity H (parent.tuple (keys.map (·.1)))) : Option (List Obj)).getD []) =
      filedUnder H keys parent children := by
    by_cases hp : partialKey (parent.tuple (keys.map (·.1))) = true
    · simp [filedUnder, hp]
    · rw [if_neg hp, groupByKey_lookup]
      simp [filedUnder, hp]
  rw [attachToParent, Attached.of, ← hrows]
  generalize (if partialKey (parent.tuple (keys.map (·.1))) then none
    else (groupByKey H children (keys.map (·.2))).lookup
      (keyIdentity H (parent.tuple (keys.map (·.1)))) : Option (List Obj)) = rows
  rcases rows with _ | _ | ⟨r, rows⟩ <;> rfl

theorem agrees_iff (keys : List (String × String)) (parent child : Obj) :
    Agrees H keys parent child ↔ partialKey (parent.tuple (keys.map (·.1))) = false ∧
      partialKey (child.tuple (keys.map (·.2))) = false ∧
      (child.tuple (keys.map (·.2))).map (JsVal.text H) =
        (parent.tuple (keys.map (·.1))).map (JsVal.text H) := by
  induction keys with
  | nil => simp [Agrees, Obj.tuple, partialKey]
  | cons k keys ih =>
    have hcons : Agrees H (k :: keys) parent child ↔
        ((parent.get k.1).nullish = false ∧ (child.get k.2).nullish = false ∧
          (parent.get k.1).text H = (child.get k.2).text H) ∧ Agrees H keys parent child :=
      List.forall_mem_cons
    rw [hcons, ih]
    simp only [Obj.tuple, partialKey, List.map_cons, List.any_cons, Bool.or_eq_false_iff,
      List.cons.injEq]
    constructor
    · rintro ⟨⟨hp, hc, htext⟩, hps, hcs, htexts⟩
      exact ⟨⟨hp, hps⟩, ⟨hc, hcs⟩, htext.symm, htexts⟩
    · rintro ⟨⟨hp, hps⟩, ⟨hc, hcs⟩, htext, htexts⟩
      exact ⟨⟨hp, hc, htext.symm⟩, hps, hcs, htexts⟩

theorem Collide.symm {t u : List JsVal} (h : Collide H t u) : Collide H u t :=
  ⟨Ne.symm h.1, h.2.symm⟩

theorem filedUnder_eq_iff (keys : List (String × String)) (parent : Obj) (children : List Obj) :
    filedUnder H keys parent children = children.filter (fun c => Agrees H keys parent c) ↔
      ∀ c ∈ children, partialKey (parent.tuple (keys.map (·.1))) = false →
        partialKey (c.tuple (keys.map (·.2))) = false →
        ¬ Collide H (parent.tuple (keys.map (·.1))) (c.tuple (keys.map (·.2))) := by
  rw [filedUnder, filter_eq_iff]
  apply forall₂_congr
  intro c _
  rw [Bool.eq_iff_iff, decide_eq_true_iff, agrees_iff]
  have hlen : (c.tuple (keys.map (·.2))).length = (parent.tuple (keys.map (·.1))).length := by
    simp [length_tuple]
  simp only [Bool.and_eq_true, Bool.not_eq_true', decide_eq_true_eq, keyIdentity_iff_or hlen]
  constructor
  · intro h hp hc hcollide
    exact hcollide.1 (h.mp ⟨⟨hp, hc⟩, Or.inr hcollide.symm⟩).2.2.symm
  · intro h
    constructor
    · rintro ⟨⟨hp, hc⟩, htexts | hcollide⟩
      · exact ⟨hp, hc, htexts⟩
      · exact absurd hcollide.symm (h hp hc)
    · rintro ⟨hp, hc, htexts⟩
      exact ⟨⟨hp, hc⟩, Or.inl htexts⟩

theorem Attached.of_inj {rows rows' : List Obj} :
    (∀ single, Attached.of single rows = Attached.of single rows') ↔ rows = rows' := by
  constructor
  · intro h
    exact Attached.many.inj (h false)
  · rintro rfl single
    rfl

/-- Grouping is by the texts of the components exactly when no two compared tuples collide. -/
theorem groupsByKey_iff (H : Host) (keys : List (String × String)) (parents children : List Obj) :
    GroupsByKey H keys parents children ↔ NoCollision H keys parents children := by
  have hattached : (∀ single, ∀ parent ∈ parents,
      attachToParent H parent (keys.map (·.1)) (groupByKey H children (keys.map (·.2))) single =
        Attached.of single (children.filter fun c => Agrees H keys parent c)) ↔
      ∀ t ∈ fullTuples parents (keys.map (·.1)), ∀ u ∈ fullTuples children (keys.map (·.2)),
        ¬ Collide H t u := by
    simp only [attachToParent_eq]
    constructor
    · intro h t ht u hu
      obtain ⟨parent, hparent, rfl, hp⟩ := mem_fullTuples.mp ht
      obtain ⟨c, hc, rfl, hcfull⟩ := mem_fullTuples.mp hu
      have hrows := Attached.of_inj.mp fun single => h single parent hparent
      exact (filedUnder_eq_iff keys parent children).mp hrows c hc hp hcfull
    · intro h single parent hparent
      apply Attached.of_inj.mpr
      apply (filedUnder_eq_iff keys parent children).mpr
      intro c hc hp hcfull
      exact h _ (mem_fullTuples.mpr ⟨parent, hparent, rfl, hp⟩) _
        (mem_fullTuples.mpr ⟨c, hc, rfl, hcfull⟩)
  have hbatch : dedupeKeyTuples H parents (keys.map (·.1)) =
      firsts (fun t => t.map (JsVal.text H)) (fullTuples parents (keys.map (·.1))) ↔
      ∀ t ∈ fullTuples parents (keys.map (·.1)), ∀ u ∈ fullTuples parents (keys.map (·.1)),
        ¬ Collide H t u := by
    rw [dedupeKeyTuples_eq, firsts_eq_iff]
    · apply forall₂_congr
      intro t ht
      apply forall₂_congr
      intro u hu
      rw [keyIdentity_iff_or ((length_of_mem_fullTuples ht).trans
        (length_of_mem_fullTuples hu).symm)]
      constructor
      · intro h hcollide
        exact hcollide.1 (h (Or.inr hcollide))
      · rintro h (htexts | hcollide)
        · exact htexts
        · exact absurd hcollide h
    · intro t ht u hu htexts
      exact (keyIdentity_iff_or ((length_of_mem_fullTuples ht).trans
        (length_of_mem_fullTuples hu).symm)).mpr (Or.inl htexts)
  constructor
  · intro h
    exact ⟨hattached.mp h.attached, hbatch.mp h.batch⟩
  · intro h
    exact ⟨hattached.mpr h.1, hbatch.mpr h.2⟩

/-- A text with NUL in it moves the border between two components. -/
theorem group_joins_other_tuple : ¬ ∀ (H : Host) (keys : List (String × String))
    (parents children : List Obj), GroupsByKey H keys parents children := by
  intro h
  have hmany := (h ⟨id, fun _ => ""⟩ [("a", "x"), ("b", "y")]
    [⟨0, [("a", .str "a\x00b"), ("b", .str "c")]⟩]
    [⟨1, [("x", .str "a"), ("y", .str "b\x00c")]⟩]).attached false _ List.mem_cons_self
  have hlen := congrArg (fun v => match v with
    | Attached.many rows => rows.length
    | .one _ => 0) hmany
  exact absurd hlen (by decide)

end LiteDb
