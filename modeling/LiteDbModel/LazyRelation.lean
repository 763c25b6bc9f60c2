import LiteDbModel.Grouping

/-!
# The decorator models' lazy relations

A relation context loads a relation once for all of its records and looks the
loaded map up for each of them.
-/

namespace LiteDb
set_option autoImplicit false
open Keyed

inductive RelationType
  | belongsTo
  | hasMany
  | hasOne
deriving DecidableEq

/-- The key fields of a relation's configuration. -/
structure RelationConfig where
  targetKey : Option String
  sourceKey : Option String
  targetKeys : Option (List String)
  sourceKeys : Option (List String)

/-- How `_loadRelation` passes on the decorator's key pairs. -/
def relationConfig (sourceKeys targetKeys : List String) : RelationConfig :=
  if sourceKeys.length = 1 then ⟨targetKeys.head?, sourceKeys.head?, none, none⟩
  else ⟨none, none, some targetKeys, some sourceKeys⟩

/-- The records that share a batch, and the classes the relation is between. -/
structure LazyRelationContext where
  sourceClass : String
  targetClass : String
  records : List Obj

def foreignKeyOf (className : String) : String :=
  let name := className.toLower.toList
  let name := if "model".toList.isSuffixOf name then name.take (name.length - 5) else name
  let name := if "test".toList.isPrefixOf name then name.drop 4 else name
  String.ofList name ++ "_id"

def LazyRelationContext.inferTargetKey (ctx : LazyRelationContext) : RelationType → String
  | .belongsTo => "id"
  | _ => foreignKeyOf ctx.sourceClass

def LazyRelationContext.inferSourceKey (ctx : LazyRelationContext) : RelationType → String
  | .belongsTo => foreignKeyOf ctx.targetClass
  | _ => "id"

/-! ## Keys -/

def LazyRelationContext.getSourceKeyValue (ctx : LazyRelationContext) (record : Obj)
    (type : RelationType) (config : RelationConfig) : JsVal :=
  record.get (config.sourceKey.getD (ctx.inferSourceKey type))

/-- `[config.sourceKey || …]` when the configuration has no key list. -/
def LazyRelationContext.sourceKeyList (ctx : LazyRelationContext) (type : RelationType)
    (config : RelationConfig) : List String :=
  config.sourceKeys.getD [config.sourceKey.getD (ctx.inferSourceKey type)]

/-- `vs.join('\x00')`: a null component has the empty text. -/
def joinKey (H : Host) (vs : List JsVal) : String :=
  (String.singleton KEY_SEP).intercalate (joinTexts H vs)

def getTargetKeyValue (H : Host) (result : Obj) (targetKeys : List String) : String :=
  match targetKeys with
  | [key] => (result.get key).text H
  | _ => joinKey H (result.tuple targetKeys)

/-- The loader's test for a composite key: more than one column. -/
def RelationConfig.isComposite (config : RelationConfig) : Bool :=
  config.targetKeys.any (fun ks => 1 < ks.length) || config.sourceKeys.any fun ks => 1 < ks.length

/-- The lookup's test: a key list at all. -/
def RelationConfig.hasKeyList (config : RelationConfig) : Bool :=
  config.targetKeys.any (fun ks => 0 < ks.length) || config.sourceKeys.any fun ks => 0 < ks.length

/-! ## Loading -/

mutual

/-- `JSON.stringify` throws on a `bigint`, at any depth. -/
def JsVal.stringifies : JsVal → Bool
  | .bigint _ => false
  | .arr xs => stringifiesAll xs
  | .obj ps => stringifiesMembers ps
  | _ => true

def stringifiesAll : List JsVal → Bool
  | [] => true
  | x :: xs => x.stringifies && stringifiesAll xs

def stringifiesMembers : List (String × JsVal) → Bool
  | [] => true
  | (_, x) :: ps => x.stringifies && stringifiesMembers ps

end

/-- `typeof v === 'object'`. -/
def JsVal.isObject : JsVal → Bool
  | .null | .date _ | .buffer _ | .arr _ | .obj _ => true
  | _ => false

/-- Single keys are deduplicated by their JSON texts when the first one is an object. -/
def dedupesKeys (sourceKeyValues : List JsVal) : Except String Unit :=
  match sourceKeyValues with
  | v :: _ =>
    if v.isObject && !stringifiesAll sourceKeyValues then
      throw "Do not know how to serialize a BigInt"
    else return ()
  | [] => return ()

/-- The relation map: lists for `hasMany`, the last row of each key otherwise. -/
inductive RelationMap
  | lists (m : List (String × List Obj))
  | rows (m : List (String × Obj))

def RelationMap.empty : RelationType → RelationMap
  | .hasMany => .lists []
  | _ => .rows []

def buildRelationMap (H : Host) (type : RelationType) (targetKeys : List String)
    (results : List Obj) : RelationMap :=
  match type with
  | .hasMany => .lists (groups (fun r => getTargetKeyValue H r targetKeys) results)
  | _ => .rows (results.foldl (fun m r => put (getTargetKeyValue H r targetKeys) r m) [])

/-- `batchLoadRelation`, where `results` are the rows that the batch query returns. -/
def LazyRelationContext.batchLoadRelation (ctx : LazyRelationContext) (H : Host)
    (type : RelationType) (config : RelationConfig) (results : List Obj) :
    Except String RelationMap := do
  if config.isComposite then
    let compositeKeyValues := fullTuples ctx.records (ctx.sourceKeyList type config)
    if compositeKeyValues.isEmpty then return .empty type
    return buildRelationMap H type (config.targetKeys.getD [ctx.inferTargetKey type]) results
  else
    let sourceKeyValues :=
      (ctx.records.map fun r => ctx.getSourceKeyValue r type config).filter fun v => !v.nullish
    if sourceKeyValues.isEmpty then return .empty type
    dedupesKeys sourceKeyValues
    return buildRelationMap H type [config.targetKey.getD (ctx.inferTargetKey type)] results

def RelationMap.attached (m : RelationMap) (key : String) : Attached :=
  match m with
  | .lists m => .many ((m.lookup key).getD [])
  | .rows m => .one (m.lookup key)

def LazyRelationContext.getRelation (ctx : LazyRelationContext) (H : Host) (record : Obj)
    (type : RelationType) (config : RelationConfig) (results : List Obj) :
    Except String Attached := do
  let relationMap ← ctx.batchLoadRelation H type config results
  let mapKey :=
    if config.hasKeyList then joinKey H (record.tuple (ctx.sourceKeyList type config))
    else (ctx.getSourceKeyValue record type config).text H
  return relationMap.attached mapKey

/-! ## Both loaders attach the same children -/

/-- Every row the driver returns is an object of its own. -/
def fetched (rows : List (List (String × JsVal))) : List Obj :=
  rows.zipIdx.map fun r => ⟨r.2, r.1⟩

/-- The lazy loader attaches what the shared grouping attaches, and nothing where a key is null. -/
def LazyAgrees (H : Host) (ctx : LazyRelationContext) (type : RelationType)
    (keys : List (String × String)) (children : List Obj) : Prop :=
  ∀ parent ∈ ctx.records,
    ctx.getRelation H parent type (relationConfig (keys.map (·.1)) (keys.map (·.2))) children =
      .ok (attachToParent H parent (keys.map (·.1)) (groupByKey H children (keys.map (·.2)))
        (type ≠ .hasMany)) ∧
    (partialKey (parent.tuple (keys.map (·.1))) = true →
      ctx.getRelation H parent type (relationConfig (keys.map (·.1)) (keys.map (·.2))) children =
        .ok (Attached.of (type ≠ .hasMany) []))

/-- The text that a key is filed under: a single null reads `null` or `undefined`, a null component
of several reads as nothing. -/
def keyText (H : Host) : List JsVal → String
  | [v] => v.text H
  | vs => joinKey H vs

/-- Parent and child keys read alike. -/
def ReadsAlike (H : Host) (keys : List (String × String)) (parent child : Obj) : Prop :=
  keyText H (child.tuple (keys.map (·.2))) = keyText H (parent.tuple (keys.map (·.1)))

instance (H : Host) (keys : List (String × String)) (parent child : Obj) :
    Decidable (ReadsAlike H keys parent child) :=
  inferInstanceAs (Decidable (_ = _))

/-- Both keys are complete. -/
def BothFull (keys : List (String × String)) (parent child : Obj) : Prop :=
  partialKey (parent.tuple (keys.map (·.1))) = false ∧
    partialKey (child.tuple (keys.map (·.2))) = false

instance (keys : List (String × String)) (parent child : Obj) :
    Decidable (BothFull keys parent child) :=
  inferInstanceAs (Decidable (_ ∧ _))

/-- A single key that is an object where it first occurs has no `bigint` beside it. -/
def KeysStringify (keys : List (String × String)) (records : List Obj) : Prop :=
  keys.length = 1 →
    (fullTuples records (keys.map (·.1))).head?.any (fun t => t.any JsVal.isObject) →
      (fullTuples records (keys.map (·.1))).all stringifiesAll

instance (keys : List (String × String)) (records : List Obj) :
    Decidable (KeysStringify keys records) :=
  inferInstanceAs (Decidable (_ → _ → _))

/-- When any record has its key: every child whose key reads like a record's is a match of full keys,
and for a single child the last such child is one and no match stands before it. -/
def LazySafe (H : Host) (type : RelationType) (keys : List (String × String))
    (records children : List Obj) : Prop :=
  fullTuples records (keys.map (·.1)) ≠ [] →
    KeysStringify keys records ∧
    ∀ parent ∈ records,
      (type = .hasMany → ∀ c ∈ children, ReadsAlike H keys parent c → BothFull keys parent c) ∧
      (type ≠ .hasMany → ∀ before c after, children = before ++ c :: after →
        ReadsAlike H keys parent c → (∀ d ∈ after, ¬ ReadsAlike H keys parent d) →
        BothFull keys parent c ∧
          ∀ d ∈ before, ReadsAlike H keys parent d → ¬ BothFull keys parent d)

/-! ## Keys on both sides -/

variable {H : Host}

theorem joinTexts_full {vs : List JsVal} (h : partialKey vs = false) :
    joinTexts H vs = vs.map (JsVal.text H) := by
  induction vs with
  | nil => rfl
  | cons v vs ih =>
    have hv : v.nullish = false ∧ partialKey vs = false := by simpa [partialKey] using h
    simp [joinTexts, hv.1, ih hv.2]

theorem keyText_full {vs : List JsVal} (h : partialKey vs = false) :
    keyText H vs = keyIdentity H vs := by
  rcases vs with _ | ⟨v, _ | ⟨w, vs⟩⟩
  · rfl
  · rfl
  · rw [keyIdentity_eq, ← joinTexts_full h]
    rfl

theorem getTargetKeyValue_eq (r : Obj) (cols : List String) :
    getTargetKeyValue H r cols = keyText H (r.tuple cols) := by
  rcases cols with _ | ⟨c, _ | ⟨d, cols⟩⟩ <;> rfl

theorem fullTuples_single (records : List Obj) (col : String) :
    fullTuples records [col] = ((records.map fun r => r.get col).filter fun v => !v.nullish).map
      fun v => [v] := by
  induction records with
  | nil => rfl
  | cons r records ih =>
    have htuple : r.tuple [col] = [r.get col] := rfl
    have hp : partialKey [r.get col] = (r.get col).nullish := by simp [partialKey]
    simp only [fullTuples, List.map_cons, htuple] at ih ⊢
    cases hn : (r.get col).nullish
    · rw [List.filter_cons_of_pos (by rw [hp, hn]; rfl), List.filter_cons_of_pos (by simp [hn]),
        List.map_cons, ih]
    · rw [List.filter_cons_of_neg (by rw [hp, hn]; simp), List.filter_cons_of_neg (by simp [hn]), ih]

theorem stringifiesAll_singletons (vs : List JsVal) :
    (vs.map fun v => [v]).all stringifiesAll = stringifiesAll vs := by
  induction vs with
  | nil => rfl
  | cons v vs ih =>
    rw [List.map_cons, List.all_cons, ih]
    simp [stringifiesAll]

/-- The code's batch is empty exactly when no record has its whole key, and throws only on objects. -/
theorem batchLoadRelation_eq (ctx : LazyRelationContext) (type : RelationType)
    (k : String × String) (ks : List (String × String)) (children : List Obj) :
    let keys := k :: ks
    ctx.batchLoadRelation H type (relationConfig (keys.map (·.1)) (keys.map (·.2))) children =
      if fullTuples ctx.records (keys.map (·.1)) = [] then .ok (.empty type)
      else if KeysStringify keys ctx.records then
        .ok (buildRelationMap H type (keys.map (·.2)) children)
      else .error "Do not know how to serialize a BigInt" := by
  intro keys
  rcases ks with _ | ⟨k', ks⟩
  · have hconfig : relationConfig (keys.map (·.1)) (keys.map (·.2)) =
        ⟨some k.2, some k.1, none, none⟩ := rfl
    have hkeys : keys.map (·.1) = [k.1] := rfl
    rw [hconfig, hkeys, fullTuples_single]
    simp only [KeysStringify, hkeys, fullTuples_single, stringifiesAll_singletons]
    have hvalues : (ctx.records.map fun r =>
        ctx.getSourceKeyValue r type ⟨some k.2, some k.1, none, none⟩) =
        ctx.records.map fun r => r.get k.1 := rfl
    simp only [LazyRelationContext.batchLoadRelation, RelationConfig.isComposite, hvalues]
    generalize (ctx.records.map fun r => r.get k.1).filter (fun v => !v.nullish) = vs
    rcases vs with _ | ⟨v, vs⟩
    · rfl
    · have hlen : keys.length = 1 := rfl
      simp only [hlen, List.map_cons, List.head?_cons, Option.any_some, List.any_cons,
        List.any_nil, Bool.or_false, dedupesKeys]
      cases hv : v.isObject <;> cases hs : stringifiesAll (v :: vs) <;> rfl
  · have hconfig : relationConfig (keys.map (·.1)) (keys.map (·.2)) =
        ⟨none, none, some (keys.map (·.2)), some (keys.map (·.1))⟩ := rfl
    have hlen : keys.length ≠ 1 := by simp [keys]
    have hsafe : KeysStringify keys ctx.records := fun h => absurd h hlen
    have hcomposite : RelationConfig.isComposite
        ⟨none, none, some (keys.map (·.2)), some (keys.map (·.1))⟩ = true := by
      simp [RelationConfig.isComposite, keys]
    have hlist : ctx.sourceKeyList type
        ⟨none, none, some (keys.map (·.2)), some (keys.map (·.1))⟩ = keys.map (·.1) := rfl
    rw [hconfig, if_pos hsafe, LazyRelationContext.batchLoadRelation, hlist, if_pos hcomposite]
    by_cases hempty : fullTuples ctx.records (keys.map (·.1)) = []
    · rw [if_pos (List.isEmpty_iff.mpr hempty), if_pos hempty]
      rfl
    · rw [if_neg fun h => hempty (List.isEmpty_iff.mp h), if_neg hempty]
      rfl

theorem getRelation_of_load (ctx : LazyRelationContext) (parent : Obj) (type : RelationType)
    (k : String × String) (ks : List (String × String)) (children : List Obj) :
    let keys := k :: ks
    let config := relationConfig (keys.map (·.1)) (keys.map (·.2))
    ctx.getRelation H parent type config children =
      (ctx.batchLoadRelation H type config children).map fun m =>
        m.attached (keyText H (parent.tuple (keys.map (·.1)))) := by
  intro keys config
  have hkey : (if config.hasKeyList then joinKey H (parent.tuple (ctx.sourceKeyList type config))
      else (ctx.getSourceKeyValue parent type config).text H) =
      keyText H (parent.tuple (keys.map (·.1))) := by
    rcases ks with _ | ⟨k', ks⟩ <;> rfl
  unfold LazyRelationContext.getRelation
  rw [hkey]
  cases ctx.batchLoadRelation H type config children <;> rfl

/-- What the map gives a parent: every child that reads alike, or the last one. -/
theorem buildRelationMap_attached (type : RelationType) (keys : List (String × String))
    (parent : Obj) (children : List Obj) :
    (buildRelationMap H type (keys.map (·.2)) children).attached
      (keyText H (parent.tuple (keys.map (·.1)))) =
      if type = .hasMany then .many (children.filter fun c => ReadsAlike H keys parent c)
      else .one ((children.filter fun c => ReadsAlike H keys parent c).getLast?) := by
  cases type with
  | hasMany =>
    simp only [buildRelationMap, RelationMap.attached, lookup_groups, getTargetKeyValue_eq,
      ReadsAlike, if_true]
    rfl
  | belongsTo =>
    simp only [buildRelationMap, RelationMap.attached, lookup_foldl_put, getTargetKeyValue_eq,
      ReadsAlike, List.lookup_nil, Option.or_none, reduceCtorEq, if_false]
    rfl
  | hasOne =>
    simp only [buildRelationMap, RelationMap.attached, lookup_foldl_put, getTargetKeyValue_eq,
      ReadsAlike, List.lookup_nil, Option.or_none, reduceCtorEq, if_false]
    rfl

/-- Of the children that read alike, the shared grouping takes those where both keys are full. -/
theorem filedUnder_eq (keys : List (String × String)) (parent : Obj) (children : List Obj) :
    filedUnder H keys parent children =
      children.filter fun c => ReadsAlike H keys parent c ∧ BothFull keys parent c := by
  apply List.filter_congr
  intro c _
  rw [Bool.eq_iff_iff, decide_eq_true_iff]
  simp only [Bool.and_eq_true, Bool.not_eq_true', decide_eq_true_eq]
  constructor
  · rintro ⟨⟨hp, hc⟩, heq⟩
    refine ⟨?_, hp, hc⟩
    rw [ReadsAlike, keyText_full hp, keyText_full hc, heq]
  · rintro ⟨heq, hp, hc⟩
    refine ⟨⟨hp, hc⟩, ?_⟩
    rwa [ReadsAlike, keyText_full hp, keyText_full hc] at heq

theorem getRelation_eq (ctx : LazyRelationContext) (parent : Obj) (type : RelationType)
    (k : String × String) (ks : List (String × String)) (children : List Obj) :
    let keys := k :: ks
    ctx.getRelation H parent type (relationConfig (keys.map (·.1)) (keys.map (·.2))) children =
      if fullTuples ctx.records (keys.map (·.1)) = [] then .ok (Attached.of (type ≠ .hasMany) [])
      else if KeysStringify keys ctx.records then
        .ok (if type = .hasMany then .many (children.filter fun c => ReadsAlike H keys parent c)
          else .one ((children.filter fun c => ReadsAlike H keys parent c).getLast?))
      else .error "Do not know how to serialize a BigInt" := by
  intro keys
  rw [getRelation_of_load, batchLoadRelation_eq]
  split
  · cases type <;> rfl
  · split
    · rw [← buildRelationMap_attached]
      rfl
    · rfl

theorem fetched_nodup (rows : List (List (String × JsVal))) : (fetched rows).Nodup := by
  have hids : (fetched rows).map Obj.id = List.range rows.length := by
    rw [fetched, List.map_map]
    have := List.zipIdx_map_snd 0 rows
    rw [← List.range_eq_range'] at this
    exact this
  exact List.Nodup.of_map Obj.id (hids ▸ List.nodup_range)

/-- The two ways of picking children give one parent the same attachment. -/
theorem attached_eq_iff (type : RelationType) (keys : List (String × String)) (parent : Obj)
    {children : List Obj} (hn : children.Nodup) :
    (if type = .hasMany then Attached.many (children.filter fun c => ReadsAlike H keys parent c)
      else .one ((children.filter fun c => ReadsAlike H keys parent c).getLast?)) =
      Attached.of (type ≠ .hasMany) (filedUnder H keys parent children) ↔
    (type = .hasMany → ∀ c ∈ children, ReadsAlike H keys parent c → BothFull keys parent c) ∧
      (type ≠ .hasMany → ∀ before c after, children = before ++ c :: after →
        ReadsAlike H keys parent c → (∀ d ∈ after, ¬ ReadsAlike H keys parent d) →
        BothFull keys parent c ∧
          ∀ d ∈ before, ReadsAlike H keys parent d → ¬ BothFull keys parent d) := by
  rw [filedUnder_eq]
  by_cases htype : type = .hasMany
  · simp only [htype, if_true, ne_eq, not_true_eq_false, decide_false, Attached.of, Bool.false_eq_true,
      if_false, Attached.many.injEq, false_implies, and_true, true_implies, filter_eq_iff]
    apply forall₂_congr
    intro c _
    by_cases halike : ReadsAlike H keys parent c <;> simp [halike]
  · simp only [htype, if_false, ne_eq, not_false_eq_true, decide_true, Attached.of, if_true,
      Attached.one.injEq, false_implies, true_and, true_implies]
    rw [getLast?_filter_eq_head? hn]
    · simp only [decide_eq_true_eq, decide_eq_false_iff_not, not_and]
      constructor
      · intro h before c after hsplit halike hafter
        obtain ⟨⟨_, hfull⟩, hbefore⟩ := h before c after hsplit halike hafter
        exact ⟨hfull, hbefore⟩
      · intro h before c after hsplit halike hafter
        obtain ⟨hfull, hbefore⟩ := h before c after hsplit halike hafter
        exact ⟨⟨halike, hfull⟩, hbefore⟩
    · intro c _ hc
      simp only [decide_eq_true_eq] at hc ⊢
      exact hc.1

theorem filedUnder_of_partialKey {keys : List (String × String)} {parent : Obj} (children : List Obj)
    (h : partialKey (parent.tuple (keys.map (·.1))) = true) : filedUnder H keys parent children = [] := by
  simp [filedUnder, h]

/-- The two loaders attach the same children exactly when the keys are safe. -/
theorem lazyAgrees_iff (H : Host) (ctx : LazyRelationContext) (type : RelationType)
    (k : String × String) (ks : List (String × String)) (rows : List (List (String × JsVal))) :
    LazyAgrees H ctx type (k :: ks) (fetched rows) ↔
      LazySafe H type (k :: ks) ctx.records (fetched rows) := by
  have hsame : LazyAgrees H ctx type (k :: ks) (fetched rows) ↔ ∀ parent ∈ ctx.records,
      ctx.getRelation H parent type
        (relationConfig ((k :: ks).map (·.1)) ((k :: ks).map (·.2))) (fetched rows) =
        .ok (Attached.of (type ≠ .hasMany) (filedUnder H (k :: ks) parent (fetched rows))) := by
    apply forall₂_congr
    intro parent _
    rw [attachToParent_eq]
    refine ⟨fun h => h.1, fun h => ⟨h, fun hp => ?_⟩⟩
    rw [h, filedUnder_of_partialKey _ hp]
  rw [hsame]
  simp only [getRelation_eq]
  by_cases hempty : fullTuples ctx.records ((k :: ks).map (·.1)) = []
  · refine iff_of_true ?_ fun h => absurd hempty h
    intro parent hparent
    have hp : partialKey (parent.tuple ((k :: ks).map (·.1))) = true := by
      by_contra hfull
      have hmem := mem_fullTuples.mpr ⟨parent, hparent, rfl, Bool.eq_false_of_not_eq_true hfull⟩
      rw [hempty] at hmem
      cases hmem
    rw [if_pos hempty, filedUnder_of_partialKey _ hp]
  · simp only [if_neg hempty]
    obtain ⟨t, ht⟩ := List.exists_mem_of_ne_nil _ hempty
    obtain ⟨witness, hwitness, -⟩ := mem_fullTuples.mp ht
    by_cases hkeys : KeysStringify (k :: ks) ctx.records
    · simp only [if_pos hkeys, Except.ok.injEq, attached_eq_iff type _ _ (fetched_nodup rows)]
      exact ⟨fun h _ => ⟨hkeys, h⟩, fun h => (h hempty).2⟩
    · refine iff_of_false ?_ fun h => hkeys (h hempty).1
      intro h
      have := h witness hwitness
      rw [if_neg hkeys] at this
      cases this

/-- Two rows with one key: the lazy loader keeps the last, the shared grouping the first. -/
theorem belongsTo_last_row : ¬ ∀ (H : Host) (ctx : LazyRelationContext) (type : RelationType)
    (k : String × String) (ks : List (String × String)) (rows : List (List (String × JsVal))),
    LazyAgrees H ctx type (k :: ks) (fetched rows) := by
  intro h
  have hrow := (h ⟨id, fun _ => ""⟩ ⟨"Post", "User", [⟨0, [("author", .str "7")]⟩]⟩ .belongsTo
    ("author", "id") [] [[("id", .str "7")], [("id", .str "7")]] _ List.mem_cons_self).1
  have hids := congrArg (fun v => v.toOption.map fun a => a.rows.map Obj.id) hrow
  exact absurd hids (by decide)

end LiteDb
