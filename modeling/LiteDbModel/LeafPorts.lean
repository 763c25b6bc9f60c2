import LiteDbModel.Lib.Exit
import LiteDbModel.Values

/-!
# The ports of the `executeSQL` leaf

What a generated module hands to the leaf is read field by field, each field with its
declared type. A statement is sent once all of them have been read; a field that is
missing or of another type ends the call before that.
-/

namespace LiteDb.LeafPorts
set_option autoImplicit false
open Exit (bind_ok_iff mapM_ok_iff)

/-! ## Declared types -/

inductive Kind
  | bool
  | int
  | string
  | list
  | record
deriving DecidableEq

def Kind.text : Kind → String
  | .bool => "bool"
  | .int => "int"
  | .string => "string"
  | .list => "list"
  | .record => "record"

/-- `PORT_TYPES`. -/
def PORT_TYPES : Kind → JsVal → Bool
  | .bool, .bool _ => true
  | .int, .bigint _ => true
  | .string, .str _ => true
  | .list, .arr _ => true
  | .record, .obj _ | .record, .date _ | .record, .buffer _ => true
  | _, _ => false

structure Declared where
  kind : Kind
  nullable : Bool := false
deriving DecidableEq

def Declared.text (d : Declared) : String := d.kind.text ++ if d.nullable then "|null" else ""

/-- The value has the declared type. -/
def Declared.Holds (d : Declared) (v : JsVal) : Prop :=
  (d.nullable = true ∧ v = .null) ∨ PORT_TYPES d.kind v = true

inductive PortError
  /-- `in` is asked of a primitive. -/
  | notAnObject (name : String)
  | missing (at' name : String)
  | mistyped (what : String) (declared : Declared) (got : JsVal)

/-- The text of the error; `stringify` renders the value that was got. -/
def PortError.message (stringify : JsVal → String) : PortError → String
  | .notAnObject name => "Cannot use 'in' operator to search for '" ++ name ++ "'"
  | .missing at' name =>
      "scp leaf: " ++ at' ++ " is missing its '" ++ name ++ "' field — a generated module spells " ++
        "every field of every struct it wires, so an ABSENT key is an ABI break (a null VALUE is " ++
        "how an absent write mode / plan / cap is spelled)"
  | .mistyped what declared got =>
      "scp leaf: " ++ what ++ " must be " ++ declared.text ++ ", got " ++ stringify got

/-! ## Reading a field -/

/-- `value === null`. -/
def isNull : JsVal → Bool
  | .null => true
  | _ => false

theorem isNull_iff {value : JsVal} : isNull value = true ↔ value = .null := by
  cases value <;> simp [isNull]

def portTyped (value : JsVal) (what : String) (declared : Declared) : Except PortError JsVal :=
  if declared.nullable && isNull value then .ok .null
  else if PORT_TYPES declared.kind value then .ok value
  else .error (.mistyped what declared value)

/-- The value under a key; the outer `none` is `in` of a primitive, the inner one a missing key. -/
def key? (record : JsVal) (name : String) : Option (Option JsVal) :=
  match record with
  | .obj ps => some (Props.get ps name)
  | .arr _ | .date _ | .buffer _ => some none
  | _ => none

def requiredField (record : JsVal) (name at' : String) (declared : Declared) :
    Except PortError JsVal :=
  match key? record name with
  | none => .error (.notAnObject name)
  | some none => .error (.missing at' name)
  | some (some value) => portTyped value (at' ++ "'s '" ++ name ++ "'") declared

/-- The field is there and has the declared type. -/
def HasField (record : JsVal) (name : String) (declared : Declared) (value : JsVal) : Prop :=
  key? record name = some (some value) ∧ declared.Holds value

theorem portTyped_ok_iff {value v : JsVal} {what : String} {declared : Declared} :
    portTyped value what declared = .ok v ↔ declared.Holds value ∧ v = value := by
  rw [portTyped, Declared.Holds, ← @isNull_iff value]
  split
  next h =>
    rw [Bool.and_eq_true] at h
    have hnull := isNull_iff.mp h.2
    constructor
    · intro heq
      exact ⟨.inl h, hnull ▸ (Except.ok.inj heq).symm⟩
    · rintro ⟨-, rfl⟩
      rw [hnull]
  next h =>
    rw [Bool.and_eq_true] at h
    split
    next hkind =>
      constructor
      · intro heq
        exact ⟨.inr hkind, (Except.ok.inj heq).symm⟩
      · rintro ⟨-, rfl⟩
        rfl
    next hkind => simp [hkind, h]

theorem requiredField_ok_iff {record v : JsVal} {name at' : String} {declared : Declared} :
    requiredField record name at' declared = .ok v ↔ HasField record name declared v := by
  rw [requiredField, HasField]
  cases hkey : key? record name with
  | none => simp
  | some found =>
    cases found with
    | none => simp
    | some value =>
      simp only [portTyped_ok_iff, Option.some.injEq]
      constructor
      · rintro ⟨hholds, rfl⟩
        exact ⟨rfl, hholds⟩
      · rintro ⟨rfl, hholds⟩
        exact ⟨hholds, rfl⟩

/-! ## The dynamic WHERE plan -/

/-- A field as it is cast, whatever it holds. -/
structure WhereFrag where
  skipped : JsVal
  sql : JsVal
  params : JsVal

structure WherePlan where
  frags : List WhereFrag
  lead : JsVal
  tail : JsVal
  tailParams : JsVal

def PLAN_AT : String := "the 'whereDynamic' plan"

def FRAG_AT : String := "a 'whereDynamic' fragment"

/-- An array's elements, once it is known to be one. -/
def elements : JsVal → List JsVal
  | .arr vs => vs
  | _ => []

def fragPort (frag : JsVal) : Except PortError WhereFrag := do
  let f ← portTyped frag FRAG_AT ⟨.record, false⟩
  let skipped ← requiredField f "skipped" FRAG_AT ⟨.bool, false⟩
  let sql ← requiredField f "sql" FRAG_AT ⟨.string, false⟩
  let params ← requiredField f "params" FRAG_AT ⟨.list, false⟩
  return ⟨skipped, sql, params⟩

def dynamicWherePlan (plan : JsVal) : Except PortError WherePlan := do
  let listed ← requiredField plan "frags" PLAN_AT ⟨.list, false⟩
  let frags ← (elements listed).mapM fragPort
  let lead ← requiredField plan "lead" PLAN_AT ⟨.string, false⟩
  let tail ← requiredField plan "tail" PLAN_AT ⟨.string, false⟩
  let tailParams ← requiredField plan "tailParams" PLAN_AT ⟨.list, false⟩
  return ⟨frags, lead, tail, tailParams⟩

/-! ## The ports -/

structure RelationGuard where
  /-- The cap before `Number` is taken of it. -/
  limit : JsVal
  model : JsVal
  relation : JsVal

def GUARD_AT : String := "the 'guard' cap"

def relationGuardPort (port : JsVal) : Except PortError (Option RelationGuard) :=
  if isNull port then .ok none
  else do
    let limit ← requiredField port "limit" GUARD_AT ⟨.int, false⟩
    let model ← requiredField port "model" GUARD_AT ⟨.string, true⟩
    let relation ← requiredField port "relation" GUARD_AT ⟨.string, false⟩
    return some ⟨limit, model, relation⟩

structure WriteMode where
  returning : JsVal

def writeModePort (port : JsVal) : Except PortError (Option WriteMode) :=
  if isNull port then .ok none
  else do
    let returning ← requiredField port "returning" "the 'write' mode" ⟨.bool, false⟩
    return some ⟨returning⟩

def OPTS_AT : String := "the 'opts' control record"

def optsField (opts : JsVal) (name : String) : Except PortError JsVal :=
  requiredField opts name OPTS_AT ⟨.record, true⟩

structure ExecuteSqlPorts where
  sql : JsVal
  params : JsVal
  db : JsVal := .undefined
  write : Option WriteMode
  whereDynamic : JsVal := .undefined
  guard : Option RelationGuard := none

def PAYLOAD_AT : String := "the executeSQL payload"

/-- `'opts' in ports`, and then its value. -/
def optsPort (ports : JsVal) : Except PortError JsVal :=
  match key? ports "opts" with
  | none => .error (.notAnObject "opts")
  | some none => .ok .null
  | some (some _) => requiredField ports "opts" PAYLOAD_AT ⟨.record, true⟩

def executeSqlPorts (ports : JsVal) : Except PortError ExecuteSqlPorts := do
  let sql ← requiredField ports "sql" PAYLOAD_AT ⟨.string, false⟩
  let params ← requiredField ports "params" PAYLOAD_AT ⟨.list, false⟩
  let opts ← optsPort ports
  if isNull opts then return { sql := sql, params := params, write := none }
  else
    let db ← requiredField opts "db" OPTS_AT ⟨.string, true⟩
    let write ← writeModePort (← optsField opts "write")
    let whereDynamic ← optsField opts "whereDynamic"
    let guard ← relationGuardPort (← optsField opts "guard")
    return { sql := sql, params := params, db := db, write := write, whereDynamic := whereDynamic,
             guard := guard }

/-! ## Sending -/

def asText : JsVal → String
  | .str s => s
  | _ => ""

def asBool : JsVal → Bool
  | .bool b => b
  | _ => false

/-- A statement before its placeholders are rendered. -/
structure Sent where
  sql : String
  params : List JsVal
  /-- The intent: the statement is a write. -/
  write : Bool
  db : JsVal
  /-- It runs on the row seam and yields its rows. -/
  rows : Bool

def assembleDynamicWhere (sql params whereDynamic : JsVal) :
    Except PortError (String × List JsVal) := do
  let plan ← dynamicWherePlan whereDynamic
  let frags := plan.frags.filter fun f => !asBool f.skipped
  let clause :=
    if frags.isEmpty then ""
    else " " ++ asText plan.lead ++ " " ++ " AND ".intercalate (frags.map fun f => asText f.sql)
  return (asText sql ++ clause ++ asText plan.tail,
    elements params ++ frags.flatMap (fun f => elements f.params) ++ elements plan.tailParams)

def effectiveStatement (p : ExecuteSqlPorts) : Except PortError (String × List JsVal) :=
  if p.whereDynamic.nullish then .ok (asText p.sql, elements p.params)
  else assembleDynamicWhere p.sql p.params p.whereDynamic

/-- A write that does not ask for its rows runs on the run seam. -/
def yieldsRows : Option WriteMode → Bool
  | none => true
  | some mode => asBool mode.returning

/-- The statements sent, and the error that ended the call. -/
def executeSQL (ports : JsVal) : List Sent × Except PortError Unit :=
  match executeSqlPorts ports with
  | .error e => ([], .error e)
  | .ok p =>
    match effectiveStatement p with
    | .error e => ([], .error e)
    | .ok (sql, params) =>
      ([{ sql := sql, params := params, write := p.write.isSome, db := p.db,
          rows := yieldsRows p.write }], .ok ())

/-! ## What an accepted payload holds -/

/-- The fragment's fields are the payload's, each of its declared type. -/
structure FragRead (frag : JsVal) (f : WhereFrag) : Prop where
  record : Declared.Holds ⟨.record, false⟩ frag
  skipped : HasField frag "skipped" ⟨.bool, false⟩ f.skipped
  sql : HasField frag "sql" ⟨.string, false⟩ f.sql
  params : HasField frag "params" ⟨.list, false⟩ f.params

structure PlanRead (v : JsVal) (plan : WherePlan) : Prop where
  frags : ∃ listed, HasField v "frags" ⟨.list, false⟩ listed ∧
    List.Forall₂ FragRead (elements listed) plan.frags
  lead : HasField v "lead" ⟨.string, false⟩ plan.lead
  tail : HasField v "tail" ⟨.string, false⟩ plan.tail
  tailParams : HasField v "tailParams" ⟨.list, false⟩ plan.tailParams

def ModeRead (port : JsVal) : Option WriteMode → Prop
  | none => port = .null
  | some mode => port ≠ .null ∧ HasField port "returning" ⟨.bool, false⟩ mode.returning

def GuardRead (port : JsVal) : Option RelationGuard → Prop
  | none => port = .null
  | some guard => port ≠ .null ∧ HasField port "limit" ⟨.int, false⟩ guard.limit ∧
      HasField port "model" ⟨.string, true⟩ guard.model ∧
      HasField port "relation" ⟨.string, false⟩ guard.relation

/-- The control record is left out, or is `null`. -/
def Uncontrolled (ports : JsVal) : Prop :=
  key? ports "opts" = some none ∨ HasField ports "opts" ⟨.record, true⟩ .null

structure OptsRead (opts : JsVal) (p : ExecuteSqlPorts) : Prop where
  db : HasField opts "db" ⟨.string, true⟩ p.db
  write : ∃ port, HasField opts "write" ⟨.record, true⟩ port ∧ ModeRead port p.write
  whereDynamic : HasField opts "whereDynamic" ⟨.record, true⟩ p.whereDynamic
  guard : ∃ port, HasField opts "guard" ⟨.record, true⟩ port ∧ GuardRead port p.guard

structure PortsRead (ports : JsVal) (p : ExecuteSqlPorts) : Prop where
  sql : HasField ports "sql" ⟨.string, false⟩ p.sql
  params : HasField ports "params" ⟨.list, false⟩ p.params
  opts : (Uncontrolled ports ∧ p.db = .undefined ∧ p.write = none ∧ p.whereDynamic = .undefined ∧
      p.guard = none) ∨
    ∃ opts, HasField ports "opts" ⟨.record, true⟩ opts ∧ opts ≠ .null ∧ OptsRead opts p

/-- A plan is there where it is asked for. -/
def PlanGiven (p : ExecuteSqlPorts) : Prop :=
  p.whereDynamic.nullish = true ∨ ∃ plan, PlanRead p.whereDynamic plan

/-! ## Reading is exact -/

theorem fragPort_ok_iff {frag : JsVal} {f : WhereFrag} : fragPort frag = .ok f ↔ FragRead frag f := by
  constructor
  · intro h
    obtain ⟨r, hr, hfields⟩ := bind_ok_iff.mp h
    obtain ⟨hrecord, rfl⟩ := portTyped_ok_iff.mp hr
    obtain ⟨skipped, hskipped, hfields⟩ := bind_ok_iff.mp hfields
    obtain ⟨sql, hsql, hfields⟩ := bind_ok_iff.mp hfields
    obtain ⟨params, hparams, hfields⟩ := bind_ok_iff.mp hfields
    obtain rfl := Except.ok.inj hfields
    exact ⟨hrecord, requiredField_ok_iff.mp hskipped, requiredField_ok_iff.mp hsql,
      requiredField_ok_iff.mp hparams⟩
  · rintro ⟨hrecord, hskipped, hsql, hparams⟩
    exact bind_ok_iff.mpr ⟨_, portTyped_ok_iff.mpr ⟨hrecord, rfl⟩,
      bind_ok_iff.mpr ⟨_, requiredField_ok_iff.mpr hskipped,
      bind_ok_iff.mpr ⟨_, requiredField_ok_iff.mpr hsql,
      bind_ok_iff.mpr ⟨_, requiredField_ok_iff.mpr hparams, rfl⟩⟩⟩⟩

theorem dynamicWherePlan_ok_iff {v : JsVal} {plan : WherePlan} :
    dynamicWherePlan v = .ok plan ↔ PlanRead v plan := by
  have hfrags : ∀ {xs : List JsVal} {fs : List WhereFrag},
      xs.mapM fragPort = .ok fs ↔ List.Forall₂ FragRead xs fs := by
    intro xs fs
    rw [mapM_ok_iff]
    simp only [fragPort_ok_iff]
  constructor
  · intro h
    obtain ⟨listed, hlisted, h⟩ := bind_ok_iff.mp h
    obtain ⟨frags, hread, h⟩ := bind_ok_iff.mp h
    obtain ⟨lead, hlead, h⟩ := bind_ok_iff.mp h
    obtain ⟨tail, htail, h⟩ := bind_ok_iff.mp h
    obtain ⟨tailParams, htailParams, h⟩ := bind_ok_iff.mp h
    obtain rfl := Except.ok.inj h
    exact ⟨⟨listed, requiredField_ok_iff.mp hlisted, hfrags.mp hread⟩,
      requiredField_ok_iff.mp hlead, requiredField_ok_iff.mp htail,
      requiredField_ok_iff.mp htailParams⟩
  · rintro ⟨⟨listed, hlisted, hread⟩, hlead, htail, htailParams⟩
    exact bind_ok_iff.mpr ⟨_, requiredField_ok_iff.mpr hlisted,
      bind_ok_iff.mpr ⟨_, hfrags.mpr hread,
      bind_ok_iff.mpr ⟨_, requiredField_ok_iff.mpr hlead,
      bind_ok_iff.mpr ⟨_, requiredField_ok_iff.mpr htail,
      bind_ok_iff.mpr ⟨_, requiredField_ok_iff.mpr htailParams, rfl⟩⟩⟩⟩⟩

theorem writeModePort_ok_iff {port : JsVal} {mode : Option WriteMode} :
    writeModePort port = .ok mode ↔ ModeRead port mode := by
  rw [writeModePort]
  split
  next hnull =>
    have hport := isNull_iff.mp hnull
    cases mode <;> simp [ModeRead, hport]
  next hnull =>
    have hport : port ≠ .null := fun h => hnull (isNull_iff.mpr h)
    rw [bind_ok_iff]
    cases mode with
    | none => simp [ModeRead, hport, pure, Except.pure]
    | some mode =>
      constructor
      · rintro ⟨returning, hreturning, h⟩
        obtain rfl := Option.some.inj (Except.ok.inj h)
        exact ⟨hport, requiredField_ok_iff.mp hreturning⟩
      · rintro ⟨-, hreturning⟩
        exact ⟨_, requiredField_ok_iff.mpr hreturning, rfl⟩

theorem relationGuardPort_ok_iff {port : JsVal} {guard : Option RelationGuard} :
    relationGuardPort port = .ok guard ↔ GuardRead port guard := by
  rw [relationGuardPort]
  split
  next hnull =>
    have hport := isNull_iff.mp hnull
    cases guard <;> simp [GuardRead, hport]
  next hnull =>
    have hport : port ≠ .null := fun h => hnull (isNull_iff.mpr h)
    rw [bind_ok_iff]
    constructor
    · rintro ⟨limit, hlimit, h⟩
      obtain ⟨model, hmodel, h⟩ := bind_ok_iff.mp h
      obtain ⟨relation, hrelation, h⟩ := bind_ok_iff.mp h
      obtain rfl := Except.ok.inj h
      exact ⟨hport, requiredField_ok_iff.mp hlimit, requiredField_ok_iff.mp hmodel,
        requiredField_ok_iff.mp hrelation⟩
    · intro h
      cases guard with
      | none => exact (hport h).elim
      | some guard =>
        obtain ⟨-, hlimit, hmodel, hrelation⟩ := h
        exact ⟨_, requiredField_ok_iff.mpr hlimit,
          bind_ok_iff.mpr ⟨_, requiredField_ok_iff.mpr hmodel,
          bind_ok_iff.mpr ⟨_, requiredField_ok_iff.mpr hrelation, rfl⟩⟩⟩

theorem optsPort_ok_iff {ports opts : JsVal} : optsPort ports = .ok opts ↔
    (key? ports "opts" = some none ∧ opts = .null) ∨
      HasField ports "opts" ⟨.record, true⟩ opts := by
  rw [optsPort]
  cases hkey : key? ports "opts" with
  | none => simp [HasField, hkey]
  | some found =>
    cases found with
    | none => simp [HasField, hkey, eq_comm]
    | some value => simp [requiredField_ok_iff]

theorem executeSqlPorts_ok_iff {ports : JsVal} {p : ExecuteSqlPorts} :
    executeSqlPorts ports = .ok p ↔ PortsRead ports p := by
  constructor
  · intro h
    obtain ⟨sql, hsql, h⟩ := bind_ok_iff.mp h
    obtain ⟨params, hparams, h⟩ := bind_ok_iff.mp h
    obtain ⟨opts, hopts, h⟩ := bind_ok_iff.mp h
    have hread := optsPort_ok_iff.mp hopts
    split at h
    next hnull =>
      obtain rfl := Except.ok.inj h
      obtain rfl := isNull_iff.mp hnull
      refine ⟨requiredField_ok_iff.mp hsql, requiredField_ok_iff.mp hparams,
        .inl ⟨?_, rfl, rfl, rfl, rfl⟩⟩
      exact hread.imp And.left id
    next hnull =>
      have hne : opts ≠ .null := fun heq => hnull (isNull_iff.mpr heq)
      obtain ⟨db, hdb, h⟩ := bind_ok_iff.mp h
      obtain ⟨w, hw, h⟩ := bind_ok_iff.mp h
      obtain ⟨write, hwrite, h⟩ := bind_ok_iff.mp h
      obtain ⟨whereDynamic, hwhere, h⟩ := bind_ok_iff.mp h
      obtain ⟨g, hg, h⟩ := bind_ok_iff.mp h
      obtain ⟨guard, hguard, h⟩ := bind_ok_iff.mp h
      obtain rfl := Except.ok.inj h
      have hfield : HasField ports "opts" ⟨.record, true⟩ opts :=
        hread.resolve_left fun hleft => hne hleft.2
      exact ⟨requiredField_ok_iff.mp hsql, requiredField_ok_iff.mp hparams,
        .inr ⟨opts, hfield, hne, requiredField_ok_iff.mp hdb,
          ⟨w, requiredField_ok_iff.mp hw, writeModePort_ok_iff.mp hwrite⟩,
          requiredField_ok_iff.mp hwhere,
          ⟨g, requiredField_ok_iff.mp hg, relationGuardPort_ok_iff.mp hguard⟩⟩⟩
  · rintro ⟨hsql, hparams, hopts⟩
    refine bind_ok_iff.mpr ⟨_, requiredField_ok_iff.mpr hsql,
      bind_ok_iff.mpr ⟨_, requiredField_ok_iff.mpr hparams, ?_⟩⟩
    rcases hopts with ⟨hnone, hdb, hwrite, hwhere, hguard⟩ | ⟨opts, hfield, hne, hread⟩
    · refine bind_ok_iff.mpr ⟨.null, optsPort_ok_iff.mpr (hnone.imp (fun h => ⟨h, rfl⟩) id), ?_⟩
      cases p
      cases hdb
      cases hwrite
      cases hwhere
      cases hguard
      rfl
    · obtain ⟨hdb, ⟨w, hw, hwrite⟩, hwhere, ⟨g, hg, hguard⟩⟩ := hread
      refine bind_ok_iff.mpr ⟨opts, optsPort_ok_iff.mpr (.inr hfield), ?_⟩
      rw [if_neg fun h => hne (isNull_iff.mp h)]
      exact bind_ok_iff.mpr ⟨_, requiredField_ok_iff.mpr hdb,
        bind_ok_iff.mpr ⟨_, requiredField_ok_iff.mpr hw,
        bind_ok_iff.mpr ⟨_, writeModePort_ok_iff.mpr hwrite,
        bind_ok_iff.mpr ⟨_, requiredField_ok_iff.mpr hwhere,
        bind_ok_iff.mpr ⟨_, requiredField_ok_iff.mpr hg,
        bind_ok_iff.mpr ⟨_, relationGuardPort_ok_iff.mpr hguard, rfl⟩⟩⟩⟩⟩⟩

/-! ## Sent or refused -/

theorem effectiveStatement_ok_iff {p : ExecuteSqlPorts} :
    (∃ statement, effectiveStatement p = .ok statement) ↔ PlanGiven p := by
  rw [effectiveStatement, PlanGiven]
  split
  next h => simp [h]
  next h =>
    rw [or_iff_right h]
    constructor
    · rintro ⟨statement, hst⟩
      obtain ⟨plan, hplan, -⟩ := bind_ok_iff.mp hst
      exact ⟨plan, dynamicWherePlan_ok_iff.mp hplan⟩
    · rintro ⟨plan, hplan⟩
      exact ⟨_, bind_ok_iff.mpr ⟨plan, dynamicWherePlan_ok_iff.mpr hplan, rfl⟩⟩

/-- The payload has a write mode, with this `returning`. -/
def WriteGiven (ports : JsVal) (returning : Bool) : Prop :=
  ∃ opts port, HasField ports "opts" ⟨.record, true⟩ opts ∧
    HasField opts "write" ⟨.record, true⟩ port ∧ port ≠ .null ∧
    HasField port "returning" ⟨.bool, false⟩ (.bool returning)

theorem HasField.unique {record v w : JsVal} {name : String} {d d' : Declared}
    (hv : HasField record name d v) (hw : HasField record name d' w) : v = w :=
  Option.some.inj (Option.some.inj (hv.1.symm.trans hw.1))

theorem bool_of_holds {v : JsVal} (h : Declared.Holds ⟨.bool, false⟩ v) : ∃ b, v = .bool b := by
  rcases h with h | h
  · exact nomatch h.1
  · cases v with
    | bool b => exact ⟨b, rfl⟩
    | _ => exact nomatch h

/-- The write mode of the ports is the payload's. -/
theorem PortsRead.write_iff {ports : JsVal} {p : ExecuteSqlPorts} (h : PortsRead ports p)
    (returning : Bool) : p.write = some ⟨.bool returning⟩ ↔ WriteGiven ports returning := by
  rcases h.opts with ⟨hnone, -, hwrite, -, -⟩ | ⟨opts, hopts, -, hread⟩
  · rw [hwrite]
    refine iff_of_false (fun h => nomatch h) ?_
    rintro ⟨opts, port, hopts, hport, -, -⟩
    rcases hnone with hnone | hnone
    · rw [HasField, hnone] at hopts
      exact nomatch hopts.1
    · obtain rfl := hopts.unique hnone
      exact nomatch hport.1
  · obtain ⟨port, hport, hmode⟩ := hread.write
    constructor
    · intro hw
      rw [hw] at hmode
      exact ⟨opts, port, hopts, hport, hmode.1, hmode.2⟩
    · rintro ⟨opts', port', hopts', hport', hne, hreturning⟩
      obtain rfl := hopts.unique hopts'
      obtain rfl := hport.unique hport'
      cases hw : p.write with
      | none =>
        rw [hw] at hmode
        exact (hne hmode).elim
      | some mode =>
        rw [hw] at hmode
        obtain ⟨returning'⟩ := mode
        obtain rfl := hmode.2.unique hreturning
        rfl

theorem PortsRead.isSome_iff {ports : JsVal} {p : ExecuteSqlPorts} (h : PortsRead ports p) :
    p.write.isSome = true ↔ ∃ returning, WriteGiven ports returning := by
  constructor
  · intro hw
    obtain ⟨⟨v⟩, hmode⟩ := Option.isSome_iff_exists.mp hw
    have hbool : ∃ b, v = .bool b := by
      rcases h.opts with ⟨-, -, hnone, -, -⟩ | ⟨opts, -, -, hread⟩
      · rw [hnone] at hmode
        exact nomatch hmode
      · obtain ⟨port, -, hport⟩ := hread.write
        rw [hmode] at hport
        exact bool_of_holds hport.2.2
    obtain ⟨b, rfl⟩ := hbool
    exact ⟨b, (h.write_iff b).mp hmode⟩
  · rintro ⟨b, hb⟩
    rw [(h.write_iff b).mpr hb]
    rfl

/-- The leaf reads a payload whose fields all have their declared types, and then sends one
statement, which is a write exactly when a write mode is given; it yields rows as that mode asks.
Any other payload is refused before a statement is sent. -/
theorem executeSQL_closed (ports : JsVal) :
    (∀ p, executeSqlPorts ports = .ok p ↔ PortsRead ports p) ∧
      (∀ plan, dynamicWherePlan ports = .ok plan ↔ PlanRead ports plan) ∧
      ((∃ p sent, PortsRead ports p ∧ PlanGiven p ∧ executeSQL ports = ([sent], .ok ()) ∧
          (sent.write = true ↔ ∃ returning, WriteGiven ports returning) ∧
          ∀ returning, WriteGiven ports returning → sent.rows = returning) ∨
        ((¬ ∃ p, PortsRead ports p ∧ PlanGiven p) ∧ ∃ e, executeSQL ports = ([], .error e))) := by
  refine ⟨fun p => executeSqlPorts_ok_iff, fun plan => dynamicWherePlan_ok_iff, ?_⟩
  cases hp : executeSqlPorts ports with
  | error e =>
    right
    refine ⟨?_, e, by rw [executeSQL, hp]⟩
    rintro ⟨p, hread, -⟩
    rw [executeSqlPorts_ok_iff.mpr hread] at hp
    exact nomatch hp
  | ok p =>
    have hread := executeSqlPorts_ok_iff.mp hp
    cases hst : effectiveStatement p with
    | error e =>
      right
      refine ⟨?_, e, by rw [executeSQL, hp]; simp only [hst]⟩
      rintro ⟨q, hq, hplan⟩
      obtain rfl := Except.ok.inj (hp.symm.trans (executeSqlPorts_ok_iff.mpr hq))
      obtain ⟨statement, hok⟩ := effectiveStatement_ok_iff.mpr hplan
      rw [hok] at hst
      exact nomatch hst
    | ok statement =>
      left
      refine ⟨p, _, hread, effectiveStatement_ok_iff.mp ⟨statement, hst⟩,
        by rw [executeSQL, hp]; simp only [hst]; rfl, hread.isSome_iff, ?_⟩
      intro returning hgiven
      simp only [(hread.write_iff returning).mpr hgiven]
      rfl

/-- A plain read: no control record at all. -/
example : (executeSQL (.obj [("sql", .str "SELECT 1"), ("params", .arr [])])).1.length = 1 := rfl

end LiteDb.LeafPorts
