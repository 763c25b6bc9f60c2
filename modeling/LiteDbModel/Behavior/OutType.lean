import LiteDbModel.Behavior.Canonical
import LiteDbModel.Lib.Exit
import LiteDbModel.Lib.Keyed

/-!
# Declared result types

A node may declare the type of its result. The type is made into one closure that checks a value
and brings it into the declared form; what does not fit is told by the path that leads to it.
-/

namespace LiteDb.Behavior
set_option autoImplicit false

/-- A step from a value into one of its parts. -/
inductive Seg
  | index (i : Nat)
  | field (k : String)

def Seg.text : Seg → String
  | .index i => s!"[{i}]"
  | .field k => "." ++ k

/-- What is carried out of the value to where the failure is raised; the outermost step of the path
comes first. -/
structure ConformPending where
  segs : List Seg
  what : Option String
  expected : Val
  actual : Val
  prop : Option String

def ConformPending.under (seg : Seg) (e : ConformPending) : ConformPending :=
  { e with segs := seg :: e.segs }

/-- The closure that a type is made into; `pass` is the one that checks nothing. -/
inductive Conformer
  | pass
  | check (f : Val → Except ConformPending Val)

def Conformer.apply : Conformer → Val → Except ConformPending Val
  | .pass, v => .ok v
  | .check f, v => f v

variable {α : Type}

def mismatch (what : String) (expected actual : Val) : Except ConformPending α :=
  .error ⟨[], some what, expected, actual, none⟩

/-- A failure within a part, told from the whole. -/
def within (seg : Seg) : Except ConformPending α → Except ConformPending α
  | .ok a => .ok a
  | .error e => .error (e.under seg)

/-! ## The closures -/

inductive Scalar
  | string | int | float | bool | null
deriving DecidableEq

def Scalar.name : Scalar → String
  | .string => "string"
  | .int => "int"
  | .float => "float"
  | .bool => "bool"
  | .null => "null"

def scalarOf (t : String) : Option Scalar :=
  [Scalar.string, .int, .float, .bool, .null].find? fun s => s.name = t

/-- A float that is the other spelling of an integer of 64 bits. -/
def integral (f : Float) : Bool :=
  f == f.floor && decide (-9223372036854775808 ≤ f) && decide (f < 9223372036854775808)

def scalarCheck : Scalar → Val → Except ConformPending Val
  | .string, .str s => .ok (.str s)
  | .int, .float f =>
    if integral f then .ok (.int f.toInt64.toInt) else mismatch "int" (.str "int") (.float f)
  | .int, .int n => .ok (.int n)
  | .float, .int n => .ok (.float (Float.ofInt n))
  | .float, .float f => .ok (.float f)
  | .bool, .bool b => .ok (.bool b)
  | .null, .null => .ok .null
  | s, v => mismatch s.name (.str s.name) v

def optConformer : Conformer → Conformer
  | .pass => .pass
  | .check f => .check fun
    | .null => .ok .null
    | v => f v

def conformAll (elem : Conformer) : Nat → List Val → Except ConformPending (List Val)
  | _, [] => .ok []
  | i, v :: vs => do
    let w ← within (.index i) (elem.apply v)
    let ws ← conformAll elem (i + 1) vs
    .ok (w :: ws)

/-- Elements of a type that checks nothing are left as they are. -/
def arrConformer (t : Val) : Conformer → Conformer
  | .pass => .check fun
    | .arr vs => .ok (.arr vs)
    | v => mismatch "arr" t v
  | elem => .check fun
    | .arr vs => do
      let ws ← conformAll elem 0 vs
      .ok (.arr ws)
    | v => mismatch "arr" t v

def conformEntries (val : Conformer) :
    List (String × Val) → Except ConformPending (List (String × Val))
  | [] => .ok []
  | (k, v) :: ps => do
    let w ← within (.field k) (val.apply v)
    let qs ← conformEntries val ps
    .ok ((k, w) :: qs)

def mapConformer (t : Val) (val : Conformer) : Conformer := .check fun
  | .obj ps => do
    let qs ← conformEntries val ps
    .ok (.obj qs)
  | v => mismatch "map" t v

/-- A declared field; the closure is of what is inside `opt`. -/
structure Field where
  key : String
  isOpt : Bool
  type : Val
  check : Conformer

def conformField (f : Field) : Option Val → Except ConformPending Val
  | some .null => if f.isOpt then .ok .null else within (.field f.key) (f.check.apply .null)
  | some v => within (.field f.key) (f.check.apply v)
  | none => if f.isOpt then .ok .null else .error ⟨[], none, f.type, .null, some f.key⟩

def conformFields (vProps : List (String × Val)) :
    List Field → Except ConformPending (List (String × Val))
  | [] => .ok []
  | f :: plan => do
    let w ← conformField f (vProps.lookup f.key)
    let qs ← conformFields vProps plan
    .ok ((f.key, w) :: qs)

def objConformer (t : Val) (plan : List Field) : Conformer := .check fun
  | .obj vProps => do
    let qs ← conformFields vProps plan
    .ok (.obj qs)
  | v => mismatch "obj" t v

/-- The closure of an object type, given what its properties are made into. -/
def propsConformer (t : Val) (inner : List (String × Conformer))
    (plans : List (String × Option (List Field))) : Conformer :=
  match inner.lookup "opt" with
  | some c => optConformer c
  | none =>
    match inner.lookup "arr" with
    | some c => arrConformer t c
    | none =>
      match inner.lookup "map" with
      | some c => mapConformer t c
      | none =>
        match plans.lookup "obj" with
        | some (some plan) => objConformer t plan
        | _ => .pass

mutual
def compileConformer : Val → Conformer
  | .str t =>
    match scalarOf t with
    | some s => .check (scalarCheck s)
    | none => .pass
  | .obj props => propsConformer (.obj props) (compileTypes props) (compilePlans props)
  | _ => .pass

/-- The closure of what is inside `opt`, where the type has it. -/
def compileInner : Val → Option Conformer
  | .obj props => (compileTypes props).lookup "opt"
  | _ => none

def compilePlan : Val → Option (List Field)
  | .obj fields => some (compileFields fields)
  | _ => none

def compileTypes : List (String × Val) → List (String × Conformer)
  | [] => []
  | (k, t) :: props => (k, compileConformer t) :: compileTypes props

def compilePlans : List (String × Val) → List (String × Option (List Field))
  | [] => []
  | (k, t) :: props => (k, compilePlan t) :: compilePlans props

def compileFields : List (String × Val) → List Field
  | [] => []
  | (k, ft) :: fields =>
    ⟨k, (compileInner ft).isSome, ft, (compileInner ft).getD (compileConformer ft)⟩ ::
      compileFields fields
end

/-! ## What a type is -/

/-- A type as its closure is made: `opt` comes before `arr`, `map` and `obj`. -/
inductive TypeForm
  | any
  | scalar (s : Scalar)
  | opt (t : Val)
  | arr (t : Val)
  | map (t : Val)
  | obj (fields : List (String × Val))

def propsForm (props : List (String × Val)) : TypeForm :=
  match props.lookup "opt" with
  | some t => .opt t
  | none =>
    match props.lookup "arr" with
    | some t => .arr t
    | none =>
      match props.lookup "map" with
      | some t => .map t
      | none =>
        match props.lookup "obj" with
        | some (.obj fields) => .obj fields
        | _ => .any

def typeForm : Val → TypeForm
  | .str t =>
    match scalarOf t with
    | some s => .scalar s
    | none => .any
  | .obj props => propsForm props
  | _ => .any

theorem lookup_compileTypes (k : String) (props : List (String × Val)) :
    (compileTypes props).lookup k = (props.lookup k).map compileConformer := by
  induction props with
  | nil => rw [compileTypes]; rfl
  | cons p props ih =>
    obtain ⟨k', t⟩ := p
    rw [compileTypes, List.lookup_cons, List.lookup_cons, ih]
    split <;> rfl

theorem lookup_compilePlans (k : String) (props : List (String × Val)) :
    (compilePlans props).lookup k = (props.lookup k).map compilePlan := by
  induction props with
  | nil => rw [compilePlans]; rfl
  | cons p props ih =>
    obtain ⟨k', t⟩ := p
    rw [compilePlans, List.lookup_cons, List.lookup_cons, ih]
    split <;> rfl

/-- The closure of a type, by what the type is. -/
theorem compileConformer_eq (t : Val) : compileConformer t =
    match typeForm t with
    | .any => .pass
    | .scalar s => .check (scalarCheck s)
    | .opt t' => optConformer (compileConformer t')
    | .arr t' => arrConformer t (compileConformer t')
    | .map t' => mapConformer t (compileConformer t')
    | .obj fields => objConformer t (compileFields fields) := by
  cases t with
  | str t =>
    rw [compileConformer, typeForm]
    cases scalarOf t <;> rfl
  | obj props =>
    rw [compileConformer, typeForm, propsConformer, propsForm]
    simp only [lookup_compileTypes, lookup_compilePlans]
    cases props.lookup "opt" with
    | some t => rfl
    | none =>
      cases props.lookup "arr" with
      | some t => rfl
      | none =>
        cases props.lookup "map" with
        | some t => rfl
        | none =>
          cases props.lookup "obj" with
          | none => rfl
          | some t =>
            cases t with
            | obj fields => simp only [Option.map_some, Option.map_none, compilePlan]
            | _ => simp only [Option.map_some, Option.map_none, compilePlan]
  | _ => rw [compileConformer, typeForm] <;> simp

section
variable {t t' : Val}

theorem compileConformer_any (h : typeForm t = .any) : compileConformer t = .pass := by
  rw [compileConformer_eq, h]

theorem compileConformer_scalar {s : Scalar} (h : typeForm t = .scalar s) :
    compileConformer t = .check (scalarCheck s) := by
  rw [compileConformer_eq, h]

theorem compileConformer_opt (h : typeForm t = .opt t') :
    compileConformer t = optConformer (compileConformer t') := by
  rw [compileConformer_eq, h]

theorem compileConformer_arr (h : typeForm t = .arr t') :
    compileConformer t = arrConformer t (compileConformer t') := by
  rw [compileConformer_eq, h]

theorem compileConformer_map (h : typeForm t = .map t') :
    compileConformer t = mapConformer t (compileConformer t') := by
  rw [compileConformer_eq, h]

end

theorem compileInner_eq (t : Val) : compileInner t =
    match typeForm t with
    | .opt t' => some (compileConformer t')
    | _ => none := by
  cases t with
  | str t =>
    rw [compileInner, typeForm]
    · cases scalarOf t <;> rfl
    · simp
  | obj props =>
    rw [compileInner, lookup_compileTypes, typeForm, propsForm]
    cases props.lookup "opt" with
    | some t => rfl
    | none => grind
  | _ => rw [compileInner, typeForm] <;> simp

def compileField (p : String × Val) : Field :=
  ⟨p.1, (compileInner p.2).isSome, p.2, (compileInner p.2).getD (compileConformer p.2)⟩

theorem compileFields_eq (fields : List (String × Val)) :
    compileFields fields = fields.map compileField := by
  induction fields with
  | nil => rw [compileFields, List.map_nil]
  | cons p fields ih => rw [compileFields, ih, List.map_cons, compileField]

theorem sizeOf_lookup {k : String} {t : Val} {props : List (String × Val)}
    (h : props.lookup k = some t) : sizeOf t < sizeOf (Val.obj props) := by
  induction props with
  | nil => cases h
  | cons p props ih =>
    obtain ⟨k', t'⟩ := p
    rw [List.lookup_cons] at h
    split at h
    · obtain rfl := Option.some.inj h
      simp only [Val.obj.sizeOf_spec, List.cons.sizeOf_spec, Prod.mk.sizeOf_spec]
      omega
    · have := ih h
      simp only [Val.obj.sizeOf_spec, List.cons.sizeOf_spec] at this ⊢
      omega

theorem sizeOf_field {p : String × Val} {fields : List (String × Val)} (h : p ∈ fields) :
    sizeOf p.2 < sizeOf (Val.obj fields) := by
  have := List.sizeOf_lt_of_mem h
  obtain ⟨k, t⟩ := p
  simp only [Prod.mk.sizeOf_spec, Val.obj.sizeOf_spec] at this ⊢
  omega

/-- The properties that a type is read from. -/
theorem typeForm_props {t : Val} : (∃ s, typeForm t = .scalar s) ∨ typeForm t = .any ∨
    ∃ props, t = .obj props ∧ ((∃ t', typeForm t = .opt t' ∧ props.lookup "opt" = some t') ∨
      (∃ t', typeForm t = .arr t' ∧ props.lookup "arr" = some t') ∨
      (∃ t', typeForm t = .map t' ∧ props.lookup "map" = some t') ∨
      ∃ fields, typeForm t = .obj fields ∧ props.lookup "obj" = some (.obj fields)) := by
  cases t with
  | str t =>
    rw [typeForm]
    cases scalarOf t <;> simp
  | obj props =>
    rw [typeForm, propsForm]
    grind
  | _ => simp [typeForm]

/-- The parts of a type are smaller than it. -/
theorem type_induction {P : Val → Prop} (any : ∀ t, typeForm t = .any → P t)
    (scalar : ∀ t s, typeForm t = .scalar s → P t)
    (opt : ∀ t t', typeForm t = .opt t' → P t' → P t)
    (arr : ∀ t t', typeForm t = .arr t' → P t' → P t)
    (map : ∀ t t', typeForm t = .map t' → P t' → P t)
    (obj : ∀ t fields, typeForm t = .obj fields → (∀ p ∈ fields, P p.2) → P t) (t : Val) :
    P t := by
  have ih : ∀ t', sizeOf t' < sizeOf t → P t' :=
    fun t' _ => type_induction any scalar opt arr map obj t'
  rcases typeForm_props (t := t) with ⟨s, hs⟩ | hany | ⟨props, rfl, hprops⟩
  · exact scalar t s hs
  · exact any t hany
  · rcases hprops with ⟨t', h, hl⟩ | ⟨t', h, hl⟩ | ⟨t', h, hl⟩ | ⟨fields, h, hl⟩
    · exact opt _ t' h (ih t' (sizeOf_lookup hl))
    · exact arr _ t' h (ih t' (sizeOf_lookup hl))
    · exact map _ t' h (ih t' (sizeOf_lookup hl))
    · exact obj _ fields h fun p hp => ih p.2 ((sizeOf_field hp).trans (sizeOf_lookup hl))
termination_by sizeOf t

theorem compileConformer_obj {t : Val} {fields : List (String × Val)}
    (h : typeForm t = .obj fields) :
    compileConformer t = objConformer t (fields.map compileField) := by
  rw [compileConformer_eq, h]
  exact congrArg (objConformer t) (compileFields_eq fields)

/-! ## Failures -/

def portableTypeProps (ps : List (String × String)) (obj : Option String) : String :=
  match ps.lookup "opt", ps.lookup "arr", ps.lookup "map", obj with
  | some t, _, _, _ => "opt(" ++ t ++ ")"
  | none, some t, _, _ => "arr(" ++ t ++ ")"
  | none, none, some t, _ => "map(" ++ t ++ ")"
  | none, none, none, some fields => "obj\x7b" ++ fields ++ "\x7d"
  | none, none, none, none => "?"

mutual
def portableTypeNotation : Val → String
  | .str t => t
  | .obj props => portableTypeProps (notations props) ((fieldNotations props).lookup "obj").join
  | _ => "?"

def notations : List (String × Val) → List (String × String)
  | [] => []
  | (k, t) :: props => (k, portableTypeNotation t) :: notations props

/-- What stands between the braces of a property that is an object. -/
def fieldNotations : List (String × Val) → List (String × Option String)
  | [] => []
  | (k, t) :: props => (k, objNotation t) :: fieldNotations props

def objNotation : Val → Option String
  | .obj fields => some (",".intercalate (fieldTexts fields))
  | _ => none

def fieldTexts : List (String × Val) → List String
  | [] => []
  | (k, ft) :: fields => (k ++ ":" ++ portableTypeNotation ft) :: fieldTexts fields
end

def wireTypeName : Val → String
  | .null => "null"
  | .bool _ => "bool"
  | .int _ => "int"
  | .float _ => "float"
  | .str _ => "string"
  | .arr _ => "arr"
  | .obj _ => "obj"

def rawValueOf : Val → Except Failure String
  | .str s => .ok s
  | v => (canonicalJson v).map String.ofList

def pathText (segs : List Seg) : String := "result" ++ String.join (segs.map Seg.text)

def conformDetail (kind nodeId field : String) (expected : Val) : Detail :=
  [("kind", .str kind), ("model", .str nodeId), ("field", .str field),
    ("expectedType", .str (portableTypeNotation expected))]

/-- The failure that leaves the interpreter; a value that has no text fails in its place. -/
def raiseConform (nodeId : String) (e : ConformPending) : Failure :=
  let field := pathText e.segs
  match e.prop with
  | none =>
    match rawValueOf e.actual with
    | .error failure => failure
    | .ok raw =>
      ⟨.typeMismatch, "node '" ++ nodeId ++ "': " ++ field ++ ": expected " ++ e.what.getD "" ++
          ", got " ++ wireTypeName e.actual,
        some (conformDetail "typeMismatch" nodeId field e.expected ++
          [("actualWireType", .str (wireTypeName e.actual)), ("rawValue", .str raw)])⟩
  | some prop =>
    ⟨.missingProp, "node '" ++ nodeId ++ "': " ++ field ++ ": missing property ." ++ prop,
      some (conformDetail "missingField" nodeId (field ++ "." ++ prop) e.expected)⟩

/-! ## What the closures accept -/

def Scalar.Holds : Scalar → Val → Prop
  | .string, .str _ | .int, .int _ | .float, .float _ | .bool, .bool _ | .null, .null => True
  | _, _ => False

/-- The values of a declared type: no integer for a float and no field that is not declared. -/
inductive HasType : Val → Val → Prop
  | any {t v : Val} : typeForm t = .any → HasType t v
  | scalar {t v : Val} {s : Scalar} : typeForm t = .scalar s → s.Holds v → HasType t v
  | absent {t t' : Val} : typeForm t = .opt t' → HasType t .null
  | present {t t' v : Val} : typeForm t = .opt t' → HasType t' v → HasType t v
  | arr {t t' : Val} {vs : List Val} : typeForm t = .arr t' → (∀ v ∈ vs, HasType t' v) →
      HasType t (.arr vs)
  | map {t t' : Val} {ps : List (String × Val)} : typeForm t = .map t' →
      (∀ p ∈ ps, HasType t' p.2) → HasType t (.obj ps)
  | obj {t : Val} {fields ps : List (String × Val)} : typeForm t = .obj fields →
      ps.map (·.1) = fields.map (·.1) → (∀ q ∈ fields.zip ps, HasType q.1.2 q.2.2) →
      HasType t (.obj ps)

theorem within_ok {seg : Seg} {x : Except ConformPending α} {a : α} :
    within seg x = .ok a ↔ x = .ok a := by
  cases x with
  | ok b => rw [within]
  | error e => simp [within]

theorem conformAll_ok {elem : Conformer} {i : Nat} {vs ws : List Val} :
    conformAll elem i vs = .ok ws ↔ List.Forall₂ (fun v w => elem.apply v = .ok w) vs ws := by
  induction vs generalizing i ws with
  | nil => simp [conformAll, eq_comm]
  | cons v vs ih =>
    rw [conformAll, Exit.bind_ok_iff, List.forall₂_cons_left_iff]
    constructor
    · rintro ⟨w, hw, h⟩
      obtain ⟨ws, hws, h⟩ := Exit.bind_ok_iff.mp h
      exact ⟨w, ws, within_ok.mp hw, ih.mp hws, (Except.ok.inj h).symm⟩
    · rintro ⟨w, ws, hw, hws, rfl⟩
      exact ⟨w, within_ok.mpr hw, Exit.bind_ok_iff.mpr ⟨ws, ih.mpr hws, rfl⟩⟩

theorem conformEntries_ok {val : Conformer} {ps qs : List (String × Val)} :
    conformEntries val ps = .ok qs ↔
      List.Forall₂ (fun p q => val.apply p.2 = .ok q.2 ∧ p.1 = q.1) ps qs := by
  induction ps generalizing qs with
  | nil => simp [conformEntries, eq_comm]
  | cons p ps ih =>
    rw [conformEntries, Exit.bind_ok_iff, List.forall₂_cons_left_iff]
    constructor
    · rintro ⟨w, hw, h⟩
      obtain ⟨qs, hqs, h⟩ := Exit.bind_ok_iff.mp h
      exact ⟨(p.1, w), qs, ⟨within_ok.mp hw, rfl⟩, ih.mp hqs, (Except.ok.inj h).symm⟩
    · rintro ⟨q, qs, ⟨hq, hkey⟩, hqs, rfl⟩
      refine ⟨q.2, within_ok.mpr hq, Exit.bind_ok_iff.mpr ⟨qs, ih.mpr hqs, ?_⟩⟩
      rw [hkey]

theorem conformFields_ok {vProps qs : List (String × Val)} {plan : List Field} :
    conformFields vProps plan = .ok qs ↔
      List.Forall₂ (fun f q => conformField f (vProps.lookup f.key) = .ok q.2 ∧ f.key = q.1)
        plan qs := by
  induction plan generalizing qs with
  | nil => simp [conformFields, eq_comm]
  | cons f plan ih =>
    rw [conformFields, Exit.bind_ok_iff, List.forall₂_cons_left_iff]
    constructor
    · rintro ⟨w, hw, h⟩
      obtain ⟨qs, hqs, h⟩ := Exit.bind_ok_iff.mp h
      exact ⟨(f.key, w), qs, ⟨hw, rfl⟩, ih.mp hqs, (Except.ok.inj h).symm⟩
    · rintro ⟨q, qs, ⟨hq, hkey⟩, hqs, rfl⟩
      refine ⟨q.2, hq, Exit.bind_ok_iff.mpr ⟨qs, ih.mpr hqs, ?_⟩⟩
      rw [hkey]

/-! ## The closures, applied -/

theorem optConformer_null (c : Conformer) : (optConformer c).apply .null = .ok .null := by
  cases c <;> rfl

theorem optConformer_apply (c : Conformer) {v : Val} (hv : v ≠ .null) :
    (optConformer c).apply v = c.apply v := by
  cases c with
  | pass => rfl
  | check f =>
    rw [optConformer, Conformer.apply, Conformer.apply]
    cases v with
    | null => exact absurd rfl hv
    | _ => rfl

theorem conformAll_pass (i : Nat) (vs : List Val) : conformAll .pass i vs = .ok vs := by
  rw [conformAll_ok]
  induction vs with
  | nil => exact .nil
  | cons v vs ih => exact .cons rfl ih

theorem arrConformer_apply (t : Val) (c : Conformer) (v : Val) :
    (arrConformer t c).apply v =
      match v with
      | .arr vs => (conformAll c 0 vs).map .arr
      | v => mismatch "arr" t v := by
  cases c with
  | pass =>
    cases v with
    | arr vs =>
      simp only [conformAll_pass]
      rfl
    | _ => rfl
  | check f =>
    cases v with
    | arr vs =>
      simp only [arrConformer, Conformer.apply]
      cases conformAll (.check f) 0 vs <;> rfl
    | _ => rfl

/-- A declared field checks its value by the whole declared type. -/
theorem conformField_some (k : String) (ft v : Val) :
    conformField (compileField (k, ft)) (some v) =
      within (.field k) ((compileConformer ft).apply v) := by
  rw [compileField, compileInner_eq, compileConformer_eq ft]
  cases hform : typeForm ft with
  | opt t' =>
    cases v with
    | null =>
      simp only [conformField, optConformer_null]
      rfl
    | _ =>
      simp only [conformField, Option.getD_some]
      rw [optConformer_apply _ (by simp)]
  | _ => cases v <;> rfl

def isOpt (t : Val) : Prop := ∃ t', typeForm t = .opt t'

theorem conformField_none {k : String} {ft : Val} (w : Val) :
    conformField (compileField (k, ft)) none = .ok w ↔ isOpt ft ∧ w = .null := by
  rw [compileField, compileInner_eq, isOpt]
  cases hform : typeForm ft <;> simp [conformField, eq_comm]

/-! ## Values brought into the declared form -/

theorem scalarCheck_ok {s : Scalar} {v w : Val} (h : scalarCheck s v = .ok w) : s.Holds w := by
  cases s <;> cases v <;> simp only [scalarCheck, mismatch] at h <;> grind [Scalar.Holds]

theorem scalarCheck_holds {s : Scalar} {v : Val} (h : s.Holds v) : scalarCheck s v = .ok v := by
  cases s <;> cases v <;> first | rfl | exact absurd h id

theorem forall₂_snd {β γ : Type} {R : β → γ → Prop} {Q : γ → Prop} {xs : List β} {ys : List γ}
    (h : List.Forall₂ R xs ys) (hR : ∀ x y, R x y → Q y) : ∀ y ∈ ys, Q y := by
  induction h with
  | nil => simp
  | cons hxy _ ih => exact List.forall_mem_cons.mpr ⟨hR _ _ hxy, ih⟩

theorem hasType_fields {fields vProps qs : List (String × Val)}
    (ih : ∀ p ∈ fields, ∀ v w, (compileConformer p.2).apply v = .ok w → HasType p.2 w)
    (h : conformFields vProps (fields.map compileField) = .ok qs) :
    qs.map (·.1) = fields.map (·.1) ∧ ∀ q ∈ fields.zip qs, HasType q.1.2 q.2.2 := by
  rw [conformFields_ok, List.forall₂_map_left_iff] at h
  induction h with
  | nil => simp
  | @cons p q fields qs hpq _ ih' =>
    obtain ⟨hnames, htypes⟩ := ih' fun p hp => ih p (List.mem_cons_of_mem _ hp)
    obtain ⟨hq, hkey⟩ := hpq
    refine ⟨?_, ?_⟩
    · rw [List.map_cons, List.map_cons, hnames]
      exact congrArg (· :: _) hkey.symm
    · rw [List.zip_cons_cons, List.forall_mem_cons]
      refine ⟨?_, htypes⟩
      cases hlook : vProps.lookup (compileField p).key with
      | none =>
        rw [hlook] at hq
        obtain ⟨⟨t', hopt⟩, hnull⟩ := (conformField_none q.2).mp hq
        rw [hnull]
        exact .absent hopt
      | some v =>
        rw [hlook, conformField_some] at hq
        exact ih p List.mem_cons_self v q.2 (within_ok.mp hq)

/-- What comes out of a type's closure is a value of the type. -/
theorem hasType_of_apply (t : Val) : ∀ v w, (compileConformer t).apply v = .ok w → HasType t w := by
  induction t using type_induction with
  | any t hany => exact fun _ w _ => .any hany
  | scalar t s hs =>
    intro v w h
    rw [compileConformer_scalar hs] at h
    exact .scalar hs (scalarCheck_ok h)
  | opt t t' hopt ih =>
    intro v w h
    rw [compileConformer_opt hopt] at h
    by_cases hv : v = .null
    · subst hv
      rw [optConformer_null] at h
      obtain rfl := Except.ok.inj h
      exact .absent hopt
    · rw [optConformer_apply _ hv] at h
      exact .present hopt (ih v w h)
  | arr t t' harr ih =>
    intro v w h
    rw [compileConformer_arr harr, arrConformer_apply] at h
    cases v with
    | arr vs =>
      obtain ⟨ws, hws, rfl⟩ := map_ok h
      exact .arr harr (forall₂_snd (conformAll_ok.mp hws) ih)
    | _ => cases h
  | map t t' hmap ih =>
    intro v w h
    rw [compileConformer_map hmap] at h
    cases v with
    | obj ps =>
      obtain ⟨qs, hqs, h⟩ := Exit.bind_ok_iff.mp h
      obtain rfl := Except.ok.inj h
      exact .map hmap (forall₂_snd (conformEntries_ok.mp hqs) fun p q hpq => ih p.2 q.2 hpq.1)
    | _ => cases h
  | obj t fields hobj ih =>
    intro v w h
    rw [compileConformer_obj hobj] at h
    cases v with
    | obj vProps =>
      obtain ⟨qs, hqs, h⟩ := Exit.bind_ok_iff.mp h
      obtain rfl := Except.ok.inj h
      obtain ⟨hnames, htypes⟩ := hasType_fields ih hqs
      exact .obj hobj hnames htypes
    | _ => cases h

theorem uniqueKeys_lookup {props : List (String × Val)} (h : (Val.obj props).UniqueKeys)
    {k : String} {t : Val} (ht : props.lookup k = some t) : t.UniqueKeys :=
  h.2.mem (Keyed.mem_of_lookup ht)

/-- Every part of a type with unique keys has them too. -/
theorem uniqueKeys_parts {t : Val} (h : t.UniqueKeys) :
    (∀ t', typeForm t = .opt t' ∨ typeForm t = .arr t' ∨ typeForm t = .map t' → t'.UniqueKeys) ∧
      ∀ fields, typeForm t = .obj fields → (Val.obj fields).UniqueKeys := by
  rcases typeForm_props (t := t) with ⟨s, hs⟩ | hany | ⟨props, rfl, hprops⟩
  · simp [hs]
  · simp [hany]
  · rcases hprops with ⟨t', hform, hl⟩ | ⟨t', hform, hl⟩ | ⟨t', hform, hl⟩ | ⟨fields, hform, hl⟩
    all_goals
      have := uniqueKeys_lookup h hl
      simp [hform, this]

theorem conformFields_typed {vProps : List (String × Val)} (hkeys : (vProps.map (·.1)).Nodup)
    {fields qs : List (String × Val)} (hsub : ∀ q ∈ qs, q ∈ vProps)
    (hnames : qs.map (·.1) = fields.map (·.1))
    (htypes : ∀ q ∈ fields.zip qs, (compileConformer q.1.2).apply q.2.2 = .ok q.2.2) :
    conformFields vProps (fields.map compileField) = .ok qs := by
  rw [conformFields_ok, List.forall₂_map_left_iff]
  induction fields generalizing qs with
  | nil =>
    obtain rfl := List.map_eq_nil_iff.mp hnames
    exact .nil
  | cons p fields ih =>
    obtain ⟨q, qs, rfl, hq, hqs⟩ := List.map_eq_cons_iff.mp hnames
    rw [List.zip_cons_cons, List.forall_mem_cons] at htypes
    refine .cons ⟨?_, hq.symm⟩ (ih (fun r hr => hsub r (List.mem_cons_of_mem _ hr)) hqs htypes.2)
    have hlook : vProps.lookup (compileField p).key = some q.2 := by
      have := Keyed.lookup_of_mem hkeys (hsub q List.mem_cons_self)
      rwa [hq] at this
    rw [hlook, conformField_some, htypes.1, within]

/-- A value of the type is left as it is. -/
theorem apply_of_hasType {t w : Val} (hkeys : t.UniqueKeys) (h : HasType t w) :
    (compileConformer t).apply w = .ok w := by
  induction h with
  | any hany =>
    rw [compileConformer_any hany]
    rfl
  | scalar hs hw =>
    rw [compileConformer_scalar hs]
    exact scalarCheck_holds hw
  | absent hopt =>
    rw [compileConformer_opt hopt]
    exact optConformer_null _
  | @present t t' v hopt _ ih =>
    rw [compileConformer_opt hopt]
    by_cases hv : v = .null
    · rw [hv]
      exact optConformer_null _
    · rw [optConformer_apply _ hv]
      exact ih ((uniqueKeys_parts hkeys).1 t' (.inl hopt))
  | @arr t t' vs harr _ ih =>
    have hpart := (uniqueKeys_parts hkeys).1 t' (.inr (.inl harr))
    have hall : conformAll (compileConformer t') 0 vs = .ok vs := by
      rw [conformAll_ok, List.forall₂_same]
      exact fun v hv => ih v hv hpart
    rw [compileConformer_arr harr, arrConformer_apply]
    simp only [hall]
    rfl
  | @map t t' ps hmap _ ih =>
    have hpart := (uniqueKeys_parts hkeys).1 t' (.inr (.inr hmap))
    have hall : conformEntries (compileConformer t') ps = .ok ps := by
      rw [conformEntries_ok, List.forall₂_same]
      exact fun p hp => ⟨ih p hp hpart, rfl⟩
    rw [compileConformer_map hmap]
    simp only [mapConformer, Conformer.apply, hall]
    rfl
  | @obj t fields ps hobj hnames _ ih =>
    have hpart := (uniqueKeys_parts hkeys).2 fields hobj
    have hall : conformFields ps (fields.map compileField) = .ok ps := by
      refine conformFields_typed ?_ (fun _ hq => hq) hnames ?_
      · rw [hnames]
        exact hpart.1
      · exact fun q hq => ih q hq (hpart.2.mem (List.of_mem_zip hq).1)
    rw [compileConformer_obj hobj]
    simp only [objConformer, Conformer.apply, hall]
    rfl

/-- A declared type's closure brings every value it accepts into the type, and leaves the values of
the type, and no others, as they are. -/
theorem conformer_retracts {t : Val} (hkeys : t.UniqueKeys) :
    (∀ v w, (compileConformer t).apply v = .ok w → HasType t w) ∧
      ∀ w, HasType t w ↔ (compileConformer t).apply w = .ok w :=
  ⟨hasType_of_apply t, fun w => ⟨apply_of_hasType hkeys, hasType_of_apply t w w⟩⟩

/-- An absent optional field is filled in, and a field that is not declared is dropped. -/
theorem conformer_retracts_row :
    HasType (.obj [("obj", .obj [("id", .str "int"), ("note", .obj [("opt", .str "string")])])])
      (.obj [("id", .int 7), ("note", .null)]) :=
  (conformer_retracts (t := .obj [("obj", .obj [("id", .str "int"),
      ("note", .obj [("opt", .str "string")])])])
    (by simp [Val.UniqueKeys, UniqueKeysProps])).1 (.obj [("extra", .bool true), ("id", .int 7)]) _
    (by rfl)

/-! ## Where a failure is -/

/-- The path leads from a type and a value of it to the type and the value of a part. -/
inductive Leads : Val → Val → List Seg → Val → Val → Prop
  | here (t v : Val) : Leads t v [] t v
  | present {t t' v u x : Val} {segs : List Seg} : typeForm t = .opt t' → v ≠ .null →
      Leads t' v segs u x → Leads t v segs u x
  | index {t t' v u x : Val} {vs : List Val} {i : Nat} {segs : List Seg} :
      typeForm t = .arr t' → vs[i]? = some v → Leads t' v segs u x →
      Leads t (.arr vs) (.index i :: segs) u x
  | entry {t t' v u x : Val} {ps : List (String × Val)} {k : String} {segs : List Seg} :
      typeForm t = .map t' → (k, v) ∈ ps → Leads t' v segs u x →
      Leads t (.obj ps) (.field k :: segs) u x
  | field {t ft v u x : Val} {fields ps : List (String × Val)} {k : String} {segs : List Seg} :
      typeForm t = .obj fields → (k, ft) ∈ fields → ps.lookup k = some v →
      Leads ft v segs u x → Leads t (.obj ps) (.field k :: segs) u x

/-- A value that its type does not admit whatever its parts are. -/
def Unfit (t v : Val) : Prop :=
  match typeForm t with
  | .any | .opt _ => False
  | .scalar s => ∀ w, scalarCheck s v ≠ .ok w
  | .arr _ => ∀ vs, v ≠ .arr vs
  | .map _ | .obj _ => ∀ ps, v ≠ .obj ps

/-- What a failure says about the type and the value that its path leads to. -/
def Blames (e : ConformPending) (t v : Val) : Prop :=
  match e.prop with
  | none => e.expected = t ∧ e.actual = v ∧ Unfit t v
  | some k => ∃ fields ps, typeForm t = .obj fields ∧ v = .obj ps ∧ (k, e.expected) ∈ fields ∧
      ¬ isOpt e.expected ∧ ps.lookup k = none

theorem within_error {seg : Seg} {x : Except ConformPending α} {e : ConformPending} :
    within seg x = .error e ↔ ∃ e', x = .error e' ∧ e = e'.under seg := by
  cases x with
  | ok a => simp [within]
  | error e' => simp [within, eq_comm]

theorem bind_error {ε β : Type} {x : Except ε α} {f : α → Except ε β} {e : ε}
    (h : x >>= f = .error e) : x = .error e ∨ ∃ a, x = .ok a ∧ f a = .error e := by
  cases x with
  | error e' => exact .inl (congrArg Except.error (Except.error.inj h))
  | ok a => exact .inr ⟨a, rfl, h⟩

theorem conformAll_error {elem : Conformer} {i : Nat} {vs : List Val} {e : ConformPending}
    (h : conformAll elem i vs = .error e) :
    ∃ j v e', vs[j]? = some v ∧ elem.apply v = .error e' ∧ e = e'.under (.index (i + j)) := by
  induction vs generalizing i with
  | nil => cases h
  | cons v vs ih =>
    rw [conformAll] at h
    rcases bind_error h with h | ⟨w, -, h⟩
    · obtain ⟨e', he', rfl⟩ := within_error.mp h
      exact ⟨0, v, e', rfl, he', rfl⟩
    · rcases bind_error h with h | ⟨ws, -, h⟩
      · obtain ⟨j, v', e', hj, he', rfl⟩ := ih h
        refine ⟨j + 1, v', e', hj, he', ?_⟩
        rw [Nat.add_right_comm, Nat.add_assoc]
      · cases h

theorem conformEntries_error {val : Conformer} {ps : List (String × Val)} {e : ConformPending}
    (h : conformEntries val ps = .error e) :
    ∃ k v e', (k, v) ∈ ps ∧ val.apply v = .error e' ∧ e = e'.under (.field k) := by
  induction ps with
  | nil => cases h
  | cons p ps ih =>
    rw [conformEntries] at h
    rcases bind_error h with h | ⟨w, -, h⟩
    · obtain ⟨e', he', rfl⟩ := within_error.mp h
      exact ⟨p.1, p.2, e', List.mem_cons_self, he', rfl⟩
    · rcases bind_error h with h | ⟨ws, -, h⟩
      · obtain ⟨k, v, e', hmem, he', rfl⟩ := ih h
        exact ⟨k, v, e', List.mem_cons_of_mem _ hmem, he', rfl⟩
      · cases h

theorem conformFields_error {vProps : List (String × Val)} {plan : List Field} {e : ConformPending}
    (h : conformFields vProps plan = .error e) :
    ∃ f ∈ plan, conformField f (vProps.lookup f.key) = .error e := by
  induction plan with
  | nil => cases h
  | cons f plan ih =>
    rw [conformFields] at h
    rcases bind_error h with h | ⟨w, -, h⟩
    · exact ⟨f, List.mem_cons_self, h⟩
    · rcases bind_error h with h | ⟨ws, -, h⟩
      · obtain ⟨g, hg, h⟩ := ih h
        exact ⟨g, List.mem_cons_of_mem _ hg, h⟩
      · cases h

theorem conformField_none_error {k : String} {ft : Val} {e : ConformPending}
    (h : conformField (compileField (k, ft)) none = .error e) :
    ¬ isOpt ft ∧ e = ⟨[], none, ft, .null, some k⟩ := by
  rw [compileField, compileInner_eq] at h
  rw [isOpt]
  cases hform : typeForm ft <;> simp [hform, conformField, eq_comm] at h ⊢ <;> exact h

theorem typeForm_scalar {t : Val} {s : Scalar} (h : typeForm t = .scalar s) : t = .str s.name := by
  rcases typeForm_props (t := t) with ⟨s', hs'⟩ | hany | ⟨props, rfl, hprops⟩
  · cases t with
    | str t =>
      rw [typeForm] at h
      split at h
      · next found hscalar =>
        obtain rfl := TypeForm.scalar.inj h
        have := List.find?_some hscalar
        rw [← of_decide_eq_true this]
      · cases h
    | obj props =>
      rw [typeForm, propsForm] at h
      grind
    | _ => cases h
  · rw [hany] at h
    cases h
  · grind

theorem scalarCheck_error {s : Scalar} {v : Val} {e : ConformPending}
    (h : scalarCheck s v = .error e) : e = ⟨[], some s.name, .str s.name, v, none⟩ := by
  cases s <;> cases v <;> simp only [scalarCheck, mismatch] at h <;>
    first
    | exact (Except.error.inj h).symm
    | cases h
    | (split at h
       · cases h
       · exact (Except.error.inj h).symm)

theorem mismatch_blames {what : String} {t v : Val} {e : ConformPending} (hunfit : Unfit t v)
    (h : mismatch (α := Val) what t v = .error e) :
    ∃ u x, Leads t v e.segs u x ∧ Blames e u x := by
  obtain rfl := Except.error.inj h
  exact ⟨t, v, .here t v, rfl, rfl, hunfit⟩

theorem Blames.under {e : ConformPending} {seg : Seg} {u x : Val} (h : Blames e u x) :
    Blames (e.under seg) u x := h

/-- A failure is told by the path to a part of the value and of the type, where the two do not fit,
or where a required field is absent. -/
theorem conformer_blames (t : Val) : ∀ v e, (compileConformer t).apply v = .error e →
    ∃ u x, Leads t v e.segs u x ∧ Blames e u x := by
  induction t using type_induction with
  | any t hany =>
    intro v e h
    rw [compileConformer_any hany] at h
    cases h
  | scalar t s hs =>
    intro v e h
    rw [compileConformer_scalar hs] at h
    have hunfit : Unfit t v := by
      rw [Unfit, hs]
      intro w hw
      rw [Conformer.apply, hw] at h
      cases h
    obtain rfl := scalarCheck_error h
    exact ⟨t, v, .here t v, (typeForm_scalar hs).symm, rfl, hunfit⟩
  | opt t t' hopt ih =>
    intro v e h
    rw [compileConformer_opt hopt] at h
    by_cases hv : v = .null
    · rw [hv, optConformer_null] at h
      cases h
    · rw [optConformer_apply _ hv] at h
      obtain ⟨u, x, hleads, hblames⟩ := ih v e h
      exact ⟨u, x, .present hopt hv hleads, hblames⟩
  | arr t t' harr ih =>
    intro v e h
    rw [compileConformer_arr harr, arrConformer_apply] at h
    split at h
    · next vs =>
      cases hall : conformAll (compileConformer t') 0 vs with
      | ok ws =>
        rw [hall] at h
        cases h
      | error e' =>
        rw [hall] at h
        obtain rfl := Except.error.inj h
        obtain ⟨i, v, e, hi, he, rfl⟩ := conformAll_error hall
        obtain ⟨u, x, hleads, hblames⟩ := ih v e he
        rw [Nat.zero_add]
        exact ⟨u, x, .index harr hi hleads, hblames⟩
    · next hv =>
      refine mismatch_blames ?_ h
      rw [Unfit, harr]
      exact hv
  | map t t' hmap ih =>
    intro v e h
    rw [compileConformer_map hmap, mapConformer, Conformer.apply] at h
    split at h
    · next ps =>
      rcases bind_error h with h | ⟨qs, -, h⟩
      · obtain ⟨k, v, e, hmem, he, rfl⟩ := conformEntries_error h
        obtain ⟨u, x, hleads, hblames⟩ := ih v e he
        exact ⟨u, x, .entry hmap hmem hleads, hblames⟩
      · cases h
    · next hv =>
      refine mismatch_blames ?_ h
      rw [Unfit, hmap]
      exact hv
  | obj t fields hobj ih =>
    intro v e h
    rw [compileConformer_obj hobj, objConformer, Conformer.apply] at h
    split at h
    · next ps =>
      rcases bind_error h with h | ⟨qs, -, h⟩
      · obtain ⟨f, hf, h⟩ := conformFields_error h
        obtain ⟨⟨k, ft⟩, hmem, rfl⟩ := List.mem_map.mp hf
        cases hlook : ps.lookup k with
        | some v =>
          rw [show (compileField (k, ft)).key = k from rfl, hlook, conformField_some] at h
          obtain ⟨e, he, rfl⟩ := within_error.mp h
          obtain ⟨u, x, hleads, hblames⟩ := ih (k, ft) hmem v e he
          exact ⟨u, x, .field hobj hmem hlook hleads, hblames⟩
        | none =>
          rw [show (compileField (k, ft)).key = k from rfl, hlook] at h
          obtain ⟨hreq, rfl⟩ := conformField_none_error h
          exact ⟨t, .obj ps, .here _ _, fields, ps, hobj, rfl, hmem, hreq, hlook⟩
      · cases h
    · next hv =>
      refine mismatch_blames ?_ h
      rw [Unfit, hobj]
      exact hv

/-- The second row's text is not the integer that the type has there. -/
theorem conformer_blames_row : ∃ u x,
    Leads (.obj [("arr", .obj [("obj", .obj [("id", .str "int")])])])
      (.arr [.obj [("id", .int 1)], .obj [("id", .str "x")]]) [.index 1, .field "id"] u x ∧
    Blames ⟨[.index 1, .field "id"], some "int", .str "int", .str "x", none⟩ u x :=
  conformer_blames (.obj [("arr", .obj [("obj", .obj [("id", .str "int")])])])
    (.arr [.obj [("id", .int 1)], .obj [("id", .str "x")]]) _ (by rfl)

/-! ## The result of a node -/

/-- The elements of a map node are declared, so its result is an array of them. -/
def resultTypeOf (node : List (String × Val)) (outType : Val) : Val :=
  match node.lookup "map" with
  | some _ => .obj [("arr", outType)]
  | none => outType

/-- A node that declares nothing, or a type that checks nothing, is not checked. -/
def compileNodeConformer (node : List (String × Val)) (nodeId : String) :
    Option (Val → Except Failure Val) :=
  match node.lookup "outType" with
  | none => none
  | some outType =>
    match compileConformer (resultTypeOf node outType) with
    | .pass => none
    | .check f => some fun v => (f v).mapError (raiseConform nodeId)

end LiteDb.Behavior
