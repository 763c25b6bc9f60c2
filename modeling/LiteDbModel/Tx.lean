import LiteDbModel.JsonParam
import LiteDbModel.MakeSql

/-!
# Bound values of transaction statements

A batch write literalizes its concrete values into expression nodes; at execute
time every param node is evaluated, the statement is assembled over the values,
and each value is coerced for the driver. The expression evaluator is a
parameter of the model.
-/

namespace LiteDb
set_option autoImplicit false
open Json Decimal

/-- `Object.entries` of a buffer: its bytes under their indices. -/
def bufferEntries (start : Nat) : List UInt8 → List (String × JsVal)
  | [] => []
  | b :: bs =>
    (String.ofList (Nat.toDigits 10 start), .num (JsNum.ofInt b.toNat)) :: bufferEntries (start + 1) bs

mutual
def literalize : JsVal → JsVal
  | .null | .undefined => .null
  | .arr xs => .obj [("arr", .arr (literalizeElems xs))]
  | .bigint i => .obj [("int", .str (String.ofList (intText i)))]
  | .date _ => .obj [("obj", .obj [])]
  | .buffer bytes => .obj [("obj", .obj (bufferEntries 0 bytes))]
  | .obj ps => .obj [("obj", .obj (Props.ofEntries (literalizeEntries ps)))]
  | v => v

def literalizeElems : List JsVal → List JsVal
  | [] => []
  | x :: xs => literalize x :: literalizeElems xs

def literalizeEntries : List (String × JsVal) → List (String × JsVal)
  | [] => []
  | (k, x) :: ps => (k, literalize x) :: literalizeEntries ps
end

structure TxOp where
  sql : List Char
  params : List JsVal

def maxSafeInteger : Int := 2 ^ 53 - 1

def toDriverParam (dialect : Dialect) : JsVal → JsVal
  | .bigint i => if -maxSafeInteger ≤ i ∧ i ≤ maxSafeInteger then .num (JsNum.ofInt i) else .bigint i
  | .obj ps => driverText (.obj ps)
  | .date iso => driverText (.date iso)
  | .buffer bytes => driverText (.buffer bytes)
  | v => v
where
  driverText (v : JsVal) : JsVal :=
    match encodeJsonParam dialect v with
    | some text => .str (String.ofList text)
    | none => .undefined

/-! ## An evaluator of reference and literal nodes -/

def readInt : List Char → Int
  | '-' :: cs => -(Nat.ofDigitChars 10 cs 0 : Int)
  | cs => (Nat.ofDigitChars 10 cs 0 : Int)

/-- The bound parameter values, by name. -/
abbrev Env := List (String × JsVal)

mutual
def evalNode : JsVal → Env → Except String JsVal
  | .obj [("ref", .arr [.str name])], env =>
    match Props.get env name with
    | some v => .ok v
    | none => .error "unresolved reference"
  | .obj [("arr", .arr xs)], env => (evalNodes xs env).map .arr
  | .obj [("obj", .obj ps)], env => (evalEntries ps env).map .obj
  | .obj [("int", .str digits)], _ => .ok (.bigint (readInt digits.toList))
  | .obj _, _ => .error "invalid node"
  | .arr _, _ => .error "bare array is not an expression"
  | v, _ => .ok v

def evalNodes : List JsVal → Env → Except String (List JsVal)
  | [], _ => .ok []
  | x :: xs, env => do
    let v ← evalNode x env
    let vs ← evalNodes xs env
    .ok (v :: vs)

def evalEntries : List (String × JsVal) → Env → Except String (List (String × JsVal))
  | [], _ => .ok []
  | (k, x) :: ps, env => do
    let v ← evalNode x env
    let vs ← evalEntries ps env
    .ok ((k, v) :: vs)
end

theorem readInt_intText (i : Int) : readInt (intText i) = i := by
  unfold intText
  by_cases h : i < 0
  · simp only [h, if_true, List.singleton_append, readInt, Nat.ofDigitChars_ten_toDigits]
    omega
  · obtain ⟨c, cs, hc, hdig⟩ := toDigits_cons i.natAbs
    have hval : Nat.ofDigitChars 10 (c :: cs) 0 = i.natAbs := by
      rw [← hc]
      exact Nat.ofDigitChars_ten_toDigits
    simp only [h, if_false, List.nil_append, hc]
    unfold readInt
    split
    · rename_i heq
      rw [(List.cons.inj heq).1] at hdig
      exact absurd hdig (by decide)
    · rw [hval]
      omega

section
variable {Scope : Type} (evaluateExpression : JsVal → Scope → Except String JsVal)

/-- Evaluate the params and assemble the statement over them. -/
def assembleOp (op : TxOp) (scope : Scope) : Except String AssembledSql := do
  let concrete ← op.params.mapM fun p => evaluateExpression p scope
  assembleMakeSQL (.mk op.sql (ofValues concrete) false)

def evalAssemble (op : TxOp) (scope : Scope) (dialect : Dialect) : Except String AssembledSql := do
  let assembled ← assembleOp evaluateExpression op scope
  .ok ⟨assembled.sql, assembled.params.map (toDriverParam dialect)⟩

/-- The statement binds every evaluated param at its own placeholder, in the text it came with. -/
def BindsPlainly (op : TxOp) (scope : Scope) : Prop :=
  ∀ vs, op.params.mapM (fun p => evaluateExpression p scope) = .ok vs →
    assembleOp evaluateExpression op scope = bindPlain op.sql vs

/-- Which of the values a statement is executed with are skipped components. -/
def skipPattern (vs : List JsVal) : List Bool :=
  vs.map fun v =>
    match v with
    | .obj ps => isMakeSQL v && skipFlag ps
    | _ => false

theorem evalAssemble_sql (op : TxOp) (scope : Scope) (dialect : Dialect) :
    (evalAssemble evaluateExpression op scope dialect).map (·.sql) =
      (assembleOp evaluateExpression op scope).map (·.sql) := by
  unfold evalAssemble
  cases assembleOp evaluateExpression op scope <;> rfl

theorem assembleOp_eq (op : TxOp) {scope : Scope} {vs : List JsVal}
    (h : op.params.mapM (fun p => evaluateExpression p scope) = .ok vs) :
    assembleOp evaluateExpression op scope = assembleMakeSQL (.mk op.sql (ofValues vs) false) := by
  simp [assembleOp, h, bind, Except.bind]

theorem mapM_length {f : JsVal → Except String JsVal} {xs vs : List JsVal}
    (h : xs.mapM f = .ok vs) : vs.length = xs.length := by
  induction xs generalizing vs with
  | nil =>
    cases h
    rfl
  | cons x xs ih =>
    rw [List.mapM_cons] at h
    cases hx : f x with
    | error e => simp [hx, bind, Except.bind] at h
    | ok v =>
      cases hxs : xs.mapM f with
      | error e => simp [hx, hxs, bind, Except.bind] at h
      | ok vs' =>
        simp only [hx, hxs, bind, Except.bind, pure, Except.pure, Except.ok.injEq] at h
        subst h
        simp [ih hxs]

theorem bindsPlainly_iff {op : TxOp} {scope : Scope} {vs : List JsVal}
    (h : op.params.mapM (fun p => evaluateExpression p scope) = .ok vs) :
    BindsPlainly evaluateExpression op scope ↔
      op.sql.count '?' ≠ op.params.length ∨ ∀ v ∈ vs, isMakeSQL v = false := by
  have hiff := assemble_eq_bindPlain_iff op.sql vs
  rw [mapM_length h] at hiff
  rw [← hiff, ← assembleOp_eq evaluateExpression op h]
  constructor
  · intro hb
    exact hb vs h
  · intro hb ws hws
    rw [h] at hws
    cases hws
    exact hb

/-- Two runs of a statement have one text, with every value bound in it, iff no value of either
run has the shape of a component or the statement's placeholders do not match its params. -/
theorem evalAssemble_noninterference_iff (op : TxOp) (scope₁ scope₂ : Scope) (dialect : Dialect)
    (vs₁ vs₂ : List JsVal)
    (h₁ : op.params.mapM (fun p => evaluateExpression p scope₁) = .ok vs₁)
    (h₂ : op.params.mapM (fun p => evaluateExpression p scope₂) = .ok vs₂) :
    ((evalAssemble evaluateExpression op scope₁ dialect).map (·.sql) =
        (evalAssemble evaluateExpression op scope₂ dialect).map (·.sql) ∧
      BindsPlainly evaluateExpression op scope₁ ∧ BindsPlainly evaluateExpression op scope₂) ↔
      op.sql.count '?' ≠ op.params.length ∨
        (∀ v ∈ vs₁, isMakeSQL v = false) ∧ ∀ v ∈ vs₂, isMakeSQL v = false := by
  rw [bindsPlainly_iff evaluateExpression h₁, bindsPlainly_iff evaluateExpression h₂]
  constructor
  · rintro ⟨_, hp₁, hp₂⟩
    by_cases hcount : op.sql.count '?' ≠ op.params.length
    · exact Or.inl hcount
    · exact Or.inr ⟨hp₁.resolve_left hcount, hp₂.resolve_left hcount⟩
  · intro h
    have hp₁ : op.sql.count '?' ≠ op.params.length ∨ ∀ v ∈ vs₁, isMakeSQL v = false :=
      h.imp_right And.left
    have hp₂ : op.sql.count '?' ≠ op.params.length ∨ ∀ v ∈ vs₂, isMakeSQL v = false :=
      h.imp_right And.right
    refine ⟨?_, hp₁, hp₂⟩
    have hb₁ := (bindsPlainly_iff evaluateExpression h₁).mpr hp₁ vs₁ h₁
    have hb₂ := (bindsPlainly_iff evaluateExpression h₂).mpr hp₂ vs₂ h₂
    have hl₁ := mapM_length h₁
    have hl₂ := mapM_length h₂
    rw [evalAssemble_sql, evalAssemble_sql, hb₁, hb₂]
    unfold bindPlain
    rw [hl₁, hl₂]
    by_cases hcount : op.sql.count '?' ≠ op.params.length <;> simp [hcount, Except.map]

end

theorem evalAssemble_noninterference_ref :
    (evalAssemble evalNode ⟨"a = ?".toList, [.obj [("ref", .arr [.str "x"])]]⟩
        [("x", .str "'; --")] .mysql).map (·.sql) =
      (evalAssemble evalNode ⟨"a = ?".toList, [.obj [("ref", .arr [.str "x"])]]⟩
        [("x", .null)] .mysql).map (·.sql) :=
  ((evalAssemble_noninterference_iff evalNode ⟨"a = ?".toList, [.obj [("ref", .arr [.str "x"])]]⟩
    [("x", .str "'; --")] [("x", .null)] .mysql [.str "'; --"] [.null] rfl rfl).mpr
    (Or.inr (by simp [isMakeSQL]))).1

/-- A bound object with the fields `sql` and `params` is spliced into the statement's text. -/
theorem evalAssemble_splices_object :
    ¬ ∀ (op : TxOp) (scope₁ scope₂ : Env) (dialect : Dialect)
      (vs₁ vs₂ : List JsVal),
      op.params.mapM (fun p => evalNode p scope₁) = .ok vs₁ →
      op.params.mapM (fun p => evalNode p scope₂) = .ok vs₂ →
      skipPattern vs₁ = skipPattern vs₂ →
      (evalAssemble evalNode op scope₁ dialect).map (·.sql) =
          (evalAssemble evalNode op scope₂ dialect).map (·.sql) ∧
        BindsPlainly evalNode op scope₁ ∧
        BindsPlainly evalNode op scope₂ := by
  intro h
  have ht := (h ⟨"a = ?".toList, [.obj [("ref", .arr [.str "x"])]]⟩
    [("x", .obj [("sql", .str "1"), ("params", .arr [])])] [("x", .null)] .mysql
    [.obj [("sql", .str "1"), ("params", .arr [])]] [.null] rfl rfl rfl).1
  have h₁ : (evalAssemble evalNode
      ⟨"a = ?".toList, [.obj [("ref", .arr [.str "x"])]]⟩
      [("x", .obj [("sql", .str "1"), ("params", .arr [])])] .mysql).map (·.sql) =
      .ok "a = 1".toList := rfl
  have h₂ : (evalAssemble evalNode
      ⟨"a = ?".toList, [.obj [("ref", .arr [.str "x"])]]⟩ [("x", .null)] .mysql).map (·.sql) =
      .ok "a = ?".toList := rfl
  rw [h₁, h₂] at ht
  exact absurd (Except.ok.inj ht) (by decide)

/-! ## What literalization and evaluation keep -/

/-- An integral number may come back as a bigint, any other number is itself. -/
def Interns (intern : JsNum → JsVal) : Prop :=
  ∀ n, intern n = .num n ∨ ∃ i, n = JsNum.ofInt i ∧ intern n = .bigint i

/-- An evaluator that returns literal nodes unchanged, an integral number possibly as a bigint. -/
structure EvaluatesLiterals {Scope : Type} (ev : JsVal → Scope → Except String JsVal)
    (intern : JsNum → JsVal) : Prop where
  null : ∀ s, ev .null s = .ok .null
  bool : ∀ b s, ev (.bool b) s = .ok (.bool b)
  str : ∀ t s, ev (.str t) s = .ok (.str t)
  num : ∀ n s, ev (.num n) s = .ok (intern n)
  int : ∀ i s, ev (.obj [("int", .str (String.ofList (intText i)))]) s = .ok (.bigint i)
  arr : ∀ xs vs s, xs.mapM (fun x => ev x s) = .ok vs →
    ev (.obj [("arr", .arr xs)]) s = .ok (.arr vs)
  obj : ∀ ps qs s, ps.mapM (fun p => (ev p.2 s).map (Prod.mk p.1)) = .ok qs →
    ev (.obj [("obj", .obj ps)]) s = .ok (.obj qs)
  interns : Interns intern

def receivedBytes (intern : JsNum → JsVal) (start : Nat) : List UInt8 → List (String × JsVal)
  | [] => []
  | b :: bs =>
    (String.ofList (Nat.toDigits 10 start), intern (JsNum.ofInt b.toNat)) ::
      receivedBytes intern (start + 1) bs

mutual
/-- What evaluation makes of a literalized value. -/
def received (intern : JsNum → JsVal) : JsVal → JsVal
  | .undefined => .null
  | .num n => intern n
  | .date _ => .obj []
  | .buffer bytes => .obj (receivedBytes intern 0 bytes)
  | .arr xs => .arr (receivedElems intern xs)
  | .obj ps => .obj (receivedMembers intern ps)
  | v => v

def receivedElems (intern : JsNum → JsVal) : List JsVal → List JsVal
  | [] => []
  | x :: xs => received intern x :: receivedElems intern xs

def receivedMembers (intern : JsNum → JsVal) : List (String × JsVal) → List (String × JsVal)
  | [] => []
  | (k, x) :: ps =>
    if k = "__proto__" then receivedMembers intern ps
    else (k, received intern x) :: receivedMembers intern ps
end

mutual
/-- Without `undefined`, and with the keys an object can have. -/
def concrete : JsVal → Bool
  | .undefined => false
  | .arr xs => concreteElems xs
  | .obj ps => decide (Props.Canonical (Props.keys ps)) && concreteMembers ps
  | _ => true

def concreteElems : List JsVal → Bool
  | [] => true
  | x :: xs => concrete x && concreteElems xs

def concreteMembers : List (String × JsVal) → Bool
  | [] => true
  | (_, x) :: ps => concrete x && concreteMembers ps
end

section
variable {Scope : Type} {ev : JsVal → Scope → Except String JsVal} {intern : JsNum → JsVal}

theorem keys_literalizeEntries (ps : List (String × JsVal)) :
    Props.keys (literalizeEntries ps) = Props.keys ps := by
  induction ps with
  | nil => rfl
  | cons p ps ih =>
    obtain ⟨k, x⟩ := p
    simpa [Props.keys, literalizeEntries] using ih

theorem eval_bytes (hev : EvaluatesLiterals ev intern) (s : Scope) (start : Nat)
    (bytes : List UInt8) :
    (bufferEntries start bytes).mapM (fun p => (ev p.2 s).map (Prod.mk p.1)) =
      .ok (receivedBytes intern start bytes) := by
  induction bytes generalizing start with
  | nil => rfl
  | cons b bs ih =>
    rw [bufferEntries, receivedBytes, List.mapM_cons, ih, hev.num]
    rfl

mutual
theorem eval_literalize (hev : EvaluatesLiterals ev intern) (s : Scope) :
    (v : JsVal) → concrete v = true → ev (literalize v) s = .ok (received intern v)
  | .undefined, h => by cases h
  | .null, _ => hev.null s
  | .bool b, _ => hev.bool b s
  | .num n, _ => hev.num n s
  | .bigint i, _ => hev.int i s
  | .str t, _ => hev.str t s
  | .date _, _ => hev.obj [] [] s rfl
  | .buffer bytes, _ => hev.obj _ _ s (eval_bytes hev s 0 bytes)
  | .arr xs, h => hev.arr _ _ s (eval_literalizeElems hev s xs h)
  | .obj ps, h => by
    simp only [concrete, Bool.and_eq_true, decide_eq_true_eq] at h
    obtain ⟨hkeys, hps⟩ := h
    rw [← keys_literalizeEntries ps] at hkeys
    have hm := eval_literalizeEntries hev s ps hps
    rw [← Props.ofEntries_canonical hkeys] at hm
    exact hev.obj _ _ s hm

theorem eval_literalizeElems (hev : EvaluatesLiterals ev intern) (s : Scope) :
    (xs : List JsVal) → concreteElems xs = true →
      (literalizeElems xs).mapM (fun x => ev x s) = .ok (receivedElems intern xs)
  | [], _ => rfl
  | x :: xs, h => by
    simp only [concreteElems, Bool.and_eq_true] at h
    simp [literalizeElems, receivedElems, List.mapM_cons, eval_literalize hev s x h.1,
      eval_literalizeElems hev s xs h.2, bind, Except.bind, pure, Except.pure]

theorem eval_literalizeEntries (hev : EvaluatesLiterals ev intern) (s : Scope) :
    (ps : List (String × JsVal)) → concreteMembers ps = true →
      ((literalizeEntries ps).filter fun p => p.1 ≠ "__proto__").mapM
        (fun p => (ev p.2 s).map (Prod.mk p.1)) = .ok (receivedMembers intern ps)
  | [], _ => rfl
  | (k, x) :: ps, h => by
    simp only [concreteMembers, Bool.and_eq_true] at h
    have ih := eval_literalizeEntries hev s ps h.2
    by_cases hk : k = "__proto__"
    · simp only [literalizeEntries, receivedMembers, hk, if_true]
      rw [List.filter_cons_of_neg (by simp)]
      exact ih
    · simp only [literalizeEntries, receivedMembers, hk, if_false]
      rw [List.filter_cons_of_pos (by simp [hk]), List.mapM_cons, ih, eval_literalize hev s x h.1]
      rfl
end

end

/-! ## Database values -/

/-- The document an object is stored as: `JSON.stringify` of it, with bigints as integers. -/
def plainLeaf : Prim → Scalar := documentedLeaf .postgres

def docOf (ps : List (String × JsVal)) : Doc Scalar :=
  .obj (Doc.mapMembers plainLeaf (jsonMembers ps))

inductive DbValue
  | null
  | bool (b : Bool)
  | number (n : JsNum)
  | text (s : String)
  | timestamp (iso : String)
  | bytes (bs : List UInt8)
  | array (xs : List DbValue)
  | json (t : Doc Scalar)

mutual
/-- The database value a bound JavaScript value denotes. -/
def dbValue : JsVal → DbValue
  | .undefined | .null => .null
  | .bool b => .bool b
  | .num n => .number n
  | .bigint i => .number (JsNum.ofInt i)
  | .str s => .text s
  | .date iso => .timestamp iso
  | .buffer bs => .bytes bs
  | .arr xs => .array (dbValues xs)
  | .obj ps => .json (docOf ps)

def dbValues : List JsVal → List DbValue
  | [] => []
  | x :: xs => dbValue x :: dbValues xs
end

/-- The driver's value stands for the application's; an object arrives as a text of its document. -/
def SameDbValue (app driver : JsVal) : Prop :=
  match app with
  | .obj ps => ∃ text, driver = .str text ∧ parse text.toList = some (docOf ps)
  | v => dbValue driver = dbValue v

mutual
/-- No date, buffer or `__proto__` key at any depth, and only admitted leaves and keys. -/
def keeps (leafOk : Prim → Bool) (keyOk : String → Bool) : JsVal → Bool
  | .date _ | .buffer _ => false
  | .bool b => leafOk (.bool b)
  | .str s => leafOk (.str s)
  | .arr xs => keepsElems leafOk keyOk xs
  | .obj ps => keepsMembers leafOk keyOk ps
  | _ => true

def keepsElems (leafOk : Prim → Bool) (keyOk : String → Bool) : List JsVal → Bool
  | [] => true
  | x :: xs => keeps leafOk keyOk x && keepsElems leafOk keyOk xs

def keepsMembers (leafOk : Prim → Bool) (keyOk : String → Bool) : List (String × JsVal) → Bool
  | [] => true
  | (k, x) :: ps =>
    (k ≠ "__proto__" && keyOk k) && keeps leafOk keyOk x && keepsMembers leafOk keyOk ps
end

/-- A reader of leaves and keys that is right on exactly the admitted ones. -/
structure Admits (leafOf : Prim → Option Scalar) (keyOf : String → Option String)
    (leafOk : Prim → Bool) (keyOk : String → Bool) : Prop where
  null : leafOf .null = some .null
  num : ∀ d, leafOf (.num d) = some (.num d)
  bigint : ∀ i, leafOf (.bigint i) = some (.num (Dec.ofInt i))
  leaf : ∀ p, leafOf p = some (plainLeaf p) ↔ leafOk p = true
  key : ∀ k, keyOf k = some k ↔ keyOk k = true
  key_same : ∀ k k', keyOf k = some k' → k' = k

section
variable {intern : JsNum → JsVal} {leafOf : Prim → Option Scalar} {keyOf : String → Option String}
  {leafOk : Prim → Bool} {keyOk : String → Bool}

theorem jsonTree_some {v : JsVal} (h : concrete v = true) : ∃ t, jsonTree v = some t := by
  cases v with
  | undefined => cases h
  | num n => cases n <;> exact ⟨_, rfl⟩
  | _ => exact ⟨_, rfl⟩

theorem jsonMembers_length {ps : List (String × JsVal)} (h : concreteMembers ps = true) :
    (jsonMembers ps).length = ps.length := by
  induction ps with
  | nil => rfl
  | cons p ps ih =>
    obtain ⟨k, x⟩ := p
    simp only [concreteMembers, Bool.and_eq_true] at h
    obtain ⟨t, ht⟩ := jsonTree_some h.1
    simp [jsonMembers, ht, ih h.2]

theorem jsonMembers_received_length (intern : JsNum → JsVal) (ps : List (String × JsVal)) :
    (jsonMembers (receivedMembers intern ps)).length ≤ ps.length := by
  induction ps with
  | nil => exact Nat.le_refl 0
  | cons p ps ih =>
    obtain ⟨k, x⟩ := p
    by_cases hk : k = "__proto__"
    · simp only [receivedMembers, hk, if_true, List.length_cons]
      omega
    · simp only [receivedMembers, hk, if_false, jsonMembers]
      split <;> simp only [List.length_cons] <;> omega

mutual
/-- The document received for a value reads as the value's own iff the value is kept. -/
theorem read_received (ha : Admits leafOf keyOf leafOk keyOk)
    (hi : Interns intern) :
    (v : JsVal) → concrete v = true → ∃ t t', jsonTree v = some t ∧
      jsonTree (received intern v) = some t' ∧
      (t'.read leafOf keyOf = some (t.map plainLeaf) ↔ keeps leafOk keyOk v = true)
  | .undefined, h => by cases h
  | .null, _ => ⟨.leaf .null, .leaf .null, rfl, rfl, by
      simp [Doc.read, Doc.map, ha.null, plainLeaf, documentedLeaf, keeps]⟩
  | .bool b, _ => ⟨.leaf (.bool b), .leaf (.bool b), rfl, rfl, by
      simp [Doc.read, Doc.map, keeps, ← ha.leaf]⟩
  | .str s, _ => ⟨.leaf (.str s), .leaf (.str s), rfl, rfl, by
      simp [Doc.read, Doc.map, keeps, ← ha.leaf]⟩
  | .bigint i, _ => ⟨.leaf (.bigint i), .leaf (.bigint i), rfl, rfl, by
      simp [Doc.read, Doc.map, ha.bigint, plainLeaf, documentedLeaf, keeps]⟩
  | .num n, _ => by
    rcases hi n with hn | ⟨i, rfl, hn⟩
    · cases n with
      | fin d =>
        refine ⟨.leaf (.num d), .leaf (.num d), rfl, by rw [received, hn]; rfl, ?_⟩
        simp [Doc.read, Doc.map, ha.num, plainLeaf, documentedLeaf, keeps]
      | nan | inf _ =>
        refine ⟨.leaf .null, .leaf .null, rfl, by rw [received, hn]; rfl, ?_⟩
        simp [Doc.read, Doc.map, ha.null, plainLeaf, documentedLeaf, keeps]
    · refine ⟨.leaf (.num (Dec.ofInt i)), .leaf (.bigint i), rfl, by rw [received, hn]; rfl, ?_⟩
      simp [Doc.read, Doc.map, ha.bigint, plainLeaf, documentedLeaf, keeps]
  | .date iso, _ => ⟨.leaf (.str iso), .obj [], rfl, rfl, by
      simp [Doc.read, Doc.readMembers, Doc.map, keeps]⟩
  | .buffer bytes, _ => by
    refine ⟨_, .obj (jsonMembers (receivedBytes intern 0 bytes)), rfl, rfl, ?_⟩
    simp only [keeps, Bool.false_eq_true, iff_false, Doc.read, Doc.map, Doc.mapMembers]
    intro h
    obtain ⟨qs, hqs, heq⟩ := Option.map_eq_some_iff.mp h
    cases heq
    cases bytes with
    | nil => simp [receivedBytes, jsonMembers, Doc.readMembers] at hqs
    | cons b bs =>
      have hb : ∃ t, jsonTree (intern (JsNum.ofInt b.toNat)) = some t := by
        rcases hi (JsNum.ofInt b.toNat) with hn | ⟨i, _, hn⟩ <;> rw [hn] <;> exact ⟨_, rfl⟩
      obtain ⟨t, ht⟩ := hb
      simp only [receivedBytes, jsonMembers, ht, Doc.readMembers, Option.bind_eq_some_iff,
        Option.map_eq_some_iff] at hqs
      obtain ⟨k', hk', _, _, _, _, heq⟩ := hqs
      have hk := ha.key_same _ _ hk'
      have : k' = "type" := (Prod.mk.inj (List.cons.inj heq).1).1
      rw [this] at hk
      exact absurd hk (by decide)
  | .arr xs, h => by
    refine ⟨.arr (jsonElems xs), .arr (jsonElems (receivedElems intern xs)), rfl, rfl, ?_⟩
    simp only [Doc.read, Doc.map, keeps, ← readElems_received ha hi xs h,
      Option.map_eq_some_iff, Doc.arr.injEq, exists_eq_right]
  | .obj ps, h => by
    simp only [concrete, Bool.and_eq_true] at h
    refine ⟨.obj (jsonMembers ps), .obj (jsonMembers (receivedMembers intern ps)), rfl, rfl, ?_⟩
    simp only [Doc.read, Doc.map, keeps, ← readMembers_received ha hi ps h.2,
      Option.map_eq_some_iff, Doc.obj.injEq, exists_eq_right]

theorem readElems_received (ha : Admits leafOf keyOf leafOk keyOk)
    (hi : Interns intern) :
    (xs : List JsVal) → concreteElems xs = true →
      (Doc.readElems leafOf keyOf (jsonElems (receivedElems intern xs)) =
        some (Doc.mapElems plainLeaf (jsonElems xs)) ↔ keepsElems leafOk keyOk xs = true)
  | [], _ => by simp [receivedElems, jsonElems, Doc.readElems, Doc.mapElems, keepsElems]
  | x :: xs, h => by
    simp only [concreteElems, Bool.and_eq_true] at h
    obtain ⟨t, t', ht, ht', hx⟩ := read_received ha hi x h.1
    have hxs := readElems_received ha hi xs h.2
    simp only [receivedElems, jsonElems, ht, ht', Option.getD_some, Doc.readElems, Doc.mapElems,
      keepsElems, Bool.and_eq_true, ← hx, ← hxs]
    cases t'.read leafOf keyOf <;>
      cases Doc.readElems leafOf keyOf (jsonElems (receivedElems intern xs)) <;> simp

theorem readMembers_received (ha : Admits leafOf keyOf leafOk keyOk)
    (hi : Interns intern) :
    (ps : List (String × JsVal)) → concreteMembers ps = true →
      (Doc.readMembers leafOf keyOf (jsonMembers (receivedMembers intern ps)) =
        some (Doc.mapMembers plainLeaf (jsonMembers ps)) ↔ keepsMembers leafOk keyOk ps = true)
  | [], _ => by simp [receivedMembers, jsonMembers, Doc.readMembers, Doc.mapMembers, keepsMembers]
  | (k, x) :: ps, h => by
    have hlen := jsonMembers_length h
    simp only [concreteMembers, Bool.and_eq_true] at h
    by_cases hk : k = "__proto__"
    · simp only [receivedMembers, hk, if_true, keepsMembers, ne_eq, not_true_eq_false,
        decide_false, Bool.false_and, Bool.false_eq_true, iff_false]
      intro hread
      have h1 := Doc.readMembers_length hread
      have h2 := jsonMembers_received_length intern ps
      rw [hk] at hlen
      rw [Doc.mapMembers_length, hlen] at h1
      simp only [List.length_cons] at h1
      omega
    · obtain ⟨t, t', ht, ht', hx⟩ := read_received ha hi x h.1
      have hps := readMembers_received ha hi ps h.2
      simp only [receivedMembers, hk, if_false, jsonMembers, ht, ht', Doc.readMembers,
        Doc.mapMembers, keepsMembers, ne_eq, not_false_eq_true, decide_true, Bool.true_and,
        Bool.and_eq_true, ← hx, ← hps, ← ha.key]
      cases keyOf k <;> cases t'.read leafOf keyOf <;>
        cases Doc.readMembers leafOf keyOf (jsonMembers (receivedMembers intern ps)) <;>
        simp [and_assoc]
end

end

/-- No date, buffer or `__proto__` key at any depth. -/
def intact : JsVal → Bool := keeps (fun _ => true) (fun _ => true)

theorem admits_plain :
    Admits (fun p => some (plainLeaf p)) some (fun _ => true) (fun _ => true) where
  null := rfl
  num := fun _ => rfl
  bigint := fun _ => rfl
  leaf := by simp
  key := by simp
  key_same := fun _ _ h => (Option.some.inj h).symm

/-- The leaves of a document that the JSON parameter encoder keeps on the dialect. -/
def encodable (dialect : Dialect) : Prim → Bool
  | .str s => !forgesBigint s
  | .bool _ => dialect ≠ .mysql
  | _ => true

theorem admits_encoded (dialect : Dialect) :
    Admits (leafRead dialect) keyRead (encodable dialect) (fun k => !forgesBigint k) where
  null := rfl
  num := fun _ => rfl
  bigint := fun _ => rfl
  leaf := by
    intro p
    cases p with
    | str s => simpa [leafRead, plainLeaf, documentedLeaf, encodable] using stringRead_eq_iff s
    | bool b => cases dialect <;> simp [leafRead, plainLeaf, documentedLeaf, encodable]
    | _ => simp [leafRead, plainLeaf, documentedLeaf, encodable]
  key := by
    intro k
    unfold keyRead
    cases forgesBigint k <;> simp
  key_same := by
    intro k k' h
    unfold keyRead at h
    split at h
    · cases h
    · exact (Option.some.inj h).symm

/-- A value survives as a bound param: an object as an encodable document that is no component. -/
def survives (dialect : Dialect) : JsVal → Bool
  | .obj ps =>
    keepsMembers (encodable dialect) (fun k => !forgesBigint k) ps && !isMakeSQL (.obj ps)
  | v => intact v

section
variable {intern : JsNum → JsVal}

mutual
theorem dbValue_received (hi : Interns intern) : (v : JsVal) → concrete v = true →
    (dbValue (received intern v) = dbValue v ↔ intact v = true)
  | .undefined, h => by cases h
  | .null, _ => by simp [received, intact, keeps]
  | .bool b, _ => by simp [received, intact, keeps]
  | .str s, _ => by simp [received, intact, keeps]
  | .bigint i, _ => by simp [received, intact, keeps]
  | .num n, _ => by
    rcases hi n with hn | ⟨i, rfl, hn⟩ <;> simp [received, hn, dbValue, intact, keeps]
  | .date iso, _ => by simp [received, dbValue, intact, keeps]
  | .buffer bs, _ => by simp [received, dbValue, intact, keeps]
  | .arr xs, h => by
    simp only [received, dbValue, intact, keeps, DbValue.array.injEq]
    exact dbValues_received hi xs h
  | .obj ps, h => by
    simp only [concrete, Bool.and_eq_true] at h
    have hps := readMembers_received admits_plain hi ps h.2
    rw [Doc.readMembers_some, Option.some.injEq] at hps
    simp only [received, dbValue, intact, keeps, docOf, DbValue.json.injEq, Doc.obj.injEq, hps]

theorem dbValues_received (hi : Interns intern) : (xs : List JsVal) → concreteElems xs = true →
    (dbValues (receivedElems intern xs) = dbValues xs ↔
      keepsElems (fun _ => true) (fun _ => true) xs = true)
  | [], _ => by simp [receivedElems, keepsElems]
  | x :: xs, h => by
    simp only [concreteElems, Bool.and_eq_true] at h
    have hx := dbValue_received hi x h.1
    have hxs := dbValues_received hi xs h.2
    simp only [receivedElems, dbValues, keepsElems, List.cons.injEq, Bool.and_eq_true, hx, hxs,
      intact]
end

/-- An object's document arrives iff each of its leaves and keys is encodable. -/
theorem object_arrives (hi : Interns intern) (dialect : Dialect) (ps : List (String × JsVal))
    (h : concreteMembers ps = true) :
    SameDbValue (.obj ps) (toDriverParam dialect (received intern (.obj ps))) ↔
      keepsMembers (encodable dialect) (fun k => !forgesBigint k) ps = true := by
  have hread := readMembers_received (admits_encoded dialect) hi ps h
  obtain ⟨text, he, hp⟩ := parse_encodeJsonParam dialect
    (.obj (receivedMembers intern ps)) rfl
  have hdriver : toDriverParam dialect (received intern (.obj ps)) = .str (String.ofList text) := by
    simp only [received, toDriverParam, toDriverParam.driverText, he]
  rw [hdriver, ← hread]
  simp only [SameDbValue, JsVal.str.injEq, exists_eq_left', String.toList_ofList, hp, Doc.read,
    docOf, Option.map_eq_some_iff, Doc.obj.injEq, exists_eq_right]

theorem value_arrives (hi : Interns intern) (dialect : Dialect) {v : JsVal} (h : concrete v = true)
    (hv : ∀ ps, v ≠ .obj ps) :
    SameDbValue v (toDriverParam dialect (received intern v)) ↔ intact v = true := by
  have hr := dbValue_received hi v h
  cases v with
  | obj ps => exact absurd rfl (hv ps)
  | undefined => cases h
  | date iso =>
    simp [SameDbValue, received, toDriverParam, toDriverParam.driverText, encodeJsonParam, jsonTree,
      jsonMembers, dbValue, intact, keeps]
  | buffer bs =>
    simp [SameDbValue, received, toDriverParam, toDriverParam.driverText, encodeJsonParam, jsonTree,
      dbValue, intact, keeps]
  | num n =>
    rcases hi n with hn | ⟨i, rfl, hn⟩
    · simp [SameDbValue, received, hn, toDriverParam, intact, keeps]
    · simp only [SameDbValue, received, hn, toDriverParam, intact, keeps]
      split <;> simp [dbValue]
  | bigint i =>
    simp only [SameDbValue, received, toDriverParam, intact, keeps]
    split <;> simp [dbValue]
  | arr xs => exact hr
  | _ => exact hr

theorem get_receivedMembers {k : String} (hk : k ≠ "__proto__") (ps : List (String × JsVal)) :
    Props.get (receivedMembers intern ps) k = (Props.get ps k).map (received intern) := by
  induction ps with
  | nil => rfl
  | cons p ps ih =>
    obtain ⟨k', x⟩ := p
    rw [Props.get_cons]
    by_cases hp : k' = "__proto__"
    · have hne : k' ≠ k := fun h => hk (h ▸ hp)
      simp only [receivedMembers, hp, if_true, ih]
      rw [if_neg (hp ▸ hne)]
    · simp only [receivedMembers, hp, if_false, Props.get_cons, ih]
      split <;> rfl

theorem isMakeSQL_received (hi : Interns intern) (ps : List (String × JsVal)) :
    isMakeSQL (received intern (.obj ps)) = isMakeSQL (.obj ps) := by
  have hnum : ∀ n, (∃ m, intern n = .num m) ∨ ∃ i, intern n = .bigint i := by
    intro n
    rcases hi n with hn | ⟨i, _, hn⟩
    · exact Or.inl ⟨n, hn⟩
    · exact Or.inr ⟨i, hn⟩
  simp only [received, isMakeSQL, get_receivedMembers (show "sql" ≠ "__proto__" by decide),
    get_receivedMembers (show "params" ≠ "__proto__" by decide)]
  cases hs : Props.get ps "sql" with
  | none => rfl
  | some x =>
    cases hp : Props.get ps "params" with
    | none =>
      cases x with
      | num n => rcases hnum n with ⟨m, hn⟩ | ⟨i, hn⟩ <;> simp [received, hn]
      | _ => rfl
    | some y =>
      cases x with
      | str s =>
        cases y with
        | num n => rcases hnum n with ⟨m, hn⟩ | ⟨i, hn⟩ <;> simp [received, hn]
        | _ => rfl
      | num n => rcases hnum n with ⟨m, hn⟩ | ⟨i, hn⟩ <;> simp [received, hn]
      | _ => rfl

end

section
variable {Scope : Type} {ev : JsVal → Scope → Except String JsVal} {intern : JsNum → JsVal}

/-- A statement over literalized values hands each of them, coerced, to the driver at its own
placeholder, where it stands for the value the application passed. -/
def DeliversEach (ev : JsVal → Scope → Except String JsVal) (dialect : Dialect) (sql : List Char)
    (vs : List JsVal) (scope : Scope) : Prop :=
  ∃ ws, (vs.map literalize).mapM (fun p => ev p scope) = .ok ws ∧
    assembleOp ev ⟨sql, vs.map literalize⟩ scope = .ok ⟨sql, ws⟩ ∧
    List.Forall₂ SameDbValue vs (ws.map (toDriverParam dialect))

theorem eval_literalized (hev : EvaluatesLiterals ev intern) (s : Scope) {vs : List JsVal}
    (h : ∀ v ∈ vs, concrete v = true) :
    (vs.map literalize).mapM (fun p => ev p s) = .ok (vs.map (received intern)) := by
  induction vs with
  | nil => rfl
  | cons v vs ih =>
    rw [List.map_cons, List.mapM_cons, eval_literalize hev s v (h v List.mem_cons_self),
      ih fun w hw => h w (List.mem_cons_of_mem v hw)]
    rfl

theorem survives_iff (hi : Interns intern)
    (dialect : Dialect) {v : JsVal} (h : concrete v = true) :
    (isMakeSQL (received intern v) = false ∧
      SameDbValue v (toDriverParam dialect (received intern v))) ↔ survives dialect v = true := by
  cases hv : v with
  | obj ps =>
    rw [hv] at h
    simp only [concrete, Bool.and_eq_true] at h
    rw [isMakeSQL_received hi, object_arrives hi dialect ps h.2]
    simp [survives, and_comm]
  | num n =>
    have hs := value_arrives hi dialect (v := .num n) rfl (by intro ps hps; cases hps)
    have hun : isMakeSQL (received intern (.num n)) = false := by
      rcases hi n with hn | ⟨i, _, hn⟩ <;> simp [received, hn, isMakeSQL]
    rw [hs]
    simp [hun, survives]
  | date iso =>
    have hs := value_arrives hi dialect (v := .date iso) rfl (by intro ps hps; cases hps)
    rw [hs]
    simp [survives, intact, keeps]
  | buffer bs =>
    have hs := value_arrives hi dialect (v := .buffer bs) rfl (by intro ps hps; cases hps)
    rw [hs]
    simp [survives, intact, keeps]
  | undefined =>
    rw [hv] at h
    cases h
  | _ =>
    rw [hv] at h
    rw [value_arrives hi dialect h (by intro ps hps; cases hps)]
    simp [received, isMakeSQL, survives]

/-- Every bound value reaches the driver as the value the application passed iff each survives. -/
theorem deliversEach_iff (hev : EvaluatesLiterals ev intern) (dialect : Dialect) (sql : List Char)
    (vs : List JsVal) (scope : Scope) (hvs : ∀ v ∈ vs, concrete v = true)
    (hcount : sql.count '?' = vs.length) :
    DeliversEach ev dialect sql vs scope ↔ ∀ v ∈ vs, survives dialect v = true := by
  have heval := eval_literalized hev scope hvs
  have hplain := assemble_eq_bindPlain_iff sql (vs.map (received intern))
  rw [bindPlain, List.length_map, hcount, if_neg (not_not.mpr rfl)] at hplain
  simp only [ne_eq, not_true_eq_false, false_or, List.forall_mem_map] at hplain
  have hpoint : DeliversEach ev dialect sql vs scope ↔
      (∀ v ∈ vs, isMakeSQL (received intern v) = false) ∧
        ∀ v ∈ vs, SameDbValue v (toDriverParam dialect (received intern v)) := by
    unfold DeliversEach
    simp only [heval, Except.ok.injEq, exists_eq_left']
    rw [assembleOp_eq ev ⟨sql, vs.map literalize⟩ heval, hplain, List.map_map,
      List.forall₂_map_right_iff, List.forall₂_same]
    rfl
  rw [hpoint]
  constructor
  · rintro ⟨hun, hsame⟩ v hv
    exact (survives_iff hev.interns dialect (hvs v hv)).mp ⟨hun v hv, hsame v hv⟩
  · intro h
    have := fun v hv => (survives_iff hev.interns dialect (hvs v hv)).mpr (h v hv)
    exact ⟨fun v hv => (this v hv).1, fun v hv => (this v hv).2⟩

end

theorem evalNodes_eq_mapM (xs : List JsVal) (env : Env) :
    evalNodes xs env = xs.mapM fun x => evalNode x env := by
  induction xs with
  | nil => rfl
  | cons x xs ih =>
    rw [List.mapM_cons, ← ih]
    rfl

theorem evalEntries_eq_mapM (ps : List (String × JsVal)) (env : Env) :
    evalEntries ps env = ps.mapM fun p => (evalNode p.2 env).map (Prod.mk p.1) := by
  induction ps with
  | nil => rfl
  | cons p ps ih =>
    obtain ⟨k, x⟩ := p
    rw [List.mapM_cons, ← ih, evalEntries]
    cases evalNode x env <;> rfl

theorem evalNode_literals : EvaluatesLiterals evalNode JsVal.num where
  null := fun _ => rfl
  bool := fun _ _ => rfl
  str := fun _ _ => rfl
  num := fun _ _ => rfl
  int := by
    intro i env
    rw [evalNode, String.toList_ofList, readInt_intText]
  arr := by
    intro xs vs env h
    rw [evalNode, evalNodes_eq_mapM, h]
    rfl
  obj := by
    intro ps qs env h
    rw [evalNode, evalEntries_eq_mapM, h]
    rfl
  interns := fun n => Or.inl rfl

theorem deliversEach_array :
    DeliversEach evalNode .postgres "a = ?".toList
      [.arr [.bigint 9007199254740993, .obj [("k", .str "v")]]] [] :=
  (deliversEach_iff evalNode_literals .postgres "a = ?".toList
    [.arr [.bigint 9007199254740993, .obj [("k", .str "v")]]] [] (by decide) (by decide)).mpr
    (by decide)

/-- A date reaches the driver as the text of an empty object. -/
theorem literalize_loses_date :
    ¬ ∀ (dialect : Dialect) (sql : List Char) (vs : List JsVal) (env : Env),
      (∀ v ∈ vs, concrete v = true) → sql.count '?' = vs.length →
        DeliversEach evalNode dialect sql vs env := by
  intro h
  obtain ⟨ws, hws, _, hsame⟩ := h .postgres "a = ?".toList [.date "2024-01-01T00:00:00.000Z"] []
    (by decide) (by decide)
  have heval : ([JsVal.date "2024-01-01T00:00:00.000Z"].map literalize).mapM
      (fun p => evalNode p []) = .ok [.obj []] := rfl
  rw [heval] at hws
  cases hws
  have hd : toDriverParam .postgres (.obj []) = .str "{}" := by
    simp [toDriverParam, toDriverParam.driverText, encodeJsonParam, jsonTree, jsonMembers, Doc.map,
      Doc.mapMembers, Doc.text, Text.replaceAll, taggedInt]
  obtain ⟨hhead, _⟩ := List.forall₂_cons.mp hsame
  rw [hd] at hhead
  simp [SameDbValue, dbValue] at hhead

end LiteDb
