import LiteDbModel.Behavior.Values
import LiteDbModel.Lib.Exit

/-!
# Expressions

A node of an IR document is made into a function of the scope. What is wrong with a node's shape is
raised where the node is evaluated, so a branch that is not taken is never looked at.
-/

namespace LiteDb.Behavior
set_option autoImplicit false

/-- The bindings that an expression may name. -/
abbrev Scope := String → Option Val

/-- The closure that a node is made into. -/
abbrev Eval := Scope → Except Failure Val

inductive Op
  | int | float | ref | refOpt | obj | arr
  | add | sub | mul | neg | div | mod | concat
  | eq | ne | lt | le | gt | ge
  | and | or | not | coalesce | cond | len
deriving DecidableEq

def Op.name : Op → String
  | .int => "int"
  | .float => "float"
  | .ref => "ref"
  | .refOpt => "refOpt"
  | .obj => "obj"
  | .arr => "arr"
  | .add => "add"
  | .sub => "sub"
  | .mul => "mul"
  | .neg => "neg"
  | .div => "div"
  | .mod => "mod"
  | .concat => "concat"
  | .eq => "eq"
  | .ne => "ne"
  | .lt => "lt"
  | .le => "le"
  | .gt => "gt"
  | .ge => "ge"
  | .and => "and"
  | .or => "or"
  | .not => "not"
  | .coalesce => "coalesce"
  | .cond => "cond"
  | .len => "len"

def Op.all : List Op :=
  [.int, .float, .ref, .refOpt, .obj, .arr, .add, .sub, .mul, .neg, .div, .mod, .concat, .eq, .ne,
    .lt, .le, .gt, .ge, .and, .or, .not, .coalesce, .cond, .len]

def opOf (key : String) : Option Op := Op.all.find? fun op => op.name = key

/-! ## Literals -/

def safeInt : Int := 9007199254740991

def widenExact : Int := 9007199254740992

def checkFinite (f : Float) : Except Failure Float :=
  if finite f then .ok f else raise .nanOrInf "non-finite float"

/-- The digits behind the sign of a text that `/^-?\d+$/` matches; `$` also matches before a line
break at the end. -/
def literalDigits (s : String) : Option (Bool × List Char) :=
  let (neg, ds) := match s.toList with
    | '-' :: ds => (true, ds)
    | ds => (false, ds)
  let digits := ds.takeWhile Char.isDigit
  let rest := ds.dropWhile Char.isDigit
  if digits ≠ [] ∧ (rest = [] ∨ rest = ['\n']) then some (neg, ds) else none

/-- Digits without leading zeros, compared as numbers. -/
def decStrGreater (a b : List Char) : Bool :=
  if a.length ≠ b.length then decide (b.length < a.length) else cmpChars a b = .gt

def maxAbs (neg : Bool) : List Char :=
  (if neg then "9223372036854775808" else "9223372036854775807").toList

def signed (neg : Bool) (n : Nat) : Int := if neg then -(n : Int) else n

def parseI64Literal (s : String) : Except Failure Int :=
  match literalDigits s with
  | none => raise .invalidLiteral s!"invalid int literal: {s}"
  | some (neg, ds) =>
    let digits := ds.dropWhile (· = '0')
    if digits = [] then .ok 0
    else
      if decStrGreater digits (maxAbs neg) then raise .intOverflow s!"i64 overflow: {s}"
      else .ok (signed neg (Nat.ofDigitChars 10 (digits.takeWhile Char.isDigit) 0))

/-! ## Operators on values -/

def typeMismatch (message : String) : Except Failure Val := raise .typeMismatch message

/-- The remainder of the truncated quotient of two doubles, which is a double. -/
def fmod (a b : Float) : Float :=
  let word (f : Float) : Binary64.Word := f.toBits.toBitVec
  if !finite a || b.isNaN || b == 0 then 0 / 0
  else if b.isInf then a
  else
    let e := min (Binary64.scale (word a)) (Binary64.scale (word b))
    let part (f : Float) := Binary64.significand (word f) * 2 ^ (Binary64.scale (word f) - e).toNat
    let r := (Float.ofNat (part a % part b)).scaleB e
    if Binary64.negative (word a) then -r else r

def arith (op : Op) (onInt : Int → Int → Int) (onFloat : Float → Float → Float) :
    Val → Val → Except Failure Val
  | .int a, .int b =>
    if isI64 (onInt a b) then .ok (.int (onInt a b))
    else raise .intOverflow s!"i64 overflow in {op.name}"
  | .float a, .float b => (checkFinite (onFloat a b)).map .float
  | a, b => typeMismatch s!"{op.name}: int×int か float×float（got {a.typeName}×{b.typeName}）"

def negate : Val → Except Failure Val
  | .int a => if isI64 (-a) then .ok (.int (-a)) else raise .intOverflow "i64 overflow in neg"
  | .float a => (checkFinite (-a)).map .float
  | a => typeMismatch s!"neg: numeric expected, got {a.typeName}"

def widenToFloat : Val → Except Failure Float
  | .float f => .ok f
  | .int n =>
    if widenExact < n ∨ n < -widenExact then
      raise .precisionLoss s!"int {n} exceeds exact float range (±2^53)"
    else .ok (Float.ofInt n)
  | v => raise .typeMismatch s!"numeric operand expected, got {v.typeName}"

def divide (a b : Val) : Except Failure Val := do
  let x ← widenToFloat a
  let y ← widenToFloat b
  if y == 0 then raise .nanOrInf "division produced a non-finite float (div by zero)"
  else (checkFinite (x / y)).map .float

def modulo : Val → Val → Except Failure Val
  | .int a, .int b =>
    if b = 0 then raise .modZero "int mod by zero" else .ok (.int (a.tmod b))
  | .float a, .float b => (checkFinite (fmod a b)).map .float
  | a, b => typeMismatch s!"mod: int×int か float×float（got {a.typeName}×{b.typeName}）"

def valueEquals : Val → Val → Except Failure Bool
  | .null, .null => .ok true
  | .null, _ | _, .null => .ok false
  | .bool a, .bool b => .ok (a = b)
  | .int a, .int b => .ok (a = b)
  | .float a, .float b => .ok (a == b)
  | .str a, .str b => .ok (a = b)
  | a, b =>
    if a.typeName ≠ b.typeName then
      raise .typeMismatch s!"eq/ne: 同一型のみ（got {a.typeName}×{b.typeName}）"
    else raise .typeMismatch "eq/ne: obj/arr の等価は v1 で未定義"

/-- Which of the two comes first; no order where a float is not a number. -/
def order (op : Op) : Val → Val → Except Failure (Option Ordering)
  | .int a, .int b => .ok (some (compare a b))
  | .float a, .float b =>
    .ok (if a < b then some .lt else if b < a then some .gt else if a == b then some .eq else none)
  | .str a, .str b => .ok (some (cmpCodePoints a b))
  | a, b =>
    raise .typeMismatch
      s!"{op.name}: 同一型の int/float/string のみ（got {a.typeName}×{b.typeName}）"

def Op.holds : Op → Ordering → Bool
  | .lt, c => c = .lt
  | .le, c => c ≠ .gt
  | .gt, c => c = .gt
  | _, c => c ≠ .lt

def inOrder (op : Op) (a b : Val) : Except Failure Val := do
  match ← order op a b with
  | none => .ok (.bool false)
  | some c => .ok (.bool (op.holds c))

def equality (negated : Bool) (a b : Val) : Except Failure Val := do
  let equal ← valueEquals a b
  .ok (.bool (if negated then !equal else equal))

def requireBool (v : Val) (ctx : String) : Except Failure Bool :=
  match v with
  | .bool b => .ok b
  | v => raise .typeMismatch s!"{ctx}: bool expected, got {v.typeName}（truthiness は存在しない）"

def logicalNot (v : Val) : Except Failure Val := do
  let b ← requireBool v "not"
  .ok (.bool !b)

def length : Val → Except Failure Val
  | .arr xs => .ok (.int xs.length)
  | a => typeMismatch s!"len: 配列のみ（string length は v1 に存在しない。got {a.typeName}）"

def requireText : Val → Except Failure String
  | .str s => .ok s
  | v => raise .typeMismatch s!"concat: string のみ（got {v.typeName}）"

/-! ## References -/

def follow (propagateNull : Bool) : Val → List String → Except Failure Val
  | cur, [] => .ok cur
  | .null, seg :: _ =>
    if propagateNull then .ok .null
    else raise .nullRef s!"null intermediate at .{seg}（?. を使う）"
  | .obj ps, seg :: rest =>
    match ps.lookup seg with
    | none => raise .missingProp s!"missing property .{seg}"
    | some cur => follow propagateNull cur rest
  | cur, seg :: _ => typeMismatch s!"cannot access .{seg} on {cur.typeName}"

/-- The texts of a path, where all of it is texts. -/
def segments : List Val → Option (List String)
  | [] => some []
  | .str s :: vs => (segments vs).map (s :: ·)
  | _ :: _ => none

def lookupRef (propagateNull : Bool) (head : String) (rest : List String) : Eval := fun scope =>
  match scope head with
  | none => raise .unknownBinding s!"unknown binding: {head}"
  | some cur => follow propagateNull cur rest

def compileRef (op : Op) (arg : Val) : Except Failure Eval :=
  match arg with
  | .arr path =>
    match segments path with
    | some (head :: rest) => .ok (lookupRef (op = .refOpt) head rest)
    | _ => raise .invalidNode s!"{op.name} expects a non-empty string path"
  | _ => raise .invalidNode s!"{op.name} expects an args array"

/-! ## Nodes -/

def constant (v : Val) : Eval := fun _ => .ok v

def deferred (e : Failure) : Eval := fun _ => .error e

/-- `compile`: a failure of the shape is raised when the closure is applied. -/
def orDeferred : Except Failure Eval → Eval
  | .ok f => f
  | .error e => deferred e

def argArray (op : Op) : Option (List Eval) → Except Failure (List Eval)
  | some args => .ok args
  | none => raise .invalidNode s!"{op.name} expects an args array"

def argUnary (op : Op) (args : Option (List Eval)) : Except Failure Eval := do
  match ← argArray op args with
  | [a] => .ok a
  | _ => raise .invalidNode s!"{op.name} expects 1 arg"

def rawBinary (op : Op) (args : Option (List Eval)) : Except Failure (Eval × Eval) := do
  match ← argArray op args with
  | [a, b] => .ok (a, b)
  | _ => raise .invalidNode s!"{op.name} expects 2 args"

def evalAll (scope : Scope) : List Eval → Except Failure (List Val)
  | [] => .ok []
  | f :: fs => do
    let v ← f scope
    let vs ← evalAll scope fs
    .ok (v :: vs)

def evalFields (scope : Scope) : List (String × Eval) → Except Failure (List (String × Val))
  | [] => .ok []
  | (k, f) :: fs => do
    let v ← f scope
    let vs ← evalFields scope fs
    .ok ((k, v) :: vs)

/-- Each part is checked before the next one is evaluated. -/
def evalTexts (scope : Scope) : List Eval → Except Failure String
  | [] => .ok ""
  | f :: fs => do
    let s ← requireText (← f scope)
    let rest ← evalTexts scope fs
    .ok (s ++ rest)

def unary (apply : Val → Except Failure Val) (arg : Eval) : Eval := fun scope => do
  apply (← arg scope)

/-- Both operands, the left one first. -/
def strict (apply : Val → Val → Except Failure Val) (args : Eval × Eval) : Eval := fun scope => do
  let a ← args.1 scope
  let b ← args.2 scope
  apply a b

def shortCircuit (op : Op) (stop : Bool) (args : Eval × Eval) : Eval := fun scope => do
  let a ← requireBool (← args.1 scope) op.name
  if a = stop then .ok (.bool stop)
  else do
    let b ← requireBool (← args.2 scope) op.name
    .ok (.bool b)

def orElse (args : Eval × Eval) : Eval := fun scope => do
  match ← args.1 scope with
  | .null => args.2 scope
  | a => .ok a

def branch (c t e : Eval) : Eval := fun scope => do
  if ← requireBool (← c scope) "cond" then t scope else e scope

def record (fields : List (String × Eval)) : Eval := fun scope => (evalFields scope fields).map .obj

def list (elems : List Eval) : Eval := fun scope => (evalAll scope elems).map .arr

def text (parts : List Eval) : Eval := fun scope => (evalTexts scope parts).map .str

/-- An operator node, given what its argument is compiled to where that is an array or an object. -/
def compileOp (op : Op) (arg : Val) (args : Option (List Eval))
    (fields : Option (List (String × Eval))) : Except Failure Eval :=
  match op with
  | .int =>
    match arg with
    | .str s => do
      let n ← parseI64Literal s
      .ok (constant (.int n))
    | _ => raise .invalidNode "\x7bint: ...\x7d expects a string"
  | .float =>
    match arg with
    | .int n => do
      let f ← checkFinite (Float.ofInt n)
      .ok (constant (.float f))
    | .float f => do
      let f ← checkFinite f
      .ok (constant (.float f))
    | _ => raise .invalidNode "\x7bfloat: ...\x7d expects a number"
  | .ref | .refOpt => compileRef op arg
  | .obj =>
    match fields with
    | some fields => .ok (record fields)
    | none => raise .invalidNode "\x7bobj: ...\x7d expects an object"
  | .arr => do
    let elems ← argArray op args
    .ok (list elems)
  | .add => do
    let args ← rawBinary op args
    .ok (strict (arith op (· + ·) (· + ·)) args)
  | .sub => do
    let args ← rawBinary op args
    .ok (strict (arith op (· - ·) (· - ·)) args)
  | .mul => do
    let args ← rawBinary op args
    .ok (strict (arith op (· * ·) (· * ·)) args)
  | .neg => do
    let a ← argUnary op args
    .ok (unary negate a)
  | .div => do
    let args ← rawBinary op args
    .ok (strict divide args)
  | .mod => do
    let args ← rawBinary op args
    .ok (strict modulo args)
  | .concat => do
    let parts ← argArray op args
    if parts.length < 2 then
      raise .invalidNode s!"concat expects >= 2 args, got {parts.length}"
    else .ok (text parts)
  | .eq => do
    let args ← rawBinary op args
    .ok (strict (equality false) args)
  | .ne => do
    let args ← rawBinary op args
    .ok (strict (equality true) args)
  | .lt | .le | .gt | .ge => do
    let args ← rawBinary op args
    .ok (strict (inOrder op) args)
  | .and => do
    let args ← rawBinary op args
    .ok (shortCircuit op false args)
  | .or => do
    let args ← rawBinary op args
    .ok (shortCircuit op true args)
  | .not => do
    let a ← argUnary op args
    .ok (unary logicalNot a)
  | .coalesce => do
    let args ← rawBinary op args
    .ok (orElse args)
  | .cond =>
    match args with
    | some [c, t, e] => .ok (branch c t e)
    | _ => raise .invalidNode "cond expects [c, t, e]"
  | .len => do
    let a ← argUnary op args
    .ok (unary length a)

def forbiddenField : Failure :=
  ⟨.forbiddenKey, "obj key \"__proto__\" is forbidden (fail-closed)", none⟩

mutual
def compileNode : Val → Except Failure Eval
  | .null => .ok (constant .null)
  | .bool b => .ok (constant (.bool b))
  | .str s => .ok (constant (.str s))
  | .int n =>
    if n < -safeInt ∨ safeInt < n then
      raise .invalidLiteral
        s!"integral number literal {n} exceeds safe range; use \x7bint:\"...\"\x7d"
    else .ok (constant (.int n))
  | .float f => do
    let f ← checkFinite f
    .ok (constant (.float f))
  | .arr _ => raise .invalidNode "bare array is not an expression (use \x7barr:[...]\x7d)"
  | .obj [(key, arg)] =>
    match opOf key with
    | none => raise .unknownOp s!"unknown operator: {key}（fail-closed）"
    | some op => compileOp op arg (argList arg) (argProps arg)
  | .obj ps =>
    raise .invalidNode
      ("operator node must have exactly one key, got [" ++ ", ".intercalate (ps.map (·.1)) ++ "]")

def argList : Val → Option (List Eval)
  | .arr xs => some (compileAll xs)
  | _ => none

def argProps : Val → Option (List (String × Eval))
  | .obj ps => some (compileProps ps)
  | _ => none

def compileAll : List Val → List Eval
  | [] => []
  | x :: xs => orDeferred (compileNode x) :: compileAll xs

/-- The forbidden key fails where it is reached, after the fields before it. -/
def compileProps : List (String × Val) → List (String × Eval)
  | [] => []
  | (k, x) :: ps =>
    (k, if k = forbiddenObjectKey then deferred forbiddenField else orDeferred (compileNode x)) ::
      compileProps ps
end

def compile (node : Val) : Eval := orDeferred (compileNode node)

def evaluate (node : Val) (scope : Scope) : Except Failure Val := compile node scope

/-! ## What a node is made of -/

/-- The binding that a reference begins at. -/
def refHead (key : String) (arg : Val) : List String :=
  match opOf key, arg with
  | some .ref, .arr (.str head :: _) | some .refOpt, .arr (.str head :: _) => [head]
  | _, _ => []

mutual
/-- The bindings that the references of a node begin at. -/
def heads : Val → List String
  | .obj [(key, arg)] => refHead key arg ++ argHeads arg
  | _ => []

def argHeads : Val → List String
  | .arr xs => headsAll xs
  | .obj ps => headsProps ps
  | _ => []

def headsAll : List Val → List String
  | [] => []
  | x :: xs => heads x ++ headsAll xs

def headsProps : List (String × Val) → List String
  | [] => []
  | (_, x) :: ps => heads x ++ headsProps ps
end

mutual
/-- How many arguments the lists of a node have. -/
def sizes : Val → List Nat
  | .obj [(_, arg)] => argSizes arg
  | _ => []

def argSizes : Val → List Nat
  | .arr xs => xs.length :: sizesAll xs
  | .obj ps => sizesProps ps
  | _ => []

def sizesAll : List Val → List Nat
  | [] => []
  | x :: xs => sizes x ++ sizesAll xs

def sizesProps : List (String × Val) → List Nat
  | [] => []
  | (_, x) :: ps => sizes x ++ sizesProps ps
end

def Keeps (apply : Val → Except Failure Val) : Prop :=
  ∀ a v, a.WellFormed → apply a = .ok v → v.WellFormed

def KeepsBoth (apply : Val → Val → Except Failure Val) : Prop :=
  ∀ a b v, a.WellFormed → b.WellFormed → apply a b = .ok v → v.WellFormed

/-- A property of closures that the constructions keep, given which bindings may be named and how
long lists may be. -/
structure Closed (named : String → Prop) (fits : Nat → Prop) (P : Eval → Prop) : Prop where
  constant : ∀ {v}, v.WellFormed → P (constant v)
  deferred : ∀ e, P (deferred e)
  lookupRef : ∀ {head}, named head → ∀ propagateNull rest, P (lookupRef propagateNull head rest)
  record : ∀ {fields}, (∀ p ∈ fields, P p.2 ∧
    (p.1 = forbiddenObjectKey → p.2 = Behavior.deferred forbiddenField)) → P (record fields)
  list : ∀ {elems}, (∀ f ∈ elems, P f) → fits elems.length → P (list elems)
  text : ∀ {parts}, (∀ f ∈ parts, P f) → P (text parts)
  unary : ∀ {apply a}, Keeps apply → P a → P (unary apply a)
  strict : ∀ {apply a b}, KeepsBoth apply → P a → P b → P (strict apply (a, b))
  shortCircuit : ∀ {op stop a b}, P a → P b → P (shortCircuit op stop (a, b))
  orElse : ∀ {a b}, P a → P b → P (orElse (a, b))
  branch : ∀ {c t e}, P c → P t → P e → P (branch c t e)

/-! ## The operators keep values well-formed -/

theorem isI64_iff {n : Int} : isI64 n = true ↔ -2 ^ 63 ≤ n ∧ n < 2 ^ 63 := by
  simp [isI64]

theorem checkFinite_ok {f g : Float} (h : checkFinite f = .ok g) : finite g = true := by
  rw [checkFinite] at h
  split at h
  · next hf =>
    obtain rfl := Except.ok.inj h
    exact hf
  · cases h

theorem float_ok {x : Except Failure Float} {v : Val} (hx : ∀ f, x = .ok f → finite f = true)
    (h : x.map .float = .ok v) : v.WellFormed := by
  cases x with
  | error e => cases h
  | ok f =>
    obtain rfl := Except.ok.inj h
    exact hx f rfl

theorem checked_ok {n : Int} {message : String} {v : Val}
    (h : (if isI64 n then .ok (.int n) else raise .intOverflow message) = .ok v) :
    v.WellFormed := by
  split at h
  · next hn =>
    obtain rfl := Except.ok.inj h
    exact hn
  · cases h

theorem keepsBoth_arith (op : Op) (onInt : Int → Int → Int) (onFloat : Float → Float → Float) :
    KeepsBoth (arith op onInt onFloat) := by
  intro a b v _ _ h
  unfold arith at h
  split at h
  · exact checked_ok h
  · exact float_ok (fun _ => checkFinite_ok) h
  · cases h

theorem keeps_negate : Keeps negate := by
  intro a v _ h
  unfold negate at h
  split at h
  · exact checked_ok h
  · exact float_ok (fun _ => checkFinite_ok) h
  · cases h

theorem keepsBoth_divide : KeepsBoth divide := by
  intro a b v _ _ h
  obtain ⟨x, -, h⟩ := Exit.bind_ok_iff.mp h
  obtain ⟨y, -, h⟩ := Exit.bind_ok_iff.mp h
  split at h
  · cases h
  · exact float_ok (fun _ => checkFinite_ok) h

/-- A remainder lies between zero and the dividend. -/
theorem isI64_tmod {a b : Int} (h : isI64 a = true) : isI64 (a.tmod b) = true := by
  rw [isI64_iff] at h ⊢
  have habs : (a.tmod b).natAbs ≤ a.natAbs := by
    rw [Int.natAbs_tmod]
    exact Nat.mod_le _ _
  have hneg : (-a).tmod b = -a.tmod b := Int.neg_tmod a b
  rcases Int.le_total 0 a with ha | ha
  · have := Int.tmod_nonneg b ha
    omega
  · have := Int.tmod_nonneg b (show 0 ≤ -a by omega)
    omega

theorem keepsBoth_modulo : KeepsBoth modulo := by
  intro a b v ha _ h
  unfold modulo at h
  split at h
  · split at h
    · cases h
    · obtain rfl := Except.ok.inj h
      exact isI64_tmod ha
  · exact float_ok (fun _ => checkFinite_ok) h
  · cases h

theorem bool_ok {x : Except Failure Bool} {f : Bool → Bool} {v : Val}
    (h : (x >>= fun b => .ok (.bool (f b))) = .ok v) : v.WellFormed := by
  obtain ⟨b, -, h⟩ := Exit.bind_ok_iff.mp h
  obtain rfl := Except.ok.inj h
  exact trivial

theorem keepsBoth_equality (negated : Bool) : KeepsBoth (equality negated) := by
  intro a b v _ _ h
  cases negated with
  | false => exact bool_ok (f := fun equal => equal) h
  | true => exact bool_ok (f := fun equal => !equal) h

theorem keepsBoth_inOrder (op : Op) : KeepsBoth (inOrder op) := by
  intro a b v _ _ h
  obtain ⟨c, -, h⟩ := Exit.bind_ok_iff.mp h
  cases c with
  | none =>
    obtain rfl := Except.ok.inj h
    exact trivial
  | some c =>
    obtain rfl := Except.ok.inj h
    exact trivial

theorem keeps_logicalNot : Keeps logicalNot := by
  intro a v _ h
  exact bool_ok (f := fun b => !b) h

theorem keeps_length : Keeps length := by
  intro a v ha h
  unfold length at h
  split at h
  · obtain rfl := Except.ok.inj h
    exact ha.1
  · cases h

/-! ## Literals are well-formed -/

theorem digit_le {c : Char} (h : c.isDigit = true) : c.toNat - '0'.toNat ≤ 9 := by
  have := Char.isDigit_iff_toNat.mp h
  have hzero : '0'.toNat = 48 := rfl
  have hnine : '9'.toNat = 57 := rfl
  omega

theorem ofDigitChars_lt {ds : List Char} (h : ∀ c ∈ ds, c.isDigit = true) (m : Nat) :
    Nat.ofDigitChars 10 ds m < 10 ^ ds.length * (m + 1) := by
  induction ds generalizing m with
  | nil => simp
  | cons c cs ih =>
    have hc := digit_le (h c List.mem_cons_self)
    rw [Nat.ofDigitChars_cons, List.length_cons]
    calc Nat.ofDigitChars 10 cs (10 * m + (c.toNat - '0'.toNat))
        < 10 ^ cs.length * (10 * m + (c.toNat - '0'.toNat) + 1) :=
          ih (fun d hd => h d (List.mem_cons_of_mem c hd)) _
      _ ≤ 10 ^ cs.length * (10 * (m + 1)) := Nat.mul_le_mul_left _ (by omega)
      _ = 10 ^ (cs.length + 1) * (m + 1) := by ring

theorem le_ofDigitChars (ds : List Char) (m : Nat) :
    10 ^ ds.length * m ≤ Nat.ofDigitChars 10 ds m := by
  induction ds generalizing m with
  | nil => simp
  | cons c cs ih =>
    rw [Nat.ofDigitChars_cons, List.length_cons]
    calc 10 ^ (cs.length + 1) * m = 10 ^ cs.length * (10 * m) := by ring
      _ ≤ 10 ^ cs.length * (10 * m + (c.toNat - '0'.toNat)) := Nat.mul_le_mul_left _ (by omega)
      _ ≤ _ := ih _

/-- Texts of as many digits are ordered as their numbers are. -/
theorem ofDigitChars_le {a b : List Char} (hlen : a.length = b.length)
    (ha : ∀ c ∈ a, c.isDigit = true) (h : cmpChars a b ≠ .gt) (m : Nat) :
    Nat.ofDigitChars 10 a m ≤ Nat.ofDigitChars 10 b m := by
  induction a generalizing b m with
  | nil =>
    obtain rfl := List.eq_nil_of_length_eq_zero hlen.symm
    exact Nat.le_refl _
  | cons c cs ih =>
    cases b with
    | nil => cases hlen
    | cons d ds =>
      have hlen' : cs.length = ds.length := Nat.succ.inj hlen
      have hcs : ∀ c ∈ cs, c.isDigit = true := fun x hx => ha x (List.mem_cons_of_mem c hx)
      rw [Nat.ofDigitChars_cons, Nat.ofDigitChars_cons]
      rw [cmpChars] at h
      split at h
      · next heq =>
        rw [heq]
        exact ih hlen' hcs h _
      · split at h
        · next hlt =>
          have hc := Char.isDigit_iff_toNat.mp (ha c List.mem_cons_self)
          have hzero : '0'.toNat = 48 := rfl
          calc Nat.ofDigitChars 10 cs (10 * m + (c.toNat - '0'.toNat))
              ≤ 10 ^ cs.length * (10 * m + (c.toNat - '0'.toNat) + 1) :=
                (ofDigitChars_lt hcs _).le
            _ ≤ 10 ^ ds.length * (10 * m + (d.toNat - '0'.toNat)) := by
                rw [hlen']
                exact Nat.mul_le_mul_left _ (by omega)
            _ ≤ _ := le_ofDigitChars ds _
        · exact absurd rfl h

/-- What is not greater as a text has no greater number in front. -/
theorem number_le {digits max : List Char} (hmax : ∀ m, max.length = m + 1 →
      10 ^ m ≤ Nat.ofDigitChars 10 max 0) (h : decStrGreater digits max = false) :
    Nat.ofDigitChars 10 (digits.takeWhile Char.isDigit) 0 ≤ Nat.ofDigitChars 10 max 0 := by
  have hdigits : ∀ c ∈ digits.takeWhile Char.isDigit, c.isDigit = true :=
    fun c hc => List.mem_takeWhile_imp hc
  have hpre : (digits.takeWhile Char.isDigit).length ≤ digits.length :=
    (List.takeWhile_prefix _).length_le
  have hlt := ofDigitChars_lt hdigits 0
  rw [decStrGreater] at h
  by_cases hsame : (digits.takeWhile Char.isDigit).length = max.length
  · have hall : digits.takeWhile Char.isDigit = digits := by
      apply (List.takeWhile_prefix _).eq_of_length_le
      split at h
      · have := decide_eq_false_iff_not.mp h
        omega
      · omega
    rw [hall] at hsame hdigits ⊢
    rw [if_neg (by omega)] at h
    exact ofDigitChars_le hsame hdigits (by simpa using h) 0
  · have hshort : (digits.takeWhile Char.isDigit).length < max.length := by
      split at h
      · have := decide_eq_false_iff_not.mp h
        omega
      · omega
    obtain ⟨m, hm⟩ : ∃ m, max.length = m + 1 := ⟨max.length - 1, by omega⟩
    have hpow : 10 ^ (digits.takeWhile Char.isDigit).length ≤ 10 ^ m :=
      Nat.pow_le_pow_right (by omega) (by omega)
    have := hmax m hm
    omega

theorem ofDigitChars_maxAbs (neg : Bool) :
    Nat.ofDigitChars 10 (maxAbs neg) 0 = if neg then 2 ^ 63 else 2 ^ 63 - 1 := by
  cases neg <;> decide

theorem isI64_signed {neg : Bool} {n : Nat} (h : n ≤ Nat.ofDigitChars 10 (maxAbs neg) 0) :
    isI64 (signed neg n) = true := by
  rw [ofDigitChars_maxAbs] at h
  rw [isI64_iff, signed]
  cases neg with
  | false =>
    simp only [Bool.false_eq_true, if_false] at h ⊢
    omega
  | true =>
    simp only [if_true] at h ⊢
    omega

theorem isI64_parseI64Literal {s : String} {n : Int} (h : parseI64Literal s = .ok n) :
    isI64 n = true := by
  unfold parseI64Literal at h
  split at h
  · cases h
  · next neg ds _ =>
    dsimp only at h
    split at h
    · obtain rfl := Except.ok.inj h
      rfl
    · split at h
      · cases h
      · next hle =>
        obtain rfl := Except.ok.inj h
        have hlength : ∀ m, (maxAbs neg).length = m + 1 → m = 18 := by
          intro m hm
          have : (maxAbs neg).length = 19 := by cases neg <;> rfl
          omega
        apply isI64_signed
        apply number_le
        · intro m hm
          obtain rfl := hlength m hm
          rw [ofDigitChars_maxAbs]
          split <;> norm_num
        · exact Bool.eq_false_iff.mpr hle

/-! ## One induction over nodes -/

section
variable {named : String → Prop} {fits : Nat → Prop} {P : Eval → Prop}

theorem compileAll_length (xs : List Val) : (compileAll xs).length = xs.length := by
  induction xs with
  | nil => rfl
  | cons x xs ih => rw [compileAll, List.length_cons, List.length_cons, ih]

theorem Closed.orDeferred (hc : Closed named fits P) {x : Except Failure Eval}
    (h : ∀ f, x = .ok f → P f) : P (orDeferred x) := by
  cases x with
  | error e => exact hc.deferred e
  | ok f => exact h f rfl

theorem argArray_ok {op : Op} {args : Option (List Eval)} {as : List Eval}
    (h : argArray op args = .ok as) : args = some as := by
  cases args with
  | none => cases h
  | some bs => exact congrArg some (Except.ok.inj h)

theorem argUnary_ok {op : Op} {args : Option (List Eval)} {a : Eval}
    (h : argUnary op args = .ok a) : args = some [a] := by
  obtain ⟨as, has, h⟩ := Exit.bind_ok_iff.mp h
  rw [argArray_ok has]
  split at h
  · obtain rfl := Except.ok.inj h
    rfl
  · cases h

theorem rawBinary_ok {op : Op} {args : Option (List Eval)} {a b : Eval}
    (h : rawBinary op args = .ok (a, b)) : args = some [a, b] := by
  obtain ⟨as, has, h⟩ := Exit.bind_ok_iff.mp h
  rw [argArray_ok has]
  split at h
  · cases h
    rfl
  · cases h

theorem all_binary {op : Op} {args : Option (List Eval)}
    (hargs : ∀ as, args = some as → ∀ f ∈ as, P f) {make : Eval × Eval → Eval}
    (hmake : ∀ a b, P a → P b → P (make (a, b))) {f : Eval}
    (h : (rawBinary op args >>= fun args => .ok (make args)) = .ok f) : P f := by
  obtain ⟨⟨a, b⟩, hraw, h⟩ := Exit.bind_ok_iff.mp h
  obtain rfl := Except.ok.inj h
  have hab := hargs _ (rawBinary_ok hraw)
  exact hmake a b (hab a (by simp)) (hab b (by simp))

theorem Closed.single (hc : Closed named fits P) {op : Op} {args : Option (List Eval)}
    (hargs : ∀ as, args = some as → ∀ f ∈ as, P f) {apply : Val → Except Failure Val}
    (hkeeps : Keeps apply) {f : Eval}
    (h : (argUnary op args >>= fun a => .ok (Behavior.unary apply a)) = .ok f) : P f := by
  obtain ⟨a, ha, h⟩ := Exit.bind_ok_iff.mp h
  obtain rfl := Except.ok.inj h
  exact hc.unary hkeeps (hargs _ (argUnary_ok ha) a (by simp))

theorem Closed.compileRef (hc : Closed named fits P) {op : Op} {arg : Val}
    (hnamed : ∀ head rest, arg = .arr (.str head :: rest) → named head) {f : Eval}
    (h : compileRef op arg = .ok f) : P f := by
  unfold Behavior.compileRef at h
  split at h
  · next path =>
    split at h
    · next head rest hpath =>
      obtain rfl := Except.ok.inj h
      cases path with
      | nil => cases hpath
      | cons v vs =>
        cases v with
        | str s =>
          obtain ⟨segs, -, hsegs⟩ := Option.map_eq_some_iff.mp hpath
          obtain ⟨rfl, -⟩ := List.cons.inj hsegs
          exact hc.lookupRef (hnamed _ _ rfl) _ _
        | _ => cases hpath
    · cases h
  · cases h

theorem Closed.compileOp (hc : Closed named fits P) {op : Op} {arg : Val}
    {args : Option (List Eval)} {fields : Option (List (String × Eval))}
    (hargs : ∀ as, args = some as → ∀ f ∈ as, P f)
    (hfits : ∀ as, args = some as → fits as.length)
    (hfields : ∀ fs, fields = some fs → ∀ p ∈ fs, P p.2 ∧
      (p.1 = forbiddenObjectKey → p.2 = Behavior.deferred forbiddenField))
    (hnamed : op = .ref ∨ op = .refOpt → ∀ head rest, arg = .arr (.str head :: rest) → named head)
    {f : Eval} (h : compileOp op arg args fields = .ok f) : P f := by
  cases op with
  | int =>
    simp only [Behavior.compileOp] at h
    split at h
    · obtain ⟨n, hn, h⟩ := Exit.bind_ok_iff.mp h
      obtain rfl := Except.ok.inj h
      exact hc.constant (isI64_parseI64Literal hn)
    · cases h
  | float =>
    simp only [Behavior.compileOp] at h
    split at h
    · obtain ⟨x, hx, h⟩ := Exit.bind_ok_iff.mp h
      obtain rfl := Except.ok.inj h
      exact hc.constant (checkFinite_ok hx)
    · obtain ⟨x, hx, h⟩ := Exit.bind_ok_iff.mp h
      obtain rfl := Except.ok.inj h
      exact hc.constant (checkFinite_ok hx)
    · cases h
  | ref => exact hc.compileRef (hnamed (.inl rfl)) h
  | refOpt => exact hc.compileRef (hnamed (.inr rfl)) h
  | obj =>
    cases fields with
    | none => cases h
    | some fs =>
      obtain rfl := Except.ok.inj h
      exact hc.record (hfields fs rfl)
  | arr =>
    obtain ⟨as, has, h⟩ := Exit.bind_ok_iff.mp h
    obtain rfl := Except.ok.inj h
    exact hc.list (hargs as (argArray_ok has)) (hfits as (argArray_ok has))
  | concat =>
    obtain ⟨as, has, h⟩ := Exit.bind_ok_iff.mp h
    split at h
    · cases h
    · obtain rfl := Except.ok.inj h
      exact hc.text (hargs as (argArray_ok has))
  | add => exact all_binary hargs (fun a b => hc.strict (keepsBoth_arith _ _ _)) h
  | sub => exact all_binary hargs (fun a b => hc.strict (keepsBoth_arith _ _ _)) h
  | mul => exact all_binary hargs (fun a b => hc.strict (keepsBoth_arith _ _ _)) h
  | div => exact all_binary hargs (fun a b => hc.strict keepsBoth_divide) h
  | mod => exact all_binary hargs (fun a b => hc.strict keepsBoth_modulo) h
  | eq => exact all_binary hargs (fun a b => hc.strict (keepsBoth_equality false)) h
  | ne => exact all_binary hargs (fun a b => hc.strict (keepsBoth_equality true)) h
  | lt | le | gt | ge => exact all_binary hargs (fun a b => hc.strict (keepsBoth_inOrder _)) h
  | and | or => exact all_binary hargs (fun a b => hc.shortCircuit) h
  | coalesce => exact all_binary hargs (fun a b => hc.orElse) h
  | neg => exact hc.single hargs keeps_negate h
  | not => exact hc.single hargs keeps_logicalNot h
  | len => exact hc.single hargs keeps_length h
  | cond =>
    simp only [Behavior.compileOp] at h
    split at h
    · next c t e =>
      obtain rfl := Except.ok.inj h
      have hall := hargs _ rfl
      exact hc.branch (hall c (by simp)) (hall t (by simp)) (hall e (by simp))
    · cases h

theorem mem_refHead {key : String} {op : Op} {arg : Val} (hop : opOf key = some op)
    (href : op = .ref ∨ op = .refOpt) {head : String} {rest : List Val}
    (harg : arg = .arr (.str head :: rest)) : head ∈ refHead key arg := by
  subst harg
  rcases href with rfl | rfl
  · simp [refHead, hop]
  · simp [refHead, hop]

mutual
theorem Closed.compileNode (hc : Closed named fits P) : (node : Val) →
    (∀ h ∈ heads node, named h) → (∀ n ∈ sizes node, fits n) → (f : Eval) →
    compileNode node = .ok f → P f
  | .null, _, _, f, h => by
    obtain rfl := Except.ok.inj h
    exact hc.constant trivial
  | .bool b, _, _, f, h => by
    obtain rfl := Except.ok.inj h
    exact hc.constant trivial
  | .str s, _, _, f, h => by
    obtain rfl := Except.ok.inj h
    exact hc.constant trivial
  | .int n, _, _, f, h => by
    rw [Behavior.compileNode] at h
    split at h
    · cases h
    · next hsafe =>
      obtain rfl := Except.ok.inj h
      apply hc.constant
      have : ¬ (n < -9007199254740991 ∨ 9007199254740991 < n) := hsafe
      exact isI64_iff.mpr (by omega)
  | .float x, _, _, f, h => by
    rw [Behavior.compileNode] at h
    obtain ⟨y, hy, h⟩ := Exit.bind_ok_iff.mp h
    obtain rfl := Except.ok.inj h
    exact hc.constant (checkFinite_ok hy)
  | .arr _, _, _, f, h => by
    rw [Behavior.compileNode] at h
    cases h
  | .obj [], _, _, f, h => by
    rw [Behavior.compileNode] at h
    · cases h
    · intro key arg hps
      cases hps
  | .obj [(key, arg)], hheads, hsizes, f, h => by
    rw [Behavior.compileNode] at h
    rw [heads] at hheads
    rw [sizes] at hsizes
    split at h
    · cases h
    · next op hop =>
      have hargs : ∀ a ∈ argHeads arg, named a := fun a ha => hheads a (List.mem_append_right _ ha)
      refine hc.compileOp ?_ ?_ ?_ ?_ h
      · exact fun as has => (Closed.argList hc arg hargs hsizes as has).1
      · exact fun as has => (Closed.argList hc arg hargs hsizes as has).2
      · exact Closed.argProps hc arg hargs hsizes
      · exact fun href head rest harg =>
          hheads head (List.mem_append_left _ (mem_refHead hop href harg))
  | .obj (_ :: _ :: _), _, _, f, h => by
    rw [Behavior.compileNode] at h
    · cases h
    · intro key arg hps
      cases hps

theorem Closed.argList (hc : Closed named fits P) : (arg : Val) →
    (∀ h ∈ argHeads arg, named h) → (∀ n ∈ argSizes arg, fits n) → (as : List Eval) →
    argList arg = some as → (∀ f ∈ as, P f) ∧ fits as.length
  | .arr xs, hheads, hsizes, as, h => by
    rw [Behavior.argList] at h
    obtain rfl := Option.some.inj h
    rw [argHeads] at hheads
    rw [argSizes] at hsizes
    refine ⟨Closed.compileAll hc xs hheads fun n hn => hsizes n (List.mem_cons_of_mem _ hn), ?_⟩
    rw [compileAll_length]
    exact hsizes _ List.mem_cons_self
  | .null, _, _, _, h | .bool _, _, _, _, h | .int _, _, _, _, h | .float _, _, _, _, h
  | .str _, _, _, _, h | .obj _, _, _, _, h => by
    simp only [Behavior.argList] at h
    cases h

theorem Closed.argProps (hc : Closed named fits P) : (arg : Val) →
    (∀ h ∈ argHeads arg, named h) → (∀ n ∈ argSizes arg, fits n) →
    (fs : List (String × Eval)) → argProps arg = some fs → ∀ p ∈ fs, P p.2 ∧
      (p.1 = forbiddenObjectKey → p.2 = Behavior.deferred forbiddenField)
  | .obj ps, hheads, hsizes, fs, h => by
    rw [Behavior.argProps] at h
    obtain rfl := Option.some.inj h
    rw [argHeads] at hheads
    rw [argSizes] at hsizes
    exact Closed.compileProps hc ps hheads hsizes
  | .null, _, _, _, h | .bool _, _, _, _, h | .int _, _, _, _, h | .float _, _, _, _, h
  | .str _, _, _, _, h | .arr _, _, _, _, h => by
    simp only [Behavior.argProps] at h
    cases h

theorem Closed.compileAll (hc : Closed named fits P) : (xs : List Val) →
    (∀ h ∈ headsAll xs, named h) → (∀ n ∈ sizesAll xs, fits n) → ∀ f ∈ compileAll xs, P f
  | [], _, _, f, hf => by
    rw [Behavior.compileAll] at hf
    cases hf
  | x :: xs, hheads, hsizes, f, hf => by
    rw [Behavior.compileAll] at hf
    rw [headsAll] at hheads
    rw [sizesAll] at hsizes
    rcases List.mem_cons.mp hf with rfl | hf
    · exact hc.orDeferred (Closed.compileNode hc x
        (fun h hh => hheads h (List.mem_append_left _ hh))
        fun n hn => hsizes n (List.mem_append_left _ hn))
    · exact Closed.compileAll hc xs (fun h hh => hheads h (List.mem_append_right _ hh))
        (fun n hn => hsizes n (List.mem_append_right _ hn)) f hf

theorem Closed.compileProps (hc : Closed named fits P) : (ps : List (String × Val)) →
    (∀ h ∈ headsProps ps, named h) → (∀ n ∈ sizesProps ps, fits n) → ∀ p ∈ compileProps ps,
      P p.2 ∧ (p.1 = forbiddenObjectKey → p.2 = Behavior.deferred forbiddenField)
  | [], _, _, p, hp => by
    rw [Behavior.compileProps] at hp
    cases hp
  | (k, x) :: ps, hheads, hsizes, p, hp => by
    rw [Behavior.compileProps] at hp
    rw [headsProps] at hheads
    rw [sizesProps] at hsizes
    rcases List.mem_cons.mp hp with rfl | hp
    · dsimp only
      split
      · exact ⟨hc.deferred _, fun _ => rfl⟩
      · next hk =>
        refine ⟨?_, fun heq => absurd heq hk⟩
        exact hc.orDeferred (Closed.compileNode hc x
          (fun h hh => hheads h (List.mem_append_left _ hh))
          fun n hn => hsizes n (List.mem_append_left _ hn))
    · exact Closed.compileProps hc ps (fun h hh => hheads h (List.mem_append_right _ hh))
        (fun n hn => hsizes n (List.mem_append_right _ hn)) p hp
end

/-- What the constructions keep holds of the closure of every node. -/
theorem Closed.compile (hc : Closed named fits P) (node : Val) (hheads : ∀ h ∈ heads node, named h)
    (hsizes : ∀ n ∈ sizes node, fits n) : P (compile node) :=
  hc.orDeferred (hc.compileNode node hheads hsizes)

end

/-! ## Values that come out well-formed -/

def Scope.WellFormed (scope : Scope) : Prop := ∀ k v, scope k = some v → v.WellFormed

def Sound (f : Eval) : Prop :=
  ∀ scope : Scope, scope.WellFormed → ∀ v, f scope = .ok v → v.WellFormed

theorem follow_wellFormed {propagateNull : Bool} {rest : List String} {cur v : Val}
    (hcur : cur.WellFormed) (h : follow propagateNull cur rest = .ok v) : v.WellFormed := by
  induction rest generalizing cur with
  | nil =>
    rw [follow] at h
    obtain rfl := Except.ok.inj h
    exact hcur
  | cons seg rest ih =>
    unfold follow at h
    split at h
    · next heq => cases heq
    · split at h
      · obtain rfl := Except.ok.inj h
        exact trivial
      · cases h
    · next ps seg' rest' heq =>
      obtain ⟨rfl, rfl⟩ := List.cons.inj heq
      split at h
      · cases h
      · next next hnext => exact ih (WellFormedProps.lookup hcur hnext) h
    · cases h

theorem evalAll_wellFormed {scope : Scope} (hscope : scope.WellFormed) {elems : List Eval}
    (hsound : ∀ f ∈ elems, Sound f) {vs : List Val} (h : evalAll scope elems = .ok vs) :
    WellFormedAll vs ∧ vs.length = elems.length := by
  induction elems generalizing vs with
  | nil =>
    obtain rfl := Except.ok.inj h
    exact ⟨trivial, rfl⟩
  | cons f fs ih =>
    obtain ⟨v, hv, h⟩ := Exit.bind_ok_iff.mp h
    obtain ⟨ws, hws, h⟩ := Exit.bind_ok_iff.mp h
    obtain rfl := Except.ok.inj h
    obtain ⟨hall, hlen⟩ := ih (fun f hf => hsound f (List.mem_cons_of_mem _ hf)) hws
    refine ⟨⟨hsound f List.mem_cons_self scope hscope v hv, hall⟩, ?_⟩
    rw [List.length_cons, List.length_cons, hlen]

theorem evalFields_wellFormed {scope : Scope} (hscope : scope.WellFormed)
    {fields : List (String × Eval)} (hsound : ∀ p ∈ fields, Sound p.2 ∧
      (p.1 = forbiddenObjectKey → p.2 = deferred forbiddenField)) {ps : List (String × Val)}
    (h : evalFields scope fields = .ok ps) : WellFormedProps ps := by
  induction fields generalizing ps with
  | nil =>
    obtain rfl := Except.ok.inj h
    exact trivial
  | cons p fields ih =>
    obtain ⟨v, hv, h⟩ := Exit.bind_ok_iff.mp h
    obtain ⟨qs, hqs, h⟩ := Exit.bind_ok_iff.mp h
    obtain rfl := Except.ok.inj h
    obtain ⟨hp, hforbidden⟩ := hsound p List.mem_cons_self
    refine ⟨?_, hp scope hscope v hv, ih (fun q hq => hsound q (List.mem_cons_of_mem _ hq)) hqs⟩
    intro heq
    rw [hforbidden heq] at hv
    cases hv

theorem closed_sound : Closed (fun _ => True) (fun n => isI64 n = true) Sound where
  constant := by
    intro v hv scope _ w h
    obtain rfl := Except.ok.inj h
    exact hv
  deferred := by
    intro e scope _ v h
    cases h
  lookupRef := by
    intro head _ propagateNull rest scope hscope v h
    rw [Behavior.lookupRef] at h
    split at h
    · cases h
    · next cur hcur => exact follow_wellFormed (hscope head cur hcur) h
  record := by
    intro fields hfields scope hscope v h
    obtain ⟨ps, hps, rfl⟩ := map_ok h
    exact evalFields_wellFormed hscope hfields hps
  list := by
    intro elems helems hfits scope hscope v h
    obtain ⟨vs, hvs, rfl⟩ := map_ok h
    obtain ⟨hall, hlen⟩ := evalAll_wellFormed hscope helems hvs
    exact ⟨by rw [hlen]; exact hfits, hall⟩
  text := by
    intro parts _ scope _ v h
    obtain ⟨s, -, rfl⟩ := map_ok h
    exact trivial
  unary := by
    intro apply a hkeeps ha scope hscope v h
    obtain ⟨x, hx, h⟩ := Exit.bind_ok_iff.mp h
    exact hkeeps x v (ha scope hscope x hx) h
  strict := by
    intro apply a b hkeeps ha hb scope hscope v h
    obtain ⟨x, hx, h⟩ := Exit.bind_ok_iff.mp h
    obtain ⟨y, hy, h⟩ := Exit.bind_ok_iff.mp h
    exact hkeeps x y v (ha scope hscope x hx) (hb scope hscope y hy) h
  shortCircuit := by
    intro op stop a b _ _ scope _ v h
    obtain ⟨x, -, h⟩ := Exit.bind_ok_iff.mp h
    obtain ⟨p, -, h⟩ := Exit.bind_ok_iff.mp h
    split at h
    · obtain rfl := Except.ok.inj h
      exact trivial
    · obtain ⟨y, -, h⟩ := Exit.bind_ok_iff.mp h
      exact bool_ok (f := fun q => q) h
  orElse := by
    intro a b ha hb scope hscope v h
    obtain ⟨x, hx, h⟩ := Exit.bind_ok_iff.mp h
    have hwf := ha scope hscope x hx
    split at h
    · exact hb scope hscope v h
    · obtain rfl := Except.ok.inj h
      exact hwf
  branch := by
    intro c t e _ ht he scope hscope v h
    obtain ⟨x, -, h⟩ := Exit.bind_ok_iff.mp h
    obtain ⟨p, -, h⟩ := Exit.bind_ok_iff.mp h
    split at h
    · exact ht scope hscope v h
    · exact he scope hscope v h

/-- Whatever the node, what an expression evaluates to is well-formed: no integer beyond 64 bits, no
infinite float and no forbidden key comes out of well-formed bindings. -/
theorem evaluate_wellFormed {node v : Val} {scope : Scope}
    (hsizes : ∀ n ∈ sizes node, isI64 n = true) (hscope : scope.WellFormed)
    (h : evaluate node scope = .ok v) : v.WellFormed :=
  closed_sound.compile node (fun _ _ => trivial) hsizes scope hscope v h

/-- A field that is the successor of a binding. -/
theorem evaluate_wellFormed_sum :
    ∃ v, evaluate (.obj [("obj", .obj [("next",
      .obj [("add", .arr [.obj [("ref", .arr [.str "n"])], .int 1])])])])
        (fun _ => some (.int 41)) = .ok v ∧ v.WellFormed := by
  have h : evaluate (.obj [("obj", .obj [("next",
      .obj [("add", .arr [.obj [("ref", .arr [.str "n"])], .int 1])])])])
        (fun _ => some (.int 41)) = .ok (.obj [("next", .int 42)]) := by rfl
  refine ⟨_, h, evaluate_wellFormed (by decide +kernel) ?_ h⟩
  intro k v hv
  obtain rfl := Option.some.inj hv
  rfl

/-! ## What an expression depends on -/

def DependsOn (named : String → Prop) (f : Eval) : Prop :=
  ∀ s t : Scope, (∀ h, named h → s h = t h) → f s = f t

theorem evalAll_congr {s t : Scope} {elems : List Eval} (h : ∀ f ∈ elems, f s = f t) :
    evalAll s elems = evalAll t elems := by
  induction elems with
  | nil => rfl
  | cons f fs ih =>
    rw [evalAll, evalAll, h f List.mem_cons_self,
      ih fun g hg => h g (List.mem_cons_of_mem f hg)]

theorem evalFields_congr {s t : Scope} {fields : List (String × Eval)}
    (h : ∀ p ∈ fields, p.2 s = p.2 t) : evalFields s fields = evalFields t fields := by
  induction fields with
  | nil => rfl
  | cons p fields ih =>
    rw [evalFields, evalFields, h p List.mem_cons_self,
      ih fun q hq => h q (List.mem_cons_of_mem p hq)]

theorem evalTexts_congr {s t : Scope} {parts : List Eval} (h : ∀ f ∈ parts, f s = f t) :
    evalTexts s parts = evalTexts t parts := by
  induction parts with
  | nil => rfl
  | cons f fs ih =>
    rw [evalTexts, evalTexts, h f List.mem_cons_self,
      ih fun g hg => h g (List.mem_cons_of_mem f hg)]

theorem closed_dependsOn (named : String → Prop) :
    Closed named (fun _ => True) (DependsOn named) where
  constant := fun _ _ _ _ => rfl
  deferred := fun _ _ _ _ => rfl
  lookupRef := by
    intro head hhead propagateNull rest s t h
    rw [Behavior.lookupRef, Behavior.lookupRef, h head hhead]
  record := by
    intro fields hfields s t h
    rw [Behavior.record, Behavior.record, evalFields_congr fun p hp => (hfields p hp).1 s t h]
  list := by
    intro elems helems _ s t h
    rw [Behavior.list, Behavior.list, evalAll_congr fun f hf => helems f hf s t h]
  text := by
    intro parts hparts s t h
    rw [Behavior.text, Behavior.text, evalTexts_congr fun f hf => hparts f hf s t h]
  unary := by
    intro apply a _ ha s t h
    rw [Behavior.unary, Behavior.unary, ha s t h]
  strict := by
    intro apply a b _ ha hb s t h
    simp only [Behavior.strict, ha s t h, hb s t h]
  shortCircuit := by
    intro op stop a b ha hb s t h
    simp only [Behavior.shortCircuit, ha s t h, hb s t h]
  orElse := by
    intro a b ha hb s t h
    simp only [Behavior.orElse, ha s t h, hb s t h]
  branch := by
    intro c t' e hc ht he s t h
    simp only [Behavior.branch, hc s t h, ht s t h, he s t h]

/-- An expression sees no binding but those that its references begin at. -/
theorem evaluate_congr {node : Val} {s t : Scope} (h : ∀ x ∈ heads node, s x = t x) :
    compile node s = compile node t :=
  (closed_dependsOn (· ∈ heads node)).compile node (fun _ hx => hx) (fun _ _ => trivial) s t h

end LiteDb.Behavior
