import LiteDbModel.Lib.Binary64
import LiteDbModel.Lib.Json

/-!
# Values of the PHP interpreter

The values that a compiled component is made of and works on: an IR document is one of them, and so
is what an expression evaluates to. An object is its properties in order.
-/

namespace LiteDb.Behavior
set_option autoImplicit false

inductive Val
  | null
  | bool (b : Bool)
  | int (n : Int)
  | float (f : Float)
  | str (s : String)
  | arr (xs : List Val)
  | obj (ps : List (String × Val))

def forbiddenObjectKey : String := "__proto__"

/-- The integers that PHP has; beyond them its operators give a float. -/
def isI64 (n : Int) : Bool := -2 ^ 63 ≤ n && n < 2 ^ 63

def finite (f : Float) : Bool := !(f.isNaN || f.isInf)

def Val.typeName : Val → String
  | .null => "null"
  | .bool _ => "boolean"
  | .int _ => "int"
  | .float _ => "float"
  | .str _ => "string"
  | .arr _ => "arr"
  | .obj _ => "object"

/-! ## Failures -/

inductive FailureCode
  | invalidNode | invalidLiteral | unknownOp | forbiddenKey | intOverflow | nanOrInf
  | typeMismatch | modZero | precisionLoss | unknownBinding | nullRef | missingProp
  | unknownPolicy | opFailed | invalidPlan
  | unknownComponent | mapOverNotArray | fanoutOverNotArray | unknownNodeKind | unknownEntry
  | unknownElementPolicy | elementPolicyNotApplicable | mapBatchResultMismatch
  | fanoutBatchResultMismatch | mapIntoElementNotObject
deriving DecidableEq

/-- The structured part of a failure; a leaf's is handed on as it is. -/
abbrev Detail := List (String × Val)

structure Failure where
  code : FailureCode
  message : String
  detail : Option Detail

variable {α : Type}

def raise (code : FailureCode) (message : String) : Except Failure α := .error ⟨code, message, none⟩

theorem map_ok {ε α β : Type} {x : Except ε α} {f : α → β} {b : β} (h : x.map f = .ok b) :
    ∃ a, x = .ok a ∧ f a = b := by
  cases x with
  | error e => cases h
  | ok a => exact ⟨a, rfl, Except.ok.inj h⟩

/-! ## The order of texts -/

/-- `cmpCodePoints`, on the characters. -/
def cmpChars : List Char → List Char → Ordering
  | [], [] => .eq
  | [], _ :: _ => .lt
  | _ :: _, [] => .gt
  | c :: cs, d :: ds =>
    if c = d then cmpChars cs ds else if c.toNat < d.toNat then .lt else .gt

def cmpCodePoints (a b : String) : Ordering := cmpChars a.toList b.toList

/-! ## Well-formed values -/

mutual
/-- No object has a key twice, as no PHP object has a property twice. -/
def Val.UniqueKeys : Val → Prop
  | .arr xs => UniqueKeysAll xs
  | .obj ps => (ps.map (·.1)).Nodup ∧ UniqueKeysProps ps
  | .null | .bool _ | .int _ | .float _ | .str _ => True

def UniqueKeysAll : List Val → Prop
  | [] => True
  | x :: xs => x.UniqueKeys ∧ UniqueKeysAll xs

def UniqueKeysProps : List (String × Val) → Prop
  | [] => True
  | (_, x) :: ps => x.UniqueKeys ∧ UniqueKeysProps ps
end

theorem UniqueKeysProps.mem {ps : List (String × Val)} (h : UniqueKeysProps ps)
    {p : String × Val} (hp : p ∈ ps) : p.2.UniqueKeys := by
  induction ps with
  | nil => cases hp
  | cons q ps ih =>
    rcases List.mem_cons.mp hp with rfl | hp
    · exact h.1
    · exact ih h.2 hp

mutual
/-- Integers and the numbers of elements fit 64 bits, floats are finite, and no object has the
forbidden key. -/
def Val.WellFormed : Val → Prop
  | .int n => isI64 n = true
  | .float f => finite f = true
  | .arr xs => isI64 xs.length = true ∧ WellFormedAll xs
  | .obj ps => WellFormedProps ps
  | .null | .bool _ | .str _ => True

def WellFormedAll : List Val → Prop
  | [] => True
  | x :: xs => x.WellFormed ∧ WellFormedAll xs

def WellFormedProps : List (String × Val) → Prop
  | [] => True
  | (k, x) :: ps => k ≠ forbiddenObjectKey ∧ x.WellFormed ∧ WellFormedProps ps
end

theorem WellFormedProps.lookup {ps : List (String × Val)} (h : WellFormedProps ps) {k : String}
    {v : Val} (hv : ps.lookup k = some v) : v.WellFormed := by
  induction ps with
  | nil => cases hv
  | cons p ps ih =>
    obtain ⟨k', x⟩ := p
    rw [List.lookup_cons] at hv
    split at hv
    · obtain rfl := Option.some.inj hv
      exact h.2.1
    · exact ih h.2.2 hv

end LiteDb.Behavior
