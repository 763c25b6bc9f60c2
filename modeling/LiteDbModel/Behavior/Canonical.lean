import LiteDbModel.Behavior.Values

/-!
# Canonical texts

A value is written as one JSON text: the properties of every object in the order of their code
points, a float with the fewest digits that are read back as it.
-/

namespace LiteDb.Behavior
set_option autoImplicit false
open Binary64 (Word)

/-! ## Floats -/

/-- The first of `%.0e`, `%.1e`, … that is read back as the number, as digits and the exponent of
the last of them. -/
def roundTripDigits (w : Word) : Nat → Nat → Nat × Int
  | 0, k => (Binary64.nearest (Binary64.overPower w (Binary64.point w - k)), Binary64.point w - k)
  | fuel + 1, k =>
    let p := Binary64.point w - k
    let s := Binary64.nearest (Binary64.overPower w p)
    if Binary64.roundsTo w p s then (s, p) else roundTripDigits w fuel (k + 1)

/-- The digits without the zeros at the end, and where the point stands in them. -/
def shortestDigits (w : Word) : List Char × Int :=
  let (s, p) := roundTripDigits w 17 1
  let digits := Nat.toDigits 10 s
  (digits.rdropWhile (· = '0'), p + digits.length)

def floatLayout (digits : List Char) (decpt : Int) : List Char :=
  if decpt ≤ -4 ∨ 16 < decpt then
    let e := decpt - 1
    let eabs := Nat.toDigits 10 e.natAbs
    digits.take 1 ++ (if 1 < digits.length then '.' :: digits.drop 1 else []) ++ ['e'] ++
      (if e < 0 then ['-'] else ['+']) ++ (if eabs.length < 2 then '0' :: eabs else eabs)
  else if decpt ≤ 0 then '0' :: '.' :: (List.replicate (-decpt).toNat '0' ++ digits)
  else if (digits.length : Int) ≤ decpt then
    digits ++ List.replicate (decpt - digits.length).toNat '0' ++ ['.', '0']
  else digits.take decpt.toNat ++ '.' :: digits.drop decpt.toNat

def wordRepr (w : Word) : List Char :=
  (if Binary64.negative w then ['-'] else []) ++
    (if Binary64.significand w = 0 then ['0', '.', '0']
    else floatLayout (shortestDigits w).1 (shortestDigits w).2)

/-- How a float that is not finite reads in a message. -/
def nonFiniteText (f : Float) : String :=
  if f.isNaN then "NAN" else if f < 0 then "-INF" else "INF"

def pyFloatRepr (f : Float) : Except Failure (List Char) :=
  if finite f then .ok (wordRepr f.toBits.toBitVec)
  else raise .nanOrInf ("non-finite float cannot be serialized: " ++ nonFiniteText f)

/-! ## Values -/

def sortByKey {α : Type} (ps : List (String × α)) : List (String × α) :=
  ps.mergeSort fun p q => cmpCodePoints p.1 q.1 ≠ .gt

def sequence : List (String × Except Failure (List Char)) → Except Failure (List (List Char))
  | [] => .ok []
  | (k, x) :: ps => do
    let text ← x
    let rest ← sequence ps
    .ok ((Json.quote k ++ ':' :: text) :: rest)

def joined (texts : List (List Char)) : List Char := List.intercalate [','] texts

mutual
def canonicalJson : Val → Except Failure (List Char)
  | .null => .ok "null".toList
  | .bool b => .ok (if b then "true".toList else "false".toList)
  | .int n => .ok (Decimal.intText n)
  | .float f => pyFloatRepr f
  | .str s => .ok (Json.quote s)
  | .arr xs => do
    let texts ← canonicalAll xs
    .ok ('[' :: (joined texts ++ [']']))
  | .obj ps => do
    if forbiddenObjectKey ∈ ps.map (·.1) then
      raise .forbiddenKey "object key \"__proto__\" is forbidden (fail-closed)"
    else
      let texts ← sequence (sortByKey (canonicalProps ps))
      .ok ('\x7b' :: (joined texts ++ ['\x7d']))

def canonicalAll : List Val → Except Failure (List (List Char))
  | [] => .ok []
  | x :: xs => do
    let text ← canonicalJson x
    let rest ← canonicalAll xs
    .ok (text :: rest)

def canonicalProps : List (String × Val) → List (String × Except Failure (List Char))
  | [] => []
  | (k, x) :: ps => (k, canonicalJson x) :: canonicalProps ps
end

example : wordRepr 0x3ff8000000000000 = "1.5".toList := by decide +kernel

end LiteDb.Behavior
