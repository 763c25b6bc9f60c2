import Mathlib

/-!
# The `sql` tag

A template is turned into a text and its parameters: names are written into the text, a
value becomes a `?` and a parameter, an array several of them, and a fragment brings its
own text and parameters.
-/

namespace LiteDb.SqlTag
set_option autoImplicit false

variable {V : Type}

/-! ## Fragments and interpolated values -/

inductive Tag
  | sqlFragment
  | sqlTypedFragment
  | sqlCondition
deriving DecidableEq

structure Fragment (V : Type) where
  tag : Tag
  sql : List Char
  params : List V
deriving DecidableEq

/-- An interpolated value, by the test of `processInterpolation` that it passes first. -/
inductive Interpolation (V : Type)
  | column (tableName columnName : List Char)
  /-- An object with a `TABLE_NAME`. -/
  | table (name : List Char)
  | sqlRaw (raw : List Char)
  | sqlRef (tableName columnName : List Char)
  | parentRef (tableName columnName : List Char)
  | fragment (f : Fragment V)
  | array (vs : List V)
  /-- `null` or `undefined`. -/
  | nullish
  /-- Anything else: a number, a string, a date, a token, an object. -/
  | value (v : V)

def isColumn : Interpolation V → Bool
  | .column _ _ => true
  | _ => false

def isIdentifierLike : Interpolation V → Bool
  | .column _ _ | .table _ | .sqlRaw _ | .sqlRef _ _ | .parentRef _ _ => true
  | _ => false

def isAnySqlFragment : Interpolation V → Bool
  | .fragment _ => true
  | _ => false

/-- The text parts and the parameters collected so far. -/
structure Collected (V : Type) where
  sqlParts : List (List Char) := []
  params : List V := []

def Collected.pushText (c : Collected V) (text : List Char) : Collected V :=
  { c with sqlParts := c.sqlParts ++ [text] }

def Collected.pushParams (c : Collected V) (vs : List V) : Collected V :=
  { c with params := c.params ++ vs }

/-- `map(() => '?').join(', ')`. -/
def placeholders (vs : List V) : List Char := [',', ' '].intercalate (vs.map fun _ => ['?'])

def processInterpolation (c : Collected V) : Interpolation V → Collected V
  | .column _ columnName => c.pushText columnName
  | .table name => c.pushText name
  | .sqlRaw raw => c.pushText raw
  | .sqlRef tableName columnName => c.pushText (tableName ++ '.' :: columnName)
  | .parentRef tableName columnName => c.pushText (tableName ++ '.' :: columnName)
  | .fragment f => (c.pushText f.sql).pushParams f.params
  | .array [] => c.pushText "NULL".toList
  | .array vs => (c.pushParams vs).pushText (placeholders vs)
  | .nullish => c.pushText "NULL".toList
  | .value v => (c.pushParams [v]).pushText ['?']

/-! ## The tag -/

/-- The strings and the values of a template: a first string, and a string after each value. -/
structure Call (V : Type) where
  head : List Char
  parts : List (Interpolation V × List Char)

def Call.values (t : Call V) : List (Interpolation V) := t.parts.map Prod.fst

/-- The loop over the strings. -/
def collect (c : Collected V) : List (Interpolation V × List Char) → Collected V
  | [] => c
  | (val, string) :: parts => collect ((processInterpolation c val).pushText string) parts

/-- A single column first, no other identifier and no fragment. -/
def isConditionPattern (t : Call V) : Bool :=
  t.values.countP isColumn = 1 &&
    t.values.countP (fun v => !isColumn v && (isIdentifierLike v || isAnySqlFragment v)) = 0 &&
    t.values.head?.any isColumn

def valueCount (t : Call V) : Nat :=
  t.values.countP fun v => !isColumn v && !isIdentifierLike v && !isAnySqlFragment v

/-- `sql`. -/
def sqlTag (t : Call V) : Fragment V :=
  let built :=
    let c := collect (Collected.pushText {} t.head) t.parts
    fun tag => ({ tag := tag, sql := c.sqlParts.flatten, params := c.params } : Fragment V)
  match t.parts with
  | [(.column _ columnName, string)] =>
      { tag := .sqlTypedFragment, sql := t.head ++ columnName ++ string, params := [] }
  | _ =>
      if isConditionPattern t && valueCount t > 0 then built .sqlCondition
      else built .sqlFragment

/-! ## Nested templates -/

/-- A value that no tag has made. -/
inductive Plain (V : Type)
  | column (tableName columnName : List Char)
  | table (name : List Char)
  | sqlRaw (raw : List Char)
  | sqlRef (tableName columnName : List Char)
  | parentRef (tableName columnName : List Char)
  | array (vs : List V)
  | nullish
  | value (v : V)

def Plain.interpolation : Plain V → Interpolation V
  | .column tableName columnName => .column tableName columnName
  | .table name => .table name
  | .sqlRaw raw => .sqlRaw raw
  | .sqlRef tableName columnName => .sqlRef tableName columnName
  | .parentRef tableName columnName => .parentRef tableName columnName
  | .array vs => .array vs
  | .nullish => .nullish
  | .value v => .value v

mutual

inductive Template (V : Type)
  | mk (head : List Char) (args : Args V)

/-- The values of a template, each with the string after it. -/
inductive Args (V : Type)
  | nil
  | plain (v : Plain V) (string : List Char) (rest : Args V)
  | nested (t : Template V) (string : List Char) (rest : Args V)

end

mutual

/-- Inner templates are evaluated first. -/
def Template.eval : Template V → Fragment V
  | .mk head args => sqlTag { head := head, parts := args.eval }

def Args.eval : Args V → List (Interpolation V × List Char)
  | .nil => []
  | .plain v string rest => (v.interpolation, string) :: rest.eval
  | .nested t string rest => (.fragment t.eval, string) :: rest.eval

end

/-! ## What a template says -/

inductive Piece (V : Type)
  /-- A string of a template, a raw text, a name or `NULL`. -/
  | text (chars : List Char)
  /-- A `?` that is written for a value. -/
  | marker (v : V)

def Piece.chars : Piece V → List Char
  | .text chars => chars
  | .marker _ => ['?']

def Piece.value? : Piece V → Option V
  | .text _ => none
  | .marker v => some v

/-- The piece has no `?` of its own. -/
def Piece.Bare : Piece V → Prop
  | .text chars => '?' ∉ chars
  | .marker _ => True

/-- The values of an array between commas. -/
def listPieces : List V → List (Piece V)
  | [] => []
  | [v] => [.marker v]
  | v :: w :: vs => .marker v :: .text [',', ' '] :: listPieces (w :: vs)

def Plain.pieces : Plain V → List (Piece V)
  | .column _ columnName => [.text columnName]
  | .table name => [.text name]
  | .sqlRaw raw => [.text raw]
  | .sqlRef tableName columnName | .parentRef tableName columnName =>
      [.text tableName, .text ['.'], .text columnName]
  | .array [] | .nullish => [.text "NULL".toList]
  | .array vs => listPieces vs
  | .value v => [.marker v]

mutual

def Template.pieces : Template V → List (Piece V)
  | .mk head args => .text head :: args.pieces

def Args.pieces : Args V → List (Piece V)
  | .nil => []
  | .plain v string rest => v.pieces ++ .text string :: rest.pieces
  | .nested t string rest => t.pieces ++ .text string :: rest.pieces

end

def text (ps : List (Piece V)) : List Char := ps.flatMap Piece.chars

def markers (ps : List (Piece V)) : List V := ps.filterMap Piece.value?

theorem text_append (ps qs : List (Piece V)) : text (ps ++ qs) = text ps ++ text qs :=
  List.flatMap_append

theorem markers_append (ps qs : List (Piece V)) : markers (ps ++ qs) = markers ps ++ markers qs :=
  List.filterMap_append

theorem text_cons_text (chars : List Char) (ps : List (Piece V)) :
    text (.text chars :: ps) = chars ++ text ps := rfl

theorem markers_cons_text (chars : List Char) (ps : List (Piece V)) :
    markers (.text chars :: ps) = markers ps := rfl

/-- The `?` of a text are those written for values and those that its pieces brought. -/
theorem count_text_iff (ps : List (Piece V)) :
    (text ps).count '?' = (markers ps).length ↔ ∀ p ∈ ps, p.Bare := by
  have hle : ∀ ps : List (Piece V), (markers ps).length ≤ (text ps).count '?' := by
    intro ps
    induction ps with
    | nil => exact Nat.le_refl 0
    | cons p ps ih =>
      cases p with
      | text chars =>
        rw [text_cons_text, markers_cons_text, List.count_append]
        omega
      | marker v =>
        change (markers ps).length + 1 ≤ (['?'] ++ text ps).count '?'
        rw [List.count_append, List.count_singleton_self]
        omega
  induction ps with
  | nil => simp [text, markers]
  | cons p ps ih =>
    rw [List.forall_mem_cons]
    refine Iff.trans ?_ (and_congr_right' ih)
    have hrest := hle ps
    cases p with
    | text chars =>
      rw [text_cons_text, markers_cons_text, List.count_append, Piece.Bare, ← List.count_eq_zero]
      omega
    | marker v =>
      change (['?'] ++ text ps).count '?' = (markers ps).length + 1 ↔ _
      rw [List.count_append, List.count_singleton_self, Piece.Bare, true_and]
      omega

/-! ## The tag writes what the template says -/

/-- What has been collected, as a text and its parameters. -/
def Collected.Holds (c : Collected V) (ps : List (Piece V)) : Prop :=
  c.sqlParts.flatten = text ps ∧ c.params = markers ps

theorem Collected.Holds.pushText {c : Collected V} {ps : List (Piece V)} (h : c.Holds ps)
    (chars : List Char) : (c.pushText chars).Holds (ps ++ [.text chars]) := by
  refine ⟨?_, ?_⟩
  · rw [text_append, ← h.1, Collected.pushText, List.flatten_append]
    simp [text, Piece.chars]
  · rw [markers_append, ← h.2]
    exact (List.append_nil _).symm

theorem listPieces_text (vs : List V) : text (listPieces vs) = placeholders vs := by
  induction vs with
  | nil => rfl
  | cons v vs ih =>
    cases vs with
    | nil => rfl
    | cons w vs =>
      rw [listPieces]
      change '?' :: ',' :: ' ' :: text (listPieces (w :: vs)) = _
      rw [ih]
      rfl

theorem listPieces_markers (vs : List V) : markers (listPieces vs) = vs := by
  induction vs with
  | nil => rfl
  | cons v vs ih =>
    cases vs with
    | nil => rfl
    | cons w vs =>
      rw [listPieces]
      change v :: markers (listPieces (w :: vs)) = _
      rw [ih]

theorem Collected.Holds.plain {c : Collected V} {ps : List (Piece V)} (h : c.Holds ps)
    (v : Plain V) : (processInterpolation c v.interpolation).Holds (ps ++ v.pieces) := by
  obtain ⟨htext, hparams⟩ := h
  refine ⟨?_, ?_⟩
  · rw [text_append, ← htext]
    cases v with
    | array vs =>
      cases vs with
      | nil => simp [Plain.interpolation, processInterpolation, Collected.pushText, Plain.pieces,
          text, Piece.chars]
      | cons w ws =>
        rw [Plain.pieces, listPieces_text]
        · simp [Plain.interpolation, processInterpolation, Collected.pushText, Collected.pushParams]
        · intro hnil
          exact nomatch hnil
    | _ => simp [Plain.interpolation, processInterpolation, Collected.pushText,
        Collected.pushParams, Plain.pieces, text, Piece.chars]
  · rw [markers_append, ← hparams]
    cases v with
    | array vs =>
      cases vs with
      | nil => simp [Plain.interpolation, processInterpolation, Collected.pushText, Plain.pieces,
          markers, Piece.value?]
      | cons w ws =>
        rw [Plain.pieces, listPieces_markers]
        · rfl
        · intro hnil
          exact nomatch hnil
    | _ => simp [Plain.interpolation, processInterpolation, Collected.pushText,
        Collected.pushParams, Plain.pieces, markers, Piece.value?]

theorem Collected.Holds.fragment {c : Collected V} {ps qs : List (Piece V)} (h : c.Holds ps)
    {f : Fragment V} (htext : f.sql = text qs) (hparams : f.params = markers qs) :
    (processInterpolation c (.fragment f)).Holds (ps ++ qs) := by
  obtain ⟨hc, hcp⟩ := h
  refine ⟨?_, ?_⟩
  · rw [text_append, ← hc, ← htext]
    simp [processInterpolation, Collected.pushText, Collected.pushParams]
  · rw [markers_append, ← hcp, ← hparams]
    rfl

theorem sqlTag_sql (t : Call V) :
    (sqlTag t).sql = (collect (Collected.pushText {} t.head) t.parts).sqlParts.flatten ∧
      (sqlTag t).params = (collect (Collected.pushText {} t.head) t.parts).params := by
  rw [sqlTag]
  split
  next tableName columnName string hparts =>
    rw [hparts]
    simp [collect, processInterpolation, Collected.pushText]
  next =>
    split <;> exact ⟨rfl, rfl⟩

theorem Collected.holds_head (head : List Char) :
    (Collected.pushText {} head : Collected V).Holds [.text head] := by
  have hstart : ({} : Collected V).Holds [] := ⟨rfl, rfl⟩
  exact hstart.pushText head

mutual

theorem Template.eval_holds : (t : Template V) →
    t.eval.sql = text t.pieces ∧ t.eval.params = markers t.pieces
  | .mk head args => by
    have h := Args.collect_holds args (Collected.holds_head head)
    obtain ⟨hsql, hparams⟩ := sqlTag_sql { head := head, parts := args.eval }
    rw [Template.eval, Template.pieces, hsql, hparams]
    exact h

theorem Args.collect_holds : (args : Args V) → {c : Collected V} → {ps : List (Piece V)} →
    c.Holds ps → (collect c args.eval).Holds (ps ++ args.pieces)
  | .nil, c, ps, h => by
    rw [Args.pieces, List.append_nil]
    exact h
  | .plain v string rest, c, ps, h => by
    have hrest := Args.collect_holds rest ((h.plain v).pushText string)
    rw [List.append_assoc, List.append_assoc] at hrest
    exact hrest
  | .nested t string rest, c, ps, h => by
    obtain ⟨hsql, hparams⟩ := Template.eval_holds t
    have hrest := Args.collect_holds rest ((h.fragment hsql hparams).pushText string)
    rw [List.append_assoc, List.append_assoc] at hrest
    exact hrest

end

/-! ## Alignment -/

/-- The values before those of `back`, with the strings after them. -/
def Args.append : Args V → Args V → Args V
  | .nil, back => back
  | .plain v string rest, back => .plain v string (rest.append back)
  | .nested t string rest, back => .nested t string (rest.append back)

theorem Args.pieces_append (front back : Args V) :
    (front.append back).pieces = front.pieces ++ back.pieces := by
  match front with
  | .nil => rfl
  | .plain v string rest =>
    simp only [append, pieces, pieces_append rest back, List.append_assoc, List.cons_append]
  | .nested t string rest =>
    simp only [append, pieces, pieces_append rest back, List.append_assoc, List.cons_append]

/-- The parameters are in order one value for every `?` that is written for a value; they are one
for every `?` of the text exactly when no string, raw text or name has one of its own. A nested
template brings its own text and its own parameters where it stands. -/
theorem sqlTag_aligned (t : Template V) :
    (t.eval.sql = text t.pieces ∧ t.eval.params = markers t.pieces) ∧
      (t.eval.sql.count '?' = t.eval.params.length ↔ ∀ p ∈ t.pieces, p.Bare) ∧
      ∀ (head : List Char) (front : Args V) (string : List Char) (back : Args V),
        let outer := (Template.mk head (front.append (.nested t string back))).eval
        let before := (Template.mk head front).eval
        let after := (Template.mk string back).eval
        outer.sql = before.sql ++ t.eval.sql ++ after.sql ∧
          outer.params = before.params ++ t.eval.params ++ after.params := by
  refine ⟨t.eval_holds, ?_, ?_⟩
  · rw [t.eval_holds.1, t.eval_holds.2]
    exact count_text_iff t.pieces
  · intro head front string back
    have hsplit : (Template.mk head (front.append (.nested t string back))).pieces =
        (Template.mk head front).pieces ++ t.pieces ++ (Template.mk string back).pieces := by
      simp only [Template.pieces, Args.pieces_append, Args.pieces, List.cons_append,
        List.append_assoc]
    simp only [Template.eval_holds, hsplit, text_append, markers_append, and_self]

/-- A single column with a comparison to a value that is given elsewhere. -/
theorem typed_fragment_marker :
    let t : Template Nat :=
      .mk [] (.plain (.column "users".toList "age".toList) " > ?".toList .nil)
    t.eval = { tag := .sqlTypedFragment, sql := "age > ?".toList, params := [] } ∧
      t.eval.sql.count '?' ≠ t.eval.params.length := by
  decide

end LiteDb.SqlTag
