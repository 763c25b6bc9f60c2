import LiteDbModel.Lib.Text
import LiteDbModel.Values

/-!
# The JSON parameter encoder

`encodeJsonParam` serializes a payload with `JSON.stringify`, carrying a bigint
through it as a marked string, and splices the marked strings back as bare
integers. The encoded text reads back as the payload exactly when no string of
the payload looks like a marked one.
-/

namespace LiteDb
set_option autoImplicit false
open Json Decimal

/-- What `JSON.stringify` hands to its replacer and does not descend into. -/
inductive Prim
  | null
  | bool (b : Bool)
  | num (d : Dec)
  | bigint (i : Int)
  | str (s : String)

mutual
/-- The `SerializeJSONProperty` walk, after `toJSON`: `none` is `undefined`. -/
def jsonTree : JsVal → Option (Doc Prim)
  | .undefined => none
  | .null => some (.leaf .null)
  | .bool b => some (.leaf (.bool b))
  | .num (.fin d) => some (.leaf (.num d))
  | .num .nan => some (.leaf .null)
  | .num (.inf _) => some (.leaf .null)
  | .bigint i => some (.leaf (.bigint i))
  | .str s => some (.leaf (.str s))
  | .date iso => some (.leaf (.str iso))
  | .buffer bytes => some (.obj [("type", .leaf (.str "Buffer")),
      ("data", .arr (bytes.map fun b => .leaf (.num (Dec.ofInt b.toNat))))])
  | .arr xs => some (.arr (jsonElems xs))
  | .obj ps => some (.obj (jsonMembers ps))

def jsonElems : List JsVal → List (Doc Prim)
  | [] => []
  | x :: xs => (jsonTree x).getD (.leaf .null) :: jsonElems xs

def jsonMembers : List (String × JsVal) → List (String × Doc Prim)
  | [] => []
  | (k, x) :: ps =>
    match jsonTree x with
    | none => jsonMembers ps
    | some t => (k, t) :: jsonMembers ps
end

/-- `BIGINT_SENTINEL` -/
def bigintSentinel : List Char := ['\x00', 'i', 'n', 't', ':']

def boolNum (b : Bool) : Dec := Dec.ofInt (if b then 1 else 0)

/-- The replacer of `encodeJsonParam`. -/
def replacer (dialect : Dialect) : Prim → Scalar
  | .bigint i => .str (String.ofList (bigintSentinel ++ intText i))
  | .bool b => if dialect = .mysql then .num (boolNum b) else .bool b
  | .null => .null
  | .num d => .num d
  | .str s => .str s

def scalarText : Scalar → List Char
  | .null => ['n', 'u', 'l', 'l']
  | .bool true => ['t', 'r', 'u', 'e']
  | .bool false => ['f', 'a', 'l', 's', 'e']
  | .num d => d.print
  | .str s => quote s

/-- `-?\d+` -/
def intToken : List Char → Option (List Char × List Char)
  | '-' :: cs =>
    let (ds, rest) := spanDigits cs
    if ds = [] then none else some ('-' :: ds, rest)
  | cs =>
    let (ds, rest) := spanDigits cs
    if ds = [] then none else some (ds, rest)

/-- The regular expression `"\\u0000int:(-?\d+)"`, replaced by its group. -/
def taggedInt : Text.Matcher
  | '"' :: '\\' :: 'u' :: '0' :: '0' :: '0' :: '0' :: 'i' :: 'n' :: 't' :: ':' :: cs =>
    match intToken cs with
    | some (ds, '"' :: _) => some (ds, ds.length + 12)
    | _ => none
  | _ => none

def encodeJsonParam (dialect : Dialect) (payload : JsVal) : Option (List Char) :=
  (jsonTree payload).map fun t =>
    Text.replaceAll taggedInt 0 ((t.map (replacer dialect)).text scalarText quote)

/-! ## What the splicing does to a quoted string -/

/-- The digits of a marked integer text. -/
def asMarker : List Char → Option (List Char)
  | '\x00' :: 'i' :: 'n' :: 't' :: ':' :: ds =>
    match intToken ds with
    | some (ds, []) => some ds
    | _ => none
  | _ => none

/-- Some suffix right after a double quote is a marked integer text. -/
def endsInMarker : List Char → Bool
  | [] => false
  | c :: cs => (c = '"' && (asMarker cs).isSome) || endsInMarker cs

/-- The texts that the splicing takes for a bigint of its own, wholly or from a quote on. -/
def forgesBigint (s : String) : Bool := (asMarker s.toList).isSome || endsInMarker s.toList

def IsIntText (ds : List Char) : Prop :=
  ds ≠ [] ∧ ds ≠ ['-'] ∧ ∃ c cs, ds = c :: cs ∧ (c = '-' ∨ c.isDigit = true) ∧
    ∀ d ∈ cs, d.isDigit = true

theorem intToken_spec {cs ds rest : List Char} (h : intToken cs = some (ds, rest)) :
    cs = ds ++ rest ∧ IsIntText ds ∧ NoDigit rest := by
  have hdig : ∀ cs' : List Char, (spanDigits cs').1 ≠ [] →
      ∃ c tl, (spanDigits cs').1 = c :: tl ∧ c.isDigit = true ∧ ∀ d ∈ tl, d.isDigit = true := by
    intro cs' hne
    obtain ⟨c, tl, hc⟩ := List.exists_cons_of_ne_nil hne
    have hall := (spanDigits_spec cs').2.1
    rw [hc] at hall
    exact ⟨c, tl, hc, hall c List.mem_cons_self, fun d hd => hall d (List.mem_cons_of_mem c hd)⟩
  unfold intToken at h
  split at h
  · rename_i cs'
    simp only at h
    split at h
    · cases h
    · rename_i hne
      obtain ⟨happ, hall, hnd⟩ := spanDigits_spec cs'
      cases h
      refine ⟨by rw [List.cons_append, ← happ], ⟨by simp, by simpa using hne, ?_⟩, hnd⟩
      exact ⟨'-', _, rfl, Or.inl rfl, hall⟩
  · simp only at h
    split at h
    · cases h
    · rename_i hne
      obtain ⟨happ, _, hnd⟩ := spanDigits_spec cs
      obtain ⟨c, tl, hc, hcd, htl⟩ := hdig cs hne
      cases h
      refine ⟨happ, ⟨hne, ?_, c, tl, hc, Or.inr hcd, htl⟩, hnd⟩
      rw [hc]
      intro hm
      rw [(List.cons.inj hm).1] at hcd
      exact absurd hcd (by decide)

theorem intToken_append {ds rest : List Char} (h : IsIntText ds) (hr : NoDigit rest) :
    intToken (ds ++ rest) = some (ds, rest) := by
  obtain ⟨_, hmin, c, cs, rfl, hc, hcs⟩ := h
  rcases hc with rfl | hc
  · have hne : cs ≠ [] := by
      rintro rfl
      exact hmin rfl
    simp [intToken, spanDigits_append hcs hr, hne]
  · have hall : ∀ d ∈ c :: cs, d.isDigit = true := by
      intro d hd
      rcases List.mem_cons.mp hd with rfl | hd
      · exact hc
      · exact hcs d hd
    unfold intToken
    split
    · rename_i heq
      rw [List.cons_append] at heq
      rw [(List.cons.inj heq).1] at hc
      exact absurd hc (by decide)
    · rw [spanDigits_append hall hr]
      simp

theorem intText_isIntText (i : Int) : IsIntText (intText i) := by
  obtain ⟨c, cs, hc, hdig⟩ := toDigits_cons i.natAbs
  have hall : ∀ d ∈ c :: cs, d.isDigit = true := fun d hd => isDigit_of_mem (hc ▸ hd)
  unfold intText
  rw [hc]
  split
  · exact ⟨by simp, by simp, '-', c :: cs, rfl, Or.inl rfl, hall⟩
  · refine ⟨by simp, ?_, c, cs, rfl, Or.inr hdig, fun d hd => hall d (List.mem_cons_of_mem c hd)⟩
    intro hm
    rw [List.nil_append] at hm
    rw [(List.cons.inj hm).1] at hdig
    exact absurd hdig (by decide)

theorem asMarker_eq_some {cs ds : List Char} :
    asMarker cs = some ds ↔ cs = bigintSentinel ++ ds ∧ IsIntText ds := by
  constructor
  · intro h
    unfold asMarker at h
    split at h
    · split at h
      · rename_i ds' heq
        cases h
        obtain ⟨happ, hint, _⟩ := intToken_spec heq
        rw [List.append_nil] at happ
        exact ⟨by rw [happ]; rfl, hint⟩
      · cases h
    · cases h
  · rintro ⟨rfl, hint⟩
    have := intToken_append hint NoDigit.nil
    rw [List.append_nil] at this
    simp [asMarker, bigintSentinel, this]

theorem escape_intChar {c : Char} (h : c = '-' ∨ c.isDigit = true) : escape c = [c] := by
  rcases h with rfl | h
  · rfl
  · have hr : 48 ≤ c.toNat ∧ c.toNat ≤ 57 := by
      simpa [Char.isDigit, Char.le_def, UInt32.le_iff_toNat_le] using h
    have hne : ∀ d : Char, d.toNat < 48 ∨ 57 < d.toNat → c ≠ d := by
      rintro d hd rfl
      omega
    simp [escape, hne '"' (by decide), hne '\\' (by decide), hne '\x08' (by decide),
      hne '\t' (by decide), hne '\n' (by decide), hne '\x0c' (by decide), hne '\r' (by decide),
      show ¬ c.toNat < 32 by omega]

theorem flatMap_escape_int {ds : List Char} (h : IsIntText ds) : ds.flatMap escape = ds := by
  obtain ⟨_, _, c, cs, rfl, hc, hcs⟩ := h
  have hrest : cs.flatMap escape = cs := by
    calc cs.flatMap escape = cs.flatMap (fun d => [d]) :=
          List.flatMap_congr fun d hd => escape_intChar (Or.inr (hcs d hd))
      _ = cs := List.flatMap_singleton' cs
  rw [List.flatMap_cons, escape_intChar hc, hrest]
  rfl

theorem escape_marker {ds : List Char} (h : IsIntText ds) :
    (bigintSentinel ++ ds).flatMap escape =
      ['\\', 'u', '0', '0', '0', '0', 'i', 'n', 't', ':'] ++ ds := by
  rw [List.flatMap_append, flatMap_escape_int h]
  rfl

theorem taggedInt_quote_cons (cs : List Char) {c : Char} {r : List Char} (hc : cs = c :: r)
    (hne : c ≠ '\\') : taggedInt ('"' :: cs) = none := by
  subst hc
  unfold taggedInt
  split
  · rename_i heq
    exact absurd (List.cons.inj (List.cons.inj heq).2).1 hne
  · rfl

theorem taggedInt_spec {cs ds : List Char} {n : Nat} (h : taggedInt ('"' :: cs) = some (ds, n)) :
    IsIntText ds ∧ ∃ rest, cs = (bigintSentinel ++ ds).flatMap escape ++ '"' :: rest := by
  unfold taggedInt at h
  split at h
  · rename_i cs' heq
    split at h
    · rename_i ds' rest htok
      cases h
      obtain ⟨happ, hint, _⟩ := intToken_spec htok
      refine ⟨hint, rest, ?_⟩
      rw [(List.cons.inj heq).2, happ, escape_marker hint]
      simp
    · cases h
  · cases h

/-- At a quote the pattern matches exactly the marked integer that ends the string there. -/
theorem taggedInt_string (cs rest : List Char) :
    taggedInt ('"' :: (cs.flatMap escape ++ '"' :: rest)) =
      (asMarker cs).map fun ds => (ds, (cs.flatMap escape ++ ['"']).length + 1) := by
  cases hm : asMarker cs with
  | some ds =>
    obtain ⟨rfl, hint⟩ := asMarker_eq_some.mp hm
    have htok := intToken_append hint (NoDigit.cons (c := '"') (by decide) rest)
    rw [escape_marker hint]
    simp [taggedInt, htok]
  | none =>
    cases ht : taggedInt ('"' :: (cs.flatMap escape ++ '"' :: rest)) with
    | none => rfl
    | some p =>
      obtain ⟨ds, n⟩ := p
      obtain ⟨hint, rest', heq⟩ := taggedInt_spec ht
      have hread := parseChars_quoted cs rest
      rw [heq, parseChars_quoted] at hread
      have hcs : cs = bigintSentinel ++ ds := (Prod.mk.inj (Option.some.inj hread)).1.symm
      rw [asMarker_eq_some.mpr ⟨hcs, hint⟩] at hm
      cases hm

/-! ## The spliced text of one token -/

/-- A string token after its opening quote, as the splicing leaves it. -/
def splicedBody : List Char → List Char
  | [] => ['"']
  | c :: cs =>
    if c = '"' then
      match asMarker cs with
      | some ds => '\\' :: ds
      | none => '\\' :: '"' :: splicedBody cs
    else escape c ++ splicedBody cs

def splicedString (s : String) : List Char :=
  match asMarker s.toList with
  | some ds => ds
  | none => '"' :: splicedBody s.toList

/-- What follows a token of compact text: never a backslash. -/
def NoBackslash (cs : List Char) : Prop := ∀ r, cs ≠ '\\' :: r

theorem taggedInt_passes {c : Char} (h : c ≠ '"') : Text.Passes taggedInt c := by
  intro cs
  unfold taggedInt
  split
  · rename_i heq
    exact absurd (List.cons.inj heq).1 h
  · rfl

theorem taggedInt_close {rest : List Char} (h : NoBackslash rest) :
    taggedInt ('"' :: rest) = none := by
  cases rest with
  | nil => rfl
  | cons c r => exact taggedInt_quote_cons _ rfl fun hc => h r (by rw [hc])

theorem escape_no_quote {c : Char} (hc : c ≠ '"') : ∀ d ∈ escape c, d ≠ '"' := by
  have hhex : ∀ n < 32, '"' ∉ escape (Char.ofNat n) := by decide
  by_cases hlt : c.toNat < 32
  · have := hhex c.toNat hlt
    rw [Char.ofNat_toNat] at this
    rintro d hd rfl
    exact this hd
  · intro d hd
    unfold escape at hd
    split at hd
    · contradiction
    · repeat' split at hd
      all_goals simp_all

theorem replaceAll_body (cs : List Char) {rest : List Char} (h : NoBackslash rest) :
    Text.replaceAll taggedInt 0 (cs.flatMap escape ++ '"' :: rest) =
      splicedBody cs ++ Text.replaceAll taggedInt 0 rest := by
  induction cs with
  | nil => exact Text.replaceAll_no_match (taggedInt_close h)
  | cons c cs ih =>
    rw [List.flatMap_cons, List.append_assoc]
    by_cases hc : c = '"'
    · subst hc
      have hstring := taggedInt_string cs rest
      have hpass := taggedInt_passes (c := '\\') (by decide)
      rw [show escape '"' = ['\\', '"'] from rfl]
      simp only [List.cons_append, List.nil_append, splicedBody, if_true]
      rw [Text.replaceAll_no_match (hpass _)]
      cases hm : asMarker cs with
      | none =>
        rw [hm] at hstring
        rw [Text.replaceAll_no_match hstring, ih]
        rfl
      | some ds =>
        rw [hm, show cs.flatMap escape ++ '"' :: rest = cs.flatMap escape ++ ['"'] ++ rest by simp]
          at hstring
        rw [show cs.flatMap escape ++ '"' :: rest = cs.flatMap escape ++ ['"'] ++ rest by simp,
          Text.replaceAll_match hstring]
        rfl
    · rw [Text.replaceAll_pass fun d hd => taggedInt_passes (escape_no_quote hc d hd), ih]
      simp [splicedBody, hc]

theorem rewrites_quote (s : String) :
    Text.Rewrites taggedInt NoBackslash (quote s) (splicedString s) := by
  intro rest h
  have hstring := taggedInt_string s.toList rest
  rw [show quote s ++ rest = '"' :: (s.toList.flatMap escape ++ '"' :: rest) by simp [quote]]
  unfold splicedString
  cases hm : asMarker s.toList with
  | none =>
    rw [hm] at hstring
    rw [Text.replaceAll_no_match hstring, replaceAll_body s.toList h]
    rfl
  | some ds =>
    rw [hm, show s.toList.flatMap escape ++ '"' :: rest =
      s.toList.flatMap escape ++ ['"'] ++ rest by simp] at hstring
    rw [show s.toList.flatMap escape ++ '"' :: rest =
      s.toList.flatMap escape ++ ['"'] ++ rest by simp, Text.replaceAll_match hstring]

theorem splicedBody_plain {cs : List Char} (h : endsInMarker cs = false) :
    splicedBody cs = cs.flatMap escape ++ ['"'] := by
  induction cs with
  | nil => rfl
  | cons c cs ih =>
    simp only [endsInMarker, Bool.or_eq_false_iff] at h
    rw [List.flatMap_cons, List.append_assoc, ← ih h.2]
    by_cases hc : c = '"'
    · subst hc
      have hm : asMarker cs = none := by simpa using h.1
      simp [splicedBody, hm, escape]
    · simp [splicedBody, hc]

/-- A marker after a quote leaves a backslash in front of its digits: no JSON string. -/
theorem parseChars_forged {cs : List Char} (h : endsInMarker cs = true) (rest : List Char) :
    parseChars none (splicedBody cs ++ rest) = none := by
  induction cs with
  | nil => cases h
  | cons c cs ih =>
    by_cases hc : c = '"'
    · subst hc
      simp only [splicedBody, if_true]
      cases hm : asMarker cs with
      | some ds =>
        obtain ⟨_, _, _, d, tl, rfl, hd, _⟩ := asMarker_eq_some.mp hm
        have hshort : d ≠ 'u' ∧ shortEscape d = none := by
          rcases hd with rfl | hd
          · decide
          · have hr : 48 ≤ d.toNat ∧ d.toNat ≤ 57 := by
              simpa [Char.isDigit, Char.le_def, UInt32.le_iff_toNat_le] using hd
            have hall : ∀ n ∈ List.range' 48 10, Char.ofNat n ≠ 'u' ∧
                shortEscape (Char.ofNat n) = none := by decide
            have := hall d.toNat (by simp; omega)
            rwa [Char.ofNat_toNat] at this
        simp only [List.cons_append]
        rw [parseChars.eq_def]
        simp [hshort]
      | none =>
        have hrest : endsInMarker cs = true := by simpa [endsInMarker, hm] using h
        have hesc := parseChars_escape '"' (splicedBody cs ++ rest)
        rw [ih hrest] at hesc
        exact hesc
    · have hrest : endsInMarker cs = true := by simpa [endsInMarker, hc] using h
      simp only [splicedBody, hc, if_false, List.append_assoc]
      rw [parseChars_escape, ih hrest]
      rfl

/-- The text of one leaf in the encoded parameter. -/
def tokenText (dialect : Dialect) (p : Prim) : List Char :=
  match replacer dialect p with
  | .str s => splicedString s
  | s => scalarText s

theorem scalarText_no_quote {s : Scalar} (hs : ∀ t, s ≠ .str t) : ∀ c ∈ scalarText s, c ≠ '"' := by
  cases s with
  | null => simp [scalarText]
  | bool b => cases b <;> simp [scalarText]
  | num d =>
    intro c hc
    rcases print_chars d c hc with rfl | rfl | rfl | rfl | h
    · decide
    · decide
    · decide
    · decide
    · rintro rfl
      exact absurd h (by decide)
  | str t => exact absurd rfl (hs t)

theorem rewrites_token (dialect : Dialect) (p : Prim) :
    Text.Rewrites taggedInt NoBackslash (scalarText (replacer dialect p)) (tokenText dialect p) := by
  unfold tokenText
  cases hr : replacer dialect p with
  | str s => exact rewrites_quote s
  | null | bool _ | num _ =>
    intro rest _
    exact Text.replaceAll_pass
      (fun c hc => taggedInt_passes (scalarText_no_quote (by intro t; nofun) c hc)) rest

/-- The splicing acts on each string token alone. -/
theorem tokenWise (dialect : Dialect) :
    Doc.TokenWise taggedInt NoBackslash (fun p => scalarText (replacer dialect p))
      (tokenText dialect) quote splicedString where
  leaf := rewrites_token dialect
  key := rewrites_quote
  pass := by
    intro c hc
    apply taggedInt_passes
    rintro rfl
    exact absurd hc (by decide)
  admits := by
    intro c hc cs r h
    rw [(List.cons.inj h).1] at hc
    exact absurd hc (by decide)

/-- The documented changes: a MySQL boolean becomes 1/0, a bigint an exact integer. -/
def documentedLeaf (dialect : Dialect) : Prim → Scalar
  | .bigint i => .num (Dec.ofInt i)
  | .bool b => if dialect = .mysql then .num (boolNum b) else .bool b
  | .null => .null
  | .num d => .num d
  | .str s => .str s

def Prim.forges : Prim → Bool
  | .str s => forgesBigint s
  | _ => false

theorem asMarker_sentinel (i : Int) :
    asMarker (String.ofList (bigintSentinel ++ intText i)).toList = some (intText i) := by
  rw [String.toList_ofList]
  exact asMarker_eq_some.mpr ⟨rfl, intText_isIntText i⟩

theorem tokenText_bigint (dialect : Dialect) (i : Int) :
    tokenText dialect (.bigint i) = intText i := by
  simp only [tokenText, replacer, splicedString, asMarker_sentinel]

/-! ## Reading the tokens back -/

theorem starts_intChar {c : Char} (cs : List Char) (h : c = '-' ∨ c.isDigit = true) :
    Starts (c :: cs) := by
  refine ⟨c, cs, rfl, ?_⟩
  have hne : ∀ d : Char, ¬ (d = '-' ∨ d.isDigit = true) → c ≠ d := by
    rintro d hd rfl
    exact hd h
  exact ⟨by simp [isWs, hne ' ' (by decide), hne '\t' (by decide), hne '\n' (by decide),
    hne '\r' (by decide)], hne ']' (by decide), hne '}' (by decide)⟩

theorem splicedString_starts (s : String) : Starts (splicedString s) := by
  unfold splicedString
  split
  · rename_i ds hm
    obtain ⟨_, _, _, c, cs, rfl, hc, _⟩ := asMarker_eq_some.mp hm
    exact starts_intChar cs hc
  · exact ⟨'"', _, rfl, by decide, by decide, by decide⟩

theorem tokenText_starts (dialect : Dialect) (p : Prim) : Starts (tokenText dialect p) := by
  unfold tokenText
  cases replacer dialect p with
  | str s => exact splicedString_starts s
  | null => exact ⟨'n', _, rfl, by decide, by decide, by decide⟩
  | bool b => cases b <;> exact ⟨_, _, rfl, by decide, by decide, by decide⟩
  | num d =>
    obtain ⟨c, cs, hc, h⟩ := print_head d
    simp only [scalarText, hc]
    exact starts_intChar cs h

theorem parseValue_number {t : List Char} {d : Dec} (n : Nat) {rest : List Char}
    (hh : ∃ c cs, t = c :: cs ∧ (c = '-' ∨ c.isDigit = true))
    (hp : parseNumber (t ++ rest) = some (d, rest)) :
    parseValue (n + 1) (t ++ rest) = some (.leaf (.num d), rest) := by
  obtain ⟨c, cs, rfl, hc⟩ := hh
  obtain ⟨_, _, heq, hw, _, _⟩ := starts_intChar cs hc
  cases heq
  have hne : ∀ e : Char, ¬ (e = '-' ∨ e.isDigit = true) → c ≠ e := by
    rintro e he rfl
    exact he hc
  rw [List.cons_append] at hp ⊢
  rw [parseValue_scalar n hw (hne '[' (by decide)) (hne '{' (by decide)), parseScalar_number hc, hp]
  rfl

theorem intText_head (i : Int) : ∃ c cs, intText i = c :: cs ∧ (c = '-' ∨ c.isDigit = true) := by
  obtain ⟨_, _, c, cs, hc, h, _⟩ := intText_isIntText i
  exact ⟨c, cs, hc, h⟩

theorem parseValue_quote (n : Nat) (s : String) (rest : List Char) :
    parseValue (n + 1) (quote s ++ rest) = some (.leaf (.str s), rest) := by
  rw [show quote s ++ rest = '"' :: (s.toList.flatMap escape ++ '"' :: rest) by simp [quote],
    parseValue_scalar n (by decide) (by decide) (by decide), parseScalar_quote,
    parseChars_quoted]
  simp

/-- The number a marked integer text reads as, if it has no leading zeros. -/
def forgedRead (ds : List Char) : Option Scalar := (parseNumber ds).map fun p => .num p.1

/-- What a string token reads as after the splicing: a suffix match breaks it. -/
def stringRead (s : String) : Option Scalar :=
  match asMarker s.toList with
  | some ds => forgedRead ds
  | none => if endsInMarker s.toList then none else some (.str s)

def leafRead (dialect : Dialect) : Prim → Option Scalar
  | .str s => stringRead s
  | p => some (documentedLeaf dialect p)

/-- A key that forges is no key any more. -/
def keyRead (k : String) : Option String := if forgesBigint k then none else some k

theorem parseNumber_int {ds rest : List Char} (h : IsIntText ds) (hr : NumEnd rest) :
    parseNumber (ds ++ rest) = (parseNumber ds).map fun p => (p.1, rest) := by
  obtain ⟨_, _, c, cs, rfl, hc, hcs⟩ := h
  rcases hc with rfl | hc
  · have h1 := parseUnsigned_int true hcs hr
    have h2 := parseUnsigned_int true hcs NumEnd.nil
    rw [List.append_nil] at h2
    rw [List.cons_append, parseNumber_minus, parseNumber_minus, h1, h2]
    cases goodInt cs <;> rfl
  · have hall : ∀ d ∈ c :: cs, d.isDigit = true := by
      intro d hd
      rcases List.mem_cons.mp hd with rfl | hd
      · exact hc
      · exact hcs d hd
    have h1 := parseUnsigned_int false hall hr
    have h2 := parseUnsigned_int false hall NumEnd.nil
    rw [List.append_nil] at h2
    rw [List.cons_append] at h1 ⊢
    rw [parseNumber_digit hc, parseNumber_digit hc, h1, h2]
    cases goodInt (c :: cs) <;> rfl

theorem parseValue_int {ds : List Char} (h : IsIntText ds) (n : Nat) {rest : List Char}
    (hr : Follow rest) :
    parseValue (n + 1) (ds ++ rest) = (forgedRead ds).map fun s => (.leaf s, rest) := by
  have hp := parseNumber_int h hr.numEnd
  obtain ⟨_, _, c, cs, rfl, hc, _⟩ := h
  obtain ⟨_, _, heq, hw, _, _⟩ := starts_intChar cs hc
  cases heq
  have hne : ∀ e : Char, ¬ (e = '-' ∨ e.isDigit = true) → c ≠ e := by
    rintro e he rfl
    exact he hc
  rw [List.cons_append] at hp ⊢
  rw [parseValue_scalar n hw (hne '[' (by decide)) (hne '{' (by decide)), parseScalar_number hc, hp,
    forgedRead]
  cases parseNumber (c :: cs) <;> rfl

theorem parseValue_string (s : String) (n : Nat) {rest : List Char} (hr : Follow rest) :
    parseValue (n + 1) (splicedString s ++ rest) = (stringRead s).map fun s => (.leaf s, rest) := by
  unfold splicedString stringRead
  cases hm : asMarker s.toList with
  | some ds => exact parseValue_int (asMarker_eq_some.mp hm).2 n hr
  | none =>
    cases he : endsInMarker s.toList with
    | true =>
      simp only [List.cons_append]
      rw [parseValue_scalar n (by decide) (by decide) (by decide), parseScalar_quote,
        parseChars_forged he rest]
      rfl
    | false =>
      have := parseValue_quote n s rest
      rw [quote, ← splicedBody_plain he] at this
      simpa using this

theorem parseKey_string (k : String) (rest : List Char) :
    parseKey (splicedString k ++ ':' :: rest) = (keyRead k).map fun k' => (k', ':' :: rest) := by
  unfold splicedString keyRead forgesBigint
  cases hm : asMarker k.toList with
  | some ds =>
    obtain ⟨_, _, _, c, cs, rfl, hc, _⟩ := asMarker_eq_some.mp hm
    obtain ⟨_, _, heq, hw, _, _⟩ := starts_intChar cs hc
    cases heq
    simp only [List.cons_append, parseKey, skipWs]
    rw [List.dropWhile_cons_of_neg (by simp [hw])]
    split
    · rename_i heq
      rw [(List.cons.inj heq).1] at hc
      exact absurd hc (by decide)
    · rfl
  | none =>
    cases he : endsInMarker k.toList with
    | true => simp [parseKey, skipWs, isWs, parseChars_forged he]
    | false =>
      have hread := parseChars_quoted k.toList (':' :: rest)
      rw [splicedBody_plain he]
      simp [parseKey, skipWs, isWs, hread]

/-- The encoded text is read token by token. -/
theorem tokens (dialect : Dialect) :
    Doc.Tokens (tokenText dialect) splicedString (leafRead dialect) keyRead where
  leafStarts := tokenText_starts dialect
  keyStarts := splicedString_starts
  key := parseKey_string
  leaf := by
    have hnum : ∀ (d : Dec) n rest, Follow rest →
        parseValue (n + 1) (d.print ++ rest) = some (.leaf (.num d), rest) :=
      fun d n rest hr => parseValue_number n (print_head d) (parseNumber_print d hr.numEnd)
    intro p n rest hr
    cases p with
    | null => rfl
    | num d => exact hnum d n rest hr
    | bigint i =>
      rw [tokenText_bigint]
      exact parseValue_number n (intText_head i) (parseNumber_intText i hr.numEnd)
    | str s => exact parseValue_string s n hr
    | bool b =>
      by_cases hd : dialect = .mysql
      · simp only [tokenText, replacer, leafRead, documentedLeaf, hd, if_true]
        exact hnum (boolNum b) n rest hr
      · simp only [tokenText, replacer, leafRead, documentedLeaf, hd, if_false]
        cases b <;> rfl

/-- What the encoded text of a payload reads as. -/
theorem parse_encodeJsonParam (dialect : Dialect) (payload : JsVal) {t : Doc Prim}
    (h : jsonTree payload = some t) :
    ∃ text, encodeJsonParam dialect payload = some text ∧
      parse text = t.read (leafRead dialect) keyRead := by
  refine ⟨Text.replaceAll taggedInt 0 ((t.map (replacer dialect)).text scalarText quote),
    by rw [encodeJsonParam, h]; rfl, ?_⟩
  have hspliced := Doc.rewrites_text (tokenWise dialect) t [] (by intro r; nofun)
  simp only [List.append_nil, Text.replaceAll] at hspliced
  rw [Doc.text_map, hspliced, Doc.parse_text (tokens dialect)]

theorem stringRead_eq_iff (s : String) : stringRead s = some (.str s) ↔ forgesBigint s = false := by
  unfold stringRead forgesBigint
  cases asMarker s.toList with
  | some ds => cases h : parseNumber ds <;> simp [forgedRead, h]
  | none => cases endsInMarker s.toList <;> simp

theorem leafRead_eq_iff (dialect : Dialect) (p : Prim) :
    leafRead dialect p = some (documentedLeaf dialect p) ↔ p.forges = false := by
  cases p with
  | str s => exact stringRead_eq_iff s
  | _ => simp [leafRead, Prim.forges]

theorem keyRead_eq_iff (k : String) : keyRead k = some k ↔ forgesBigint k = false := by
  unfold keyRead
  cases forgesBigint k <;> simp

/-! ## IN-list values -/

mutual
/-- Arrays, at any nesting, of strings, finite numbers, bigints, booleans and null. -/
def listValue : JsVal → Bool
  | .null | .bool _ | .num (.fin _) | .bigint _ | .str _ => true
  | .arr xs => listValues xs
  | _ => false

def listValues : List JsVal → Bool
  | [] => true
  | x :: xs => listValue x && listValues xs
end

mutual
/-- The JSON value an IN-list value is documented to be encoded as. -/
def documented (dialect : Dialect) : JsVal → Doc Scalar
  | .bool b => .leaf (if dialect = .mysql then .num (boolNum b) else .bool b)
  | .num (.fin d) => .leaf (.num d)
  | .bigint i => .leaf (.num (Dec.ofInt i))
  | .str s => .leaf (.str s)
  | .arr xs => .arr (documentedElems dialect xs)
  | _ => .leaf .null

def documentedElems (dialect : Dialect) : List JsVal → List (Doc Scalar)
  | [] => []
  | x :: xs => documented dialect x :: documentedElems dialect xs
end

mutual
/-- Some string of the value looks like a marked bigint to the splicing. -/
def hasForgery : JsVal → Bool
  | .str s => forgesBigint s
  | .arr xs => hasForgeries xs
  | _ => false

def hasForgeries : List JsVal → Bool
  | [] => false
  | x :: xs => hasForgery x || hasForgeries xs
end

mutual
theorem jsonTree_listValue (dialect : Dialect) : (v : JsVal) → listValue v = true →
    ∃ t, jsonTree v = some t ∧
      (t.read (leafRead dialect) keyRead = some (documented dialect v) ↔ hasForgery v = false)
  | .null, _ => ⟨.leaf .null, rfl, by simp [Doc.read, leafRead, documentedLeaf, documented, hasForgery]⟩
  | .bool b, _ =>
    ⟨.leaf (.bool b), rfl, by simp [Doc.read, leafRead, documentedLeaf, documented, hasForgery]⟩
  | .num (.fin d), _ =>
    ⟨.leaf (.num d), rfl, by simp [Doc.read, leafRead, documentedLeaf, documented, hasForgery]⟩
  | .bigint i, _ =>
    ⟨.leaf (.bigint i), rfl, by simp [Doc.read, leafRead, documentedLeaf, documented, hasForgery]⟩
  | .str s, _ => ⟨.leaf (.str s), rfl, by
      simp [Doc.read, leafRead, documented, hasForgery, ← stringRead_eq_iff s]⟩
  | .arr xs, h => ⟨.arr (jsonElems xs), rfl, by
      simp only [Doc.read, documented, hasForgery, ← jsonElems_listValues dialect xs h,
        Option.map_eq_some_iff, Doc.arr.injEq, exists_eq_right]⟩

theorem jsonElems_listValues (dialect : Dialect) : (xs : List JsVal) → listValues xs = true →
    (Doc.readElems (leafRead dialect) keyRead (jsonElems xs) = some (documentedElems dialect xs) ↔
      hasForgeries xs = false)
  | [], _ => by simp [jsonElems, Doc.readElems, documentedElems, hasForgeries]
  | x :: xs, h => by
    simp only [listValues, Bool.and_eq_true] at h
    obtain ⟨t, ht, hx⟩ := jsonTree_listValue dialect x h.1
    have hxs := jsonElems_listValues dialect xs h.2
    simp only [jsonElems, ht, Option.getD_some, Doc.readElems, documentedElems, hasForgeries,
      Bool.or_eq_false_iff, ← hx, ← hxs]
    cases t.read (leafRead dialect) keyRead <;>
      cases Doc.readElems (leafRead dialect) keyRead (jsonElems xs) <;> simp
end

/-- The encoded text of an IN-list value reads back as documented iff no string of it forges. -/
theorem encodeJsonParam_reads_iff (dialect : Dialect) (v : JsVal) (hv : listValue v = true) :
    (∃ text, encodeJsonParam dialect v = some text ∧ parse text = some (documented dialect v)) ↔
      hasForgery v = false := by
  obtain ⟨t, ht, hiff⟩ := jsonTree_listValue dialect v hv
  obtain ⟨text, he, hp⟩ := parse_encodeJsonParam dialect v ht
  rw [← hiff, ← hp]
  simp [he]

theorem encodeJsonParam_reads_plain :
    listValue (.arr [.str "a\"b", .bigint 9007199254740993, .bool true]) = true ∧
      ∃ text, encodeJsonParam .mysql (.arr [.str "a\"b", .bigint 9007199254740993, .bool true]) =
          some text ∧
        parse text =
          some (documented .mysql (.arr [.str "a\"b", .bigint 9007199254740993, .bool true])) :=
  ⟨rfl, (encodeJsonParam_reads_iff .mysql _ rfl).mpr rfl⟩

/-- The string NUL `int:5` leaves the encoder as the number 5. -/
theorem encodeJsonParam_forged :
    ¬ ∀ (dialect : Dialect) (v : JsVal), listValue v = true →
      ∃ text, encodeJsonParam dialect v = some text ∧ parse text = some (documented dialect v) := by
  intro h
  obtain ⟨text, he, hp⟩ := h .sqlite (.arr [.str "\x00int:5"]) rfl
  have henc : encodeJsonParam .sqlite (.arr [.str "\x00int:5"]) = some ['[', '5', ']'] := by decide
  rw [henc] at he
  obtain rfl := Option.some.inj he
  have hread : parse ['[', '5', ']'] = some (.arr [.leaf (.num (Dec.ofInt 5))]) := rfl
  rw [hread] at hp
  simp [documented, documentedElems] at hp

end LiteDb
