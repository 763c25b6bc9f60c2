import LiteDbModel.Lib.Decimal

/-!
# JSON texts

`Doc` is a JSON document over any type of leaves; `Doc.text` is the compact
text with given leaf and key texts, and `parse` reads RFC 8259 texts. Reading a
compact text is reading its tokens one by one.
-/

namespace Json
set_option autoImplicit false

inductive Scalar
  | null
  | bool (b : Bool)
  | num (d : Decimal.Dec)
  | str (s : String)
deriving DecidableEq

inductive Doc (α : Type)
  | leaf (a : α)
  | arr (xs : List (Doc α))
  | obj (ps : List (String × Doc α))

/-! ## Strings -/

def hexDigit (n : Nat) : Char := Nat.digitChar n

def hexVal (c : Char) : Option Nat :=
  if c.isDigit then some (c.toNat - 48)
  else if 'a' ≤ c ∧ c ≤ 'f' then some (c.toNat - 87)
  else if 'A' ≤ c ∧ c ≤ 'F' then some (c.toNat - 55)
  else none

def hex4 (a b c d : Char) : Option Nat := do
  let a ← hexVal a
  let b ← hexVal b
  let c ← hexVal c
  let d ← hexVal d
  some (((a * 16 + b) * 16 + c) * 16 + d)

/-- ECMAScript `QuoteJSONString` of one character. -/
def escape (c : Char) : List Char :=
  if c = '"' then ['\\', '"']
  else if c = '\\' then ['\\', '\\']
  else if c = '\x08' then ['\\', 'b']
  else if c = '\t' then ['\\', 't']
  else if c = '\n' then ['\\', 'n']
  else if c = '\x0c' then ['\\', 'f']
  else if c = '\r' then ['\\', 'r']
  else if c.toNat < 32 then ['\\', 'u', '0', '0', hexDigit (c.toNat / 16), hexDigit (c.toNat % 16)]
  else [c]

def quote (s : String) : List Char := '"' :: (s.toList.flatMap escape ++ ['"'])

def shortEscape : Char → Option Char
  | '"' => some '"'
  | '\\' => some '\\'
  | '/' => some '/'
  | 'b' => some '\x08'
  | 'f' => some '\x0c'
  | 'n' => some '\n'
  | 'r' => some '\r'
  | 't' => some '\t'
  | _ => none

def push (c : Char) (r : Option (List Char × List Char)) : Option (List Char × List Char) :=
  r.map fun p => (c :: p.1, p.2)

/-- The rest of a string token; `hi` is a high surrogate that waits for its low one. -/
def parseChars : Option Nat → List Char → Option (List Char × List Char)
  | _, [] => none
  | hi, c :: cs =>
    if c = '"' then
      if hi = none then some ([], cs) else none
    else if c = '\\' then
      match cs with
      | 'u' :: a :: b :: x :: y :: cs =>
        match hex4 a b x y, hi with
        | none, _ => none
        | some n, none =>
          if 0xD800 ≤ n ∧ n < 0xDC00 then parseChars (some n) cs
          else if 0xDC00 ≤ n ∧ n < 0xE000 then none
          else push (Char.ofNat n) (parseChars none cs)
        | some n, some h =>
          if 0xDC00 ≤ n ∧ n < 0xE000 then
            push (Char.ofNat (0x10000 + (h - 0xD800) * 0x400 + (n - 0xDC00))) (parseChars none cs)
          else none
      | e :: cs =>
        match shortEscape e, hi with
        | some ch, none => push ch (parseChars none cs)
        | _, _ => none
      | [] => none
    else if hi = none ∧ 32 ≤ c.toNat then push c (parseChars none cs)
    else none

theorem parseChars_control (n : Nat) (hn : n < 32) (rest : List Char) :
    parseChars none (escape (Char.ofNat n) ++ rest) = push (Char.ofNat n) (parseChars none rest) := by
  interval_cases n <;> rfl

theorem parseChars_escape (c : Char) (rest : List Char) :
    parseChars none (escape c ++ rest) = push c (parseChars none rest) := by
  by_cases hc : c.toNat < 32
  · have h := parseChars_control c.toNat hc rest
    rwa [Char.ofNat_toNat] at h
  by_cases hq : c = '"'
  · subst hq
    rfl
  by_cases hb : c = '\\'
  · subst hb
    rfl
  have hne : ∀ d : Char, d.toNat < 32 → c ≠ d := by
    intro d hd h
    exact hc (h ▸ hd)
  have he : escape c = [c] := by
    simp [escape, hq, hb, hc, hne '\x08' (by decide), hne '\t' (by decide), hne '\n' (by decide),
      hne '\x0c' (by decide), hne '\r' (by decide)]
  rw [he, List.singleton_append, parseChars.eq_def]
  simp [hq, hb, show 32 ≤ c.toNat by omega]

theorem parseChars_quoted (cs rest : List Char) :
    parseChars none (cs.flatMap escape ++ '"' :: rest) = some (cs, rest) := by
  induction cs with
  | nil => rw [parseChars.eq_def]; rfl
  | cons c cs ih => rw [List.flatMap_cons, List.append_assoc, parseChars_escape, ih]; rfl

/-! ## Reading -/

def isWs (c : Char) : Bool := c = ' ' || c = '\t' || c = '\n' || c = '\r'

def skipWs (cs : List Char) : List Char := cs.dropWhile isWs

def parseKey (cs : List Char) : Option (String × List Char) :=
  match skipWs cs with
  | '"' :: cs => (parseChars none cs).map fun p => (String.ofList p.1, p.2)
  | _ => none

/-- A document that is not an array or object. -/
def parseScalar : List Char → Option (Scalar × List Char)
  | 'n' :: 'u' :: 'l' :: 'l' :: cs => some (.null, cs)
  | 't' :: 'r' :: 'u' :: 'e' :: cs => some (.bool true, cs)
  | 'f' :: 'a' :: 'l' :: 's' :: 'e' :: cs => some (.bool false, cs)
  | '"' :: cs => (parseChars none cs).map fun p => (.str (String.ofList p.1), p.2)
  | cs => (Decimal.parseNumber cs).map fun p => (.num p.1, p.2)

mutual
def parseValue : Nat → List Char → Option (Doc Scalar × List Char)
  | 0, _ => none
  | n + 1, cs =>
    match skipWs cs with
    | '[' :: cs =>
      match skipWs cs with
      | ']' :: cs => some (.arr [], cs)
      | cs => (parseElems n cs).map fun p => (.arr p.1, p.2)
    | '{' :: cs =>
      match skipWs cs with
      | '}' :: cs => some (.obj [], cs)
      | cs => (parseMembers n cs).map fun p => (.obj p.1, p.2)
    | cs => (parseScalar cs).map fun p => (.leaf p.1, p.2)

def parseElems : Nat → List Char → Option (List (Doc Scalar) × List Char)
  | 0, _ => none
  | n + 1, cs =>
    match parseValue n cs with
    | none => none
    | some (v, cs) =>
      match skipWs cs with
      | ',' :: cs => (parseElems n cs).map fun p => (v :: p.1, p.2)
      | ']' :: cs => some ([v], cs)
      | _ => none

def parseMembers : Nat → List Char → Option (List (String × Doc Scalar) × List Char)
  | 0, _ => none
  | n + 1, cs =>
    match parseKey cs with
    | none => none
    | some (k, cs) =>
      match skipWs cs with
      | ':' :: cs =>
        match parseValue n cs with
        | none => none
        | some (v, cs) =>
          match skipWs cs with
          | ',' :: cs => (parseMembers n cs).map fun p => ((k, v) :: p.1, p.2)
          | '}' :: cs => some ([(k, v)], cs)
          | _ => none
      | _ => none
end

/-- The document a whole text denotes. -/
def parse (text : List Char) : Option (Doc Scalar) :=
  match parseValue (text.length + 1) text with
  | some (v, rest) => if skipWs rest = [] then some v else none
  | none => none

/-! ## Compact texts -/

namespace Doc
variable {α β : Type}

mutual
def text (lt : α → List Char) (kt : String → List Char) : Doc α → List Char
  | leaf a => lt a
  | arr [] => ['[', ']']
  | arr (x :: xs) => '[' :: (text lt kt x ++ textElems lt kt xs)
  | obj [] => ['{', '}']
  | obj ((k, x) :: ps) => '{' :: (kt k ++ ':' :: (text lt kt x ++ textMembers lt kt ps))

def textElems (lt : α → List Char) (kt : String → List Char) : List (Doc α) → List Char
  | [] => [']']
  | x :: xs => ',' :: (text lt kt x ++ textElems lt kt xs)

def textMembers (lt : α → List Char) (kt : String → List Char) : List (String × Doc α) → List Char
  | [] => ['}']
  | (k, x) :: ps => ',' :: (kt k ++ ':' :: (text lt kt x ++ textMembers lt kt ps))
end

mutual
def map (f : α → β) : Doc α → Doc β
  | leaf a => leaf (f a)
  | arr xs => arr (mapElems f xs)
  | obj ps => obj (mapMembers f ps)

def mapElems (f : α → β) : List (Doc α) → List (Doc β)
  | [] => []
  | x :: xs => map f x :: mapElems f xs

def mapMembers (f : α → β) : List (String × Doc α) → List (String × Doc β)
  | [] => []
  | (k, x) :: ps => (k, map f x) :: mapMembers f ps
end

mutual
/-- A bound on the nesting of calls that reading the text takes. -/
def size : Doc α → Nat
  | leaf _ => 1
  | arr xs => 1 + sizeElems xs
  | obj ps => 1 + sizeMembers ps

def sizeElems : List (Doc α) → Nat
  | [] => 0
  | x :: xs => 1 + size x + sizeElems xs

def sizeMembers : List (String × Doc α) → Nat
  | [] => 0
  | (_, x) :: ps => 1 + size x + sizeMembers ps
end

mutual
/-- The tree that reading each leaf and key on its own gives, if each of them reads. -/
def read (leafOf : α → Option Scalar) (keyOf : String → Option String) : Doc α → Option (Doc Scalar)
  | leaf a => (leafOf a).map leaf
  | arr xs => (readElems leafOf keyOf xs).map arr
  | obj ps => (readMembers leafOf keyOf ps).map obj

def readElems (leafOf : α → Option Scalar) (keyOf : String → Option String) :
    List (Doc α) → Option (List (Doc Scalar))
  | [] => some []
  | x :: xs => (read leafOf keyOf x).bind fun v => (readElems leafOf keyOf xs).map (v :: ·)

def readMembers (leafOf : α → Option Scalar) (keyOf : String → Option String) :
    List (String × Doc α) → Option (List (String × Doc Scalar))
  | [] => some []
  | (k, x) :: ps => (keyOf k).bind fun k' => (read leafOf keyOf x).bind fun v =>
      (readMembers leafOf keyOf ps).map ((k', v) :: ·)
end

end Doc

/-! ## Reading compact texts back -/

/-- What may stand after a value of a compact text. -/
def Follow (rest : List Char) : Prop := ∀ c r, rest = c :: r → c = ',' ∨ c = ']' ∨ c = '}'

theorem Follow.nil : Follow [] := by
  intro c r h
  cases h

theorem Follow.cons {c : Char} (h : c = ',' ∨ c = ']' ∨ c = '}') (rest : List Char) :
    Follow (c :: rest) := by
  intro d r hd
  cases hd
  exact h

theorem Follow.numEnd {rest : List Char} (h : Follow rest) : Decimal.NumEnd rest := by
  intro c r hc
  rcases h c r hc with rfl | rfl | rfl <;> decide

/-- A text whose first character opens a value. -/
def Starts (t : List Char) : Prop := ∃ c cs, t = c :: cs ∧ isWs c = false ∧ c ≠ ']' ∧ c ≠ '}'

theorem skipWs_starts {t : List Char} (h : Starts t) (rest : List Char) :
    skipWs (t ++ rest) = t ++ rest := by
  obtain ⟨c, cs, rfl, hc, _⟩ := h
  simp [skipWs, hc]

theorem parseValue_scalar (n : Nat) {c : Char} {cs : List Char} (hw : isWs c = false)
    (ha : c ≠ '[') (ho : c ≠ '{') :
    parseValue (n + 1) (c :: cs) = (parseScalar (c :: cs)).map fun p => (.leaf p.1, p.2) := by
  have hs : skipWs (c :: cs) = c :: cs := by simp [skipWs, hw]
  simp only [parseValue, hs]
  split
  · rename_i heq
    exact absurd (List.cons.inj heq).1 ha
  · rename_i heq
    exact absurd (List.cons.inj heq).1 ho
  · rfl

theorem parseScalar_quote (cs : List Char) :
    parseScalar ('"' :: cs) = (parseChars none cs).map fun p => (.str (String.ofList p.1), p.2) := rfl

theorem parseScalar_number {c : Char} {cs : List Char} (h : c = '-' ∨ c.isDigit = true) :
    parseScalar (c :: cs) = (Decimal.parseNumber (c :: cs)).map fun p => (.num p.1, p.2) := by
  unfold parseScalar
  split <;> first | rfl | skip
  all_goals
    rename_i heq
    rw [(List.cons.inj heq).1] at h
    exact absurd h (by decide)

namespace Doc

/-- The tokens `lt`, `kt` are read one by one, as `leafOf` and `keyOf` say. -/
structure Tokens {α : Type} (lt : α → List Char) (kt : String → List Char)
    (leafOf : α → Option Scalar) (keyOf : String → Option String) : Prop where
  leafStarts : ∀ a, Starts (lt a)
  keyStarts : ∀ k, Starts (kt k)
  leaf : ∀ a n rest, Follow rest →
    parseValue (n + 1) (lt a ++ rest) = (leafOf a).map fun s => (.leaf s, rest)
  key : ∀ k rest, parseKey (kt k ++ ':' :: rest) = (keyOf k).map fun k' => (k', ':' :: rest)

variable {α : Type} {lt : α → List Char} {kt : String → List Char}

theorem text_starts (kt : String → List Char) (hs : ∀ a, Starts (lt a)) (t : Doc α) : Starts (text lt kt t) := by
  cases t with
  | leaf a => exact hs a
  | arr xs => cases xs <;> exact ⟨'[', _, rfl, by decide, by decide, by decide⟩
  | obj ps => cases ps <;> exact ⟨'{', _, rfl, by decide, by decide, by decide⟩

mutual
theorem size_le_length (kt : String → List Char) (hs : ∀ a, Starts (lt a)) :
    (t : Doc α) → size t ≤ (text lt kt t).length
  | leaf a => by
    obtain ⟨c, cs, hc, _⟩ := hs a
    simp [size, text, hc]
  | arr [] => by simp [size, sizeElems, text]
  | arr (x :: xs) => by
    have hx := size_le_length kt hs x
    have hxs := sizeElems_lt_length kt hs xs
    simp only [size, sizeElems, text, List.length_cons, List.length_append]
    omega
  | obj [] => by simp [size, sizeMembers, text]
  | obj ((k, x) :: ps) => by
    have hx := size_le_length kt hs x
    have hps := sizeMembers_lt_length kt hs ps
    simp only [size, sizeMembers, text, List.length_cons, List.length_append]
    omega

theorem sizeElems_lt_length (kt : String → List Char) (hs : ∀ a, Starts (lt a)) :
    (xs : List (Doc α)) → sizeElems xs < (textElems lt kt xs).length
  | [] => by simp [sizeElems, textElems]
  | x :: xs => by
    have hx := size_le_length kt hs x
    have hxs := sizeElems_lt_length kt hs xs
    simp only [sizeElems, textElems, List.length_cons, List.length_append]
    omega

theorem sizeMembers_lt_length (kt : String → List Char) (hs : ∀ a, Starts (lt a)) :
    (ps : List (String × Doc α)) → sizeMembers ps < (textMembers lt kt ps).length
  | [] => by simp [sizeMembers, textMembers]
  | (k, x) :: ps => by
    have hx := size_le_length kt hs x
    have hps := sizeMembers_lt_length kt hs ps
    simp only [sizeMembers, textMembers, List.length_cons, List.length_append]
    omega
end

theorem textElems_follow (xs : List (Doc α)) (rest : List Char) :
    Follow (textElems lt kt xs ++ rest) := by
  cases xs with
  | nil => exact Follow.cons (by decide) _
  | cons x xs => exact Follow.cons (by decide) _

theorem textMembers_follow (ps : List (String × Doc α)) (rest : List Char) :
    Follow (textMembers lt kt ps ++ rest) := by
  rcases ps with _ | ⟨⟨k, x⟩, ps⟩
  · exact Follow.cons (by decide) _
  · exact Follow.cons (by decide) _

theorem parseValue_arr (hs : ∀ a, Starts (lt a)) (n : Nat) (x : Doc α) (xs : List (Doc α))
    (rest : List Char) :
    parseValue (n + 1) (text lt kt (arr (x :: xs)) ++ rest) =
      (parseElems n (text lt kt x ++ (textElems lt kt xs ++ rest))).map fun p => (arr p.1, p.2) := by
  have hx := text_starts kt hs x
  have hws := skipWs_starts hx (textElems lt kt xs ++ rest)
  obtain ⟨c, cs, hc, _, hb, _⟩ := hx
  have ho : skipWs (text lt kt (arr (x :: xs)) ++ rest) =
      '[' :: (text lt kt x ++ (textElems lt kt xs ++ rest)) := by
    simp [text, skipWs, isWs]
  simp only [parseValue, ho, hws]
  split
  · rename_i heq
    rw [hc, List.cons_append] at heq
    exact absurd (List.cons.inj heq).1 hb
  · rfl

theorem parseValue_obj (hk : ∀ k, Starts (kt k)) (n : Nat) (k : String) (x : Doc α)
    (ps : List (String × Doc α)) (rest : List Char) :
    parseValue (n + 1) (text lt kt (obj ((k, x) :: ps)) ++ rest) =
      (parseMembers n (kt k ++ ':' :: (text lt kt x ++ (textMembers lt kt ps ++ rest)))).map
        fun p => (obj p.1, p.2) := by
  have hws := skipWs_starts (hk k) (':' :: (text lt kt x ++ (textMembers lt kt ps ++ rest)))
  obtain ⟨c, cs, hc, _, _, hb⟩ := hk k
  have ho : skipWs (text lt kt (obj ((k, x) :: ps)) ++ rest) =
      '{' :: (kt k ++ ':' :: (text lt kt x ++ (textMembers lt kt ps ++ rest))) := by
    simp [text, skipWs, isWs]
  simp only [parseValue, ho, hws]
  split
  · rename_i heq
    rw [hc, List.cons_append] at heq
    exact absurd (List.cons.inj heq).1 hb
  · rfl

theorem parseElems_last (n : Nat) {cs rest : List Char} {v : Doc Scalar}
    (h : parseValue n cs = some (v, ']' :: rest)) : parseElems (n + 1) cs = some ([v], rest) := by
  simp [parseElems, h, skipWs, isWs]

theorem parseElems_more (n : Nat) {cs rest : List Char} {v : Doc Scalar}
    (h : parseValue n cs = some (v, ',' :: rest)) :
    parseElems (n + 1) cs = (parseElems n rest).map fun p => (v :: p.1, p.2) := by
  simp [parseElems, h, skipWs, isWs]

theorem parseMembers_last (n : Nat) {cs cs' rest : List Char} {k : String} {v : Doc Scalar}
    (hk : parseKey cs = some (k, ':' :: cs')) (h : parseValue n cs' = some (v, '}' :: rest)) :
    parseMembers (n + 1) cs = some ([(k, v)], rest) := by
  simp [parseMembers, hk, h, skipWs, isWs]

theorem parseMembers_more (n : Nat) {cs cs' rest : List Char} {k : String} {v : Doc Scalar}
    (hk : parseKey cs = some (k, ':' :: cs')) (h : parseValue n cs' = some (v, ',' :: rest)) :
    parseMembers (n + 1) cs = (parseMembers n rest).map fun p => ((k, v) :: p.1, p.2) := by
  simp [parseMembers, hk, h, skipWs, isWs]

theorem parseElems_none (n : Nat) {cs : List Char} (h : parseValue n cs = none) :
    parseElems (n + 1) cs = none := by
  simp [parseElems, h]

theorem parseMembers_none (n : Nat) {cs : List Char} (h : parseKey cs = none) :
    parseMembers (n + 1) cs = none := by
  simp [parseMembers, h]

theorem parseMembers_none_value (n : Nat) {cs cs' : List Char} {k : String}
    (hk : parseKey cs = some (k, ':' :: cs')) (h : parseValue n cs' = none) :
    parseMembers (n + 1) cs = none := by
  simp [parseMembers, hk, h, skipWs, isWs]

section
variable {leafOf : α → Option Scalar} {keyOf : String → Option String}

mutual
/-- A compact text is read token by token. -/
theorem parseValue_text (ht : Tokens lt kt leafOf keyOf) : (t : Doc α) → ∀ n rest,
    size t ≤ n → Follow rest →
    parseValue n (text lt kt t ++ rest) = (read leafOf keyOf t).map fun v => (v, rest)
  | leaf a, n, rest, hn, hr => by
    obtain ⟨n, rfl⟩ : ∃ m, n = m + 1 := ⟨n - 1, by simp only [size] at hn; omega⟩
    simp only [text, read, Option.map_map]
    exact ht.leaf a n rest hr
  | arr [], n, rest, hn, _ => by
    obtain ⟨n, rfl⟩ : ∃ m, n = m + 1 := ⟨n - 1, by simp only [size] at hn; omega⟩
    simp [parseValue, text, skipWs, isWs, read, readElems]
  | arr (x :: xs), n, rest, hn, _ => by
    obtain ⟨n, rfl⟩ : ∃ m, n = m + 1 := ⟨n - 1, by simp only [size] at hn; omega⟩
    have he := parseElems_text ht (x :: xs) (List.cons_ne_nil x xs) n rest
      (by simp only [size] at hn; omega)
    simp only [textElems, List.tail_cons, List.append_assoc] at he
    rw [parseValue_arr ht.leafStarts, he, read, Option.map_map, Option.map_map]
    rfl
  | obj [], n, rest, hn, _ => by
    obtain ⟨n, rfl⟩ : ∃ m, n = m + 1 := ⟨n - 1, by simp only [size] at hn; omega⟩
    simp [parseValue, text, skipWs, isWs, read, readMembers]
  | obj ((k, x) :: ps), n, rest, hn, _ => by
    obtain ⟨n, rfl⟩ : ∃ m, n = m + 1 := ⟨n - 1, by simp only [size] at hn; omega⟩
    have he := parseMembers_text ht ((k, x) :: ps) (List.cons_ne_nil _ ps) n rest
      (by simp only [size] at hn; omega)
    simp only [textMembers, List.tail_cons, List.append_assoc, List.cons_append] at he
    rw [parseValue_obj ht.keyStarts, he, read, Option.map_map, Option.map_map]
    rfl

theorem parseElems_text (ht : Tokens lt kt leafOf keyOf) : (xs : List (Doc α)) → xs ≠ [] →
    ∀ n rest, sizeElems xs ≤ n →
    parseElems n ((textElems lt kt xs).tail ++ rest) =
      (readElems leafOf keyOf xs).map fun vs => (vs, rest)
  | [], h, _, _, _ => absurd rfl h
  | x :: xs, _, n, rest, hn => by
    obtain ⟨n, rfl⟩ : ∃ m, n = m + 1 := ⟨n - 1, by simp only [sizeElems] at hn; omega⟩
    simp only [sizeElems] at hn
    have h1 := parseValue_text ht x n (textElems lt kt xs ++ rest) (by omega)
      (textElems_follow xs rest)
    simp only [textElems, List.tail_cons, List.append_assoc, readElems]
    cases hx : read leafOf keyOf x with
    | none =>
      rw [hx] at h1
      rw [parseElems_none n h1]
      rfl
    | some v =>
      rw [hx] at h1
      by_cases hnil : xs = []
      · subst hnil
        exact parseElems_last n h1
      · have h2 := parseElems_text ht xs hnil n rest (by omega)
        obtain ⟨y, ys, rfl⟩ := List.exists_cons_of_ne_nil hnil
        simp only [textElems, List.tail_cons, List.cons_append] at h1 h2 ⊢
        rw [parseElems_more n h1, h2, Option.map_map, Option.bind_some, Option.map_map]
        rfl

theorem parseMembers_text (ht : Tokens lt kt leafOf keyOf) : (ps : List (String × Doc α)) →
    ps ≠ [] → ∀ n rest, sizeMembers ps ≤ n →
    parseMembers n ((textMembers lt kt ps).tail ++ rest) =
      (readMembers leafOf keyOf ps).map fun vs => (vs, rest)
  | [], h, _, _, _ => absurd rfl h
  | (k, x) :: ps, _, n, rest, hn => by
    obtain ⟨n, rfl⟩ : ∃ m, n = m + 1 := ⟨n - 1, by simp only [sizeMembers] at hn; omega⟩
    simp only [sizeMembers] at hn
    have h0 := ht.key k (text lt kt x ++ (textMembers lt kt ps ++ rest))
    have h1 := parseValue_text ht x n (textMembers lt kt ps ++ rest) (by omega)
      (textMembers_follow ps rest)
    simp only [textMembers, List.tail_cons, List.append_assoc, List.cons_append, readMembers]
    cases hk : keyOf k with
    | none =>
      rw [hk] at h0
      rw [parseMembers_none n h0]
      rfl
    | some k' =>
      rw [hk] at h0
      cases hx : read leafOf keyOf x with
      | none =>
        rw [hx] at h1
        rw [parseMembers_none_value n h0 h1]
        rfl
      | some v =>
        rw [hx] at h1
        by_cases hnil : ps = []
        · subst hnil
          exact parseMembers_last n h0 h1
        · have h2 := parseMembers_text ht ps hnil n rest (by omega)
          obtain ⟨⟨k'', y⟩, ps', rfl⟩ := List.exists_cons_of_ne_nil hnil
          simp only [textMembers, List.tail_cons, List.cons_append] at h0 h1 h2 ⊢
          rw [parseMembers_more n h0 h1, h2, Option.map_map, Option.bind_some, Option.bind_some,
            Option.map_map]
          rfl
end

/-- Reading a compact text is reading its tokens. -/
theorem parse_text (ht : Tokens lt kt leafOf keyOf) (t : Doc α) :
    parse (text lt kt t) = read leafOf keyOf t := by
  have hsize := size_le_length kt ht.leafStarts t
  have hp := parseValue_text ht t ((text lt kt t).length + 1) [] (by omega) Follow.nil
  rw [List.append_nil] at hp
  rw [parse, hp]
  cases read leafOf keyOf t <;> simp [skipWs]

end

mutual
theorem read_some (val : α → Scalar) : (t : Doc α) →
    read (fun a => some (val a)) some t = some (map val t)
  | leaf a => rfl
  | arr xs => by simp only [read, map, readElems_some val xs, Option.map_some]
  | obj ps => by simp only [read, map, readMembers_some val ps, Option.map_some]

theorem readElems_some (val : α → Scalar) : (xs : List (Doc α)) →
    readElems (fun a => some (val a)) some xs = some (mapElems val xs)
  | [] => rfl
  | x :: xs => by
    simp only [readElems, mapElems, read_some val x, readElems_some val xs, Option.bind_some,
      Option.map_some]

theorem readMembers_some (val : α → Scalar) : (ps : List (String × Doc α)) →
    readMembers (fun a => some (val a)) some ps = some (mapMembers val ps)
  | [] => rfl
  | (k, x) :: ps => by
    simp only [readMembers, mapMembers, read_some val x, readMembers_some val ps, Option.bind_some,
      Option.map_some]
end

theorem readMembers_length {leafOf : α → Option Scalar} {keyOf : String → Option String}
    {ps : List (String × Doc α)} {qs : List (String × Doc Scalar)}
    (h : readMembers leafOf keyOf ps = some qs) : qs.length = ps.length := by
  induction ps generalizing qs with
  | nil =>
    cases h
    rfl
  | cons p ps ih =>
    obtain ⟨k, x⟩ := p
    simp only [readMembers, Option.bind_eq_some_iff, Option.map_eq_some_iff] at h
    obtain ⟨_, _, _, _, qs', hqs, rfl⟩ := h
    simp [ih hqs]

theorem mapMembers_length {β : Type} (f : α → β) (ps : List (String × Doc α)) :
    (mapMembers f ps).length = ps.length := by
  induction ps with
  | nil => rfl
  | cons p ps ih =>
    obtain ⟨k, x⟩ := p
    simp [mapMembers, ih]

mutual
theorem text_map {β : Type} (f : β → α) : (t : Doc β) →
    text lt kt (map f t) = text (fun b => lt (f b)) kt t
  | leaf b => rfl
  | arr [] => rfl
  | arr (x :: xs) => by simp only [map, mapElems, text, text_map f x, textElems_map f xs]
  | obj [] => rfl
  | obj ((k, x) :: ps) => by simp only [map, mapMembers, text, text_map f x, textMembers_map f ps]

theorem textElems_map {β : Type} (f : β → α) : (xs : List (Doc β)) →
    textElems lt kt (mapElems f xs) = textElems (fun b => lt (f b)) kt xs
  | [] => rfl
  | x :: xs => by simp only [mapElems, textElems, text_map f x, textElems_map f xs]

theorem textMembers_map {β : Type} (f : β → α) : (ps : List (String × Doc β)) →
    textMembers lt kt (mapMembers f ps) = textMembers (fun b => lt (f b)) kt ps
  | [] => rfl
  | (k, x) :: ps => by simp only [mapMembers, textMembers, text_map f x, textMembers_map f ps]
end

end Doc

end Json
