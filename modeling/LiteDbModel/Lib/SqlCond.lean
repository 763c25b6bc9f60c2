import LiteDbModel.Lib.SqlText

/-!
# The boolean structure of SQL conditions

A condition is read as `OR` over `AND` over factors, where a factor in
parentheses is a condition again. What any other factor says of a row is left
to an arbitrary interpretation, which may be unknown.
-/

namespace SqlCond
set_option autoImplicit false
open SqlText
variable {α β : Type}

/-! ## Lexemes and nodes -/

/-- Parentheses, and `CASE` with `END`. -/
inductive Bracket
  | paren
  | case
deriving DecidableEq

inductive Tok (β : Type)
  | word (s : List Char)
  /-- A character of a literal, a quoted identifier or a comment. -/
  | quoted (c : Char)
  | sym (c : Char)
  /-- The value bound to a placeholder. -/
  | value (v : β)

inductive Lexeme (β : Type)
  | tok (t : Tok β)
  | opens (b : Bracket)
  | closes (b : Bracket)

/-- Tokens with their brackets matched. -/
inductive Node (β : Type)
  | leaf (t : Tok β)
  | group (b : Bracket) (ts : List (Node β))

mutual
def Node.flat : Node β → List (Lexeme β)
  | .leaf t => [.tok t]
  | .group b ts => .opens b :: (flat ts ++ [.closes b])

def flat : List (Node β) → List (Lexeme β)
  | [] => []
  | x :: xs => x.flat ++ flat xs
end

theorem flat_append (xs ys : List (Node β)) : flat (xs ++ ys) = flat xs ++ flat ys := by
  induction xs with
  | nil => rfl
  | cons x xs ih => simp [flat, ih]

/-- A text that ends or closes a bracket. -/
def Ends (r : List (Lexeme β)) : Prop := ∀ l rest, r = l :: rest → ∃ b, l = .closes b

theorem Ends.nil : Ends ([] : List (Lexeme β)) := by
  intro l rest h
  cases h

theorem Ends.closes (b : Bracket) (r : List (Lexeme β)) : Ends (.closes b :: r) := by
  intro l rest h
  exact ⟨b, (List.cons.inj h).1.symm⟩

mutual
theorem Node.flat_inj (x y : Node β) (r s : List (Lexeme β)) (h : x.flat ++ r = y.flat ++ s) :
    x = y ∧ r = s := by
  cases x with
  | leaf t =>
    cases y with
    | leaf u =>
      simp only [Node.flat, List.cons_append, List.nil_append, List.cons.injEq,
        Lexeme.tok.injEq] at h
      exact ⟨congrArg Node.leaf h.1, h.2⟩
    | group c us => simp [Node.flat] at h
  | group b ts =>
    cases y with
    | leaf u => simp [Node.flat] at h
    | group c us =>
      simp only [Node.flat, List.cons_append, List.append_assoc, List.nil_append, List.cons.injEq,
        Lexeme.opens.injEq] at h
      obtain ⟨rfl, h⟩ := h
      obtain ⟨rfl, hrest⟩ := flat_inj ts us _ _ h (Ends.closes b r) (Ends.closes b s)
      exact ⟨rfl, (List.cons.inj hrest).2⟩

/-- The lexemes determine the nodes. -/
theorem flat_inj (xs ys : List (Node β)) (r s : List (Lexeme β)) (h : flat xs ++ r = flat ys ++ s)
    (hr : Ends r) (hs : Ends s) : xs = ys ∧ r = s := by
  cases xs with
  | nil =>
    cases ys with
    | nil => exact ⟨rfl, h⟩
    | cons y ys =>
      cases y with
      | leaf u =>
        obtain ⟨b, hb⟩ := hr _ _ h
        cases hb
      | group c us =>
        obtain ⟨b, hb⟩ := hr _ _ h
        cases hb
  | cons x xs =>
    cases ys with
    | nil =>
      cases x with
      | leaf t =>
        obtain ⟨b, hb⟩ := hs _ _ h.symm
        cases hb
      | group c ts =>
        obtain ⟨b, hb⟩ := hs _ _ h.symm
        cases hb
    | cons y ys =>
      simp only [flat, List.append_assoc] at h
      obtain ⟨rfl, hxs⟩ := Node.flat_inj x y _ _ h
      obtain ⟨rfl, hrest⟩ := flat_inj xs ys r s hxs hr hs
      exact ⟨rfl, hrest⟩
end

/-! ## Truth -/

def and3 : Option Bool → Option Bool → Option Bool
  | some false, _ => some false
  | _, some false => some false
  | some true, some true => some true
  | _, _ => none

def or3 : Option Bool → Option Bool → Option Bool
  | some true, _ => some true
  | _, some true => some true
  | some false, some false => some false
  | _, _ => none

theorem and3_true {a b : Option Bool} : and3 a b = some true ↔ a = some true ∧ b = some true := by
  rcases a with _ | _ | _ <;> rcases b with _ | _ | _ <;> simp [and3]

theorem or3_true {a b : Option Bool} : or3 a b = some true ↔ a = some true ∨ b = some true := by
  rcases a with _ | _ | _ <;> rcases b with _ | _ | _ <;> simp [or3]

def andAll (vs : List (Option Bool)) : Option Bool := vs.foldr and3 (some true)

def orAll (vs : List (Option Bool)) : Option Bool := vs.foldr or3 (some false)

theorem andAll_true {vs : List (Option Bool)} :
    andAll vs = some true ↔ ∀ v ∈ vs, v = some true := by
  induction vs with
  | nil => simp [andAll]
  | cons v vs ih =>
    rw [List.forall_mem_cons, ← ih]
    exact and3_true

theorem orAll_true {vs : List (Option Bool)} : orAll vs = some true ↔ ∃ v ∈ vs, v = some true := by
  induction vs with
  | nil => simp [orAll]
  | cons v vs ih =>
    rw [List.exists_mem_cons_iff, ← ih]
    exact or3_true

/-! ## Splitting at the connectives -/

/-- Put an element in front of the first part. -/
def glue (x : α) : List (List α) → List (List α)
  | [] => [[x]]
  | l :: ls => (x :: l) :: ls

def splitOn (sep : α → Bool) : List α → List (List α)
  | [] => [[]]
  | x :: xs => if sep x then [] :: splitOn sep xs else glue x (splitOn sep xs)

/-- Split at each `AND` that is not a `BETWEEN`'s; `n` of these are open. -/
def splitAnd (isAnd isBetween : α → Bool) : Nat → List α → List (List α)
  | _, [] => [[]]
  | 0, x :: xs =>
    if isAnd x then [] :: splitAnd isAnd isBetween 0 xs
    else glue x (splitAnd isAnd isBetween (if isBetween x then 1 else 0) xs)
  | n + 1, x :: xs =>
    glue x (splitAnd isAnd isBetween
      (if isAnd x then n else if isBetween x then n + 2 else n + 1) xs)

/-- The open `BETWEEN`s after a list. -/
def pending (isAnd isBetween : α → Bool) : Nat → List α → Nat
  | n, [] => n
  | 0, x :: xs => pending isAnd isBetween (if isAnd x then 0 else if isBetween x then 1 else 0) xs
  | n + 1, x :: xs =>
    pending isAnd isBetween (if isAnd x then n else if isBetween x then n + 2 else n + 1) xs

theorem glue_append {ls : List (List α)} (x : α) (ms : List (List α)) (h : ls ≠ []) :
    glue x (ls ++ ms) = glue x ls ++ ms := by
  cases ls with
  | nil => exact absurd rfl h
  | cons l ls => rfl

theorem glue_ne_nil (x : α) (ls : List (List α)) : glue x ls ≠ [] := by
  cases ls <;> simp [glue]

theorem splitOn_ne_nil (sep : α → Bool) (xs : List α) : splitOn sep xs ≠ [] := by
  cases xs with
  | nil => simp [splitOn]
  | cons x xs =>
    simp only [splitOn]
    split
    · simp
    · exact glue_ne_nil x _

theorem splitOn_append (sep : α → Bool) {a : α} (ha : sep a = true) (xs ys : List α) :
    splitOn sep (xs ++ a :: ys) = splitOn sep xs ++ splitOn sep ys := by
  induction xs with
  | nil => simp [splitOn, ha]
  | cons x xs ih =>
    simp only [List.cons_append, splitOn, ih]
    split
    · rfl
    · exact glue_append x _ (splitOn_ne_nil sep xs)

theorem splitOn_none {sep : α → Bool} {xs : List α} (h : ∀ x ∈ xs, sep x = false) :
    splitOn sep xs = [xs] := by
  induction xs with
  | nil => rfl
  | cons x xs ih =>
    simp [splitOn, h x List.mem_cons_self, ih fun y hy => h y (List.mem_cons_of_mem x hy), glue]

section
variable (isAnd isBetween : α → Bool)

theorem splitAnd_ne_nil (n : Nat) (xs : List α) : splitAnd isAnd isBetween n xs ≠ [] := by
  cases xs with
  | nil => simp [splitAnd]
  | cons x xs =>
    cases n with
    | zero =>
      simp only [splitAnd]
      split
      · simp
      · exact glue_ne_nil x _
    | succ n => exact glue_ne_nil x _

/-- A join by `AND` splits into the parts of both sides when no `BETWEEN` is open. -/
theorem splitAnd_append {a : α} (ha : isAnd a = true) (n : Nat) (xs ys : List α)
    (hp : pending isAnd isBetween n xs = 0) :
    splitAnd isAnd isBetween n (xs ++ a :: ys) =
      splitAnd isAnd isBetween n xs ++ splitAnd isAnd isBetween 0 ys := by
  induction xs generalizing n with
  | nil =>
    obtain rfl : n = 0 := hp
    simp [splitAnd, ha]
  | cons x xs ih =>
    cases n with
    | zero =>
      simp only [pending] at hp
      simp only [List.cons_append, splitAnd]
      split
      · rename_i hx
        simp only [hx, if_true] at hp
        rw [ih 0 hp, List.cons_append]
      · rename_i hx
        simp only [hx, Bool.false_eq_true, if_false] at hp
        rw [ih _ hp]
        exact glue_append x _ (splitAnd_ne_nil isAnd isBetween _ xs)
    | succ n =>
      simp only [pending] at hp
      simp only [List.cons_append, splitAnd]
      rw [ih _ hp]
      exact glue_append x _ (splitAnd_ne_nil isAnd isBetween _ xs)

theorem pending_append (n : Nat) (xs ys : List α) :
    pending isAnd isBetween n (xs ++ ys) =
      pending isAnd isBetween (pending isAnd isBetween n xs) ys := by
  induction xs generalizing n with
  | nil => cases n <;> rfl
  | cons x xs ih => cases n <;> exact ih _
end

/-! ## What a condition says -/

def keyword (w : String) (s : List Char) : Bool := s.map Char.toUpper = w.toList

def Node.isWord (w : String) : Node β → Bool
  | .leaf (.word s) => keyword w s
  | _ => false

/-- A query rather than a condition: `(SELECT …)` is a value. -/
def isQuery : List (Node β) → Bool
  | x :: _ => x.isWord "SELECT" || x.isWord "WITH" || x.isWord "VALUES" || x.isWord "TABLE"
  | [] => false

section
variable (ρ : List (Node β) → Option Bool)

/-- A factor, each of its nodes with the truth of what is inside it. -/
def factor : List (Node β × Option Bool) → Option Bool
  | [(.group .paren ts, inner)] => if isQuery ts then ρ [.group .paren ts] else inner
  | xs => ρ (xs.map Prod.fst)

def conjuncts (xs : List (Node β × Option Bool)) : List (List (Node β × Option Bool)) :=
  splitAnd (fun x => x.1.isWord "AND") (fun x => x.1.isWord "BETWEEN") 0 xs

def disjuncts (xs : List (Node β × Option Bool)) : List (List (Node β × Option Bool)) :=
  splitOn (fun x => x.1.isWord "OR") xs

def conjunction (xs : List (Node β × Option Bool)) : Option Bool :=
  andAll ((conjuncts xs).map (factor ρ))

def truth (xs : List (Node β × Option Bool)) : Option Bool :=
  orAll ((disjuncts xs).map (conjunction ρ))

mutual
def Node.inner : Node β → Option Bool
  | .leaf _ => none
  | .group _ ts => truth ρ (items ts)

def items : List (Node β) → List (Node β × Option Bool)
  | [] => []
  | x :: xs => (x, x.inner) :: items xs
end

/-- The condition is true. -/
def Holds (xs : List (Node β)) : Prop := truth ρ (items ρ xs) = some true
end

/-! ## Joined conditions -/

def word (w : String) : Node β := .leaf (.word w.toList)

theorem isWord_and : (word "AND" : Node β).isWord "AND" = true := by
  have h : keyword "AND" "AND".toList = true := by decide
  exact h

theorem isWord_or : (word "OR" : Node β).isWord "OR" = true := by
  have h : keyword "OR" "OR".toList = true := by decide
  exact h

/-- No `OR` outside brackets. -/
def NoOr (xs : List (Node β)) : Prop := ∀ x ∈ xs, x.isWord "OR" = false

/-- Every `BETWEEN` outside brackets has its `AND`. -/
def Complete (xs : List (Node β)) : Prop :=
  pending (fun x : Node β => x.isWord "AND") (fun x => x.isWord "BETWEEN") 0 xs = 0

section
variable {ρ : List (Node β) → Option Bool}

theorem items_eq (xs : List (Node β)) : items ρ xs = xs.map fun x => (x, x.inner ρ) := by
  induction xs with
  | nil => rfl
  | cons x xs ih => simp [items, ih]

theorem pending_map {γ : Type} (f : γ → α) (isAnd isBetween : α → Bool) (n : Nat) (xs : List γ) :
    pending isAnd isBetween n (xs.map f) =
      pending (fun x => isAnd (f x)) (fun x => isBetween (f x)) n xs := by
  induction xs generalizing n with
  | nil => rfl
  | cons x xs ih => cases n <;> exact ih _

theorem pending_items {xs : List (Node β)} (h : Complete xs) :
    pending (fun x : Node β × Option Bool => x.1.isWord "AND") (fun x => x.1.isWord "BETWEEN") 0
      (items ρ xs) = 0 := by
  rw [items_eq, pending_map]
  exact h

theorem disjuncts_noOr {xs : List (Node β)} (h : NoOr xs) :
    disjuncts (items ρ xs) = [items ρ xs] := by
  apply splitOn_none
  intro x hx
  rw [items_eq] at hx
  obtain ⟨y, hy, rfl⟩ := List.mem_map.mp hx
  exact h y hy

theorem holds_noOr {xs : List (Node β)} (h : NoOr xs) :
    Holds ρ xs ↔ conjunction ρ (items ρ xs) = some true := by
  rw [Holds, truth, disjuncts_noOr h, List.map_singleton, orAll_true]
  simp only [List.mem_singleton, exists_eq_left]

theorem splitAnd_none {isAnd isBetween : α → Bool} {n : Nat} {xs : List α}
    (h : ∀ x ∈ xs, isAnd x = false) : splitAnd isAnd isBetween n xs = [xs] := by
  induction xs generalizing n with
  | nil => cases n <;> rfl
  | cons x xs ih =>
    have hx := h x List.mem_cons_self
    have hxs := fun n => @ih n fun y hy => h y (List.mem_cons_of_mem x hy)
    cases n with
    | zero => simp [splitAnd, hx, hxs, glue]
    | succ n => simp [splitAnd, hx, hxs, glue]

/-- A single factor says what the interpretation says of it. -/
theorem holds_factor {xs : List (Node β)} (ho : NoOr xs) (ha : ∀ x ∈ xs, x.isWord "AND" = false)
    (hg : ∀ ts, xs ≠ [.group .paren ts]) : Holds ρ xs ↔ ρ xs = some true := by
  have hsplit : conjuncts (items ρ xs) = [items ρ xs] := by
    apply splitAnd_none
    intro x hx
    rw [items_eq] at hx
    obtain ⟨y, hy, rfl⟩ := List.mem_map.mp hx
    exact ha y hy
  have hfst : (items ρ xs).map Prod.fst = xs := by
    rw [items_eq, List.map_map]
    exact List.map_id xs
  have hfactor : factor ρ (items ρ xs) = ρ xs := by
    unfold factor
    split
    · rename_i ts inner hone
      rw [hone] at hfst
      exact absurd hfst.symm (hg ts)
    · rw [hfst]
  rw [holds_noOr ho, conjunction, hsplit, List.map_singleton, andAll_true, hfactor]
  simp only [List.mem_singleton, forall_eq]

theorem items_append (xs ys : List (Node β)) : items ρ (xs ++ ys) = items ρ xs ++ items ρ ys := by
  simp [items_eq]

theorem NoOr.join {xs ys : List (Node β)} (hx : NoOr xs) (hy : NoOr ys) {w : String}
    (hw : keyword "OR" w.toList = false) : NoOr (xs ++ word w :: ys) := by
  intro z hz
  rcases List.mem_append.mp hz with hz | hz
  · exact hx z hz
  · rcases List.mem_cons.mp hz with rfl | hz
    · exact hw
    · exact hy z hz

/-- Two conditions without an `OR` of their own, joined by `AND`. -/
theorem holds_and {xs ys : List (Node β)} (hx : NoOr xs) (hc : Complete xs) (hy : NoOr ys) :
    Holds ρ (xs ++ word "AND" :: ys) ↔ Holds ρ xs ∧ Holds ρ ys := by
  have hjoin : NoOr (xs ++ word "AND" :: ys) := hx.join hy (by decide)
  have hsplit := splitAnd_append (fun x : Node β × Option Bool => x.1.isWord "AND")
    (fun x => x.1.isWord "BETWEEN") (a := (word "AND", (word "AND").inner ρ)) isWord_and 0
    (items ρ xs) (items ρ ys) (pending_items hc)
  rw [holds_noOr hjoin, holds_noOr hx, holds_noOr hy, items_append]
  simp only [conjunction, conjuncts, items, hsplit, List.map_append, andAll_true,
    List.forall_mem_append]

theorem Complete.join {xs ys : List (Node β)} (hx : Complete xs) (hy : Complete ys) {w : String}
    (hw : keyword "BETWEEN" w.toList = false) : Complete (xs ++ word w :: ys) := by
  have hstay : (word w : Node β).isWord "BETWEEN" = false := hw
  rw [Complete, pending_append, hx, pending, hstay]
  simp only [Bool.false_eq_true, if_false, ite_self]
  exact hy

/-- An `OR` between two conditions belongs to neither of them. -/
theorem holds_or (xs ys : List (Node β)) :
    Holds ρ (xs ++ word "OR" :: ys) ↔ Holds ρ xs ∨ Holds ρ ys := by
  have hsplit := splitOn_append (fun x : Node β × Option Bool => x.1.isWord "OR")
    (a := (word "OR", (word "OR").inner ρ)) isWord_or (items ρ xs) (items ρ ys)
  simp only [Holds, truth, disjuncts, items_append, items, hsplit, List.map_append, orAll_true,
    List.mem_append, or_and_right, exists_or]

/-- Parentheses around a condition keep what it says. -/
theorem holds_group {xs : List (Node β)} (h : isQuery xs = false) :
    Holds ρ [.group .paren xs] ↔ Holds ρ xs := by
  have hno : NoOr [Node.group .paren xs] := by
    intro x hx
    rw [List.mem_singleton.mp hx]
    rfl
  rw [holds_noOr hno]
  simp [conjunction, conjuncts, items, splitAnd, glue, Node.isWord, factor, h, andAll_true,
    Node.inner, Holds]
end

/-! ## Reading a text -/

def wordChar (c : Char) : Bool := c.isAlphanum || c = '_' || c = '$' || 128 ≤ c.toNat

def lexeme (buf : List Char) : Lexeme β :=
  if keyword "CASE" buf then .opens .case
  else if keyword "END" buf then .closes .case
  else .tok (.word buf)

def flush (buf : List Char) (ts : List (Lexeme β)) : List (Lexeme β) :=
  if buf = [] then ts else lexeme buf :: ts

def punct (c : Char) : List (Lexeme β) :=
  if c.isWhitespace then []
  else if c = '(' then [.opens .paren]
  else if c = ')' then [.closes .paren]
  else [.tok (.sym c)]

/-- The lexemes of a text, its placeholders filled by the values in order. -/
def lex : Mode → List Char → List β → List Char → Option (List (Lexeme β))
  | m, buf, vs, [] => if m.live ∧ vs.isEmpty then some (flush buf []) else none
  | m, buf, vs, c :: cs =>
    if m.live then
      if wordChar c then lex (m.step c) (buf ++ [c]) vs cs
      else if c = '?' then
        match vs with
        | [] => none
        | v :: vs => (lex (m.step c) [] vs cs).map fun ts => flush buf (.tok (.value v) :: ts)
      else (lex (m.step c) [] vs cs).map fun ts => flush buf (punct c ++ ts)
    else (lex (m.step c) [] vs cs).map fun ts => .tok (.quoted c) :: ts

theorem flush_append (buf : List Char) (ts us : List (Lexeme β)) :
    flush buf (ts ++ us) = flush buf ts ++ us := by
  unfold flush
  split <;> rfl

/-- A character that ends a word and leaves code in code. -/
def Breaks (c : Char) : Prop := Mode.Inert c ∧ wordChar c = false ∧ c ≠ '?'

theorem lex_breaks {c : Char} (hc : Breaks c) {m : Mode} (hm : m.live = true) (buf : List Char)
    (vs : List β) (cs : List Char) :
    lex m buf vs (c :: cs) = (lex .code [] vs cs).map fun ts => flush buf (punct c ++ ts) := by
  obtain ⟨hinert, hword, hhole⟩ := hc
  simp only [lex, hm, hword, hhole, if_true, if_false, Bool.false_eq_true,
    Mode.step_inert m hinert, Mode.settle_of_live hm]

/-- What follows a closed text is read from the start. -/
theorem lex_append {x : Char} (hx : Breaks x) (ds : List Char) (ws : List β) (cs : List Char)
    (m : Mode) (buf : List Char) (vs : List β) (ts : List (Lexeme β))
    (h : lex m buf vs cs = some ts) :
    lex m buf (vs ++ ws) (cs ++ x :: ds) = (lex .code [] ws (x :: ds)).map (ts ++ ·) := by
  induction cs generalizing m buf vs ts with
  | nil =>
    simp only [lex] at h
    split at h
    · rename_i hend
      obtain ⟨hm, hvs⟩ := hend
      obtain rfl := List.isEmpty_iff.mp hvs
      obtain rfl := Option.some.inj h
      rw [List.nil_append, List.nil_append, lex_breaks hx hm,
        lex_breaks hx (m := .code) rfl, Option.map_map]
      refine congrArg (fun f => Option.map f _) (funext fun us => ?_)
      exact flush_append buf [] _
    · cases h
  | cons c cs ih =>
    simp only [List.cons_append, lex] at h ⊢
    split
    · rename_i hm
      rw [if_pos hm] at h
      split
      · rename_i hw
        rw [if_pos hw] at h
        exact ih _ _ _ _ h
      · rename_i hw
        rw [if_neg hw] at h
        split
        · rename_i hq
          rw [if_pos hq] at h
          cases vs with
          | nil => cases h
          | cons v vs =>
            obtain ⟨us, hus, rfl⟩ := Option.map_eq_some_iff.mp h
            simp only [List.cons_append, ih _ _ _ _ hus, Option.map_map]
            refine congrArg (fun f => Option.map f _) (funext fun rs => ?_)
            exact flush_append buf (.tok (.value v) :: us) rs
        · rename_i hq
          rw [if_neg hq] at h
          obtain ⟨us, hus, rfl⟩ := Option.map_eq_some_iff.mp h
          simp only [ih _ _ _ _ hus, Option.map_map]
          refine congrArg (fun f => Option.map f _) (funext fun rs => ?_)
          simp only [Function.comp_apply]
          rw [← List.append_assoc]
          exact flush_append buf _ rs
    · rename_i hm
      rw [if_neg hm] at h
      obtain ⟨us, hus, rfl⟩ := Option.map_eq_some_iff.mp h
      simp only [ih _ _ _ _ hus, Option.map_map]
      rfl

/-- A text that closes its literals, comments and brackets, and uses all its values. -/
def Reading (cs : List Char) (vs : List β) (xs : List (Node β)) : Prop :=
  lex .code [] vs cs = some (flat xs)

theorem Reading.unique {cs : List Char} {vs : List β} {xs ys : List (Node β)}
    (hx : Reading cs vs xs) (hy : Reading cs vs ys) : xs = ys := by
  have h : flat xs = flat ys := Option.some.inj (hx.symm.trans hy)
  exact (flat_inj xs ys [] [] (by simpa using h) Ends.nil Ends.nil).1

theorem breaks_space : Breaks ' ' := by
  refine ⟨?_, ?_, ?_⟩ <;> decide

theorem breaks_open : Breaks '(' := by
  refine ⟨?_, ?_, ?_⟩ <;> decide

theorem breaks_close : Breaks ')' := by
  refine ⟨?_, ?_, ?_⟩ <;> decide

theorem lex_and (vs : List β) (cs : List Char) :
    lex .code [] vs (' ' :: ("AND".toList ++ ' ' :: cs)) =
      (lex .code [] vs cs).map fun ts => flat [word "AND"] ++ ts := by
  simp [lex, wordChar, flush, lexeme, keyword, punct, flat, Node.flat, word, Mode.live, Mode.step,
    Mode.open', Function.comp_def]

theorem lex_or (vs : List β) (cs : List Char) :
    lex .code [] vs (' ' :: ("OR".toList ++ ' ' :: cs)) =
      (lex .code [] vs cs).map fun ts => flat [word "OR"] ++ ts := by
  simp [lex, wordChar, flush, lexeme, keyword, punct, flat, Node.flat, word, Mode.live, Mode.step,
    Mode.open', Function.comp_def]

/-- Two texts with a connective between them. -/
theorem Reading.join {cs ds : List Char} {vs ws : List β} {xs ys : List (Node β)} {w : String}
    (hw : ∀ (vs : List β) (cs : List Char), lex .code [] vs (' ' :: (w.toList ++ ' ' :: cs)) =
      (lex .code [] vs cs).map fun ts => flat [word w] ++ ts)
    (hx : Reading cs vs xs) (hy : Reading ds ws ys) :
    Reading (cs ++ ' ' :: (w.toList ++ ' ' :: ds)) (vs ++ ws) (xs ++ word w :: ys) := by
  have hy' : lex .code [] ws ds = some (flat ys) := hy
  rw [Reading, lex_append breaks_space _ ws cs .code [] vs _ hx, hw, hy']
  simp [flat_append, flat]

theorem Reading.wrap {cs : List Char} {vs : List β} {xs : List (Node β)} (hx : Reading cs vs xs) :
    Reading ('(' :: (cs ++ [')'])) vs [.group .paren xs] := by
  have hclose : lex .code [] ([] : List β) [')'] = some [.closes .paren] := by
    simp [lex, wordChar, flush, punct, Mode.live, Mode.step, Mode.open']
  have hopen : (punct '(' : List (Lexeme β)) = [.opens .paren] := by simp [punct]
  have hcs := lex_append breaks_close [] [] cs .code [] vs _ hx
  rw [List.append_nil, hclose] at hcs
  rw [Reading, lex_breaks breaks_open rfl, hcs, hopen]
  simp [flush, flat, Node.flat]

end SqlCond
