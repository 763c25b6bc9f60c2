import LiteDbModel.MakeSql

/-!
# The query cache of the PostgreSQL driver

A text is kept without a name when it is resolved for the first time, in a window that forgets its
oldest text. When it comes again it gets the name of a prepared statement, and there is a limit to
the names. What two texts are told apart by is the name, so no name may be given twice.
-/

namespace LiteDb.QueryCache
set_option autoImplicit false

structure CachedQuery where
  convertedSql : List Char
  isMulti : Bool
  name : Option (List Char)
deriving DecidableEq

def MAX_NAMED_STATEMENTS : Nat := 1000

def MAX_UNNAMED_QUERIES : Nat := 1000

/-- The two maps, oldest entries first. -/
structure State where
  preparedStmtCounter : Nat
  queryCache : List (List Char × CachedQuery)
  unnamedQueries : List (List Char × CachedQuery)

def init : State := ⟨0, [], []⟩

def isBlank (c : Char) : Bool := c ∈ [' ', '\n', '\t', '\r']

/-- A semicolon before the last one, trailing blanks aside. -/
def multiStatement (convertedSql : List Char) : Bool :=
  match convertedSql.reverse.dropWhile isBlank with
  | ';' :: before => before.contains ';'
  | body => body.contains ';'

def statementName (n : Nat) : List Char := "ldb_".toList ++ Nat.toDigits 10 n

/-- The entry of a text that was not seen before. -/
def unseen (sql : List Char) : CachedQuery :=
  ⟨convertPlaceholders sql, multiStatement (convertPlaceholders sql), none⟩

def remember (s : State) (sql : List Char) : State :=
  let kept := if MAX_UNNAMED_QUERIES ≤ s.unnamedQueries.length then s.unnamedQueries.tail
    else s.unnamedQueries
  { s with unnamedQueries := kept ++ [(sql, unseen sql)] }

/-- The text gets the next name. -/
def promote (s : State) (sql : List Char) (cached : CachedQuery) : State × CachedQuery :=
  let named := { cached with name := some (statementName (s.preparedStmtCounter + 1)) }
  (⟨s.preparedStmtCounter + 1, s.queryCache ++ [(sql, named)],
    s.unnamedQueries.filter fun e => e.1 ≠ sql⟩, named)

def resolveQuery (s : State) (sql : List Char) : State × CachedQuery :=
  match s.queryCache.lookup sql with
  | some cached => (s, cached)
  | none =>
    match s.unnamedQueries.lookup sql with
    | some cached =>
      if s.preparedStmtCounter < MAX_NAMED_STATEMENTS then promote s sql cached else (s, cached)
    | none => (remember s sql, unseen sql)

def clearQueryCache (_ : State) : State := init

inductive Call
  | resolve (sql : List Char)
  | clear

def after (s : State) : Call → State
  | .resolve sql => (resolveQuery s sql).1
  | .clear => clearQueryCache s

/-- The state after the calls. -/
def reached (calls : List Call) : State := calls.foldl after init

/-- What the texts are resolved to, one after the other. -/
def answers (s : State) : List (List Char) → List (List Char × CachedQuery)
  | [] => []
  | sql :: sqls => (sql, (resolveQuery s sql).2) :: answers (resolveQuery s sql).1 sqls

/-! ## The invariant -/

theorem statementName_inj {m n : Nat} (h : statementName m = statementName n) : m = n := by
  have hdigits := List.append_cancel_left h
  rw [← Nat.ofDigitChars_ten_toDigits (n := m), hdigits, Nat.ofDigitChars_ten_toDigits]

/-- The names given so far, in order. -/
def names (n : Nat) : List (List Char) := (List.range n).map fun i => statementName (i + 1)

theorem names_nodup (n : Nat) : (names n).Nodup := by
  apply List.Nodup.map_on _ List.nodup_range
  intro i _ j _ h
  exact Nat.succ_injective (statementName_inj h)

theorem names_succ (n : Nat) : names (n + 1) = names n ++ [statementName (n + 1)] := by
  rw [names, List.range_succ, List.map_append]
  rfl

/-- What a text is converted to, whether it has a name or not. -/
def CachedQuery.For (q : CachedQuery) (sql : List Char) : Prop := { q with name := none } = unseen sql

structure State.Ok (s : State) : Prop where
  converted : ∀ e ∈ s.queryCache, e.2.For e.1
  unnamed : ∀ e ∈ s.unnamedQueries, e.2 = unseen e.1
  /-- Every name up to the counter's was given once. -/
  names : s.queryCache.map (fun e => e.2.name) = (names s.preparedStmtCounter).map some
  keys : ((s.queryCache ++ s.unnamedQueries).map Prod.fst).Nodup
  few : s.preparedStmtCounter ≤ MAX_NAMED_STATEMENTS
  window : s.unnamedQueries.length ≤ MAX_UNNAMED_QUERIES

theorem ok_init : init.Ok := by
  exact ⟨nofun, nofun, rfl, List.nodup_nil, Nat.zero_le _, Nat.zero_le _⟩

theorem mem_of_lookup {l : List (List Char × CachedQuery)} {sql : List Char} {q : CachedQuery}
    (h : l.lookup sql = some q) : (sql, q) ∈ l := by
  obtain ⟨before, after, rfl, -⟩ := List.lookup_eq_some_iff.mp h
  exact List.mem_append_right _ List.mem_cons_self

theorem not_mem_of_lookup {l : List (List Char × CachedQuery)} {sql : List Char}
    (h : l.lookup sql = none) : sql ∉ l.map Prod.fst := by
  intro hmem
  obtain ⟨e, he, rfl⟩ := List.mem_map.mp hmem
  exact absurd (List.lookup_eq_none_iff.mp h e he) (by simp)

/-- What resolving a text can do. -/
inductive Resolves (s : State) (sql : List Char) : State → CachedQuery → Prop
  | named {q : CachedQuery} (h : s.queryCache.lookup sql = some q) : Resolves s sql s q
  | full {q : CachedQuery} (h : s.queryCache.lookup sql = none)
      (hq : s.unnamedQueries.lookup sql = some q)
      (hfull : MAX_NAMED_STATEMENTS ≤ s.preparedStmtCounter) : Resolves s sql s q
  | again {q : CachedQuery} (h : s.queryCache.lookup sql = none)
      (hq : s.unnamedQueries.lookup sql = some q)
      (hroom : s.preparedStmtCounter < MAX_NAMED_STATEMENTS) :
      Resolves s sql (promote s sql q).1 (promote s sql q).2
  | first (h : s.queryCache.lookup sql = none) (hq : s.unnamedQueries.lookup sql = none) :
      Resolves s sql (remember s sql) (unseen sql)

theorem resolveQuery_resolves (s : State) (sql : List Char) :
    Resolves s sql (resolveQuery s sql).1 (resolveQuery s sql).2 := by
  rw [resolveQuery]
  split
  next q h => exact .named h
  next h =>
    split
    next q hq =>
      split
      next hroom => exact .again h hq hroom
      next hfull => exact .full h hq (Nat.le_of_not_lt hfull)
    next hq => exact .first h hq

theorem ok_promote {s : State} (hs : s.Ok) {sql : List Char} {q : CachedQuery}
    (h : s.queryCache.lookup sql = none) (hq : s.unnamedQueries.lookup sql = some q)
    (hroom : s.preparedStmtCounter < MAX_NAMED_STATEMENTS) : (promote s sql q).1.Ok := by
  have hsub : (s.unnamedQueries.filter fun e => e.1 ≠ sql).Sublist s.unnamedQueries :=
    List.filter_sublist
  refine ⟨?_, ?_, ?_, ?_, hroom, hsub.length_le.trans hs.window⟩
  · intro e he
    rcases List.mem_append.mp he with he | he
    · exact hs.converted e he
    · obtain rfl := List.mem_singleton.mp he
      obtain rfl : q = unseen sql := hs.unnamed (sql, q) (mem_of_lookup hq)
      rfl
  · exact fun e he => hs.unnamed e (hsub.subset he)
  · change (s.queryCache ++ [_]).map _ = (QueryCache.names (s.preparedStmtCounter + 1)).map some
    rw [List.map_append, hs.names, names_succ, List.map_append]
    rfl
  · have hkeys := hs.keys
    rw [List.map_append, List.nodup_append'] at hkeys
    obtain ⟨hcache, hwindow, hapart⟩ := hkeys
    change ((s.queryCache ++ [_] ++ s.unnamedQueries.filter _).map Prod.fst).Nodup
    have hrest : ((s.unnamedQueries.filter fun e => e.1 ≠ sql).map Prod.fst).Sublist
        (s.unnamedQueries.map Prod.fst) := hsub.map Prod.fst
    rw [List.append_assoc, List.map_append, List.nodup_append']
    refine ⟨hcache, ?_, ?_⟩
    · rw [List.singleton_append, List.map_cons, List.nodup_cons]
      refine ⟨?_, hrest.nodup hwindow⟩
      intro hmem
      obtain ⟨e, he, heq⟩ := List.mem_map.mp hmem
      exact absurd heq (of_decide_eq_true (List.mem_filter.mp he).2)
    · intro k hk hmem
      rw [List.singleton_append, List.map_cons] at hmem
      rcases List.mem_cons.mp hmem with rfl | hmem
      · exact not_mem_of_lookup h hk
      · exact hapart hk (hrest.subset hmem)

theorem ok_remember {s : State} (hs : s.Ok) {sql : List Char}
    (h : s.queryCache.lookup sql = none) (hq : s.unnamedQueries.lookup sql = none) :
    (remember s sql).Ok := by
  have hkeys := hs.keys
  rw [List.map_append, List.nodup_append'] at hkeys
  obtain ⟨hcache, hwindow, hapart⟩ := hkeys
  generalize hkept : (if MAX_UNNAMED_QUERIES ≤ s.unnamedQueries.length then s.unnamedQueries.tail
    else s.unnamedQueries) = kept
  have hsub : kept.Sublist s.unnamedQueries := by
    rw [← hkept]
    split
    next => exact List.tail_sublist _
    next => exact List.Sublist.refl _
  have hroom : kept.length < MAX_UNNAMED_QUERIES := by
    rw [← hkept]
    split
    next =>
      rw [List.length_tail]
      have hlimit : 0 < MAX_UNNAMED_QUERIES := by decide
      have := hs.window
      omega
    next hlt => exact Nat.lt_of_not_le hlt
  have hstate : remember s sql =
      { s with unnamedQueries := kept ++ [(sql, unseen sql)] } := by
    rw [remember, hkept]
  rw [hstate]
  refine ⟨hs.converted, ?_, hs.names, ?_, hs.few, ?_⟩
  · intro e he
    rcases List.mem_append.mp he with he | he
    · exact hs.unnamed e (hsub.subset he)
    · obtain rfl := List.mem_singleton.mp he
      rfl
  · have hrest := hsub.map Prod.fst
    change ((s.queryCache ++ (kept ++ [_])).map Prod.fst).Nodup
    rw [List.map_append, List.map_append, List.nodup_append', List.nodup_append']
    refine ⟨hcache, ⟨hrest.nodup hwindow, List.nodup_singleton _, ?_⟩, ?_⟩
    · intro k hk hmem
      obtain rfl := List.mem_singleton.mp hmem
      exact not_mem_of_lookup hq (hrest.subset hk)
    · intro k hk hmem
      rcases List.mem_append.mp hmem with hmem | hmem
      · exact hapart hk (hrest.subset hmem)
      · obtain rfl := List.mem_singleton.mp hmem
        exact not_mem_of_lookup h hk
  · change (kept ++ [_]).length ≤ _
    rw [List.length_append]
    exact hroom

theorem Resolves.ok {s t : State} {sql : List Char} {q : CachedQuery} (h : Resolves s sql t q)
    (hs : s.Ok) : t.Ok := by
  cases h with
  | named => exact hs
  | full => exact hs
  | again h hq hroom => exact ok_promote hs h hq hroom
  | first h hq => exact ok_remember hs h hq

theorem ok_reached (calls : List Call) : (reached calls).Ok := by
  induction calls using List.reverseRecOn with
  | nil => exact ok_init
  | append_singleton calls c ih =>
    rw [reached, List.foldl_append]
    cases c with
    | resolve sql => exact (resolveQuery_resolves _ sql).ok ih
    | clear => exact ok_init

/-! ## What is answered -/

theorem Resolves.converted {s t : State} {sql : List Char} {q : CachedQuery}
    (h : Resolves s sql t q) (hs : s.Ok) : q.For sql := by
  cases h with
  | named h => exact hs.converted (sql, q) (mem_of_lookup h)
  | full _ hq =>
    obtain rfl : q = unseen sql := hs.unnamed (sql, q) (mem_of_lookup hq)
    rfl
  | @again p _ hq =>
    obtain rfl : p = unseen sql := hs.unnamed (sql, p) (mem_of_lookup hq)
    rfl
  | first => rfl

/-- The names stay as they are. -/
theorem Resolves.grows {s t : State} {sql : List Char} {q : CachedQuery}
    (h : Resolves s sql t q) : s.queryCache <+: t.queryCache := by
  cases h with
  | named => exact List.prefix_rfl
  | full => exact List.prefix_rfl
  | again => exact List.prefix_append _ _
  | first => exact List.prefix_rfl

/-- An answer with a name is in the cache from then on. -/
theorem Resolves.kept {s t : State} {sql n : List Char} {q : CachedQuery}
    (h : Resolves s sql t q) (hs : s.Ok) (hn : q.name = some n) :
    t.queryCache.lookup sql = some q := by
  cases h with
  | named h => exact h
  | full _ hq =>
    obtain rfl : q = unseen sql := hs.unnamed (sql, q) (mem_of_lookup hq)
    exact nomatch hn
  | @again p h =>
    change (s.queryCache ++ [(sql, _)]).lookup sql = _
    rw [List.lookup_append, h, List.lookup_cons_self]
    rfl
  | first => exact nomatch hn

theorem lookup_grown {l l' : List (List Char × CachedQuery)} (h : l <+: l') {sql : List Char}
    {q : CachedQuery} (hl : l.lookup sql = some q) : l'.lookup sql = some q := by
  obtain ⟨r, rfl⟩ := h
  rw [List.lookup_append, hl]
  rfl

theorem answer_of_named {s : State} {sql : List Char} {q : CachedQuery}
    (h : s.queryCache.lookup sql = some q) : (resolveQuery s sql).2 = q := by
  rw [resolveQuery, h]

section Answers
variable {s : State} (hs : s.Ok) (sqls : List (List Char))
include hs

theorem answers_converted : ∀ r ∈ answers s sqls, r.2.For r.1 := by
  induction sqls generalizing s with
  | nil => exact fun r hr => nomatch hr
  | cons sql sqls ih =>
    intro r hr
    have hstep := resolveQuery_resolves s sql
    rcases List.mem_cons.mp hr with rfl | hr
    · exact hstep.converted hs
    · exact ih (hstep.ok hs) r hr

/-- There is one cache that holds every name that was answered. -/
theorem answers_kept : ∃ t : State, t.Ok ∧ s.queryCache <+: t.queryCache ∧
    ∀ r ∈ answers s sqls, ∀ n, r.2.name = some n → t.queryCache.lookup r.1 = some r.2 := by
  induction sqls generalizing s with
  | nil => exact ⟨s, hs, List.prefix_rfl, fun r hr => nomatch hr⟩
  | cons sql sqls ih =>
    have hstep := resolveQuery_resolves s sql
    obtain ⟨t, ht, hgrows, hkept⟩ := ih (hstep.ok hs)
    refine ⟨t, ht, hstep.grows.trans hgrows, ?_⟩
    intro r hr n hn
    rcases List.mem_cons.mp hr with rfl | hr
    · exact lookup_grown hgrows (hstep.kept hs hn)
    · exact hkept r hr n hn

/-- A text that has a name is answered with it. -/
theorem answers_of_named {sql : List Char} {q : CachedQuery}
    (h : s.queryCache.lookup sql = some q) : ∀ r ∈ answers s sqls, r.1 = sql → r.2 = q := by
  induction sqls generalizing s with
  | nil => exact fun r hr => nomatch hr
  | cons next sqls ih =>
    intro r hr heq
    have hstep := resolveQuery_resolves s next
    rcases List.mem_cons.mp hr with rfl | hr
    · obtain rfl : next = sql := heq
      exact answer_of_named h
    · exact ih (hstep.ok hs) (lookup_grown hstep.grows h) r hr heq

theorem answers_keep_names : (answers s sqls).Pairwise fun r r' =>
    r.1 = r'.1 → ∀ n, r.2.name = some n → r'.2.name = some n := by
  induction sqls generalizing s with
  | nil => exact List.Pairwise.nil
  | cons sql sqls ih =>
    have hstep := resolveQuery_resolves s sql
    refine List.Pairwise.cons ?_ (ih (hstep.ok hs))
    intro r' hr' heq n hn
    have hsame := answers_of_named (hstep.ok hs) sqls (hstep.kept hs hn) r' hr' heq.symm
    rw [hsame]
    exact hn

end Answers

/-- Two entries of a cache with one name are one. -/
theorem State.Ok.entry_of_name {s : State} (hs : s.Ok) {e e' : List Char × CachedQuery}
    (he : e ∈ s.queryCache) (he' : e' ∈ s.queryCache) (h : e.2.name = e'.2.name) : e = e' := by
  have hnodup : (s.queryCache.map fun e => e.2.name).Nodup := by
    rw [hs.names]
    exact (names_nodup _).map (Option.some_injective _)
  exact List.inj_on_of_nodup_map hnodup he he' h

theorem answers_name_text {s : State} (hs : s.Ok) (sqls : List (List Char)) :
    ∀ r ∈ answers s sqls, ∀ r' ∈ answers s sqls, ∀ n, r.2.name = some n → r'.2.name = some n →
      r.1 = r'.1 := by
  intro r hr r' hr' n hn hn'
  obtain ⟨t, ht, -, hkept⟩ := answers_kept hs sqls
  have hmem := mem_of_lookup (hkept r hr n hn)
  have hmem' := mem_of_lookup (hkept r' hr' n hn')
  exact congrArg Prod.fst (ht.entry_of_name hmem hmem' (hn.trans hn'.symm))

/-- The names that exist. -/
def State.names (s : State) : List (List Char) := s.queryCache.filterMap fun e => e.2.name

theorem State.Ok.length_names {s : State} (hs : s.Ok) :
    s.names.length = s.preparedStmtCounter := by
  have hmap : s.names = QueryCache.names s.preparedStmtCounter := by
    have hids : s.names = (s.queryCache.map fun e => e.2.name).filterMap id := by
      rw [List.filterMap_map]
      rfl
    rw [hids, hs.names, List.filterMap_map]
    exact List.filterMap_some
  rw [hmap, QueryCache.names, List.length_map, List.length_range]

/-- After any calls and clears: every text is answered with its conversion, a name goes to one text,
which keeps it until the next clear, and both maps stay within their limits. -/
theorem resolveQuery_runs (calls : List Call) (sqls : List (List Char)) :
    (∀ r ∈ answers (reached calls) sqls, r.2.convertedSql = convertPlaceholders r.1) ∧
    (∀ r ∈ answers (reached calls) sqls, ∀ r' ∈ answers (reached calls) sqls, ∀ n,
      r.2.name = some n → r'.2.name = some n → r.1 = r'.1) ∧
    ((answers (reached calls) sqls).Pairwise fun r r' =>
      r.1 = r'.1 → ∀ n, r.2.name = some n → r'.2.name = some n) ∧
    (reached calls).names.length ≤ MAX_NAMED_STATEMENTS ∧
    (reached calls).unnamedQueries.length ≤ MAX_UNNAMED_QUERIES := by
  have hok := ok_reached calls
  refine ⟨?_, answers_name_text hok sqls, answers_keep_names hok sqls, ?_, hok.window⟩
  · intro r hr
    exact congrArg CachedQuery.convertedSql (answers_converted hok sqls r hr)
  · rw [hok.length_names]
    exact hok.few

end LiteDb.QueryCache
