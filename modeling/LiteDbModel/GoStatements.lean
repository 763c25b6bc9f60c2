import LiteDbModel.Lib.Ledger
import LiteDbModel.Lib.Run

/-!
# The prepared statements of the Go runtime

`dbStmtCache` is shared by goroutines: what one call of `prepare` does under a lock
is one step here, and between two such steps of a goroutine others may take theirs.
`txStmtCache` belongs to the one connection of a transaction and prepares what repeats.
-/

namespace LiteDb.GoStatements
set_option autoImplicit false

/-! ## What may be prepared -/

/-- What `strings.TrimSpace` takes off. -/
def isSpace (c : Char) : Bool :=
  c = '\t' || c = '\n' || c = '\x0b' || c = '\x0c' || c = '\r' || c = ' ' || c = '\u0085' ||
  c = '\u00a0' || c = '\u1680' || ('\u2000' ≤ c && c ≤ '\u200a') || c = '\u2028' ||
  c = '\u2029' || c = '\u202f' || c = '\u205f' || c = '\u3000'

def trimSpace (cs : List Char) : List Char :=
  ((cs.dropWhile isSpace).reverse.dropWhile isSpace).reverse

/-- `strings.ToLower`, as far as a comparison with an ASCII text can see it. -/
def lowerRune (c : Char) : Char :=
  if c = '\u0130' then 'i' else if c = '\u212a' then 'k' else c.toLower

def toLower (cs : List Char) : List Char := cs.map lowerRune

def leadingVerb (query : List Char) : List Char :=
  toLower ((trimSpace query).takeWhile fun c => !(c = ' ' || c = '\t' || c = '\r' || c = '\n'))

def containsFold (s sub : List Char) : Bool := decide (sub <:+: toLower s)

/-- `strings.EqualFold` on the end of the text; no letter of `returning` folds to another than
its capital. -/
def hasSuffixFold (s suffix : List Char) : Bool :=
  suffix.length ≤ s.length && (s.drop (s.length - suffix.length)).map Char.toLower = suffix

def txVerbs : List (List Char) :=
  ["begin", "commit", "rollback", "set", "savepoint", "release", "start"].map String.toList

def cacheableStmt (query : String) : Bool :=
  let cs := query.toList
  if containsFold cs " returning ".toList || hasSuffixFold cs " returning".toList then false
  else !txVerbs.contains (leadingVerb cs)

example : cacheableStmt "SELECT id FROM users WHERE id = ?" = true := by decide

example : cacheableStmt "  Rollback\nTO s1" = false := by decide

/-! ## The cache of a database -/

/-- A handle of the driver, with the database and the text it was prepared for. -/
structure Stmt where
  db : Nat
  query : String
deriving DecidableEq

structure DbStmtCache where
  db : Nat
  stmts : AList (fun _ : String => Nat)

/-- Where a goroutine is. -/
inductive Pc
  | idle
  /-- It has the cache that `cacheForDB` gave it. -/
  | holding (cache : Nat)
  /-- `prepare` found nothing; `PrepareContext` is next. -/
  | missed (cache : Nat) (query : String)
  /-- `prepare` has a handle of its own; the write lock is next. -/
  | prepared (cache : Nat) (query : String) (st : Nat)
  /-- `CloseDBStmtCache` took the cache off the table; its lock is next. -/
  | closing (cache : Nat)

/-- A handle that `prepare` returned. -/
structure Answer where
  goroutine : Nat
  db : Nat
  query : String
  st : Nat

structure State where
  handles : List Stmt
  closed : List Nat
  caches : List DbStmtCache
  dbCaches : Nat → Option Nat
  pcs : Nat → Pc
  answers : List Answer

def init : State := ⟨[], [], [], fun _ => none, fun _ => .idle, []⟩

def State.goto (s : State) (g : Nat) (pc : Pc) : State :=
  { s with pcs := Function.update s.pcs g pc }

def State.answer (s : State) (g c : Nat) (a : Answer) : State :=
  { s with pcs := Function.update s.pcs g (.holding c), answers := a :: s.answers }

def cacheForDB (s : State) (g db : Nat) : State :=
  match s.dbCaches db with
  | some c => s.goto g (.holding c)
  | none =>
    { s with
      caches := s.caches ++ [⟨db, ∅⟩]
      dbCaches := Function.update s.dbCaches db (some s.caches.length)
      pcs := Function.update s.pcs g (.holding s.caches.length) }

/-- `prepare` under the read lock. -/
def lookup (s : State) (g c : Nat) (k : DbStmtCache) (query : String) : State :=
  match k.stmts.lookup query with
  | some st => s.answer g c ⟨g, k.db, query, st⟩
  | none => s.goto g (.missed c query)

/-- `PrepareContext`, which the driver may refuse. -/
def prepareContext (s : State) (g c : Nat) (k : DbStmtCache) (query : String) (ok : Bool) : State :=
  if ok then
    { s with
      handles := s.handles ++ [⟨k.db, query⟩]
      pcs := Function.update s.pcs g (.prepared c query s.handles.length) }
  else s.goto g (.holding c)

/-- `prepare` under the write lock. -/
def store (s : State) (g c : Nat) (k : DbStmtCache) (query : String) (st : Nat) : State :=
  match k.stmts.lookup query with
  | some existing =>
    { s.answer g c ⟨g, k.db, query, existing⟩ with closed := st :: s.closed }
  | none =>
    { s.answer g c ⟨g, k.db, query, st⟩ with
      caches := s.caches.set c { k with stmts := k.stmts.insert query st } }

/-- `CloseDBStmtCache` under the lock of the table. -/
def closeDBStmtCache (s : State) (g db : Nat) : State :=
  match s.dbCaches db with
  | none => s
  | some c =>
    { s with
      dbCaches := Function.update s.dbCaches db none
      pcs := Function.update s.pcs g (.closing c) }

/-- `CloseDBStmtCache` under the lock of the cache. -/
def closeAll (s : State) (g c : Nat) (k : DbStmtCache) : State :=
  { s with
    closed := k.stmts.entries.map Sigma.snd ++ s.closed
    caches := s.caches.set c { k with stmts := ∅ }
    pcs := Function.update s.pcs g .idle }

inductive Action
  | cacheForDB (g db : Nat)
  | lookup (g : Nat) (query : String)
  | prepareContext (g : Nat) (ok : Bool)
  | store (g : Nat)
  | closeDBStmtCache (g db : Nat)
  | closeAll (g : Nat)

/-- A goroutine takes the step it is at, or none. -/
def step (s : State) : Action → Option State
  | .cacheForDB g db =>
    match s.pcs g with
    | .idle | .holding _ => some (cacheForDB s g db)
    | _ => none
  | .lookup g query =>
    match s.pcs g with
    | .holding c => s.caches[c]?.map fun k => lookup s g c k query
    | _ => none
  | .prepareContext g ok =>
    match s.pcs g with
    | .missed c query => s.caches[c]?.map fun k => prepareContext s g c k query ok
    | _ => none
  | .store g =>
    match s.pcs g with
    | .prepared c query st => s.caches[c]?.map fun k => store s g c k query st
    | _ => none
  | .closeDBStmtCache g db =>
    match s.pcs g with
    | .idle | .holding _ => some (closeDBStmtCache s g db)
    | _ => none
  | .closeAll g =>
    match s.pcs g with
    | .closing c => s.caches[c]?.map fun k => closeAll s g c k
    | _ => none

/-! ## Who holds a handle -/

inductive Holder
  | entry (cache : Nat) (query : String)
  | goroutine (g : Nat)
deriving DecidableEq

def Pc.own : Pc → Option Nat
  | .prepared _ _ st => some st
  | _ => none

def State.held (s : State) : Holder → Option Nat
  | .entry c query => s.caches[c]?.bind fun k : DbStmtCache => k.stmts.lookup query
  | .goroutine g => (s.pcs g).own

/-- Each handle is for the database and the text it is kept or was returned for. -/
structure Fits (s : State) : Prop where
  mapped : ∀ db c, s.dbCaches db = some c → ∃ k : DbStmtCache, s.caches[c]? = some k ∧ k.db = db
  entries : ∀ (c : Nat) (k : DbStmtCache) query st, s.caches[c]? = some k →
    k.stmts.lookup query = some st → s.handles[st]? = some ⟨k.db, query⟩
  inflight : ∀ g c query st, s.pcs g = .prepared c query st →
    ∃ k : DbStmtCache, s.caches[c]? = some k ∧ s.handles[st]? = some ⟨k.db, query⟩
  answered : ∀ a ∈ s.answers, s.handles[a.st]? = some ⟨a.db, a.query⟩

/-- Every handle that was not closed has one holder. -/
def Owned (s : State) : Prop := Ledger.Balanced s.handles.length s.closed s.held

/-! ## What a step does -/

inductive Takes (s : State) : Action → State → Prop
  | shared {g db c : Nat} (hpc : (s.pcs g).own = none) (hdb : s.dbCaches db = some c) :
      Takes s (.cacheForDB g db) (s.goto g (.holding c))
  | created {g db : Nat} (hpc : (s.pcs g).own = none) (hdb : s.dbCaches db = none) :
      Takes s (.cacheForDB g db)
        { s with
          caches := s.caches ++ [⟨db, ∅⟩]
          dbCaches := Function.update s.dbCaches db (some s.caches.length)
          pcs := Function.update s.pcs g (.holding s.caches.length) }
  | found {g c : Nat} {k : DbStmtCache} {query : String} {st : Nat} (hpc : s.pcs g = .holding c)
      (hk : s.caches[c]? = some k) (hst : k.stmts.lookup query = some st) :
      Takes s (.lookup g query) (s.answer g c ⟨g, k.db, query, st⟩)
  | missed {g c : Nat} {k : DbStmtCache} {query : String} (hpc : s.pcs g = .holding c)
      (hk : s.caches[c]? = some k) (hst : k.stmts.lookup query = none) :
      Takes s (.lookup g query) (s.goto g (.missed c query))
  | prepared {g c : Nat} {k : DbStmtCache} {query : String} (hpc : s.pcs g = .missed c query)
      (hk : s.caches[c]? = some k) :
      Takes s (.prepareContext g true)
        { s with
          handles := s.handles ++ [⟨k.db, query⟩]
          pcs := Function.update s.pcs g (.prepared c query s.handles.length) }
  | refused {g c : Nat} {query : String} (hpc : s.pcs g = .missed c query) :
      Takes s (.prepareContext g false) (s.goto g (.holding c))
  | lost {g c : Nat} {k : DbStmtCache} {query : String} {st existing : Nat}
      (hpc : s.pcs g = .prepared c query st) (hk : s.caches[c]? = some k)
      (hst : k.stmts.lookup query = some existing) :
      Takes s (.store g)
        { s.answer g c ⟨g, k.db, query, existing⟩ with closed := st :: s.closed }
  | kept {g c : Nat} {k : DbStmtCache} {query : String} {st : Nat}
      (hpc : s.pcs g = .prepared c query st) (hk : s.caches[c]? = some k)
      (hst : k.stmts.lookup query = none) :
      Takes s (.store g)
        { s.answer g c ⟨g, k.db, query, st⟩ with
          caches := s.caches.set c { k with stmts := k.stmts.insert query st } }
  | absent {g db : Nat} : Takes s (.closeDBStmtCache g db) s
  | detached {g db c : Nat} (hpc : (s.pcs g).own = none) (hdb : s.dbCaches db = some c) :
      Takes s (.closeDBStmtCache g db)
        { s with
          dbCaches := Function.update s.dbCaches db none
          pcs := Function.update s.pcs g (.closing c) }
  | closed {g c : Nat} {k : DbStmtCache} (hpc : s.pcs g = .closing c)
      (hk : s.caches[c]? = some k) : Takes s (.closeAll g) (closeAll s g c k)

theorem cacheForDB_takes {s : State} {g : Nat} (db : Nat) (hpc : (s.pcs g).own = none) :
    Takes s (.cacheForDB g db) (cacheForDB s g db) := by
  unfold cacheForDB
  split
  · exact .shared hpc ‹_›
  · exact .created hpc ‹_›

theorem closeDBStmtCache_takes {s : State} {g : Nat} (db : Nat) (hpc : (s.pcs g).own = none) :
    Takes s (.closeDBStmtCache g db) (closeDBStmtCache s g db) := by
  unfold closeDBStmtCache
  split
  · exact .absent
  · exact .detached hpc ‹_›

theorem lookup_takes {s : State} {g c : Nat} {k : DbStmtCache} (query : String)
    (hpc : s.pcs g = .holding c) (hk : s.caches[c]? = some k) :
    Takes s (.lookup g query) (lookup s g c k query) := by
  unfold lookup
  split
  · exact .found hpc hk ‹_›
  · exact .missed hpc hk ‹_›

theorem prepareContext_takes {s : State} {g c : Nat} {k : DbStmtCache} {query : String} (ok : Bool)
    (hpc : s.pcs g = .missed c query) (hk : s.caches[c]? = some k) :
    Takes s (.prepareContext g ok) (prepareContext s g c k query ok) := by
  cases ok with
  | true => exact .prepared hpc hk
  | false => exact .refused hpc

theorem store_takes {s : State} {g c : Nat} {k : DbStmtCache} {query : String} {st : Nat}
    (hpc : s.pcs g = .prepared c query st) (hk : s.caches[c]? = some k) :
    Takes s (.store g) (store s g c k query st) := by
  unfold store
  split
  · exact .lost hpc hk ‹_›
  · exact .kept hpc hk ‹_›

theorem step_takes {s t : State} {a : Action} (h : step s a = some t) : Takes s a t := by
  cases a with
  | cacheForDB g db =>
    simp only [step] at h
    split at h
    · obtain rfl := Option.some.inj h
      exact cacheForDB_takes db (by simp only [*, Pc.own])
    · obtain rfl := Option.some.inj h
      exact cacheForDB_takes db (by simp only [*, Pc.own])
    · cases h
  | lookup g query =>
    simp only [step] at h
    split at h
    · obtain ⟨k, hk, rfl⟩ := Option.map_eq_some_iff.mp h
      exact lookup_takes query ‹_› hk
    · cases h
  | prepareContext g ok =>
    simp only [step] at h
    split at h
    · obtain ⟨k, hk, rfl⟩ := Option.map_eq_some_iff.mp h
      exact prepareContext_takes ok ‹_› hk
    · cases h
  | store g =>
    simp only [step] at h
    split at h
    · obtain ⟨k, hk, rfl⟩ := Option.map_eq_some_iff.mp h
      exact store_takes ‹_› hk
    · cases h
  | closeDBStmtCache g db =>
    simp only [step] at h
    split at h
    · obtain rfl := Option.some.inj h
      exact closeDBStmtCache_takes db (by simp only [*, Pc.own])
    · obtain rfl := Option.some.inj h
      exact closeDBStmtCache_takes db (by simp only [*, Pc.own])
    · cases h
  | closeAll g =>
    simp only [step] at h
    split at h
    · obtain ⟨k, hk, rfl⟩ := Option.map_eq_some_iff.mp h
      exact .closed ‹_› hk
    · cases h

/-! ## Handles fit -/

section Fits

variable {s t : State}

/-- A cache is for one database from its creation on. -/
def Keeps (s t : State) : Prop :=
  ∀ (c : Nat) (k : DbStmtCache), s.caches[c]? = some k → ∃ k', t.caches[c]? = some k' ∧ k'.db = k.db

theorem keeps_of_eq (h : t.caches = s.caches) : Keeps s t := by
  intro c k hk
  exact ⟨k, h ▸ hk, rfl⟩

theorem keeps_set {c : Nat} {k k' : DbStmtCache} (hk : s.caches[c]? = some k)
    (h : t.caches = s.caches.set c k') (hdb : k'.db = k.db) : Keeps s t := by
  intro i ki hi
  rw [h]
  by_cases hic : c = i
  · subst hic
    obtain rfl := Option.some.inj (hk.symm.trans hi)
    exact ⟨k', List.getElem?_set_self (List.getElem?_eq_some_iff.mp hk).1, hdb⟩
  · exact ⟨ki, (List.getElem?_set_ne hic).trans hi, rfl⟩

theorem keeps_append {k : DbStmtCache} (h : t.caches = s.caches ++ [k]) : Keeps s t := by
  intro i ki hi
  exact ⟨ki, by rw [h, List.getElem?_append_left (List.getElem?_eq_some_iff.mp hi).1, hi], rfl⟩

theorem getElem?_appended {l : List DbStmtCache} {new k : DbStmtCache} {c : Nat}
    (h : (l ++ [new])[c]? = some k) : l[c]? = some k ∨ (c = l.length ∧ k = new) := by
  rw [List.getElem?_append] at h
  split at h
  · exact .inl h
  · rw [List.getElem?_singleton] at h
    split at h
    · exact .inr ⟨by omega, (Option.some.inj h).symm⟩
    · cases h

/-- What is new in a state need only fit itself. -/
theorem Fits.advance (hs : Fits s) (hcaches : Keeps s t) (hhandles : s.handles <+: t.handles)
    (hmapped : ∀ db c, t.dbCaches db = some c →
      s.dbCaches db = some c ∨ ∃ k : DbStmtCache, t.caches[c]? = some k ∧ k.db = db)
    (hentries : ∀ (c : Nat) (k : DbStmtCache) query st, t.caches[c]? = some k →
      k.stmts.lookup query = some st → (∃ k' : DbStmtCache, s.caches[c]? = some k' ∧
        k'.db = k.db ∧ k'.stmts.lookup query = some st) ∨
        t.handles[st]? = some ⟨k.db, query⟩)
    (hpcs : ∀ g c query st, t.pcs g = .prepared c query st → s.pcs g = .prepared c query st ∨
      ∃ k : DbStmtCache, t.caches[c]? = some k ∧ t.handles[st]? = some ⟨k.db, query⟩)
    (hanswers : ∀ a ∈ t.answers, a ∈ s.answers ∨ t.handles[a.st]? = some ⟨a.db, a.query⟩) :
    Fits t := by
  have hkeep : ∀ {i : Nat} {x : Stmt}, s.handles[i]? = some x → t.handles[i]? = some x := by
    intro i x hi
    obtain ⟨rest, hrest⟩ := hhandles
    rw [← hrest, List.getElem?_append_left (List.getElem?_eq_some_iff.mp hi).1, hi]
  constructor
  · intro db c hc
    rcases hmapped db c hc with hc | hc
    · obtain ⟨k, hk, rfl⟩ := hs.mapped db c hc
      exact hcaches c k hk
    · exact hc
  · intro c k query st hk hst
    rcases hentries c k query st hk hst with ⟨k', hk', hdb, hst'⟩ | h
    · exact hkeep (hdb ▸ hs.entries c k' query st hk' hst')
    · exact h
  · intro g c query st hpc
    rcases hpcs g c query st hpc with hpc | h
    · obtain ⟨k, hk, hst⟩ := hs.inflight g c query st hpc
      obtain ⟨k', hk', hdb⟩ := hcaches c k hk
      exact ⟨k', hk', hkeep (hdb ▸ hst)⟩
    · exact h
  · intro a ha
    rcases hanswers a ha with ha | h
    · exact hkeep (hs.answered a ha)
    · exact h

/-- A goroutine that goes on without a handle of its own leaves the others where they are. -/
theorem prepared_of_update {g g' c : Nat} {pc : Pc} {query : String} {st : Nat}
    (hpc : pc.own = none) (h : Function.update s.pcs g pc g' = .prepared c query st) :
    s.pcs g' = .prepared c query st := by
  by_cases hg : g' = g
  · subst hg
    rw [Function.update_self] at h
    subst h
    cases hpc
  · rwa [Function.update_of_ne hg] at h

theorem answers_cons {P : Answer → Prop} {new : Answer} {answers : List Answer} (h : P new) :
    ∀ a ∈ new :: answers, a ∈ answers ∨ P a := by
  intro a ha
  rcases List.mem_cons.mp ha with rfl | ha
  · exact .inr h
  · exact .inl ha

/-- A goroutine goes elsewhere without a handle of its own, and may return one that fits. -/
theorem Fits.quiet {g : Nat} {pc : Pc} (hs : Fits s) (hhandles : t.handles = s.handles)
    (hcaches : t.caches = s.caches) (hdb : t.dbCaches = s.dbCaches)
    (hpcs : t.pcs = Function.update s.pcs g pc) (hpc : pc.own = none)
    (hanswers : ∀ a ∈ t.answers, a ∈ s.answers ∨ s.handles[a.st]? = some ⟨a.db, a.query⟩) :
    Fits t := by
  apply hs.advance (keeps_of_eq hcaches)
  · rw [hhandles]
  · intro db c hc
    exact .inl (hdb ▸ hc)
  · intro c k query st hk hst
    exact .inl ⟨k, hcaches ▸ hk, rfl, hst⟩
  · intro g' c query st hg
    exact .inl (prepared_of_update hpc (hpcs ▸ hg))
  · rw [hhandles]
    exact hanswers

theorem step_fits (s : State) (a : Action) (t : State) (hs : Fits s) (h : step s a = some t) :
    Fits t := by
  cases step_takes h with
  | shared hpc hdb => exact hs.quiet rfl rfl rfl rfl rfl (fun _ => .inl)
  | @created g db hpc hdb =>
    refine hs.advance (keeps_append rfl) (List.prefix_refl _) ?_ ?_ ?_ ?_
    · intro db' c hc
      replace hc : Function.update s.dbCaches db (some s.caches.length) db' = some c := hc
      by_cases heq : db' = db
      · rw [heq, Function.update_self] at hc
        obtain rfl := Option.some.inj hc
        exact .inr ⟨⟨db, ∅⟩, List.getElem?_concat_length, heq.symm⟩
      · rw [Function.update_of_ne heq] at hc
        exact .inl hc
    · intro c k query st hk hst
      rcases getElem?_appended hk with hk | ⟨-, rfl⟩
      · exact .inl ⟨k, hk, rfl, hst⟩
      · rw [AList.lookup_empty] at hst
        cases hst
    · exact fun _ _ _ _ hg => .inl (prepared_of_update rfl hg)
    · exact fun _ => .inl
  | found hpc hk hst =>
    exact hs.quiet rfl rfl rfl rfl rfl (answers_cons (hs.entries _ _ _ _ hk hst))
  | missed hpc hk hst => exact hs.quiet rfl rfl rfl rfl rfl (fun _ => .inl)
  | @prepared g c k query hpc hk =>
    refine hs.advance (keeps_of_eq rfl) (List.prefix_append _ _) (fun _ _ => .inl) ?_ ?_ ?_
    · intro c k query st hk hst
      exact .inl ⟨k, hk, rfl, hst⟩
    · intro g' c' query' st hg
      by_cases heq : g' = g
      · subst heq
        obtain ⟨rfl, rfl, rfl⟩ := Pc.prepared.inj ((Function.update_self ..).symm.trans hg)
        exact .inr ⟨k, hk, List.getElem?_concat_length⟩
      · exact .inl ((Function.update_of_ne heq ..).symm.trans hg)
    · exact fun _ => .inl
  | refused hpc => exact hs.quiet rfl rfl rfl rfl rfl (fun _ => .inl)
  | lost hpc hk hst =>
    exact hs.quiet rfl rfl rfl rfl rfl (answers_cons (hs.entries _ _ _ _ hk hst))
  | @kept g c k query st hpc hk hst =>
    have hfits : s.handles[st]? = some ⟨k.db, query⟩ := by
      obtain ⟨k', hk', hfit⟩ := hs.inflight g c query st hpc
      obtain rfl := Option.some.inj (hk'.symm.trans hk)
      exact hfit
    refine hs.advance (keeps_set hk rfl rfl) (List.prefix_refl _) (fun _ _ => .inl) ?_ ?_ ?_
    · intro c' k' query' st' hk' hst'
      by_cases hc : c = c'
      · subst hc
        obtain rfl := Option.some.inj
          ((List.getElem?_set_self (List.getElem?_eq_some_iff.mp hk).1).symm.trans hk')
        by_cases hq : query' = query
        · subst hq
          obtain rfl := Option.some.inj ((AList.lookup_insert _).symm.trans hst')
          exact .inr hfits
        · exact .inl ⟨k, hk, rfl, (AList.lookup_insert_ne hq).symm.trans hst'⟩
      · exact .inl ⟨k', (List.getElem?_set_ne hc).symm.trans hk', rfl, hst'⟩
    · exact fun _ _ _ _ hg => .inl (prepared_of_update rfl hg)
    · exact answers_cons hfits
  | absent => exact hs
  | @detached g db c hpc hdb =>
    refine hs.advance (keeps_of_eq rfl) (List.prefix_refl _) ?_ ?_ ?_ ?_
    · intro db' c' hc
      replace hc : Function.update s.dbCaches db none db' = some c' := hc
      by_cases heq : db' = db
      · rw [heq, Function.update_self] at hc
        cases hc
      · rw [Function.update_of_ne heq] at hc
        exact .inl hc
    · intro c k query st hk hst
      exact .inl ⟨k, hk, rfl, hst⟩
    · exact fun _ _ _ _ hg => .inl (prepared_of_update rfl hg)
    · exact fun _ => .inl
  | @closed g c k hpc hk =>
    refine hs.advance (keeps_set hk rfl rfl) (List.prefix_refl _) (fun _ _ => .inl) ?_ ?_ ?_
    · intro c' k' query' st' hk' hst'
      by_cases hc : c = c'
      · subst hc
        obtain rfl := Option.some.inj
          ((List.getElem?_set_self (List.getElem?_eq_some_iff.mp hk).1).symm.trans hk')
        cases (AList.lookup_empty _).symm.trans hst'
      · exact .inl ⟨k', (List.getElem?_set_ne hc).symm.trans hk', rfl, hst'⟩
    · exact fun _ _ _ _ hg => .inl (prepared_of_update rfl hg)
    · exact fun _ => .inl

theorem fits_init : Fits init where
  mapped _ _ h := by cases h
  entries _ _ _ _ h := by cases h
  inflight _ _ _ _ h := by cases h
  answered a h := absurd h List.not_mem_nil

end Fits

/-! ## Handles are owned -/

section Owned

variable {s t : State} {g c : Nat} {k : DbStmtCache} {query : String} {st : Nat} {pc : Pc}

theorem held_entry (hk : s.caches[c]? = some k) (query : String) :
    s.held (.entry c query) = k.stmts.lookup query := by
  rw [State.held, hk, Option.bind_some]

theorem held_goroutine (hpc : s.pcs g = pc) : s.held (.goroutine g) = pc.own := by
  rw [State.held, hpc]

/-- A goroutine that goes elsewhere. -/
theorem held_update (hcaches : ∀ c query, t.held (.entry c query) = s.held (.entry c query))
    (hpcs : t.pcs = Function.update s.pcs g pc) {own : Option Nat} (hown : pc.own = own) :
    t.held = Function.update s.held (.goroutine g) own := by
  funext h
  cases h with
  | entry c query => rw [hcaches, Function.update_of_ne (by simp)]
  | goroutine g' =>
    by_cases hg : g' = g
    · rw [hg, Function.update_self, held_goroutine (by rw [hpcs, Function.update_self]), hown]
    · rw [Function.update_of_ne (by simpa using hg),
        held_goroutine (by rw [hpcs, Function.update_of_ne hg]), State.held]

/-- A goroutine that had no handle and has none. -/
theorem held_same (hcaches : ∀ c query, t.held (.entry c query) = s.held (.entry c query))
    (hpcs : t.pcs = Function.update s.pcs g pc) (hold : (s.pcs g).own = none)
    (hnew : pc.own = none) : t.held = s.held := by
  rw [held_update hcaches hpcs hnew, Function.update_eq_self_iff, held_goroutine rfl, hold]

theorem held_append {db : Nat} (hcaches : t.caches = s.caches ++ [⟨db, ∅⟩]) (c : Nat)
    (query : String) : t.held (.entry c query) = s.held (.entry c query) := by
  rw [State.held, State.held, hcaches]
  rcases Nat.lt_trichotomy c s.caches.length with hlt | rfl | hgt
  · rw [List.getElem?_append_left hlt]
  · rw [List.getElem?_concat_length, Option.bind_some, AList.lookup_empty,
      List.getElem?_eq_none (Nat.le_refl _), Option.bind_none]
  · rw [List.getElem?_eq_none, List.getElem?_eq_none hgt.le]
    rw [List.length_append, List.length_singleton]
    omega

theorem held_set {k' : DbStmtCache} (hk : s.caches[c]? = some k)
    (hcaches : t.caches = s.caches.set c k') (c' : Nat) (query : String) :
    t.held (.entry c' query) =
      if c' = c then k'.stmts.lookup query else s.held (.entry c' query) := by
  by_cases hc : c' = c
  · subst hc
    rw [if_pos rfl, held_entry]
    rw [hcaches, List.getElem?_set_self (List.getElem?_eq_some_iff.mp hk).1]
  · rw [if_neg hc, State.held, State.held, hcaches, List.getElem?_set_ne (Ne.symm hc)]

/-- The entry of a cache that won the race takes the goroutine's handle over. -/
theorem held_kept (hpc : pc.own = none) (hk : s.caches[c]? = some k)
    (hcaches : t.caches = s.caches.set c { k with stmts := k.stmts.insert query st })
    (hpcs : t.pcs = Function.update s.pcs g pc) :
    t.held = Function.update (Function.update s.held (.goroutine g) none) (.entry c query)
      (some st) := by
  funext h
  cases h with
  | entry c' query' =>
    rw [held_set hk hcaches]
    by_cases hc : c' = c
    · subst hc
      rw [if_pos rfl]
      by_cases hq : query' = query
      · rw [hq, Function.update_self, AList.lookup_insert]
      · rw [AList.lookup_insert_ne hq, Function.update_of_ne (by simpa using hq),
          Function.update_of_ne (by simp), held_entry hk]
    · rw [if_neg hc, Function.update_of_ne (by simp [hc]), Function.update_of_ne (by simp)]
  | goroutine g' =>
    rw [Function.update_of_ne (by simp)]
    by_cases hg : g' = g
    · rw [hg, Function.update_self, held_goroutine (by rw [hpcs, Function.update_self]), hpc]
    · rw [Function.update_of_ne (by simpa using hg),
        held_goroutine (by rw [hpcs, Function.update_of_ne hg]), State.held]

/-- The entries of a cache. -/
def entriesOf (c : Nat) (k : DbStmtCache) : List (Holder × Nat) :=
  k.stmts.entries.map fun e => (.entry c e.1, e.2)

theorem entriesOf_nodup (c : Nat) (k : DbStmtCache) : ((entriesOf c k).map Prod.fst).Nodup := by
  have hkeys : k.stmts.keys.Nodup := k.stmts.keys_nodup
  have heq : (entriesOf c k).map Prod.fst = k.stmts.keys.map (Holder.entry c) := by
    rw [entriesOf, List.map_map, AList.keys, List.keys, List.map_map]
    rfl
  rw [heq]
  exact hkeys.map fun q q' h => (Holder.entry.inj h).2

theorem mem_entriesOf (hk : s.caches[c]? = some k) {e : Holder × Nat} (he : e ∈ entriesOf c k) :
    s.held e.1 = some e.2 := by
  obtain ⟨⟨query, st⟩, hmem, rfl⟩ := List.mem_map.mp he
  rw [held_entry hk]
  exact AList.mem_lookup_iff.mpr hmem

theorem closeAll_held (hpc : s.pcs g = .closing c) (hk : s.caches[c]? = some k) :
    (closeAll s g c k).held =
      fun h => if h ∈ (entriesOf c k).map Prod.fst then none else s.held h := by
  have hentry : ∀ c' query', Holder.entry c' query' ∈ (entriesOf c k).map Prod.fst ↔
      c' = c ∧ query' ∈ k.stmts := by
    intro c' query'
    rw [entriesOf, List.map_map, AList.mem_keys, AList.keys, List.keys]
    simp only [List.mem_map, Function.comp_apply, Holder.entry.injEq]
    constructor
    · rintro ⟨e, he, rfl, rfl⟩
      exact ⟨rfl, e, he, rfl⟩
    · rintro ⟨rfl, e, he, rfl⟩
      exact ⟨e, he, rfl, rfl⟩
  funext h
  cases h with
  | entry c' query' =>
    rw [held_set hk rfl, AList.lookup_empty]
    by_cases hc : c' = c
    · subst hc
      rw [if_pos rfl]
      split
      · rfl
      · next hmem =>
        rw [hentry, not_and] at hmem
        rw [held_entry hk, AList.lookup_eq_none.mpr (hmem rfl)]
    · rw [if_neg hc, if_neg]
      rw [hentry]
      exact fun h => hc h.1
  | goroutine g' =>
    rw [if_neg (by simp [entriesOf])]
    by_cases hg : g' = g
    · rw [hg, held_goroutine (Function.update_self ..), held_goroutine hpc]
      rfl
    · rw [held_goroutine (Function.update_of_ne hg ..), State.held]

theorem owned_of_balanced {made : Nat} {closed : List Nat} {held : Holder → Option Nat}
    (hb : Ledger.Balanced made closed held) (hmade : t.handles.length = made)
    (hclosed : t.closed = closed) (hheld : t.held = held) : Owned t := by
  rw [Owned, hmade, hclosed, hheld]
  exact hb

theorem step_owned (s : State) (a : Action) (t : State) (hs : Owned s) (h : step s a = some t) :
    Owned t := by
  cases step_takes h with
  | shared hpc hdb =>
    exact owned_of_balanced hs rfl rfl (held_same (fun _ _ => rfl) rfl hpc rfl)
  | created hpc hdb =>
    exact owned_of_balanced hs rfl rfl (held_same (held_append rfl) rfl hpc rfl)
  | found hpc hk hst =>
    exact owned_of_balanced hs rfl rfl (held_same (fun _ _ => rfl) rfl (hpc ▸ rfl) rfl)
  | missed hpc hk hst =>
    exact owned_of_balanced hs rfl rfl (held_same (fun _ _ => rfl) rfl (hpc ▸ rfl) rfl)
  | prepared hpc hk =>
    have hmake := Ledger.Balanced.make hs (held_goroutine hpc)
    refine owned_of_balanced hmake List.length_append rfl ?_
    apply held_update
    · exact fun _ _ => rfl
    · rfl
    · rfl
  | refused hpc =>
    exact owned_of_balanced hs rfl rfl (held_same (fun _ _ => rfl) rfl (hpc ▸ rfl) rfl)
  | lost hpc hk hst =>
    have hdrop := Ledger.Balanced.drop hs (held_goroutine hpc)
    refine owned_of_balanced hdrop rfl rfl ?_
    apply held_update
    · exact fun _ _ => rfl
    · rfl
    · rfl
  | kept hpc hk hst =>
    have hmove := Ledger.Balanced.move hs (held_goroutine hpc) ((held_entry hk _).trans hst)
    exact owned_of_balanced hmove rfl rfl (held_kept rfl hk rfl rfl)
  | absent => exact hs
  | detached hpc hdb =>
    exact owned_of_balanced hs rfl rfl (held_same (fun _ _ => rfl) rfl hpc rfl)
  | @closed g c k hpc hk =>
    have hclose := Ledger.Balanced.close hs (entriesOf_nodup c k) (fun e => mem_entriesOf hk)
    have hsnd : (entriesOf c k).map Prod.snd = k.stmts.entries.map Sigma.snd := by
      rw [entriesOf, List.map_map]
      rfl
    rw [hsnd] at hclose
    exact owned_of_balanced hclose rfl rfl (closeAll_held hpc hk)

theorem owned_init : Owned init := by
  have hnone : init.held = fun _ => none := by
    funext h
    cases h with
    | entry c query => rfl
    | goroutine g => rfl
  rw [Owned, hnone]
  exact Ledger.Balanced.nil

end Owned

theorem run_fits {actions : List Action} {s : State} (h : Run.run step init actions = some s) :
    Fits s := Run.invariant step_fits fits_init h

theorem run_owned {actions : List Action} {s : State} (h : Run.run step init actions = some s) :
    Owned s := Run.invariant step_owned owned_init h

/-- In whatever order goroutines call `prepare` and `CloseDBStmtCache`, a handle that was not
closed is the entry of one cache or in the hands of one call of `prepare`, no handle is closed
twice, and what `prepare` returned was prepared on its database for its text. -/
theorem handles_accounted {actions : List Action} {s : State}
    (h : Run.run step init actions = some s) :
    (∀ st, (st < s.handles.length ∧ st ∉ s.closed ↔ ∃! holder, s.held holder = some st)) ∧
      s.closed.Nodup ∧ ∀ a ∈ s.answers, s.handles[a.st]? = some ⟨a.db, a.query⟩ := by
  have howned := run_owned h
  refine ⟨?_, howned.nodup, (run_fits h).answered⟩
  intro st
  exact (howned.existsUnique st).symm

/-- Two goroutines look, find nothing and prepare; the one that stores second closes its own. -/
def race : List Action :=
  [.cacheForDB 1 7, .cacheForDB 2 7, .lookup 1 "SELECT 1", .lookup 2 "SELECT 1",
    .prepareContext 1 true, .prepareContext 2 true, .store 2, .store 1]

theorem handles_accounted_race : ∃ s, Run.run step init race = some s ∧
    (∀ st, (st < s.handles.length ∧ st ∉ s.closed ↔ ∃! holder, s.held holder = some st)) ∧
      s.closed.Nodup ∧ ∀ a ∈ s.answers, s.handles[a.st]? = some ⟨a.db, a.query⟩ := by
  refine ⟨_, rfl, ?_⟩
  have hrun : Run.run step init race = some _ := rfl
  exact handles_accounted hrun

/-! ## One handle for a text -/

/-- A database whose cache was not taken off the table: it has no other, and all that was
returned for it is there. -/
structure Stays (db : Nat) (s : State) : Prop where
  only : ∀ (c : Nat) (k : DbStmtCache), s.caches[c]? = some k → k.db = db → s.dbCaches db = some c
  closing : ∀ g c, s.pcs g = .closing c → ∃ k : DbStmtCache, s.caches[c]? = some k ∧ k.db ≠ db
  answered : ∀ a ∈ s.answers, a.db = db → ∃ (c : Nat) (k : DbStmtCache), s.caches[c]? = some k ∧
    k.db = db ∧ k.stmts.lookup a.query = some a.st

theorem stays_init (db : Nat) : Stays db init where
  only _ _ h := by cases h
  closing _ _ h := by cases h
  answered a h := absurd h List.not_mem_nil

section Stays

variable {s t : State} {db : Nat}

/-- What is new in a state need only meet the property itself, and what was returned is still in
the cache. -/
theorem Stays.advance (hs : Stays db s)
    (hcaches : ∀ (c : Nat) (k : DbStmtCache), s.caches[c]? = some k → ∃ k', t.caches[c]? = some k' ∧
      k'.db = k.db ∧ (k.db = db → ∀ query st, k.stmts.lookup query = some st →
        k'.stmts.lookup query = some st))
    (honly : ∀ (c : Nat) (k : DbStmtCache), t.caches[c]? = some k → k.db = db →
      t.dbCaches db = some c)
    (hclosing : ∀ g c, t.pcs g = .closing c → s.pcs g = .closing c ∨
      ∃ k : DbStmtCache, t.caches[c]? = some k ∧ k.db ≠ db)
    (hanswers : ∀ a ∈ t.answers, a ∈ s.answers ∨ ∃ (c : Nat) (k : DbStmtCache),
      t.caches[c]? = some k ∧ k.db = a.db ∧ k.stmts.lookup a.query = some a.st) : Stays db t where
  only := honly
  closing g c hpc := by
    rcases hclosing g c hpc with hpc | h
    · obtain ⟨k, hk, hdb⟩ := hs.closing g c hpc
      obtain ⟨k', hk', hdb', -⟩ := hcaches c k hk
      exact ⟨k', hk', hdb' ▸ hdb⟩
    · exact h
  answered a ha hdb := by
    rcases hanswers a ha with ha | ⟨c, k, hk, hkdb, hst⟩
    · obtain ⟨c, k, hk, hkdb, hst⟩ := hs.answered a ha hdb
      obtain ⟨k', hk', hdb', hkeep⟩ := hcaches c k hk
      exact ⟨c, k', hk', hdb'.trans hkdb, hkeep hkdb _ _ hst⟩
    · exact ⟨c, k, hk, hkdb.trans hdb, hst⟩

theorem caches_same (h : t.caches = s.caches) (c : Nat) (k : DbStmtCache)
    (hk : s.caches[c]? = some k) : ∃ k', t.caches[c]? = some k' ∧ k'.db = k.db ∧
      (k.db = db → ∀ query st, k.stmts.lookup query = some st →
        k'.stmts.lookup query = some st) :=
  ⟨k, h ▸ hk, rfl, fun _ _ _ => id⟩

theorem closing_of_update {g g' c : Nat} {pc : Pc} (hpc : ∀ c, pc ≠ .closing c)
    (h : Function.update s.pcs g pc g' = .closing c) : s.pcs g' = .closing c := by
  by_cases hg : g' = g
  · rw [hg, Function.update_self] at h
    exact absurd h (hpc c)
  · rwa [Function.update_of_ne hg] at h

theorem Stays.quiet {g : Nat} {pc : Pc} (hs : Stays db s) (hcaches : t.caches = s.caches)
    (hdb : t.dbCaches = s.dbCaches) (hpcs : t.pcs = Function.update s.pcs g pc)
    (hpc : ∀ c, pc ≠ .closing c)
    (hanswers : ∀ a ∈ t.answers, a ∈ s.answers ∨ ∃ (c : Nat) (k : DbStmtCache),
      s.caches[c]? = some k ∧ k.db = a.db ∧ k.stmts.lookup a.query = some a.st) : Stays db t := by
  apply hs.advance (caches_same hcaches)
  · intro c k hk hkdb
    rw [hdb]
    exact hs.only c k (hcaches ▸ hk) hkdb
  · intro g' c hg
    exact .inl (closing_of_update hpc (hpcs ▸ hg))
  · rw [hcaches]
    exact hanswers

theorem step_stays {a : Action} (hfits : Fits s) (hs : Stays db s)
    (ha : ∀ g, a ≠ .closeDBStmtCache g db) (h : step s a = some t) : Stays db t := by
  cases step_takes h with
  | shared hpc hdb => exact hs.quiet rfl rfl rfl (fun _ => by simp) (fun _ => .inl)
  | @created g db' hpc hdb =>
    refine hs.advance ?_ ?_
      (fun _ _ hg => .inl (closing_of_update (fun _ => by simp) hg)) (fun _ => .inl)
    · intro c k hk
      exact ⟨k, (List.getElem?_append_left (List.getElem?_eq_some_iff.mp hk).1).trans hk, rfl,
        fun _ _ _ => id⟩
    · intro c k hk hkdb
      show Function.update s.dbCaches db' (some s.caches.length) db = some c
      rcases getElem?_appended hk with hk | ⟨rfl, rfl⟩
      · have hc := hs.only c k hk hkdb
        have hne : db ≠ db' := by
          rintro rfl
          rw [hdb] at hc
          cases hc
        rw [Function.update_of_ne hne, hc]
      · obtain rfl : db' = db := hkdb
        rw [Function.update_self]
  | @found g c k query st hpc hk hst =>
    exact hs.quiet rfl rfl rfl (fun _ => by simp) (answers_cons ⟨c, k, hk, rfl, hst⟩)
  | missed hpc hk hst => exact hs.quiet rfl rfl rfl (fun _ => by simp) (fun _ => .inl)
  | prepared hpc hk => exact hs.quiet rfl rfl rfl (fun _ => by simp) (fun _ => .inl)
  | refused hpc => exact hs.quiet rfl rfl rfl (fun _ => by simp) (fun _ => .inl)
  | @lost g c k query st existing hpc hk hst =>
    exact hs.quiet rfl rfl rfl (fun _ => by simp) (answers_cons ⟨c, k, hk, rfl, hst⟩)
  | @kept g c k query st hpc hk hst =>
    have hself := List.getElem?_set_self (a := { k with stmts := k.stmts.insert query st })
      (List.getElem?_eq_some_iff.mp hk).1
    refine hs.advance ?_ ?_ (fun _ _ hg => .inl (closing_of_update (fun _ => by simp) hg)) ?_
    · intro c' k' hk'
      by_cases hc : c = c'
      · subst hc
        obtain rfl := Option.some.inj (hk.symm.trans hk')
        refine ⟨_, hself, rfl, ?_⟩
        intro _ query' st' hst'
        have hne : query' ≠ query := by
          rintro rfl
          rw [hst] at hst'
          cases hst'
        exact (AList.lookup_insert_ne hne).trans hst'
      · exact ⟨k', (List.getElem?_set_ne hc).trans hk', rfl, fun _ _ _ => id⟩
    · intro c' k' hk' hkdb
      by_cases hc : c = c'
      · subst hc
        obtain rfl := Option.some.inj (hself.symm.trans hk')
        exact hs.only c k hk hkdb
      · exact hs.only c' k' ((List.getElem?_set_ne hc).symm.trans hk') hkdb
    · exact answers_cons ⟨c, _, hself, rfl, AList.lookup_insert _⟩
  | absent => exact hs
  | @detached g db' c hpc hdb =>
    have hne : db ≠ db' := by
      rintro rfl
      exact ha g rfl
    refine hs.advance (caches_same rfl) ?_ ?_ (fun _ => .inl)
    · intro c k hk hkdb
      show Function.update s.dbCaches db' none db = some c
      rw [Function.update_of_ne hne]
      exact hs.only c k hk hkdb
    · intro g' c' hg
      replace hg : Function.update s.pcs g (.closing c) g' = .closing c' := hg
      by_cases heq : g' = g
      · rw [heq, Function.update_self] at hg
        obtain rfl := Pc.closing.inj hg
        obtain ⟨k, hk, rfl⟩ := hfits.mapped db' c hdb
        exact .inr ⟨k, hk, hne.symm⟩
      · rw [Function.update_of_ne heq] at hg
        exact .inl hg
  | @closed g c k hpc hk =>
    have hother : k.db ≠ db := by
      obtain ⟨k', hk', hkdb⟩ := hs.closing g c hpc
      obtain rfl := Option.some.inj (hk'.symm.trans hk)
      exact hkdb
    have hself := List.getElem?_set_self (a := { k with stmts := ∅ })
      (List.getElem?_eq_some_iff.mp hk).1
    refine hs.advance ?_ ?_ (fun _ _ hg => .inl (closing_of_update (fun _ => by simp) hg))
      (fun _ => .inl)
    · intro c' k' hk'
      by_cases hc : c = c'
      · subst hc
        obtain rfl := Option.some.inj (hk.symm.trans hk')
        exact ⟨_, hself, rfl, fun h => absurd h hother⟩
      · exact ⟨k', (List.getElem?_set_ne hc).trans hk', rfl, fun _ _ _ => id⟩
    · intro c' k' hk' hkdb
      by_cases hc : c = c'
      · subst hc
        obtain rfl := Option.some.inj (hself.symm.trans hk')
        exact absurd hkdb hother
      · exact hs.only c' k' ((List.getElem?_set_ne hc).symm.trans hk') hkdb

end Stays

/-- The handle that the cache of a database has for a text is the one that is returned, and it is
open. -/
theorem Stays.entry {db : Nat} {s : State} (hs : Stays db s) (howned : Owned s) {a b : Answer}
    (ha : a ∈ s.answers) (hb : b ∈ s.answers) (hadb : a.db = db) (hbdb : b.db = db)
    (hquery : a.query = b.query) : a.st = b.st ∧ a.st ∉ s.closed := by
  obtain ⟨c, k, hk, hkdb, hst⟩ := hs.answered a ha hadb
  obtain ⟨c', k', hk', hkdb', hst'⟩ := hs.answered b hb hbdb
  have hc := hs.only c k hk hkdb
  rw [hs.only c' k' hk' hkdb'] at hc
  obtain rfl := Option.some.inj hc
  obtain rfl := Option.some.inj (hk.symm.trans hk')
  refine ⟨Option.some.inj (hst.symm.trans (hquery ▸ hst')), ?_⟩
  exact (howned.open_of_held ((held_entry hk a.query).trans hst)).2

theorem run_stays {db : Nat} {actions : List Action}
    (hdb : ∀ g, Action.closeDBStmtCache g db ∉ actions) {s t : State} (hfits : Fits s)
    (hs : Stays db s) (h : Run.run step s actions = some t) : Stays db t := by
  induction actions generalizing s with
  | nil =>
    obtain rfl := Option.some.inj h
    exact hs
  | cons a actions ih =>
    obtain ⟨u, hu, hrest⟩ := Option.bind_eq_some_iff.mp h
    have ha : ∀ g, a ≠ .closeDBStmtCache g db := by
      rintro g rfl
      exact hdb g List.mem_cons_self
    exact ih (fun g hg => hdb g (List.mem_cons_of_mem a hg)) (step_fits s a u hfits hu)
      (step_stays hfits hs ha hu) hrest

/-- In whatever order goroutines call `prepare`, while no `CloseDBStmtCache` is called for a
database all of them get one open handle for one text, the concurrent ones that prepared their
own included. -/
theorem prepare_shares {db : Nat} {actions : List Action} {s : State}
    (h : Run.run step init actions = some s)
    (hdb : ∀ g, Action.closeDBStmtCache g db ∉ actions) :
    ∀ a ∈ s.answers, ∀ b ∈ s.answers, a.db = db → b.db = db → a.query = b.query →
      a.st = b.st ∧ a.st ∉ s.closed := by
  have hstays := run_stays hdb fits_init (stays_init db) h
  intro a ha b hb hadb hbdb hquery
  exact hstays.entry (run_owned h) ha hb hadb hbdb hquery

theorem prepare_shares_race : ∃ s, Run.run step init race = some s ∧ s.closed = [0] ∧
    s.answers.map Answer.st = [1, 1] ∧ ∀ a ∈ s.answers, ∀ b ∈ s.answers, a.db = 7 → b.db = 7 →
      a.query = b.query → a.st = b.st ∧ a.st ∉ s.closed := by
  refine ⟨_, rfl, rfl, rfl, ?_⟩
  have hrun : Run.run step init race = some _ := rfl
  exact prepare_shares hrun (by simp [race])

/-! ## The statements of a transaction -/

/-- What the runtime uses of a `*sql.Conn`: `W` is what statements see and change. -/
structure Driver (W A R E : Type) where
  queryContext : W → String → A → Except E R × W
  execContext : W → String → A → Except E R × W
  prepareContext : W → String → Except E Unit × W
  stmtQueryContext : W → String → A → Except E R × W
  stmtExecContext : W → String → A → Except E R × W
  /-- The handle was closed, or is none of the connection's. -/
  statementClosed : E

/-- A connection's surface for reads or for writes. -/
structure Surface (W A R E : Type) where
  direct : W → String → A → Except E R × W
  stmt : W → String → A → Except E R × W

/-- `txStmtCache`, with what the connection sees, the texts of its handles and those closed. -/
structure TxStmtCache (W : Type) where
  world : W
  seen : List String
  stmts : AList (fun _ : String => Nat)
  handles : List String
  closed : List Nat

section Tx

variable {W A R E F : Type} (d : Driver W A R E) (mapSqliteError : E → F)

def newTxStmtCache (w : W) : TxStmtCache W := ⟨w, [], ∅, [], []⟩

namespace TxStmtCache

def direct (x : Surface W A R E) (query : String) (args : A) (t : TxStmtCache W) :
    Except F R × TxStmtCache W :=
  let (out, w) := x.direct t.world query args
  (out.mapError mapSqliteError, { t with world := w })

def runStmt (x : Surface W A R E) (st : Nat) (args : A) (t : TxStmtCache W) :
    Except F R × TxStmtCache W :=
  match (t.handles[st]?).filter fun _ => !decide (st ∈ t.closed) with
  | some query =>
    let (out, w) := x.stmt t.world query args
    (out.mapError mapSqliteError, { t with world := w })
  | none => (.error (mapSqliteError d.statementClosed), t)

def prepareRepeat (query : String) (t : TxStmtCache W) : Except E (Option Nat) × TxStmtCache W :=
  if query ∈ t.seen then
    match d.prepareContext t.world query with
    | (.ok (), w) =>
      (.ok (some t.handles.length),
        { t with
          world := w
          stmts := t.stmts.insert query t.handles.length
          handles := t.handles ++ [query] })
    | (.error e, w) => (.error e, { t with world := w })
  else (.ok none, { t with seen := query :: t.seen })

/-- What `queryCached` and `execCached` do alike. -/
def cached (x : Surface W A R E) (query : String) (args : A) (t : TxStmtCache W) :
    Except F R × TxStmtCache W :=
  if cacheableStmt query then
    match t.stmts.lookup query with
    | some st => t.runStmt d mapSqliteError x st args
    | none =>
      match t.prepareRepeat d query with
      | (.ok (some st), t') => t'.runStmt d mapSqliteError x st args
      | (_, t') => t'.direct mapSqliteError x query args
  else t.direct mapSqliteError x query args

def queryCached (query : String) (args : A) (t : TxStmtCache W) : Except F R × TxStmtCache W :=
  t.cached d mapSqliteError ⟨d.queryContext, d.stmtQueryContext⟩ query args

def execCached (query : String) (args : A) (t : TxStmtCache W) : Except F R × TxStmtCache W :=
  t.cached d mapSqliteError ⟨d.execContext, d.stmtExecContext⟩ query args

def closeAll (t : TxStmtCache W) : TxStmtCache W :=
  { t with stmts := ∅, closed := t.stmts.entries.map Sigma.snd ++ t.closed }

end TxStmtCache

inductive Call (A : Type)
  | query (text : String) (args : A)
  | exec (text : String) (args : A)

def Call.text : Call A → String
  | .query text _ => text
  | .exec text _ => text

def callCached (call : Call A) (t : TxStmtCache W) : Except F R × TxStmtCache W :=
  match call with
  | .query text args => t.queryCached d mapSqliteError text args
  | .exec text args => t.execCached d mapSqliteError text args

/-- A transaction's statements, one after the other on its connection. -/
def runCached : List (Call A) → TxStmtCache W → List (Except F R) × TxStmtCache W
  | [], t => ([], t)
  | call :: calls, t =>
    let (out, t') := callCached d mapSqliteError call t
    let (outs, t₂) := runCached calls t'
    (out :: outs, t₂)

/-- A statement without a cache. -/
def callDirect (call : Call A) (w : W) : Except F R × W :=
  let (out, w') := match call with
    | .query text args => d.queryContext w text args
    | .exec text args => d.execContext w text args
  (out.mapError mapSqliteError, w')

def runDirect : List (Call A) → W → List (Except F R) × W
  | [], w => ([], w)
  | call :: calls, w =>
    let (out, w') := callDirect d mapSqliteError call w
    let (outs, w₂) := runDirect calls w'
    (out :: outs, w₂)

/-- What the cache relies on: a statement that may be prepared does under `PrepareContext` and its
handle what it does directly. -/
structure Driver.Transparent (d : Driver W A R E) : Prop where
  query : ∀ w text args, cacheableStmt text = true →
    d.stmtQueryContext w text args = d.queryContext w text args
  exec : ∀ w text args, cacheableStmt text = true →
    d.stmtExecContext w text args = d.execContext w text args
  prepare : ∀ w text, cacheableStmt text = true → (d.prepareContext w text).2 = w

/-- The cache of a transaction whose statements so far have the texts `past`. -/
structure Tracks (t : TxStmtCache W) (past : List String) : Prop where
  closed : t.closed = []
  lookup_iff : ∀ query st, t.stmts.lookup query = some st ↔ t.handles[st]? = some query
  seen : ∀ query ∈ t.seen, cacheableStmt query = true ∧ query ∈ past
  repeated : ∀ query ∈ t.handles, cacheableStmt query = true ∧ 2 ≤ past.count query

variable {d mapSqliteError} {t : TxStmtCache W} {past : List String} {x : Surface W A R E}
  {query : String} {args : A}

theorem tracks_new (w : W) : Tracks (newTxStmtCache w) [] where
  closed := rfl
  lookup_iff query st := by simp [newTxStmtCache]
  seen query h := absurd h List.not_mem_nil
  repeated query h := absurd h List.not_mem_nil

theorem Tracks.later (ht : Tracks t past) (query : String) : Tracks t (query :: past) where
  closed := ht.closed
  lookup_iff := ht.lookup_iff
  seen query' h := ⟨(ht.seen query' h).1, List.mem_cons_of_mem query (ht.seen query' h).2⟩
  repeated query' h :=
    ⟨(ht.repeated query' h).1, (ht.repeated query' h).2.trans List.count_le_count_cons⟩

theorem Tracks.world (ht : Tracks t past) (w : W) : Tracks { t with world := w } past :=
  ⟨ht.closed, ht.lookup_iff, ht.seen, ht.repeated⟩

theorem runStmt_eq (ht : Tracks t past) {st : Nat} (hst : t.handles[st]? = some query) :
    t.runStmt d mapSqliteError x st args = (((x.stmt t.world query args).1).mapError mapSqliteError,
      { t with world := (x.stmt t.world query args).2 }) := by
  have hopen : (t.handles[st]?).filter (fun _ => !decide (st ∈ t.closed)) = some query := by
    rw [hst, ht.closed]
    rfl
  rw [TxStmtCache.runStmt, hopen]

/-- The first sight of a text is noted; a repeated one is prepared and kept, or the driver
refused it. -/
inductive Prepares (d : Driver W A R E) (query : String) (t : TxStmtCache W) :
    Except E (Option Nat) × TxStmtCache W → Prop
  | first (h : query ∉ t.seen) : Prepares d query t (.ok none, { t with seen := query :: t.seen })
  | kept (h : query ∈ t.seen) : Prepares d query t (.ok (some t.handles.length),
      { t with
        world := (d.prepareContext t.world query).2
        stmts := t.stmts.insert query t.handles.length
        handles := t.handles ++ [query] })
  | refused (e : E) (h : query ∈ t.seen) (he : (d.prepareContext t.world query).1 = .error e) :
      Prepares d query t (.error e, { t with world := (d.prepareContext t.world query).2 })

theorem prepareRepeat_prepares (d : Driver W A R E) (query : String) (t : TxStmtCache W) :
    Prepares d query t (t.prepareRepeat d query) := by
  unfold TxStmtCache.prepareRepeat
  split
  · next hseen =>
    rcases hprepare : d.prepareContext t.world query with ⟨e | done, w⟩
    · have hrefused := Prepares.refused e hseen (congrArg Prod.fst hprepare)
      rw [hprepare] at hrefused
      exact hrefused
    · have hkept := Prepares.kept (d := d) hseen
      rw [hprepare] at hkept
      exact hkept
  · next hseen => exact .first hseen

theorem Tracks.first (ht : Tracks t past) (hquery : cacheableStmt query = true) :
    Tracks { t with seen := query :: t.seen } (query :: past) where
  closed := ht.closed
  lookup_iff := ht.lookup_iff
  seen query' h := by
    rcases List.mem_cons.mp h with rfl | h
    · exact ⟨hquery, List.mem_cons_self⟩
    · exact (ht.later query).seen query' h
  repeated := (ht.later query).repeated

theorem Tracks.kept (ht : Tracks t past) (hquery : cacheableStmt query = true)
    (hseen : query ∈ t.seen) (hnone : t.stmts.lookup query = none) (w : W) :
    Tracks { t with
      world := w
      stmts := t.stmts.insert query t.handles.length
      handles := t.handles ++ [query] } (query :: past) where
  closed := ht.closed
  lookup_iff query' st := by
    have hfresh : ∀ i : Nat, t.handles[i]? ≠ some query := by
      intro i hi
      rw [(ht.lookup_iff query i).mpr hi] at hnone
      cases hnone
    by_cases hq : query' = query
    · subst hq
      rw [AList.lookup_insert, List.getElem?_append]
      split
      · next hlt =>
        constructor
        · rintro h
          obtain rfl := Option.some.inj h
          exact absurd hlt (Nat.lt_irrefl _)
        · intro h
          exact absurd h (hfresh st)
      · next hlt =>
        rw [List.getElem?_singleton]
        constructor
        · intro h
          obtain rfl := Option.some.inj h
          rw [if_pos (Nat.sub_self _)]
        · intro h
          split at h
          · next h0 => exact congrArg some (by omega)
          · cases h
    · rw [AList.lookup_insert_ne hq, ht.lookup_iff, List.getElem?_append]
      split
      · rfl
      · next hlt =>
        rw [List.getElem?_eq_none (Nat.le_of_not_lt hlt), List.getElem?_singleton]
        constructor
        · intro h
          cases h
        · intro h
          split at h
          · exact absurd (Option.some.inj h).symm hq
          · cases h
  seen := (ht.later query).seen
  repeated query' h := by
    rcases List.mem_append.mp h with h | h
    · exact (ht.later query).repeated query' h
    · obtain rfl := List.mem_singleton.mp h
      have hpast := List.one_le_count_iff.mpr (ht.seen query' hseen).2
      exact ⟨hquery, by rw [List.count_cons_self]; omega⟩

theorem cached_tracks (ht : Tracks t past) (x : Surface W A R E) (query : String) (args : A) :
    Tracks (t.cached d mapSqliteError x query args).2 (query :: past) := by
  unfold TxStmtCache.cached
  split
  · next hquery =>
    split
    · next st hst =>
      rw [runStmt_eq ht ((ht.lookup_iff query st).mp hst)]
      exact (ht.later query).world _
    · next hnone =>
      rcases hprepare : t.prepareRepeat d query with ⟨r, t'⟩
      have hcases := prepareRepeat_prepares d query t
      rw [hprepare] at hcases
      cases hcases with
      | first hseen => exact (ht.first hquery).world _
      | kept hseen =>
        have hkept := ht.kept hquery hseen hnone (d.prepareContext t.world query).2
        dsimp only
        rw [runStmt_eq hkept List.getElem?_concat_length]
        exact hkept.world _
      | refused e hseen he => exact ((ht.later query).world _).world _
  · exact (ht.later query).world _

/-- A statement with the cache: what it returns and leaves is what it does directly. -/
theorem cached_direct (ht : Tracks t past)
    (hx : ∀ w, cacheableStmt query = true → x.stmt w query args = x.direct w query args)
    (hprepare : ∀ w, cacheableStmt query = true → (d.prepareContext w query).2 = w) :
    (t.cached d mapSqliteError x query args).1 =
        ((x.direct t.world query args).1).mapError mapSqliteError ∧
      (t.cached d mapSqliteError x query args).2.world = (x.direct t.world query args).2 := by
  unfold TxStmtCache.cached
  split
  · next hquery =>
    split
    · next st hst =>
      rw [runStmt_eq ht ((ht.lookup_iff query st).mp hst), hx _ hquery]
      exact ⟨rfl, rfl⟩
    · next hnone =>
      rcases hrepeat : t.prepareRepeat d query with ⟨r, t'⟩
      have hcases := prepareRepeat_prepares d query t
      rw [hrepeat] at hcases
      cases hcases with
      | first hseen => exact ⟨rfl, rfl⟩
      | kept hseen =>
        have hkept := ht.kept hquery hseen hnone (d.prepareContext t.world query).2
        dsimp only
        rw [runStmt_eq hkept List.getElem?_concat_length, hx _ hquery, hprepare _ hquery]
        exact ⟨rfl, rfl⟩
      | refused e hseen he =>
        dsimp only [TxStmtCache.direct]
        rw [hprepare _ hquery]
        exact ⟨rfl, rfl⟩
  · exact ⟨rfl, rfl⟩

theorem callCached_tracks (d : Driver W A R E) (mapSqliteError : E → F) (ht : Tracks t past)
    (call : Call A) : Tracks (callCached d mapSqliteError call t).2 (call.text :: past) := by
  cases call with
  | query text args => exact cached_tracks ht _ text args
  | exec text args => exact cached_tracks ht _ text args

theorem callCached_direct (hd : d.Transparent) (ht : Tracks t past) (call : Call A) :
    (callCached d mapSqliteError call t).1 = (callDirect d mapSqliteError call t.world).1 ∧
      (callCached d mapSqliteError call t).2.world =
        (callDirect d mapSqliteError call t.world).2 := by
  cases call with
  | query text args =>
    exact cached_direct ht (fun w => hd.query w text args) fun w => hd.prepare w text
  | exec text args =>
    exact cached_direct ht (fun w => hd.exec w text args) fun w => hd.prepare w text

theorem runCached_tracks (d : Driver W A R E) (mapSqliteError : E → F) (ht : Tracks t past)
    (calls : List (Call A)) :
    Tracks (runCached d mapSqliteError calls t).2 ((calls.map Call.text).reverse ++ past) := by
  induction calls generalizing t past with
  | nil => exact ht
  | cons call calls ih =>
    rw [runCached, List.map_cons, List.reverse_cons, List.append_assoc]
    exact ih (callCached_tracks d mapSqliteError ht call)

theorem runCached_of_tracks (hd : d.Transparent) (calls : List (Call A)) (ht : Tracks t past) :
    (runCached d mapSqliteError calls t).1 = (runDirect d mapSqliteError calls t.world).1 ∧
      (runCached d mapSqliteError calls t).2.world =
        (runDirect d mapSqliteError calls t.world).2 := by
  induction calls generalizing t past with
  | nil => exact ⟨rfl, rfl⟩
  | cons call calls ih =>
    obtain ⟨hout, hworld⟩ := callCached_direct (F := F) hd ht call
    obtain ⟨houts, hend⟩ := ih (callCached_tracks d mapSqliteError ht call)
    rw [hworld] at houts hend
    simp only [runCached, runDirect, hout, houts, hend, and_self]

/-- The results of a transaction's statements and what they leave are those of running each of
them directly, whichever of them the cache prepared. -/
theorem runCached_direct (d : Driver W A R E) (mapSqliteError : E → F) (hd : d.Transparent)
    (calls : List (Call A)) (w : W) :
    (runCached d mapSqliteError calls (newTxStmtCache w)).1 =
        (runDirect d mapSqliteError calls w).1 ∧
      (runCached d mapSqliteError calls (newTxStmtCache w)).2.world =
        (runDirect d mapSqliteError calls w).2 :=
  runCached_of_tracks hd calls (tracks_new w)

theorem Tracks.balanced (ht : Tracks t past) :
    Ledger.Balanced t.handles.length t.closed fun query => t.stmts.lookup query where
  held_iff st := by
    rw [ht.closed]
    constructor
    · rintro ⟨query, hst⟩
      have hlt := List.getElem?_eq_some_iff.mp ((ht.lookup_iff query st).mp hst)
      exact ⟨hlt.1, List.not_mem_nil⟩
    · rintro ⟨hlt, -⟩
      exact ⟨t.handles[st], (ht.lookup_iff _ st).mpr (List.getElem?_eq_getElem hlt)⟩
  once query query' st h h' := by
    rw [ht.lookup_iff] at h h'
    exact Option.some.inj (h.symm.trans h')
  made st h := by
    rw [ht.closed] at h
    exact absurd h List.not_mem_nil
  nodup := by
    rw [ht.closed]
    exact List.nodup_nil

theorem Tracks.handles_nodup (ht : Tracks t past) : t.handles.Nodup := by
  rw [List.nodup_iff_getElem?_ne_getElem?]
  intro i j hij hj heq
  have hi := (ht.lookup_iff _ i).mpr (heq.trans (List.getElem?_eq_getElem hj))
  have hj' := (ht.lookup_iff _ j).mpr (List.getElem?_eq_getElem hj)
  exact hij.ne (Option.some.inj (hi.symm.trans hj'))

theorem closeAll_balanced (ht : Tracks t past) :
    Ledger.Balanced t.closeAll.handles.length t.closeAll.closed fun _ : String => none := by
  have hsnd : (t.stmts.entries.map fun e => (e.1, e.2)).map Prod.snd =
      t.stmts.entries.map Sigma.snd := by
    rw [List.map_map]
    rfl
  have hfst : (t.stmts.entries.map fun e => (e.1, e.2)).map Prod.fst = t.stmts.keys := by
    rw [List.map_map]
    rfl
  have hnodup : ((t.stmts.entries.map fun e => (e.1, e.2)).map Prod.fst).Nodup := by
    rw [hfst]
    exact t.stmts.keys_nodup
  have hheld : ∀ e ∈ t.stmts.entries.map fun e => (e.1, e.2), t.stmts.lookup e.1 = some e.2 := by
    intro e he
    obtain ⟨entry, hentry, rfl⟩ := List.mem_map.mp he
    exact AList.mem_lookup_iff.mpr hentry
  have hnone : (fun query => if query ∈ (t.stmts.entries.map fun e => (e.1, e.2)).map Prod.fst
      then none else t.stmts.lookup query) = fun _ : String => none := by
    funext query
    split
    · rfl
    · next h =>
      rw [hfst] at h
      exact AList.lookup_eq_none.mpr h
  have hclose := ht.balanced.close hnodup hheld
  rw [hsnd, hnone] at hclose
  exact hclose

/-- At the end of a transaction all handles of its connection are closed, each of them once; no
text was prepared twice, and what was prepared may be and had come twice. -/
theorem txHandles_closed (d : Driver W A R E) (mapSqliteError : E → F) (calls : List (Call A))
    (w : W) :
    let t := (runCached d mapSqliteError calls (newTxStmtCache w)).2.closeAll
    (∀ st, st ∈ t.closed ↔ st < t.handles.length) ∧ t.closed.Nodup ∧ t.handles.Nodup ∧
      ∀ query ∈ t.handles, cacheableStmt query = true ∧ 2 ≤ (calls.map Call.text).count query := by
  intro t
  have ht := runCached_tracks d mapSqliteError (tracks_new w) calls
  have hbalanced := closeAll_balanced ht
  refine ⟨hbalanced.all_closed, hbalanced.nodup, ht.handles_nodup, ?_⟩
  intro query hquery
  have hrepeated := ht.repeated query hquery
  rw [List.append_nil, List.count_reverse] at hrepeated
  exact hrepeated

/-- Where the driver refuses nothing, what came is noted and what came twice is prepared. -/
structure Complete (t : TxStmtCache W) (past : List String) : Prop where
  seen : ∀ query ∈ past, cacheableStmt query = true → query ∈ t.seen
  prepared : ∀ query, cacheableStmt query = true → 2 ≤ past.count query → query ∈ t.handles

theorem Complete.add {t' : TxStmtCache W} (hc : Complete t past) (hseen : t.seen ⊆ t'.seen)
    (hhandles : t.handles ⊆ t'.handles) (hnow : cacheableStmt query = true → query ∈ t'.seen)
    (hagain : cacheableStmt query = true → query ∈ past → query ∈ t'.handles) :
    Complete t' (query :: past) where
  seen query' h hquery := by
    rcases List.mem_cons.mp h with rfl | h
    · exact hnow hquery
    · exact hseen (hc.seen query' h hquery)
  prepared query' hquery h := by
    by_cases heq : query = query'
    · subst heq
      rw [List.count_cons_self] at h
      exact hagain hquery (List.one_le_count_iff.mp (by omega))
    · rw [List.count_cons_of_ne heq] at h
      exact hhandles (hc.prepared query' hquery h)

theorem cached_complete (hok : ∀ w text, (d.prepareContext w text).1 = .ok ())
    (ht : Tracks t past) (hc : Complete t past) (x : Surface W A R E) (query : String) (args : A) :
    Complete (t.cached d mapSqliteError x query args).2 (query :: past) := by
  unfold TxStmtCache.cached
  split
  · next hquery =>
    split
    · next st hst =>
      have hmem : query ∈ t.handles := List.mem_of_getElem? ((ht.lookup_iff query st).mp hst)
      have hcount := (ht.repeated query hmem).2
      have hpast : query ∈ past := List.one_le_count_iff.mp (by omega)
      rw [runStmt_eq ht ((ht.lookup_iff query st).mp hst)]
      exact hc.add (fun _ => id) (fun _ => id) (hc.seen query hpast) (fun _ _ => hmem)
    · next hnone =>
      rcases hrepeat : t.prepareRepeat d query with ⟨r, t'⟩
      have hcases := prepareRepeat_prepares d query t
      rw [hrepeat] at hcases
      cases hcases with
      | first hseen =>
        exact hc.add (List.subset_cons_self query t.seen) (fun _ => id)
          (fun _ => List.mem_cons_self) (fun _ hpast => absurd (hc.seen query hpast hquery) hseen)
      | kept hseen =>
        have hkept := ht.kept hquery hseen hnone (d.prepareContext t.world query).2
        dsimp only
        rw [runStmt_eq hkept List.getElem?_concat_length]
        exact hc.add (fun _ => id) (List.subset_append_left ..) (fun _ => hseen)
          (fun _ _ => List.mem_append_right _ (List.mem_singleton_self query))
      | refused e hseen he =>
        rw [hok] at he
        cases he
  · next hquery =>
    exact hc.add (fun _ => id) (fun _ => id) (fun h => absurd h hquery) (fun h => absurd h hquery)

theorem runCached_complete (mapSqliteError : E → F)
    (hok : ∀ w text, (d.prepareContext w text).1 = .ok ()) (ht : Tracks t past)
    (hc : Complete t past) (calls : List (Call A)) :
    Complete (runCached d mapSqliteError calls t).2 ((calls.map Call.text).reverse ++ past) := by
  induction calls generalizing t past with
  | nil => exact hc
  | cons call calls ih =>
    rw [runCached, List.map_cons, List.reverse_cons, List.append_assoc]
    refine ih (callCached_tracks d mapSqliteError ht call) ?_
    cases call with
    | query text args => exact cached_complete hok ht hc _ text args
    | exec text args => exact cached_complete hok ht hc _ text args

/-- A driver that refuses no text gets a `PrepareContext` for exactly those that may be prepared
and come again. -/
theorem prepared_iff_repeated (d : Driver W A R E) (mapSqliteError : E → F)
    (hok : ∀ w text, (d.prepareContext w text).1 = .ok ()) (calls : List (Call A)) (w : W)
    (query : String) :
    query ∈ (runCached d mapSqliteError calls (newTxStmtCache w)).2.handles ↔
      cacheableStmt query = true ∧ 2 ≤ (calls.map Call.text).count query := by
  have ht := runCached_tracks d mapSqliteError (tracks_new w) calls
  have hnew : Complete (newTxStmtCache w) [] :=
    ⟨fun query h => absurd h List.not_mem_nil, fun query _ h => absurd h (by simp)⟩
  have hc := runCached_complete mapSqliteError hok (tracks_new w) hnew calls
  rw [List.append_nil] at ht hc
  constructor
  · intro hquery
    have hrepeated := ht.repeated query hquery
    rw [List.count_reverse] at hrepeated
    exact hrepeated
  · rintro ⟨hquery, hcount⟩
    rw [← List.count_reverse] at hcount
    exact hc.prepared query hquery hcount

end Tx

/-- A driver that emulates `RETURNING` on its connection and not for a prepared handle. -/
def mysql : Driver (List Nat) Nat (List Nat) String where
  queryContext w _ _ := (.ok w, w)
  execContext w _ row := (.ok [row], w ++ [row])
  prepareContext w _ := (.ok (), w)
  stmtQueryContext w _ _ := (.ok w, w)
  stmtExecContext w text row :=
    if cacheableStmt text then (.ok [row], w ++ [row]) else (.error "near RETURNING", w)
  statementClosed := "sql: statement is closed"

theorem mysql_transparent : mysql.Transparent where
  query _ _ _ _ := rfl
  exec _ _ _ h := if_pos h
  prepare _ _ _ := rfl

def inserts : List (Call Nat) :=
  [.exec "INSERT INTO t VALUES (?)" 1, .exec "INSERT INTO t VALUES (?)" 2,
    .exec "INSERT INTO t VALUES (?) RETURNING id" 3,
    .exec "INSERT INTO t VALUES (?) RETURNING id" 4, .query "SELECT id FROM t" 0]

theorem runCached_direct_inserts :
    (runCached mysql id inserts (newTxStmtCache [])).1 = (runDirect mysql id inserts []).1 ∧
      (runCached mysql id inserts (newTxStmtCache [])).2.world =
        (runDirect mysql id inserts []).2 :=
  runCached_direct mysql id mysql_transparent inserts []

theorem prepared_iff_repeated_inserts : "INSERT INTO t VALUES (?)" ∈
    (runCached mysql id inserts (newTxStmtCache [])).2.handles :=
  (prepared_iff_repeated mysql id (fun _ _ => rfl) inserts [] _).mpr (by decide)

end LiteDb.GoStatements
