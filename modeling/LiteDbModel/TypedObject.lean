import LiteDbModel.RelationSurfaces

/-!
# Typed objects

A page of rows with a getter for each relation that was not selected. The rows share a context that
keeps the batch of a relation once it is loaded; a selected relation is a property of its own.
-/

namespace LiteDb.TypedObject
set_option autoImplicit false

/-! ## Records -/

/-- A record's entries hold a key once. -/
abbrev Record (α : Type) := { entries : List (String × α) // (Props.keys entries).Nodup }

/-- The options of a read: the relations of `with`, in order, and a factory of host objects. -/
structure ReadOptions where
  selected : { names : List String // names.Nodup }
  hydrate : Option (Obj → JsVal)

/-! ## The page -/

/-- The typed objects, the getters of their prototype, and the shared context: its batches, and the
relations for which a statement was sent, in order. -/
structure Page where
  rows : List Obj
  getters : List (String × RelationOp)
  resolved : List (String × ByKey) := []
  sent : List String := []

def hydrated (hydrate : Option (Obj → JsVal)) (o : Obj) : JsVal :=
  match hydrate with
  | none => .obj o.cols
  | some f => f o

/-- A `null` is left alone. -/
def applyHydrate (hydrate : Option (Obj → JsVal)) : Attached → JsVal
  | .many rows => .arr (rows.map (hydrated hydrate))
  | .one none => .null
  | .one (some row) => hydrated hydrate row

section Page
variable {σ : Type} (H : Host) (run : ReadSeam σ) (st : σ) (ops : Record RelationOp)
  (options : ReadOptions)

/-- The relations that stay on the prototype. -/
def lazyOps : List (String × RelationOp) :=
  ops.1.filter fun p => p.1 ∉ options.selected.1

/-- `o[k] = v` on an object whose prototype has getters only. -/
def assign (getters : List (String × RelationOp)) (cols : List (String × JsVal))
    (c : String × JsVal) : Except String (List (String × JsVal)) :=
  if c.1 ∈ Props.keys getters then
    .error ("Cannot set property " ++ c.1 ++ " of #<Object> which has only a getter")
  else .ok (Props.set cols c.1 c.2)

/-- The objects with the columns of the raw rows. -/
def copyRows (getters : List (String × RelationOp)) (rawRows : List (List (String × JsVal))) :
    Except String (List Obj) :=
  (rawRows.mapM fun raw => List.foldlM (assign getters) [] raw).map fetched

/-- The context after a relation's batch: without keys there was no statement. -/
def Page.sending (page : Page) (name : String) (op : RelationOp) : Page :=
  if (relationKeys H op page.rows).isEmpty then page else { page with sent := page.sent ++ [name] }

def relationValue (op : RelationOp) (batch : ByKey) (o : Obj) : JsVal :=
  applyHydrate options.hydrate (distributeToParent H op o batch)

/-- A selected relation is loaded and attached to every row. -/
def attachSelected (page : Page) (name : String) : Except String Page :=
  match Props.get ops.1 name with
  | none => .error ("declarative select: relation '" ++ name ++ "' is not declared on this model")
  | some op =>
    (runRelationOp H run st op page.rows).map fun batch =>
      { page.sending H name op with rows := page.rows.map fun o =>
        { o with cols := Props.set o.cols name (relationValue H options op batch o) } }

def buildResultSet (rawRows : List (List (String × JsVal))) : Except String Page := do
  let rows ← copyRows (lazyOps ops options) rawRows
  options.selected.1.foldlM (attachSelected H run st ops options)
    { rows := rows, getters := lazyOps ops options }

/-- `RelationContext.resolve` -/
def Page.resolve (page : Page) (name : String) (op : RelationOp) (o : Obj) :
    Except String JsVal × Page :=
  match Props.get page.resolved name with
  | some batch => (.ok (relationValue H options op batch o), page)
  | none =>
    let page := page.sending H name op
    match runRelationOp H run st op page.rows with
    | .error e => (.error e, page)
    | .ok batch => (.ok (relationValue H options op batch o),
        { page with resolved := page.resolved ++ [(name, batch)] })

/-- A property of a row, awaited: one of its own, or a getter of the prototype. -/
structure Access where
  row : Nat
  name : String

def Page.access (page : Page) (a : Access) : Except String JsVal × Page :=
  match page.rows[a.row]? with
  | none => (.ok .undefined, page)
  | some o =>
    match Props.get o.cols a.name with
    | some v => (.ok v, page)
    | none =>
      match Props.get page.getters a.name with
      | some op => page.resolve H run st options a.name op o
      | none => (.ok .undefined, page)

def Page.accesses (page : Page) : List Access → List (Except String JsVal) × Page
  | [] => ([], page)
  | a :: rest =>
    let (v, page) := page.access H run st options a
    let (vs, page) := Page.accesses page rest
    (v :: vs, page)

end Page

/-! ## What a page promises -/

section Promise
variable {σ : Type} (H : Host) (run : ReadSeam σ) (st : σ) (ops : Record RelationOp)
  (options : ReadOptions) (rawRows : List (List (String × JsVal)))

/-- The rows by themselves. -/
def plainRows : List Obj := fetched (rawRows.map Props.ofEntries)

/-- The value of a property: of a relation, what its batch over the plain rows gives the row. -/
def valueOf (a : Access) : Except String JsVal :=
  match (plainRows rawRows)[a.row]? with
  | none => .ok .undefined
  | some o =>
    match Props.get ops.1 a.name with
    | some op => (runRelationOp H run st op (plainRows rawRows)).map fun batch =>
        relationValue H options op batch o
    | none => .ok (o.get a.name)

/-- The page is built, every access reads the property's value, and no relation is sent twice. -/
def SameGraph (accesses : List Access) : Prop :=
  ∃ page, buildResultSet H run st ops options rawRows = .ok page ∧
    (page.accesses H run st options accesses).1 =
      accesses.map (valueOf H run st ops options rawRows) ∧
    ∀ name, (page.accesses H run st options accesses).2.sent.count name ≤ 1

/-- No relation is named like a key column or `__proto__`, a relation that stays lazy is named like
no column, and one that cannot be loaded is not selected and is read at most once. -/
structure Loadable (accesses : List Access) : Prop where
  declared : ∀ name ∈ options.selected.1, name ∈ Props.keys ops.1
  plain : "__proto__" ∉ Props.keys ops.1
  keysFree : ∀ p ∈ ops.1, ∀ col ∈ parentKeyCols p.2, col ∉ Props.keys ops.1
  columnsFree : ∀ raw ∈ rawRows, ∀ c ∈ raw, c.1 ∉ Props.keys (lazyOps ops options)
  loads : ∀ name op, Props.get ops.1 name = some op →
    (∃ batch, runRelationOp H run st op (plainRows rawRows) = .ok batch) ∨
      name ∉ options.selected.1 ∧ (accesses.filter fun a => a.name = name).length ≤ 1

end Promise

/-! ## Batches read key columns only -/

section Congr
variable {σ : Type} {H : Host} {run : ReadSeam σ} {st : σ} {op : RelationOp} {rows rows' : List Obj}

theorem dedupe_congr {cols : List String}
    (h : List.Forall₂ (fun o o' : Obj => o'.tuple cols = o.tuple cols) rows rows') :
    dedupeKeyTuples H rows' cols = dedupeKeyTuples H rows cols := by
  have hmap : rows'.map (fun o => o.tuple cols) = rows.map fun o => o.tuple cols := by
    induction h with
    | nil => rfl
    | cons ho _ ih => rw [List.map_cons, List.map_cons, ho, ih]
  rw [dedupeKeyTuples_eq, dedupeKeyTuples_eq, fullTuples, hmap, fullTuples]

theorem runRelationOp_congr
    (h : List.Forall₂ (fun o o' : Obj => o'.tuple (parentKeyCols op) = o.tuple (parentKeyCols op))
      rows rows') :
    runRelationOp H run st op rows' = runRelationOp H run st op rows ∧
      relationKeys H op rows' = relationKeys H op rows := by
  have hkeys := dedupe_congr (H := H) h
  exact ⟨by rw [runRelationOp, runRelationOp, hkeys], hkeys⟩

theorem relationValue_congr {options : ReadOptions} {o o' : Obj} (batch : ByKey)
    (h : o'.tuple (parentKeyCols op) = o.tuple (parentKeyCols op)) :
    relationValue H options op batch o' = relationValue H options op batch o := by
  rw [relationValue, relationValue, distributeToParent, distributeToParent, attachToParent,
    attachToParent, h]

end Congr

/-! ## The page as it is built -/

section Built
variable {σ : Type} {H : Host} {run : ReadSeam σ} {st : σ} {ops : Record RelationOp}
  {options : ReadOptions} {rawRows : List (List (String × JsVal))}

/-- A row of the page: the plain row, with the values of the relations that are attached. -/
def Holds (H : Host) (run : ReadSeam σ) (st : σ) (ops : Record RelationOp) (options : ReadOptions)
    (rawRows : List (List (String × JsVal))) (done : List String) (o o' : Obj) : Prop :=
  (∀ col, col ∉ done → Props.get o'.cols col = Props.get o.cols col) ∧
    ∀ name ∈ done, ∃ op batch, Props.get ops.1 name = some op ∧
      runRelationOp H run st op (plainRows rawRows) = .ok batch ∧
      Props.get o'.cols name = some (relationValue H options op batch o)

/-- Every row holds what it should, and the batches that are kept are the relations' own. -/
structure Sound (H : Host) (run : ReadSeam σ) (st : σ) (ops : Record RelationOp)
    (options : ReadOptions) (rawRows : List (List (String × JsVal))) (done : List String)
    (page : Page) : Prop where
  rows : List.Forall₂ (Holds H run st ops options rawRows done) (plainRows rawRows) page.rows
  getters : page.getters = lazyOps ops options
  resolved : ∀ name batch, Props.get page.resolved name = some batch →
    ∃ op, Props.get ops.1 name = some op ∧ runRelationOp H run st op (plainRows rawRows) = .ok batch

theorem foldlM_assign {getters : List (String × RelationOp)} {raw : List (String × JsVal)}
    (h : ∀ c ∈ raw, c.1 ∉ Props.keys getters) (acc : List (String × JsVal)) :
    List.foldlM (assign getters) acc raw =
      .ok (raw.foldl (fun acc p => Props.set acc p.1 p.2) acc) := by
  induction raw generalizing acc with
  | nil => rfl
  | cons c raw ih =>
    have hc : assign getters acc c = .ok (Props.set acc c.1 c.2) :=
      if_neg (h c List.mem_cons_self)
    rw [List.foldlM_cons, hc, List.foldl_cons]
    exact ih (fun c hc => h c (List.mem_cons_of_mem _ hc)) _

theorem mapM_of_ok {α β : Type} {f : α → Except String β} {g : α → β} {xs : List α}
    (h : ∀ x ∈ xs, f x = .ok (g x)) : xs.mapM f = .ok (xs.map g) := by
  induction xs with
  | nil => rfl
  | cons x xs ih =>
    rw [List.mapM_cons, h x List.mem_cons_self, ih fun x hx => h x (List.mem_cons_of_mem _ hx)]
    rfl

/-- Without a column of a lazy relation's name the rows are copied. -/
theorem copyRows_ok
    (h : ∀ raw ∈ rawRows, ∀ c ∈ raw, c.1 ∉ Props.keys (lazyOps ops options)) :
    copyRows (lazyOps ops options) rawRows = .ok (plainRows rawRows) := by
  rw [copyRows, mapM_of_ok fun raw hraw => foldlM_assign (h raw hraw) []]
  rfl

section Keys
variable (hkeys : ∀ p ∈ ops.1, ∀ col ∈ parentKeyCols p.2, col ∉ Props.keys ops.1)
  {done : List String} (hdone : ∀ name ∈ done, name ∈ Props.keys ops.1)
include hkeys hdone

theorem Holds.tuple {o o' : Obj} (h : Holds H run st ops options rawRows done o o') {name : String}
    {op : RelationOp} (hop : Props.get ops.1 name = some op) :
    o'.tuple (parentKeyCols op) = o.tuple (parentKeyCols op) := by
  apply List.map_congr_left
  intro col hcol
  rw [Obj.get, Obj.get, h.1 col fun hmem => hkeys _ (Props.mem_of_get hop) col hcol (hdone col hmem)]

theorem Sound.batch {page : Page} (h : Sound H run st ops options rawRows done page)
    {name : String} {op : RelationOp} (hop : Props.get ops.1 name = some op) :
    runRelationOp H run st op page.rows = runRelationOp H run st op (plainRows rawRows) :=
  (runRelationOp_congr (h.rows.imp fun _ _ ho => ho.tuple hkeys hdone hop)).1

end Keys

end Built

section Run
variable {σ : Type} {H : Host} {run : ReadSeam σ} {st : σ} {ops : Record RelationOp}
  {options : ReadOptions} {rawRows : List (List (String × JsVal))} {accesses : List Access}

theorem sending_eq (page : Page) (name : String) (op : RelationOp) :
    (page.sending H name op).rows = page.rows ∧ (page.sending H name op).getters = page.getters ∧
      (page.sending H name op).resolved = page.resolved := by
  unfold Page.sending
  split <;> exact ⟨rfl, rfl, rfl⟩

theorem count_sending (page : Page) (name : String) (op : RelationOp) (n : String) :
    (page.sending H name op).sent.count n ≤ page.sent.count n + if n = name then 1 else 0 := by
  unfold Page.sending
  split
  · omega
  · rw [List.count_append]
    split
    · next h => simp [h]
    · next h => simp [Ne.symm h]

/-- A row with one more relation attached. -/
theorem Holds.attach {done : List String} {o o' : Obj} {name : String} {op : RelationOp}
    {batch : ByKey} (h : Holds H run st ops options rawRows done o o') (hproto : name ≠ "__proto__")
    (hop : Props.get ops.1 name = some op)
    (hbatch : runRelationOp H run st op (plainRows rawRows) = .ok batch) {v : JsVal}
    (hv : v = relationValue H options op batch o) :
    Holds H run st ops options rawRows (done ++ [name]) o
      { o' with cols := Props.set o'.cols name v } := by
  constructor
  · intro col hcol
    rw [List.mem_append, not_or, List.mem_singleton] at hcol
    rw [Props.get_set hproto, if_neg hcol.2]
    exact h.1 col hcol.1
  · intro n hn
    by_cases heq : n = name
    · subst heq
      exact ⟨op, batch, hop, hbatch, by rw [Props.get_set hproto, if_pos rfl, hv]⟩
    · have hn' : n ∈ done := by
        rcases List.mem_append.mp hn with hn | hn
        · exact hn
        · exact absurd (List.mem_singleton.mp hn) heq
      obtain ⟨op', batch', hop', hbatch', hget⟩ := h.2 n hn'
      exact ⟨op', batch', hop', hbatch', by rw [Props.get_set hproto, if_neg heq, hget]⟩

/-- Attaching a relation that loads leaves the page sound and sends its statement at most once. -/
theorem attachSelected_sound {done : List String} {page : Page} {name : String}
    (hl : Loadable H run st ops options rawRows accesses)
    (hdone : ∀ name ∈ done, name ∈ Props.keys ops.1) (hname : name ∈ options.selected.1)
    (h : Sound H run st ops options rawRows done page) :
    ∃ page', attachSelected H run st ops options page name = .ok page' ∧
      Sound H run st ops options rawRows (done ++ [name]) page' ∧
      ∀ n, page'.sent.count n ≤ page.sent.count n + if n = name then 1 else 0 := by
  obtain ⟨op, hop⟩ := Props.exists_get (hl.declared name hname)
  have hproto : name ≠ "__proto__" := by
    rintro rfl
    exact hl.plain (hl.declared _ hname)
  obtain ⟨batch, hbatch⟩ : ∃ batch, runRelationOp H run st op (plainRows rawRows) = .ok batch :=
    (hl.loads name op hop).resolve_right fun hno => hno.1 hname
  have hrun := (h.batch hl.keysFree hdone hop).trans hbatch
  obtain ⟨hrows, hgetters, hresolved⟩ := sending_eq (H := H) page name op
  refine ⟨{ page.sending H name op with rows := page.rows.map fun o =>
      { o with cols := Props.set o.cols name (relationValue H options op batch o) } }, ?_, ?_, ?_⟩
  · rw [attachSelected, hop]
    simp only [hrun]
    rfl
  · refine ⟨?_, hgetters.trans h.getters, ?_⟩
    · rw [List.forall₂_map_right_iff]
      refine h.rows.imp fun o o' ho => ?_
      exact ho.attach hproto hop hbatch (relationValue_congr batch (ho.tuple hl.keysFree hdone hop))
    · intro n b hget
      exact h.resolved n b (hresolved ▸ hget)
  · exact count_sending page name op

/-- Attaching the selected relations leaves the page sound, each sent at most once. -/
theorem foldlM_attachSelected {names done : List String} {page : Page}
    (hl : Loadable H run st ops options rawRows accesses)
    (hdone : ∀ name ∈ done, name ∈ Props.keys ops.1)
    (hnames : ∀ name ∈ names, name ∈ options.selected.1) (hnodup : names.Nodup)
    (h : Sound H run st ops options rawRows done page) :
    ∃ page', List.foldlM (attachSelected H run st ops options) page names = .ok page' ∧
      Sound H run st ops options rawRows (done ++ names) page' ∧
      ∀ n, page'.sent.count n ≤ page.sent.count n + if n ∈ names then 1 else 0 := by
  induction names generalizing done page with
  | nil => exact ⟨page, rfl, by rwa [List.append_nil], by simp⟩
  | cons name names ih =>
    obtain ⟨hnot, hrest⟩ := List.nodup_cons.mp hnodup
    have hname := hnames name List.mem_cons_self
    obtain ⟨page₁, hattach, hsound, hcount⟩ := attachSelected_sound hl hdone hname h
    have hdone₁ : ∀ n ∈ done ++ [name], n ∈ Props.keys ops.1 := by
      intro n hn
      rcases List.mem_append.mp hn with hn | hn
      · exact hdone n hn
      · rw [List.mem_singleton.mp hn]
        exact hl.declared name hname
    obtain ⟨page', hfold, hsound', hcount'⟩ :=
      ih hdone₁ (fun n hn => hnames n (List.mem_cons_of_mem _ hn)) hrest hsound
    refine ⟨page', ?_, by simpa using hsound', ?_⟩
    · rw [List.foldlM_cons, hattach]
      exact hfold
    · intro n
      have h₁ := hcount n
      have h₂ := hcount' n
      by_cases heq : n = name
      · subst heq
        rw [if_neg hnot] at h₂
        rw [if_pos rfl] at h₁
        rw [if_pos List.mem_cons_self]
        omega
      · rw [if_neg heq] at h₁
        have hmem : n ∈ name :: names ↔ n ∈ names := by simp [heq]
        rw [if_congr hmem rfl rfl]
        omega

/-- The page is built, and a statement was sent at most for each selected relation. -/
theorem buildResultSet_sound (hl : Loadable H run st ops options rawRows accesses) :
    ∃ page, buildResultSet H run st ops options rawRows = .ok page ∧
      Sound H run st ops options rawRows options.selected.1 page ∧
      ∀ n, page.sent.count n ≤ if n ∈ options.selected.1 then 1 else 0 := by
  have hstart : Sound H run st ops options rawRows []
      { rows := plainRows rawRows, getters := lazyOps ops options } := by
    refine ⟨?_, rfl, by intro name batch hget; cases hget⟩
    rw [List.forall₂_same]
    intro o _
    exact ⟨fun _ _ => rfl, by intro name hname; cases hname⟩
  obtain ⟨page, hfold, hsound, hcount⟩ := foldlM_attachSelected hl (by simp) (fun _ hn => hn)
    options.selected.2 hstart
  refine ⟨page, ?_, hsound, ?_⟩
  · rw [buildResultSet, copyRows_ok hl.columnsFree]
    exact hfold
  · intro n
    have hn := hcount n
    simpa using hn

/-! ## Accesses -/

theorem get_lazyOps {name : String} (hname : name ∉ options.selected.1) :
    Props.get (lazyOps ops options) name = Props.get ops.1 name := by
  rw [lazyOps]
  induction ops.1 with
  | nil => rfl
  | cons p entries ih =>
    rw [Props.get_cons, List.filter_cons]
    split
    · rw [Props.get_cons, ih]
    · next hsel =>
      rw [ih, if_neg]
      rintro rfl
      exact hsel (by simpa using hname)

theorem not_mem_lazyOps {name : String} {op : RelationOp} (hop : Props.get ops.1 name = some op)
    (hname : name ∉ options.selected.1) : name ∈ Props.keys (lazyOps ops options) :=
  Props.mem_keys_of_get ((get_lazyOps hname).trans hop)

/-- A plain row has only the columns of its raw row. -/
theorem get_plain {o : Obj} (ho : o ∈ plainRows rawRows) {name : String}
    (h : ∀ raw ∈ rawRows, ∀ c ∈ raw, c.1 ≠ name) : Props.get o.cols name = none := by
  obtain ⟨r, hr, rfl⟩ := List.mem_map.mp ho
  have hmem := List.fst_mem_of_mem_zipIdx hr
  obtain ⟨raw, hraw, hcols⟩ := List.mem_map.mp hmem
  apply Props.get_none_of_not_mem
  intro hkey
  rw [← hcols] at hkey
  have hkeys : ∀ (raw acc : List (String × JsVal)), name ∈ Props.keys
      (raw.foldl (fun acc p => Props.set acc p.1 p.2) acc) →
      name ∈ Props.keys acc ∨ ∃ c ∈ raw, c.1 = name := by
    intro raw
    induction raw with
    | nil => exact fun acc h => Or.inl h
    | cons c raw ih =>
      intro acc hk
      rcases ih _ hk with hk | ⟨c', hc', hname⟩
      · change name ∈ Props.keys (Props.set acc c.1 c.2) at hk
        by_cases hc : c.1 = name
        · exact Or.inr ⟨c, List.mem_cons_self, hc⟩
        · left
          by_contra hno
          obtain ⟨v, hv⟩ := Props.exists_get hk
          by_cases hproto : c.1 = "__proto__"
          · rw [Props.set, if_pos hproto] at hk
            exact hno hk
          · rw [Props.get_set hproto, if_neg (Ne.symm hc), Props.get_none_of_not_mem hno] at hv
            cases hv
      · exact Or.inr ⟨c', List.mem_cons_of_mem _ hc', hname⟩
  rcases hkeys raw [] hkey with hk | ⟨c, hc, hname⟩
  · cases hk
  · exact h raw hraw c hc hname

/-- The relation may still be sent: it was not selected and no batch of it is kept. -/
def Open (options : ReadOptions) (page : Page) (name : String) : Prop :=
  name ∉ options.selected.1 ∧ Props.get page.resolved name = none

theorem get_append_singleton (ps : List (String × ByKey)) (k k' : String) (v : ByKey) :
    Props.get (ps ++ [(k, v)]) k' = (Props.get ps k').or (if k' = k then some v else none) := by
  induction ps with
  | nil =>
    rw [List.nil_append, Props.get_cons]
    by_cases h : k = k'
    · simp [h, Props.get]
    · simp [h, Ne.symm h, Props.get]
  | cons p ps ih =>
    rw [List.cons_append, Props.get_cons, Props.get_cons, ih]
    split <;> rfl

/-- What one access does: it reads the property's value, keeps the page sound, and sends at most
the statement of its own relation, when that is open; a batch that loads closes it. -/
structure Step (H : Host) (run : ReadSeam σ) (st : σ) (ops : Record RelationOp)
    (options : ReadOptions) (rawRows : List (List (String × JsVal))) (page : Page) (a : Access)
    (result : Except String JsVal × Page) : Prop where
  value : result.1 = valueOf H run st ops options rawRows a
  sound : Sound H run st ops options rawRows options.selected.1 result.2
  others : ∀ n, n ≠ a.name ∨ ¬ Open options page n → result.2.sent.count n ≤ page.sent.count n
  own : ∀ n, result.2.sent.count n ≤ page.sent.count n + if n = a.name then 1 else 0
  closed : ∀ n, Open options result.2 n → Open options page n ∧
    (result.2.sent.count n ≤ page.sent.count n ∨
      ∃ op, Props.get ops.1 n = some op ∧
        ¬ ∃ batch, runRelationOp H run st op (plainRows rawRows) = .ok batch)

/-- An access that sends nothing. -/
theorem Step.quiet {page : Page} {a : Access}
    (h : Sound H run st ops options rawRows options.selected.1 page) {v : Except String JsVal}
    (hv : v = valueOf H run st ops options rawRows a) :
    Step H run st ops options rawRows page a (v, page) :=
  ⟨hv, h, fun _ _ => le_refl _, fun _ => Nat.le_add_right _ _, fun _ ho => ⟨ho, Or.inl (le_refl _)⟩⟩

/-- Resolving a relation for a row of the page. -/
theorem resolve_step {page : Page} {a : Access} {o o' : Obj} {op : RelationOp}
    (hl : Loadable H run st ops options rawRows accesses)
    (h : Sound H run st ops options rawRows options.selected.1 page)
    (ho : (plainRows rawRows)[a.row]? = some o)
    (hholds : Holds H run st ops options rawRows options.selected.1 o o')
    (hop : Props.get ops.1 a.name = some op) (hname : a.name ∉ options.selected.1) :
    Step H run st ops options rawRows page a (page.resolve H run st options a.name op o') := by
  have hvalue : valueOf H run st ops options rawRows a =
      (runRelationOp H run st op (plainRows rawRows)).map fun batch =>
        relationValue H options op batch o := by
    rw [valueOf, ho]
    simp only [hop]
  have hsame : ∀ batch, relationValue H options op batch o' = relationValue H options op batch o :=
    fun batch => relationValue_congr batch (hholds.tuple hl.keysFree hl.declared hop)
  have hrun := h.batch hl.keysFree hl.declared hop
  unfold Page.resolve
  cases hres : Props.get page.resolved a.name with
  | some batch =>
    obtain ⟨op', hop', hbatch⟩ := h.resolved a.name batch hres
    obtain rfl := Option.some.inj (hop.symm.trans hop')
    apply Step.quiet h
    rw [hvalue, hbatch, hsame]
    rfl
  | none =>
    obtain ⟨hrows, hgetters, hresolved⟩ := sending_eq (H := H) page a.name op
    have hcount := count_sending (H := H) page a.name op
    have hsound : Sound H run st ops options rawRows options.selected.1
        (page.sending H a.name op) := by
      refine ⟨by rw [hrows]; exact h.rows, by rw [hgetters]; exact h.getters, ?_⟩
      intro n b hget
      exact h.resolved n b (hresolved ▸ hget)
    have hothers : ∀ n, n ≠ a.name ∨ ¬ Open options page n →
        (page.sending H a.name op).sent.count n ≤ page.sent.count n := by
      intro n hn
      have hc := hcount n
      rw [if_neg] at hc
      · exact hc
      · rintro rfl
        exact hn.elim (fun hne => hne rfl) fun hno => hno ⟨hname, hres⟩
    have hrun' := (congrArg (runRelationOp H run st op) hrows).trans hrun
    cases hbatch : runRelationOp H run st op (plainRows rawRows) with
    | error e =>
      rw [hbatch] at hrun'
      simp only [hrun']
      refine ⟨by rw [hvalue, hbatch]; rfl, hsound, hothers, hcount, ?_⟩
      intro n hn
      refine ⟨⟨hn.1, hresolved ▸ hn.2⟩, ?_⟩
      by_cases heq : n = a.name
      · subst heq
        refine Or.inr ⟨op, hop, ?_⟩
        rintro ⟨batch, hok⟩
        rw [hbatch] at hok
        cases hok
      · exact Or.inl (hothers n (Or.inl heq))
    | ok batch =>
      rw [hbatch] at hrun'
      simp only [hrun']
      refine ⟨by rw [hvalue, hbatch, hsame]; rfl, ⟨hsound.rows, hsound.getters, ?_⟩, hothers,
        hcount, ?_⟩
      · intro n b hget
        rw [get_append_singleton] at hget
        rcases Option.or_eq_some_iff.mp hget with hget | ⟨_, hget⟩
        · exact hsound.resolved n b hget
        · split at hget
          · next heq =>
            cases hget
            exact ⟨op, heq ▸ hop, hbatch⟩
          · cases hget
      · intro n hn
        obtain ⟨hsel, hnone⟩ := hn
        rw [get_append_singleton, Option.or_eq_none_iff, hresolved] at hnone
        refine ⟨⟨hsel, hnone.1⟩, Or.inl (hothers n (Or.inl ?_))⟩
        rintro rfl
        rw [if_pos rfl] at hnone
        cases hnone.2

/-- A row of the page beside its plain row. -/
theorem Sound.row {page : Page} {done : List String}
    (h : Sound H run st ops options rawRows done page) {i : Nat} {o' : Obj}
    (hrow : page.rows[i]? = some o') :
    ∃ o, (plainRows rawRows)[i]? = some o ∧ o ∈ plainRows rawRows ∧
      Holds H run st ops options rawRows done o o' := by
  obtain ⟨hi, rfl⟩ := List.getElem?_eq_some_iff.mp hrow
  have hi' : i < (plainRows rawRows).length := by
    rw [h.rows.length_eq]
    exact hi
  exact ⟨_, List.getElem?_eq_getElem hi', List.getElem_mem hi', h.rows.get hi' hi⟩

theorem access_step {page : Page} (hl : Loadable H run st ops options rawRows accesses)
    (h : Sound H run st ops options rawRows options.selected.1 page) (a : Access) :
    Step H run st ops options rawRows page a (page.access H run st options a) := by
  unfold Page.access
  split
  · next hrow =>
    apply Step.quiet h
    rw [valueOf, List.getElem?_eq_none_iff.mpr]
    rw [h.rows.length_eq]
    exact List.getElem?_eq_none_iff.mp hrow
  · next o' hrow =>
    obtain ⟨o, ho, hmem, hholds⟩ := h.row hrow
    have hvalue : Props.get ops.1 a.name = none →
        valueOf H run st ops options rawRows a = .ok (o.get a.name) := by
      intro hop
      rw [valueOf, ho]
      simp only [hop]
    by_cases hsel : a.name ∈ options.selected.1
    · -- a selected relation is a property of the row's own
      obtain ⟨op, batch, hop, hbatch, hget⟩ := hholds.2 a.name hsel
      rw [hget]
      apply Step.quiet h
      rw [valueOf, ho]
      simp only [hop, hbatch]
      rfl
    have hcol := hholds.1 a.name hsel
    cases hop : Props.get ops.1 a.name with
    | none =>
      have hno : Props.get page.getters a.name = none := by
        rw [h.getters, get_lazyOps hsel, hop]
      rw [hcol]
      cases hown : Props.get o.cols a.name with
      | some v =>
        apply Step.quiet h
        rw [hvalue hop, Obj.get, hown]
        rfl
      | none =>
        simp only [hno]
        apply Step.quiet h
        rw [hvalue hop, Obj.get, hown]
        rfl
    | some op =>
      have hget : Props.get page.getters a.name = some op := by
        rw [h.getters, get_lazyOps hsel, hop]
      have hown : Props.get o.cols a.name = none := by
        apply get_plain hmem
        rintro raw hraw c hc heq
        exact hl.columnsFree raw hraw c hc (heq ▸ not_mem_lazyOps hop hsel)
      rw [hcol, hown]
      simp only [hget]
      exact resolve_step hl h ho hholds hop hsel

/-- Every access reads the property's value; a relation that loads is sent at most once more while
it is open, any other at most as often as it is read. -/
theorem accesses_run {all : List Access} (hl : Loadable H run st ops options rawRows all)
    {page : Page} (h : Sound H run st ops options rawRows options.selected.1 page)
    (as : List Access) :
    (page.accesses H run st options as).1 = as.map (valueOf H run st ops options rawRows) ∧
      ∀ n, (page.accesses H run st options as).2.sent.count n ≤
          page.sent.count n + (as.filter fun a => a.name = n).length ∧
        (¬ Open options page n →
          (page.accesses H run st options as).2.sent.count n ≤ page.sent.count n) ∧
        ((∀ op, Props.get ops.1 n = some op →
            ∃ batch, runRelationOp H run st op (plainRows rawRows) = .ok batch) →
          (page.accesses H run st options as).2.sent.count n ≤ page.sent.count n + 1) := by
  induction as generalizing page with
  | nil => exact ⟨rfl, fun n => ⟨Nat.le_add_right _ _, fun _ => le_refl _, fun _ => Nat.le_succ _⟩⟩
  | cons a as ih =>
    have hstep := access_step hl h a
    obtain ⟨hvalues, hcounts⟩ := ih hstep.sound
    refine ⟨?_, ?_⟩
    · rw [Page.accesses, List.map_cons, ← hstep.value, ← hvalues]
    · intro n
      obtain ⟨hall, hclosed, hloads⟩ := hcounts n
      rw [show (page.accesses H run st options (a :: as)).2 =
        ((page.access H run st options a).2.accesses H run st options as).2 from rfl]
      refine ⟨?_, ?_, ?_⟩
      · have hown := hstep.own n
        rw [List.filter_cons]
        by_cases heq : a.name = n
        · rw [if_pos heq.symm] at hown
          rw [if_pos (by simpa using heq), List.length_cons]
          omega
        · rw [if_neg (Ne.symm heq)] at hown
          rw [if_neg (by simpa using heq)]
          omega
      · intro hno
        have hnow := hstep.others n (Or.inr hno)
        have hlater := hclosed fun ho => hno (hstep.closed n ho).1
        omega
      · intro hl'
        by_cases ho : Open options (page.access H run st options a).2 n
        · obtain ⟨_, hquiet | ⟨op, hop, hfails⟩⟩ := hstep.closed n ho
          · have := hloads hl'
            omega
          · exact absurd (hl' op hop) hfails
        · have hnow := hstep.own n
          have hlater := hclosed ho
          split at hnow <;> omega

/-- In every run where no relation is named like a key or a column, and each that is selected or
read again loads, every property reads as it would alone and no statement is sent twice. -/
theorem same_graph (H : Host) (run : ReadSeam σ) (st : σ) (ops : Record RelationOp)
    (options : ReadOptions) (rawRows : List (List (String × JsVal))) (accesses : List Access)
    (hl : Loadable H run st ops options rawRows accesses) :
    SameGraph H run st ops options rawRows accesses := by
  obtain ⟨page, hbuild, hsound, hsent⟩ := buildResultSet_sound hl
  obtain ⟨hvalues, hcounts⟩ := accesses_run hl hsound accesses
  refine ⟨page, hbuild, hvalues, ?_⟩
  intro n
  obtain ⟨hall, hclosed, hloads⟩ := hcounts n
  have hn := hsent n
  by_cases hsel : n ∈ options.selected.1
  · rw [if_pos hsel] at hn
    exact (hclosed fun ho => ho.1 hsel).trans hn
  · rw [if_neg hsel] at hn
    cases hop : Props.get ops.1 n with
    | none =>
      have := hloads fun op hget => by rw [hop] at hget; cases hget
      omega
    | some op =>
      rcases hl.loads n op hop with hload | ⟨_, honce⟩
      · have := hloads fun op' hget => by
          rw [hop] at hget
          cases hget
          exact hload
        omega
      · omega

end Run

/-! ## The posts of a page of users -/

/-- `@hasMany(() => [User.id, Post.authorId])`, with or without a hard limit. -/
def postsOp (hardLimit : Option Nat) : RelationOp where
  name := "posts"
  kind := .hasMany
  keys := .single "id" "author_id"
  dialect := .sqlite
  sql := "SELECT id, author_id FROM posts WHERE author_id IN (SELECT value FROM json_each(?))"
  targetTable := "posts"
  materializers := fun _ => none
  hardLimit := hardLimit

def postsOps (hardLimit : Option Nat) : Record RelationOp :=
  ⟨[("posts", postsOp hardLimit)], by simp [Props.keys]⟩

def plainHost : Host := ⟨fun date => date, fun _ => ""⟩

def twoUsers : List (List (String × JsVal)) := [[("id", .bigint 1)], [("id", .bigint 2)]]

def twoPosts : ReadSeam Unit := fun _ _ _ =>
  .ok [[("id", .bigint 10), ("author_id", .bigint 2)],
    [("id", .bigint 11), ("author_id", .bigint 2)]]

def lazyOnly : ReadOptions := ⟨⟨[], List.nodup_nil⟩, none⟩

/-- Both users read their posts, the second one twice. -/
theorem same_graph_posts :
    SameGraph plainHost twoPosts () (postsOps none) lazyOnly twoUsers
      [⟨0, "posts"⟩, ⟨1, "posts"⟩, ⟨1, "posts"⟩] := by
  apply same_graph
  refine ⟨by simp [lazyOnly], by simp [postsOps, Props.keys], ?_, ?_, ?_⟩
  · intro p hp col hcol
    obtain rfl := List.mem_singleton.mp hp
    obtain rfl := List.mem_singleton.mp hcol
    simp [postsOps, Props.keys]
  · simp [twoUsers, lazyOps, postsOps, lazyOnly, Props.keys]
  · intro name op hop
    obtain ⟨p, hp, rfl⟩ := Option.map_eq_some_iff.mp hop
    obtain rfl := List.mem_singleton.mp (List.mem_of_find?_eq_some hp)
    exact Or.inl ⟨_, rfl⟩

/-- A batch over the hard limit is not kept: its statement is sent at every read. -/
theorem over_limit_sent_again :
    ¬ SameGraph plainHost twoPosts () (postsOps (some 1)) lazyOnly twoUsers
      [⟨0, "posts"⟩, ⟨1, "posts"⟩] := by
  rintro ⟨page, hpage, _, hsent⟩
  cases hpage
  exact absurd (hsent "posts") (by decide)

end LiteDb.TypedObject
