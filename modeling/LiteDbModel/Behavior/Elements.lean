import LiteDbModel.Behavior.Nodes

/-!
# The elements of maps and fans

A batched map calls its leaf once and gives what a call for each element gives; a fan lists each of
its bodies once.
-/

namespace LiteDb.Behavior
set_option autoImplicit false

/-! ## Batched maps -/

/-- A leaf that answers a batch of items, each with the ports of these names, with the answers to
the items one after the other. -/
structure Pointwise (handler : Handler) (ctx : Ctx) (names : List String) : Prop where
  unbound : ∀ ps el, ps.map (·.1) = names →
    handler ps { ctx with bound := some el } = handler ps ctx
  batch : ∀ items v, items ≠ [] → (∀ ps ∈ items, ps.map (·.1) = names) →
    (handler [("items", .arr (items.map .obj))] ctx = .ok v ↔
      ∃ rs, v = .arr rs ∧ List.Forall₂ (fun ps r => handler ps ctx = .ok r) items rs)

theorem evalFields_names {scope : Scope} {fields : List (String × Eval)} {ps : Props}
    (h : evalFields scope fields = .ok ps) : ps.map (·.1) = fields.map (·.1) := by
  induction fields generalizing ps with
  | nil =>
    obtain rfl := Except.ok.inj h
    rfl
  | cons f fields ih =>
    obtain ⟨v, -, h⟩ := Exit.bind_ok_iff.mp h
    obtain ⟨qs, hqs, h⟩ := Exit.bind_ok_iff.mp h
    obtain rfl := Except.ok.inj h
    rw [List.map_cons, List.map_cons, ih hqs]

section
variable {handler : Handler} {ctx : Ctx} {when : Option Eval} {ports : List (String × Eval)}
  {scope : Scope} {as : String}

/-- The item of a kept element and what the leaf answers to it. -/
def Answered (handler : Handler) (ctx : Ctx) (item result : Nat × Val) : Prop :=
  item.1 = result.1 ∧ ∃ ps, item.2 = .obj ps ∧ handler ps ctx = .ok result.2

theorem eachElement_ok (hpoint : Pointwise handler ctx (ports.map (·.1))) {i : Nat}
    {els : List Val} {kept : List (Nat × Val)} :
    eachElement when ports handler ctx false scope as i els = .ok (.ok kept) ↔
      ∃ items, batchItems when ports scope as i els = .ok items ∧
        List.Forall₂ (Answered handler ctx) items kept := by
  induction els generalizing i kept with
  | nil =>
    rw [eachElement, batchItems]
    constructor
    · intro h
      obtain rfl := Except.ok.inj (Except.ok.inj h)
      exact ⟨[], rfl, .nil⟩
    · rintro ⟨items, h, hall⟩
      obtain rfl := Except.ok.inj h
      cases hall
      rfl
  | cons el els ih =>
    rw [eachElement, batchItems, Exit.bind_ok_iff]
    simp only [Exit.bind_ok_iff]
    constructor
    · rintro ⟨flag, hkeep, h⟩
      split at h
      · next hk =>
        obtain ⟨ps, hps, h⟩ := Exit.bind_ok_iff.mp h
        split at h
        · next v hv =>
          obtain ⟨rest, hrest, h⟩ := Exit.bind_ok_iff.mp h
          cases rest with
          | error outcome => cases Except.ok.inj h
          | ok rest =>
            obtain rfl := Except.ok.inj (Except.ok.inj h)
            obtain ⟨items, hitems, hall⟩ := ih.mp hrest
            refine ⟨(i, .obj ps) :: items, ⟨flag, hkeep, ?_⟩, .cons ⟨rfl, ps, rfl, ?_⟩ hall⟩
            · rw [if_pos hk, hps, hitems]
              rfl
            · rw [← hpoint.unbound ps el (evalFields_names hps)]
              exact hv
        · cases Except.ok.inj h
      · next hk =>
        obtain ⟨items, hitems, hall⟩ := ih.mp h
        refine ⟨items, ⟨flag, hkeep, ?_⟩, hall⟩
        rw [if_neg hk]
        exact hitems
    · rintro ⟨items, ⟨flag, hkeep, h⟩, hall⟩
      refine ⟨flag, hkeep, ?_⟩
      split at h
      · next hk =>
        obtain ⟨ps, hps, h⟩ := Exit.bind_ok_iff.mp h
        obtain ⟨rest, hrest, h⟩ := Exit.bind_ok_iff.mp h
        obtain rfl := Except.ok.inj h
        obtain ⟨⟨j, v⟩, tail, ⟨hj, ps', hitem, hv⟩, htail, rfl⟩ :=
          List.forall₂_cons_left_iff.mp hall
        obtain rfl := Val.obj.inj hitem
        dsimp only at hj hv
        subst hj
        rw [if_pos hk, hps]
        simp only [bind, Except.bind, hpoint.unbound ps el (evalFields_names hps), hv,
          ih.mpr ⟨rest, hrest, htail⟩]
        rfl
      · next hk =>
        rw [if_neg hk]
        exact ih.mpr ⟨items, h, hall⟩

theorem batchItems_obj {i : Nat} {els : List Val} {items : List (Nat × Val)}
    (h : batchItems when ports scope as i els = .ok items) :
    ∃ (ids : List Nat) (records : List Props),
      items = ids.zip (records.map Val.obj) ∧ ids.length = records.length ∧
        ∀ ps ∈ records, ps.map (·.1) = ports.map (·.1) := by
  induction els generalizing i items with
  | nil =>
    obtain rfl := Except.ok.inj h
    exact ⟨[], [], rfl, rfl, by simp⟩
  | cons el els ih =>
    rw [batchItems] at h
    obtain ⟨kept, -, h⟩ := Exit.bind_ok_iff.mp h
    split at h
    · obtain ⟨ps, hps, h⟩ := Exit.bind_ok_iff.mp h
      obtain ⟨rest, hrest, h⟩ := Exit.bind_ok_iff.mp h
      obtain rfl := Except.ok.inj h
      obtain ⟨ids, records, rfl, hlen, hnames⟩ := ih hrest
      exact ⟨i :: ids, ps :: records, rfl, congrArg (· + 1) hlen,
        List.forall_mem_cons.mpr ⟨evalFields_names hps, hnames⟩⟩
    · exact ih h

theorem answered_zip {ids : List Nat} {records : List Props} (hlen : ids.length = records.length)
    {kept : List (Nat × Val)} :
    List.Forall₂ (Answered handler ctx) (ids.zip (records.map Val.obj)) kept ↔
      ∃ rs, List.Forall₂ (fun ps r => handler ps ctx = .ok r) records rs ∧ kept = ids.zip rs := by
  induction ids generalizing records kept with
  | nil =>
    obtain rfl := List.eq_nil_of_length_eq_zero hlen.symm
    simp
  | cons i ids ih =>
    cases records with
    | nil => cases hlen
    | cons ps records =>
      have hlen : ids.length = records.length := Nat.succ.inj hlen
      rw [List.map_cons, List.zip_cons_cons, List.forall₂_cons_left_iff]
      constructor
      · rintro ⟨⟨j, v⟩, kept, ⟨hj, ps', hitem, hv⟩, hall, rfl⟩
        obtain rfl := Val.obj.inj hitem
        obtain ⟨rs, hrs, rfl⟩ := (ih hlen).mp hall
        dsimp only at hj hv
        subst hj
        exact ⟨v :: rs, .cons hv hrs, rfl⟩
      · rintro ⟨rs, hrs, rfl⟩
        obtain ⟨r, tail, hr, htail, rfl⟩ := List.forall₂_cons_left_iff.mp hrs
        exact ⟨(i, r), ids.zip tail, ⟨rfl, ps, rfl, hr⟩, (ih hlen).mpr ⟨tail, htail, rfl⟩, rfl⟩

/-- One call for all the items gives what a call for each of them gives. -/
theorem runBatch_ok {names : List String} (hpoint : Pointwise handler ctx names)
    (mismatch : Failure) {ids : List Nat} {records : List Props}
    (hlen : ids.length = records.length) (hnames : ∀ ps ∈ records, ps.map (·.1) = names)
    {kept : List (Nat × Val)} :
    runBatch handler ctx mismatch (ids.zip (records.map Val.obj)) = .ok (.ok kept) ↔
      List.Forall₂ (Answered handler ctx) (ids.zip (records.map Val.obj)) kept := by
  have hids : (ids.zip (records.map Val.obj)).map (·.1) = ids :=
    List.map_fst_zip (by rw [List.length_map]; omega)
  have hrecords : (ids.zip (records.map Val.obj)).map (·.2) = records.map Val.obj :=
    List.map_snd_zip (by rw [List.length_map]; omega)
  have hitems : (ids.zip (records.map Val.obj)).length = records.length := by
    rw [List.length_zip, List.length_map]
    omega
  rw [answered_zip hlen, runBatch, hids, hrecords, hitems]
  by_cases hnil : records = []
  · subst hnil
    obtain rfl := List.eq_nil_of_length_eq_zero hlen
    simp [eq_comm]
  · have hne : ids.zip (records.map Val.obj) ≠ [] := by
      intro h
      rw [h] at hitems
      exact hnil (List.eq_nil_of_length_eq_zero hitems.symm)
    rw [if_neg hne]
    constructor
    · intro h
      split at h
      · cases Except.ok.inj h
      · next v hv =>
        obtain ⟨rs, rfl, hrs⟩ := (hpoint.batch records v hnil hnames).mp hv
        rw [alignedList, if_pos hrs.length_eq.symm] at h
        exact ⟨rs, hrs, (Except.ok.inj (Except.ok.inj h)).symm⟩
    · rintro ⟨rs, hrs, rfl⟩
      rw [(hpoint.batch records (.arr rs) hnil hnames).mpr ⟨rs, rfl, hrs⟩]
      simp only [alignedList, if_pos hrs.length_eq.symm]

end

/-- The map without its `batched`. -/
def unbatched (m : Props) : Props := m.filter fun p => p.1 ≠ "batched"

theorem lookup_unbatched (m : Props) (k : String) :
    (unbatched m).lookup k = if k = "batched" then none else m.lookup k := by
  induction m with
  | nil => simp [unbatched]
  | cons p m ih =>
    rw [unbatched] at ih ⊢
    rw [Keyed.lookup_cons_eq]
    by_cases hp : p.1 = "batched"
    · rw [List.filter_cons_of_neg (by simpa using hp), ih, hp]
      by_cases hk : k = "batched" <;> simp [hk]
    · rw [List.filter_cons_of_pos (by simpa using hp), Keyed.lookup_cons_eq, ih]
      by_cases hk : k = "batched"
      · subst hk
        simp [Ne.symm hp]
      · simp [hk]

theorem lookup_unbatched_of_ne (m : Props) {k : String} (hk : k ≠ "batched") :
    (unbatched m).lookup k = m.lookup k := by
  rw [lookup_unbatched, if_neg hk]

theorem elementPolicy_false {opId : String} {m : Props}
    (h : elementPolicy opId m true = .ok false) :
    elementPolicy opId (unbatched m) false = .ok false := by
  have hsame : elementPolicyOf (unbatched m) = elementPolicyOf m := by
    rw [elementPolicyOf, elementPolicyOf, lookup_unbatched_of_ne m (by decide)]
  simp only [elementPolicy, hsame] at h ⊢
  split at h
  · cases h
  · next hknown =>
    rw [if_neg hknown, if_neg (by simp)]
    split at h
    · cases h
    · exact h

theorem collect_iff {handler : Handler} {ctx : Ctx} {exprs : NodeExprs}
    (hpoint : Pointwise handler ctx (exprs.ports.map (·.1))) {m : Props}
    (hbatched : isTrue (m.lookup "batched") = true) {scope : Scope} {els : List Val}
    {kept : List (Nat × Val)} :
    collect handler ctx m exprs false scope els = .ok (.ok kept) ↔
      collect handler ctx (unbatched m) exprs false scope els = .ok (.ok kept) := by
  have hflag : isTrue ((unbatched m).lookup "batched") = false := by
    rw [lookup_unbatched, if_pos rfl]
    rfl
  simp only [collect, hbatched, hflag, lookup_unbatched_of_ne m (show "as" ≠ "batched" by decide)]
  rw [if_pos trivial, if_neg (by simp), eachElement_ok hpoint, Exit.bind_ok_iff]
  refine exists_congr fun items => and_congr_right fun hitems => ?_
  obtain ⟨ids, records, rfl, hlen, hnames⟩ := batchItems_obj hitems
  exact runBatch_ok hpoint _ hlen hnames

theorem mapOutcome_ok {x : Except Failure (Except LeafError (List (Nat × Val)))} {m : Props}
    {opId : String} {relationKind : Option String} {els : List Val} {v : Val} :
    x >>= mapOutcome m opId relationKind els = .ok (.ok v) ↔
      ∃ kept, x = .ok (.ok kept) ∧ mapOutcome m opId relationKind els (.ok kept) = .ok (.ok v) := by
  rw [Exit.bind_ok_iff]
  constructor
  · rintro ⟨collected, hx, h⟩
    cases collected with
    | error e => cases Except.ok.inj h
    | ok kept => exact ⟨kept, hx, h⟩
  · rintro ⟨kept, hx, h⟩
    exact ⟨.ok kept, hx, h⟩

/-- A batched map gives what the map gives that calls the leaf for each element, where the leaf
answers a batch item by item. -/
theorem execMap_batched {handlers : Handlers} {m : Props} {exprs : NodeExprs}
    {relationKind : Option String} {opId : String} {scope : Scope} {els : List Val}
    (hbatched : isTrue (m.lookup "batched") = true)
    (hpolicy : elementPolicy opId m true = .ok false)
    (hpoint : ∀ handler, handlers (textOf (m.lookup "component")) = some handler →
      Pointwise handler ⟨opId, textOf (m.lookup "component"), none⟩ (exprs.ports.map (·.1)))
    (v : Val) :
    execMap handlers m exprs relationKind opId scope els = .ok (.ok v) ↔
      execMap handlers (unbatched m) exprs relationKind opId scope els = .ok (.ok v) := by
  have hcomponent := lookup_unbatched_of_ne m (show "component" ≠ "batched" by decide)
  have has := lookup_unbatched_of_ne m (show "as" ≠ "batched" by decide)
  have hinto : mapOutcome (unbatched m) opId relationKind els =
      mapOutcome m opId relationKind els := by
    funext collected
    rw [mapOutcome.eq_def, mapOutcome.eq_def,
      lookup_unbatched_of_ne m (show "into" ≠ "batched" by decide)]
  have hflag : isTrue ((unbatched m).lookup "batched") = false := by
    rw [lookup_unbatched, if_pos rfl]
    rfl
  unfold execMap
  cases exprs.transform with
  | some transform => simp only [has]
  | none =>
    simp only [hcomponent, hbatched, hflag, hpolicy, elementPolicy_false hpolicy, hinto]
    rw [Exit.bind_ok_iff, Exit.bind_ok_iff]
    refine exists_congr fun handler => and_congr_right fun hhandler => ?_
    have hhandler : handlers (textOf (m.lookup "component")) = some handler := by
      rw [handlerOf] at hhandler
      split at hhandler
      · next h => rw [h, Except.ok.inj hhandler]
      · cases hhandler
    refine mapOutcome_ok.trans (Iff.trans ?_ mapOutcome_ok.symm)
    refine exists_congr fun kept => and_congr_left fun _ => ?_
    exact collect_iff (hpoint handler hhandler) hbatched

/-- A leaf that answers a call with the record of its ports, and a batch with its items. -/
def echo : Handler := fun ps _ =>
  match ps with
  | [("items", .arr items)] => .ok (.arr items)
  | ps => .ok (.obj ps)

theorem echo_pointwise (ctx : Ctx) : Pointwise echo ctx ["id"] where
  unbound := fun _ _ _ => rfl
  batch := by
    intro items v hne hnames
    have hone : ∀ ps ∈ items, echo ps ctx = .ok (.obj ps) := by
      intro ps hps
      have hkeys := hnames ps hps
      rw [echo]
      rintro inner rfl
      simp at hkeys
    have hall (rs : List Val) :
        List.Forall₂ (fun ps r => echo ps ctx = .ok r) items rs ↔ items.map Val.obj = rs := by
      rw [← List.forall₂_eq_eq_eq, List.forall₂_map_left_iff]
      clear hne hnames
      induction items generalizing rs with
      | nil => simp
      | cons ps items ih =>
        rw [List.forall₂_cons_left_iff, List.forall₂_cons_left_iff]
        refine exists_congr fun r => exists_congr fun tail => ?_
        rw [hone ps List.mem_cons_self, ExecOutcome.ok.injEq,
          ih (fun q hq => hone q (List.mem_cons_of_mem ps hq)) tail]
    rw [echo, ExecOutcome.ok.injEq]
    simp only [hall]
    constructor
    · rintro rfl
      exact ⟨_, rfl, rfl⟩
    · rintro ⟨rs, rfl, rfl⟩
      rfl

/-- The echo of two elements, in one call or in two. -/
theorem execMap_batched_echo :
    let m : Props := [("component", .str "echo"), ("as", .str "e"), ("batched", .bool true)]
    let exprs : NodeExprs :=
      { noExprs with ports := [("id", compile (.obj [("ref", .arr [.str "e"])]))] }
    ∀ v, execMap (fun _ => some echo) m exprs none "n" (fun _ => none) [.int 1, .int 2] =
        .ok (.ok v) ↔
      execMap (fun _ => some echo) (unbatched m) exprs none "n" (fun _ => none)
        [.int 1, .int 2] = .ok (.ok v) := by
  intro m exprs v
  refine execMap_batched (by rfl) (by rfl) ?_ v
  intro handler hhandler
  obtain rfl := Option.some.inj hhandler
  exact echo_pointwise _

/-! ## What a fan lists -/

section
variable {jsonEncode : Val → String} {dedupeKey drop : String} {implicitSource : Option String}

/-- What a body is recognised by, where it has the key. -/
def bodyKey (jsonEncode : Val → String) (dedupeKey : String) (body : Val) : Option String :=
  (dedupeKeyOf dedupeKey body).map (seenKey jsonEncode)

theorem bodyKey_none {j : Val → String} {body : Val} (h : dedupeKeyOf dedupeKey body = none) :
    bodyKey j dedupeKey body = none := by
  rw [bodyKey, h, Option.map_none]

theorem bodyKey_some {j : Val → String} {body key : Val}
    (h : dedupeKeyOf dedupeKey body = some key) :
    bodyKey j dedupeKey body = some (seenKey j key) := by
  rw [bodyKey, h, Option.map_some]

/-- No two bodies are recognised by one key, dangling ones are there only where they are kept, and
the implicit source is in none. -/
structure Listed (jsonEncode : Val → String) (dedupeKey drop : String)
    (implicitSource : Option String) (items : List Val) : Prop where
  distinct : (items.filterMap (bodyKey jsonEncode dedupeKey)).Nodup
  present : drop = "dangling" → ∀ body ∈ items, (bodyKey jsonEncode dedupeKey body).isSome = true
  stripped : ∀ body ∈ items, (bodyKey jsonEncode dedupeKey body).isSome = true →
    stripImplicit implicitSource body = body

theorem lookup_strip {source dedupeKey : String} (h : source ≠ dedupeKey) (rec : Props) :
    (rec.filter fun p => p.1 ≠ source).lookup dedupeKey = rec.lookup dedupeKey := by
  induction rec with
  | nil => rfl
  | cons p rec ih =>
    by_cases hp : p.1 = source
    · rw [List.filter_cons_of_neg (by simpa using hp), ih, Keyed.lookup_cons_eq,
        if_neg (fun heq => h (hp.symm.trans heq.symm))]
    · rw [List.filter_cons_of_pos (by simpa using hp), Keyed.lookup_cons_eq,
        Keyed.lookup_cons_eq, ih]

theorem bodyKey_strip (h : implicitSource ≠ some dedupeKey) (body : Val) :
    bodyKey jsonEncode dedupeKey (stripImplicit implicitSource body) =
      bodyKey jsonEncode dedupeKey body := by
  cases body with
  | obj rec =>
    cases implicitSource with
    | none => rfl
    | some source =>
      have hne : source ≠ dedupeKey := fun heq => h (congrArg some heq)
      rw [bodyKey, bodyKey, stripImplicit, dedupeKeyOf, dedupeKeyOf, lookup_strip hne]
  | _ => rfl

theorem strip_strip (body : Val) :
    stripImplicit implicitSource (stripImplicit implicitSource body) =
      stripImplicit implicitSource body := by
  cases body with
  | obj rec =>
    cases implicitSource with
    | none => rfl
    | some source => simp [stripImplicit]
  | _ => rfl

/-- A listing holds no key that was seen before it. -/
theorem fanoutDedupDrop_fresh (h : implicitSource ≠ some dedupeKey) {seen : List String}
    {bodies : List Val} {k : String} (hk : k ∈ seen) :
    k ∉ (fanoutDedupDrop jsonEncode dedupeKey drop implicitSource seen bodies).filterMap
      (bodyKey jsonEncode dedupeKey) := by
  induction bodies generalizing seen with
  | nil => simp [fanoutDedupDrop]
  | cons body bodies ih =>
    rw [fanoutDedupDrop]
    cases hkey : dedupeKeyOf dedupeKey body with
    | none =>
      have hbody := bodyKey_none (j := jsonEncode) hkey
      dsimp only
      split
      · exact ih hk
      · rw [List.filterMap_cons_none hbody]
        exact ih hk
    | some key =>
      have hbody := bodyKey_some (j := jsonEncode) hkey
      dsimp only
      split
      · exact ih hk
      · next hnew =>
        rw [List.filterMap_cons_some ((bodyKey_strip h body).trans hbody), List.mem_cons, not_or]
        refine ⟨?_, ih (List.mem_cons_of_mem _ hk)⟩
        rintro rfl
        exact hnew hk

theorem fanoutDedupDrop_listed (h : implicitSource ≠ some dedupeKey) (seen : List String)
    (bodies : List Val) : Listed jsonEncode dedupeKey drop implicitSource
      (fanoutDedupDrop jsonEncode dedupeKey drop implicitSource seen bodies) := by
  induction bodies generalizing seen with
  | nil => exact ⟨by simp [fanoutDedupDrop], by simp [fanoutDedupDrop], by simp [fanoutDedupDrop]⟩
  | cons body bodies ih =>
    rw [fanoutDedupDrop]
    cases hkey : dedupeKeyOf dedupeKey body with
    | none =>
      have hbody := bodyKey_none (j := jsonEncode) hkey
      dsimp only
      split
      · exact ih seen
      · next hdrop =>
        refine ⟨?_, fun heq => absurd heq hdrop, ?_⟩
        · rw [List.filterMap_cons_none hbody]
          exact (ih seen).distinct
        · intro other hmem hsome
          rcases List.mem_cons.mp hmem with rfl | hmem
          · rw [hbody] at hsome
            cases hsome
          · exact (ih seen).stripped other hmem hsome
    | some key =>
      have hbody := bodyKey_some (j := jsonEncode) hkey
      have hstrip := (bodyKey_strip h body).trans hbody
      dsimp only
      split
      · exact ih seen
      · have hrest := ih (seenKey jsonEncode key :: seen)
        refine ⟨?_, fun hdrop => List.forall_mem_cons.mpr ⟨?_, hrest.present hdrop⟩,
          List.forall_mem_cons.mpr ⟨fun _ => strip_strip body, hrest.stripped⟩⟩
        · rw [List.filterMap_cons_some hstrip, List.nodup_cons]
          exact ⟨fanoutDedupDrop_fresh h List.mem_cons_self, hrest.distinct⟩
        · rw [hstrip, Option.isSome_some]

/-- A listing whose keys were not seen before is left as it is. -/
theorem fanoutDedupDrop_of_listed {seen : List String} {items : List Val}
    (hlisted : Listed jsonEncode dedupeKey drop implicitSource items)
    (hseen : ∀ k ∈ items.filterMap (bodyKey jsonEncode dedupeKey), k ∉ seen) :
    fanoutDedupDrop jsonEncode dedupeKey drop implicitSource seen items = items := by
  induction items generalizing seen with
  | nil => rfl
  | cons body items ih =>
    obtain ⟨hdistinct, hpresent, hstripped⟩ := hlisted
    rw [fanoutDedupDrop]
    cases hkey : dedupeKeyOf dedupeKey body with
    | none =>
      have hbody := bodyKey_none (j := jsonEncode) hkey
      rw [List.filterMap_cons_none hbody] at hdistinct hseen
      have hdrop : drop ≠ "dangling" := by
        intro heq
        have := hpresent heq body List.mem_cons_self
        rw [hbody] at this
        cases this
      dsimp only
      rw [if_neg hdrop, ih ⟨hdistinct, fun heq => absurd heq hdrop,
        fun other hmem => hstripped other (List.mem_cons_of_mem _ hmem)⟩ hseen]
    | some key =>
      have hbody := bodyKey_some (j := jsonEncode) hkey
      rw [List.filterMap_cons_some hbody] at hdistinct hseen
      obtain ⟨hnew, hdistinct⟩ := List.nodup_cons.mp hdistinct
      dsimp only
      rw [if_neg (hseen _ List.mem_cons_self),
        hstripped body List.mem_cons_self (by rw [hbody, Option.isSome_some]), ih
          ⟨hdistinct, fun heq other hmem => hpresent heq other (List.mem_cons_of_mem _ hmem),
            fun other hmem => hstripped other (List.mem_cons_of_mem _ hmem)⟩ ?_]
      intro k hk
      rw [List.mem_cons, not_or]
      exact ⟨fun heq => hnew (heq ▸ hk), hseen k (List.mem_cons_of_mem _ hk)⟩

/-- The keys that were there are there still, each body's first occurrence for it. -/
theorem fanoutDedupDrop_keys (h : implicitSource ≠ some dedupeKey) {seen : List String}
    {bodies : List Val} {k : String} (hk : k ∉ seen) :
    k ∈ (fanoutDedupDrop jsonEncode dedupeKey drop implicitSource seen bodies).filterMap
        (bodyKey jsonEncode dedupeKey) ↔
      k ∈ bodies.filterMap (bodyKey jsonEncode dedupeKey) := by
  induction bodies generalizing seen with
  | nil => rfl
  | cons body bodies ih =>
    rw [fanoutDedupDrop]
    cases hkey : dedupeKeyOf dedupeKey body with
    | none =>
      have hbody := bodyKey_none (j := jsonEncode) hkey
      rw [List.filterMap_cons_none hbody (l := bodies)]
      dsimp only
      split
      · exact ih hk
      · rw [List.filterMap_cons_none hbody]
        exact ih hk
    | some key =>
      have hbody := bodyKey_some (j := jsonEncode) hkey
      rw [List.filterMap_cons_some hbody (l := bodies)]
      dsimp only
      split
      · next hold =>
        rw [ih hk, List.mem_cons, or_iff_right]
        rintro rfl
        exact hk hold
      · rw [List.filterMap_cons_some ((bodyKey_strip h body).trans hbody), List.mem_cons,
          List.mem_cons]
        by_cases heq : k = seenKey jsonEncode key
        · simp [heq]
        · have hk' : k ∉ seenKey jsonEncode key :: seen := by simp [heq, hk]
          rw [ih hk']

/-- A fan lists each key of its bodies once, and listing what it lists changes nothing. -/
theorem fanoutDedupDrop_once (h : implicitSource ≠ some dedupeKey) (bodies : List Val) :
    let items := fanoutDedupDrop jsonEncode dedupeKey drop implicitSource [] bodies
    (items.filterMap (bodyKey jsonEncode dedupeKey)).Nodup ∧
      (∀ k, k ∈ items.filterMap (bodyKey jsonEncode dedupeKey) ↔
        k ∈ bodies.filterMap (bodyKey jsonEncode dedupeKey)) ∧
      (drop = "dangling" → ∀ body ∈ items, (bodyKey jsonEncode dedupeKey body).isSome = true) ∧
      fanoutDedupDrop jsonEncode dedupeKey drop implicitSource [] items = items := by
  intro items
  have hlisted : Listed jsonEncode dedupeKey drop implicitSource items :=
    fanoutDedupDrop_listed h [] bodies
  exact ⟨hlisted.distinct, fun k => fanoutDedupDrop_keys h List.not_mem_nil, hlisted.present,
    fanoutDedupDrop_of_listed hlisted fun _ _ => List.not_mem_nil⟩

end

/-- The second body of id 1 is dropped, as is the body without one. -/
theorem fanoutDedupDrop_once_ids :
    ((fanoutDedupDrop (fun _ => "1") "id" "dangling" none []
      [.obj [("id", .int 1)], .null, .obj [("id", .int 1), ("n", .bool true)]]).filterMap
        (bodyKey (fun _ => "1") "id")).Nodup :=
  (fanoutDedupDrop_once (by simp) _).1

end LiteDb.Behavior
