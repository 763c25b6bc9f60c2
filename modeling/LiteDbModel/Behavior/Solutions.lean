import LiteDbModel.Behavior.RunBehavior

/-!
# Solutions of a component

Each node has an equation: what it leaves is what it makes of what its parent and the nodes it names
have left. A run in an order that respects these readings ends in the one solution of the equations,
whatever the plan that gave the order.
-/

namespace LiteDb.Behavior
set_option autoImplicit false

/-- What a node leaves: its port, and its result as other nodes read it. -/
inductive Cell
  | ok (port result : Val)
  | skipped

def Cell.state : Cell → OpState
  | .ok port _ => .ok port
  | .skipped => .skipped

def Cell.result : Cell → Option Val
  | .ok _ result => some result
  | .skipped => none

/-- What the output reads. -/
def Cell.read (relationKind : Option String) : Cell → Val
  | .ok _ result => result
  | .skipped => unproducedValue relationKind

abbrev Cells := Schedule.Store Nat Cell

def statesOf (cells : Cells) : Nat → Option OpState := fun i => (cells i).map Cell.state

def resultsOf (body : List Props) (cells : Cells) : Scope := fun x =>
  (idToIndex body x).bind fun i => (cells i).bind Cell.result

/-- The results in the end, with those of the skipped nodes. -/
def finalResults (body : List Props) (cells : Cells) : Scope := fun x =>
  (idToIndex body x).bind fun i =>
    (cells i).map (Cell.read ((body[i]?).bind nodeRelationKind))

section
variable (jsonEncode : Val → String) (prep : PreparedComponent) (handlers : Handlers)
  (input : Scope)

/-- A node's equation. -/
def cellOf (i : Nat) (cells : Cells) : Except Failure Cell :=
  match prep.body[i]? with
  | none => .ok .skipped
  | some node => do
    let op := opOfNode prep.body node
    let policy ← policyOf op
    match gate op (statesOf cells) with
    | .skip => .ok .skipped
    | .exec _ => do
      let outcome ← execNode jsonEncode prep.body prep.inputPorts handlers node
        (compileNodeExprs node) op.id (baseScope input (resultsOf prep.body cells))
      match outcome with
      | .ok v => do
        let value ← conformResult prep op v
        .ok (.ok v value)
      | .error message detail => do
        let _ ← settle op policy (.error message detail)
        .ok .skipped

/-- A node reads its parent and the nodes that its expressions name. -/
def readsOf (body : List Props) (i : Nat) : List Nat :=
  match body[i]? with
  | none => []
  | some node => (opOfNode body node).parent.toList ++ (nodeHeads node).filterMap (idToIndex body)

def Reads (body : List Props) (i j : Nat) : Prop := j ∈ readsOf body i

instance (body : List Props) (i j : Nat) : Decidable (Reads body i j) :=
  inferInstanceAs (Decidable (j ∈ readsOf body i))

def UniqueIds (body : List Props) : Prop := (body.map nodeId).Nodup

/-- The plan runs every operation once, after those that it reads. -/
structure Plans (body : List Props) (plan : Option (List (List Int))) : Prop where
  covers : validateCoverage (stagesOf plan body.length) body.length = .ok ()
  ordered : Schedule.Ordered (Reads body) (orderOf (stagesOf plan body.length))

/-- Every node leaves what its equation says. -/
structure Solves (cells : Cells) : Prop where
  solved : ∀ i < prep.body.length, ∃ c, cellOf jsonEncode prep handlers input i cells = .ok c ∧
    cells i = some c
  bounded : ∀ i, prep.body.length ≤ i → cells i = none

end

/-! ## Names -/

theorem idToIndex_some {body : List Props} {x : String} {i : Nat} (h : idToIndex body x = some i) :
    ∃ node, body[i]? = some node ∧ nodeId node = x := by
  have := List.find?_some h
  exact Option.map_eq_some_iff.mp (of_decide_eq_true this)

theorem idToIndex_nodeId {body : List Props} (hids : UniqueIds body) {i : Nat} {node : Props}
    (hi : body[i]? = some node) : idToIndex body (nodeId node) = some i := by
  have hlen : i < body.length := (List.getElem?_eq_some_iff.mp hi).1
  cases hfound : idToIndex body (nodeId node) with
  | none =>
    have hmem : i ∈ (List.range body.length).reverse := by simpa using hlen
    have := List.find?_eq_none.mp hfound i hmem
    simp [hi] at this
  | some j =>
    obtain ⟨other, hj, hsame⟩ := idToIndex_some hfound
    have hlenj : j < body.length := (List.getElem?_eq_some_iff.mp hj).1
    have hids' : (body.map nodeId).Nodup := hids
    have heq : (body.map nodeId)[j]? = (body.map nodeId)[i]? := by
      rw [List.getElem?_map, List.getElem?_map, hj, hi, Option.map_some, Option.map_some, hsame]
    rw [(List.getElem?_inj (by simpa using hlenj) hids').mp heq]

variable {jsonEncode : Val → String} {prep : PreparedComponent} {handlers : Handlers}
  {input : Scope}

theorem nodeOf_op (hids : UniqueIds prep.body) {i : Nat} {node : Props}
    (hi : prep.body[i]? = some node) : nodeOf prep (opOfNode prep.body node) = node := by
  rw [nodeOf, show (opOfNode prep.body node).id = nodeId node from rfl, idToIndex_nodeId hids hi,
    Option.bind_some, hi, Option.getD_some]

/-! ## Equations -/

theorem reads_iff {body : List Props} {i j : Nat} {node : Props} (hi : body[i]? = some node) :
    Reads body i j ↔ (opOfNode body node).parent = some j ∨
      ∃ x ∈ nodeHeads node, idToIndex body x = some j := by
  rw [Reads, readsOf, hi, List.mem_append, Option.mem_toList, List.mem_filterMap]

theorem gate_congr {op : OpSpec} {s t : Nat → Option OpState}
    (h : ∀ j, op.parent = some j → s j = t j) : gate op s = gate op t := by
  unfold gate
  cases hparent : op.parent with
  | none => rfl
  | some j => simp only [h j hparent]

theorem cellOf_local : Schedule.Local (cellOf jsonEncode prep handlers input) (Reads prep.body) := by
  intro i s t h
  unfold cellOf
  cases hi : prep.body[i]? with
  | none => rfl
  | some node =>
    have hgate : gate (opOfNode prep.body node) (statesOf s) =
        gate (opOfNode prep.body node) (statesOf t) := by
      refine gate_congr fun j hj => ?_
      rw [statesOf, statesOf, h j ((reads_iff hi).mpr (.inl hj))]
    have hscope : ∀ x ∈ nodeHeads node, baseScope input (resultsOf prep.body s) x =
        baseScope input (resultsOf prep.body t) x := by
      intro x hx
      rw [baseScope, baseScope, resultsOf, resultsOf]
      cases hj : idToIndex prep.body x with
      | none => rfl
      | some j =>
        rw [Option.bind_some, Option.bind_some, h j ((reads_iff hi).mpr (.inr ⟨x, hx, hj⟩))]
    simp only [hgate, execNode_congr (compileNodeExprs_dependOn node) hscope]

/-! ## Runs as runs of the equations -/

/-- A run after a node has left its cell. -/
def Run.after (r : Run Scope) (i : Nat) (id : String) : Cell → Run Scope
  | .ok _ result => { r with
      executedIdx := r.executedIdx ++ [i]
      world := Function.update r.world id (some result) }
  | .skipped => { r with skippedIdx := r.skippedIdx ++ [i] }

theorem settle_error {op : OpSpec} {policy message : String} {detail : Option Detail}
    {state : OpState} (h : settle op policy (.error message detail) = .ok state) :
    state = .skipped := by
  rw [settle] at h
  split at h
  · cases h
  · split at h
    · cases h
    · exact (Except.ok.inj h).symm

theorem runOp_eq (hids : UniqueIds prep.body) {i : Nat} {node : Props}
    (hi : prep.body[i]? = some node) {r : Run Scope} {cells : Cells}
    (hstates : r.states = statesOf cells) (hresults : r.world = resultsOf prep.body cells) :
    runOp (wrappedExec jsonEncode prep handlers input) i (opOfNode prep.body node) r =
      (cellOf jsonEncode prep handlers input i cells).map fun c =>
        (c.state, r.after i (nodeId node) c) := by
  obtain ⟨states, executedIdx, skippedIdx, world⟩ := r
  subst hstates hresults
  unfold runOp cellOf
  simp only [hi]
  cases policyOf (opOfNode prep.body node) with
  | error e => rfl
  | ok policy =>
    simp only [bind, Except.bind]
    cases gate (opOfNode prep.body node) (statesOf cells) with
    | skip => rfl
    | exec bound =>
      simp only [wrappedExec, nodeOf_op hids hi, bind, Except.bind]
      cases execNode jsonEncode prep.body prep.inputPorts handlers node (compileNodeExprs node)
        (opOfNode prep.body node).id (baseScope input (resultsOf prep.body cells)) with
      | error e => rfl
      | ok outcome =>
        cases outcome with
        | ok v =>
          cases hv : conformResult prep (opOfNode prep.body node) v with
          | error e => simp only [hv, Except.map]
          | ok value =>
            simp only [hv, Except.map]
            rfl
        | error message detail =>
          cases hs : settle (opOfNode prep.body node) policy (.error message detail) with
          | error e => simp only [hs, Except.map]
          | ok state =>
            obtain rfl := settle_error hs
            simp only [hs, Except.map]
            rfl

/-- The run's states and results are those of the cells. -/
theorem after_results {r : Run Scope} {cells : Cells} {i : Nat} {node : Props} {c : Cell}
    (hids : UniqueIds prep.body) (hi : prep.body[i]? = some node) (hfresh : cells i = none)
    (hresults : r.world = resultsOf prep.body cells) :
    (r.after i (nodeId node) c).world =
      resultsOf prep.body (Function.update cells i (some c)) := by
  funext x
  have hkept : ∀ j, idToIndex prep.body x = some j → j ≠ i → nodeId node ≠ x := by
    intro j hj hne heq
    rw [← heq, idToIndex_nodeId hids hi] at hj
    exact hne (Option.some.inj hj).symm
  rw [resultsOf]
  cases hj : idToIndex prep.body x with
  | none =>
    have hx : x ≠ nodeId node := by
      rintro rfl
      rw [idToIndex_nodeId hids hi] at hj
      cases hj
    cases c with
    | ok port result =>
      simp only [Run.after, Function.update_of_ne hx, hresults, resultsOf, hj, Option.bind_none]
    | skipped => simp only [Run.after, hresults, resultsOf, hj, Option.bind_none]
  | some j =>
    by_cases hji : j = i
    · subst hji
      obtain ⟨node', hnode', rfl⟩ := idToIndex_some hj
      obtain rfl := Option.some.inj (hnode'.symm.trans hi)
      cases c with
      | ok port result => simp [Run.after, Cell.result]
      | skipped => simp [Run.after, Cell.result, hresults, resultsOf, hj, hfresh]
    · have hx := (hkept j hj hji).symm
      cases c with
      | ok port result =>
        simp only [Run.after, Function.update_of_ne hx, hresults, resultsOf, hj, Option.bind_some,
          Function.update_of_ne hji]
      | skipped =>
        simp only [Run.after, hresults, resultsOf, hj, Option.bind_some, Function.update_of_ne hji]

theorem after_states (r : Run Scope) (i : Nat) (id : String) (c : Cell) :
    (r.after i id c).states = r.states := by
  cases c <;> rfl

/-- What a run leaves is what the equations make in the same order. -/
theorem runOps_eq (hids : UniqueIds prep.body) {order : List Nat} (hnodup : order.Nodup)
    (hin : ∀ i ∈ order, i < prep.body.length) {r : Run Scope} {cells : Cells}
    (hfresh : ∀ i ∈ order, cells i = none) (hstates : r.states = statesOf cells)
    (hresults : r.world = resultsOf prep.body cells) :
    (runOps (wrappedExec jsonEncode prep handlers input) (opsOf prep.body) order r).map
        (fun t => (t.states, t.world)) =
      (Schedule.run (cellOf jsonEncode prep handlers input) order cells).map
        fun cells => (statesOf cells, resultsOf prep.body cells) := by
  induction order generalizing r cells with
  | nil =>
    rw [runOps, Schedule.run, Except.map, Except.map, hstates, hresults]
  | cons i order ih =>
    obtain ⟨node, hi⟩ : ∃ node, prep.body[i]? = some node :=
      ⟨_, List.getElem?_eq_getElem (hin i List.mem_cons_self)⟩
    have hop : (opsOf prep.body)[i]? = some (opOfNode prep.body node) := by
      rw [opsOf, List.getElem?_map, hi, Option.map_some]
    obtain ⟨hnot, hnodup⟩ := List.nodup_cons.mp hnodup
    rw [runOps, hop, Schedule.run]
    simp only [runOp_eq hids hi hstates hresults]
    cases cellOf jsonEncode prep handlers input i cells with
    | error e => rfl
    | ok c =>
      refine ih hnodup (fun j hj => hin j (List.mem_cons_of_mem i hj)) ?_ ?_ ?_
      · intro j hj
        rw [Function.update_of_ne (ne_of_mem_of_not_mem hj hnot)]
        exact hfresh j (List.mem_cons_of_mem i hj)
      · funext j
        rw [after_states, hstates, statesOf]
        by_cases hji : j = i
        · subst hji
          simp
        · simp [hji, statesOf]
      · exact after_results hids hi (hfresh i List.mem_cons_self) hresults

/-! ## The scope of the output -/

section
variable {α : Type} {key : α → String} {val : α → Val} {l : List α} {x : String}

theorem foldl_update_other (h : ∀ q ∈ l, key q ≠ x) (f : Scope) :
    l.foldl (fun f q => Function.update f (key q) (some (val q))) f x = f x := by
  induction l generalizing f with
  | nil => rfl
  | cons a l ih =>
    rw [List.foldl_cons, ih fun q hq => h q (List.mem_cons_of_mem a hq),
      Function.update_of_ne (h a List.mem_cons_self).symm]

theorem foldl_update_mem {v : Val} (hmem : ∃ q ∈ l, key q = x)
    (hval : ∀ q ∈ l, key q = x → val q = v) (f : Scope) :
    l.foldl (fun f q => Function.update f (key q) (some (val q))) f x = some v := by
  induction l generalizing f with
  | nil => simp at hmem
  | cons a l ih =>
    rw [List.foldl_cons]
    by_cases hl : ∃ q ∈ l, key q = x
    · exact ih hl (fun q hq => hval q (List.mem_cons_of_mem a hq)) _
    · have hother : ∀ q ∈ l, key q ≠ x := fun q hq heq => hl ⟨q, hq, heq⟩
      rw [foldl_update_other hother]
      obtain ⟨q, hq, heq⟩ := hmem
      rcases List.mem_cons.mp hq with rfl | hq
      · rw [← heq, Function.update_self, hval q List.mem_cons_self heq]
      · exact absurd heq (hother q hq)

end

/-- The nodes that were skipped, with their states. -/
theorem mem_skipped {body : List Props} {states : Nat → Option OpState}
    {q : Option OpState × Props} :
    q ∈ ((((List.range body.length).map states).zip body).filter fun q =>
        OpState.isSkipped q.1) ↔
      ∃ i, body[i]? = some q.2 ∧ q.1 = states i ∧ states i = some .skipped := by
  rw [List.mem_filter, List.mem_iff_getElem?]
  have hskip : ∀ state : Option OpState, OpState.isSkipped state = true ↔ state = some .skipped := by
    intro state
    rcases state with _ | _ | _ <;> simp [OpState.isSkipped]
  constructor
  · rintro ⟨⟨i, hi⟩, hq⟩
    obtain ⟨hstate, hnode⟩ := List.getElem?_zip_eq_some.mp hi
    have hlen := (List.getElem?_eq_some_iff.mp hnode).1
    rw [List.getElem?_map, List.getElem?_range hlen, Option.map_some] at hstate
    have := Option.some.inj hstate
    exact ⟨i, hnode, this.symm, this.trans ((hskip q.1).mp hq)⟩
  · rintro ⟨i, hnode, hq, hstate⟩
    have hlen := (List.getElem?_eq_some_iff.mp hnode).1
    refine ⟨⟨i, List.getElem?_zip_eq_some.mpr ⟨?_, hnode⟩⟩, (hskip q.1).mpr (hq.trans hstate)⟩
    rw [List.getElem?_map, List.getElem?_range hlen, Option.map_some, hq]

theorem writeUnproduced_eq (hids : UniqueIds prep.body) (cells : Cells) :
    writeUnproduced prep ((List.range prep.body.length).map (statesOf cells))
      (resultsOf prep.body cells) = finalResults prep.body cells := by
  funext x
  rw [writeUnproduced, finalResults]
  cases hx : idToIndex prep.body x with
  | none =>
    rw [foldl_update_other, resultsOf, hx, Option.bind_none, Option.bind_none]
    rintro q hq rfl
    obtain ⟨i, hi, -⟩ := mem_skipped.mp hq
    rw [idToIndex_nodeId hids hi] at hx
    cases hx
  | some i =>
    obtain ⟨node, hi, rfl⟩ := idToIndex_some hx
    have hsame : ∀ j other, prep.body[j]? = some other → nodeId other = nodeId node → j = i := by
      intro j other hj heq
      rw [← heq, idToIndex_nodeId hids hj] at hx
      exact Option.some.inj hx
    have hother (hcell : statesOf cells i ≠ some .skipped) :
        ∀ q ∈ (((List.range prep.body.length).map (statesOf cells)).zip prep.body).filter
          (fun q => OpState.isSkipped q.1), nodeId q.2 ≠ nodeId node := by
      rintro q hq heq
      obtain ⟨j, hj, -, hskip⟩ := mem_skipped.mp hq
      obtain rfl := hsame j q.2 hj heq
      exact hcell hskip
    rw [Option.bind_some, hi, Option.bind_some]
    cases hcell : cells i with
    | none =>
      rw [foldl_update_other (hother (by simp [statesOf, hcell])), resultsOf, hx, Option.bind_some,
        hcell]
      rfl
    | some c =>
      cases c with
      | ok port result =>
        rw [foldl_update_other (hother (by simp [statesOf, hcell, Cell.state])), resultsOf, hx,
          Option.bind_some, hcell]
        rfl
      | skipped =>
        have hskip : statesOf cells i = some .skipped := by simp [statesOf, hcell, Cell.state]
        refine foldl_update_mem ⟨(_, node), mem_skipped.mpr ⟨i, hi, rfl, hskip⟩, rfl⟩ ?_ _
        intro q hq heq
        obtain ⟨j, hj, -⟩ := mem_skipped.mp hq
        obtain rfl := hsame j q.2 hj heq
        rw [Option.some.inj (hj.symm.trans hi)]
        rfl

/-! ## Runs and solutions -/

theorem solves_iff {plan : Option (List (List Int))} (hplan : Plans prep.body plan) {cells : Cells} :
    Schedule.Settled (cellOf jsonEncode prep handlers input)
        (orderOf (stagesOf plan prep.body.length)) (fun _ => none) cells ↔
      Solves jsonEncode prep handlers input cells := by
  have hmem : ∀ i, i ∈ orderOf (stagesOf plan prep.body.length) ↔ i < prep.body.length := by
    intro i
    rw [(validateCoverage_order hplan.covers).mem_iff, List.mem_range]
  constructor
  · intro h
    refine ⟨fun i hi => h.written i ((hmem i).mpr hi), fun i hi => h.kept i fun hin => ?_⟩
    have := (hmem i).mp hin
    omega
  · intro h
    refine ⟨fun i hi => h.solved i ((hmem i).mp hi), fun i hi => h.bounded i ?_⟩
    exact Nat.le_of_not_lt fun hlt => hi ((hmem i).mpr hlt)

theorem resultsOf_none (body : List Props) : resultsOf body (fun _ => none) = fun _ => none := by
  funext x
  rw [resultsOf]
  cases idToIndex body x <;> rfl

theorem map_eq_ok {ε α β : Type} {x : Except ε α} {f : α → β} {b : β} :
    x.map f = .ok b ↔ ∃ a, x = .ok a ∧ f a = b := by
  refine ⟨map_ok, ?_⟩
  rintro ⟨a, rfl, rfl⟩
  rfl

/-- What a planned run leaves is a solution, and each solution is left by it. -/
theorem runOps_solves (hids : UniqueIds prep.body) {plan : Option (List (List Int))}
    (hplan : Plans prep.body plan) {left : (Nat → Option OpState) × Scope} :
    (∃ t, runOps (wrappedExec jsonEncode prep handlers input) (opsOf prep.body)
        (orderOf (stagesOf plan prep.body.length)) (initialRun fun _ => none) = .ok t ∧
        (t.states, t.world) = left) ↔
      ∃ cells, Solves jsonEncode prep handlers input cells ∧
        (statesOf cells, resultsOf prep.body cells) = left := by
  have hin : ∀ i ∈ orderOf (stagesOf plan prep.body.length), i < prep.body.length :=
    fun i hi => List.mem_range.mp ((validateCoverage_order hplan.covers).mem_iff.mp hi)
  rw [← map_eq_ok (f := fun t : Run Scope => (t.states, t.world)),
    runOps_eq hids hplan.ordered.nodup hin (fun _ _ => rfl) rfl
      (resultsOf_none prep.body).symm, map_eq_ok]
  refine exists_congr fun cells => and_congr_left fun _ => ?_
  rw [Schedule.run_ok_iff cellOf_local hplan.ordered, solves_iff hplan]

theorem runPrepared_solves (prep : PreparedComponent) (hids : UniqueIds prep.body)
    (hplan : Plans prep.body prep.planSpec) {v : Val} : runPrepared jsonEncode prep handlers input = .ok v ↔
      ∃ cells, Solves jsonEncode prep handlers (bindOptional prep.optionalPorts input) cells ∧
        prep.output (baseScope (bindOptional prep.optionalPorts input)
          (finalResults prep.body cells)) = .ok v := by
  have hlen : (opsOf prep.body).length = prep.body.length := List.length_map _
  rw [runPrepared, runPlan, hlen, hplan.covers]
  constructor
  · intro h
    obtain ⟨⟨run, results⟩, hrun, h⟩ := Exit.bind_ok_iff.mp h
    obtain ⟨⟨⟩, -, hrun⟩ := Exit.bind_ok_iff.mp hrun
    obtain ⟨t, ht, hrun⟩ := Exit.bind_ok_iff.mp hrun
    obtain ⟨rfl, rfl⟩ := Prod.mk.inj (Except.ok.inj hrun)
    obtain ⟨cells, hcells, hleft⟩ := (runOps_solves hids hplan).mp ⟨t, ht, rfl⟩
    obtain ⟨hstates, hresults⟩ := Prod.mk.inj hleft
    refine ⟨cells, hcells, ?_⟩
    rw [← writeUnproduced_eq hids, hstates, hresults]
    exact h
  · rintro ⟨cells, hcells, h⟩
    obtain ⟨t, ht, hleft⟩ := (runOps_solves hids hplan).mpr ⟨cells, hcells, rfl⟩
    obtain ⟨hstates, hresults⟩ := Prod.mk.inj hleft
    rw [← writeUnproduced_eq hids, ← hstates, ← hresults] at h
    exact Exit.bind_ok_iff.mpr ⟨_, Exit.bind_ok_iff.mpr ⟨(), rfl,
      Exit.bind_ok_iff.mpr ⟨t, ht, rfl⟩⟩, h⟩

/-- The equations of a component have at most one solution, and the component gives the output that
the scope of its solution makes. -/
theorem runPrepared_ok_iff (prep : PreparedComponent) (hids : UniqueIds prep.body)
    (hplan : Plans prep.body prep.planSpec) :
    (∀ cells cells', Solves jsonEncode prep handlers input cells →
      Solves jsonEncode prep handlers input cells' → cells = cells') ∧
    ∀ v, runPrepared jsonEncode prep handlers input = .ok v ↔
      ∃ cells, Solves jsonEncode prep handlers (bindOptional prep.optionalPorts input) cells ∧
        prep.output (baseScope (bindOptional prep.optionalPorts input)
          (finalResults prep.body cells)) = .ok v := by
  refine ⟨?_, fun v => runPrepared_solves prep hids hplan⟩
  intro cells cells' h h'
  have hrun := (Schedule.run_ok_iff cellOf_local hplan.ordered).mpr ((solves_iff hplan).mpr h)
  have hrun' := (Schedule.run_ok_iff cellOf_local hplan.ordered).mpr ((solves_iff hplan).mpr h')
  exact Except.ok.inj (hrun.symm.trans hrun')

/-- The two equations of a node and of one that reads it. -/
theorem runPrepared_ok_iff_pair :
    let body : List Props := [[("id", .str "a"), ("component", .str "get")],
      [("id", .str "b"), ("cond", .obj [("if", .bool true),
        ("then", .obj [("ref", .arr [.str "a"])])])]]
    let output : Val := .obj [("ref", .arr [.str "b"])]
    let handlers : Handlers := fun _ => some fun _ _ => .ok (.int 7)
    let prep : PreparedComponent := ⟨none, [], body, none, compile output⟩
    ∀ v, runPrepared (fun _ => "") prep handlers (fun _ => none) = .ok v ↔
      ∃ cells, Solves (fun _ => "") prep handlers (bindOptional prep.optionalPorts fun _ => none)
          cells ∧
        prep.output (baseScope (bindOptional prep.optionalPorts fun _ => none)
          (finalResults prep.body cells)) = .ok v := by
  intro body output handlers prep v
  have hids : UniqueIds body := by
    rw [UniqueIds]
    decide +kernel
  have hplan : Plans body none :=
    ⟨by rfl, by decide +kernel, by decide +kernel, by decide +kernel⟩
  exact (runPrepared_ok_iff prep hids hplan).2 v

/-- Two plans that run every operation after those that it reads give the same output. -/
theorem runPrepared_plan_independent (prep : PreparedComponent) (hids : UniqueIds prep.body)
    {plan plan' : Option (List (List Int))} (hplan : Plans prep.body plan)
    (hplan' : Plans prep.body plan') (v : Val) :
    runPrepared jsonEncode { prep with planSpec := plan } handlers input = .ok v ↔
      runPrepared jsonEncode { prep with planSpec := plan' } handlers input = .ok v := by
  rw [runPrepared_solves { prep with planSpec := plan } hids hplan,
    runPrepared_solves { prep with planSpec := plan' } hids hplan']
  refine exists_congr fun cells => and_congr_left fun _ => ?_
  exact ⟨fun h => ⟨h.solved, h.bounded⟩, fun h => ⟨h.solved, h.bounded⟩⟩

/-- The node of the third stage may as well be run before that of the second. -/
theorem runPrepared_plan_independent_stages :
    let body : List Props :=
      [[("id", .str "user"), ("component", .str "fetch"),
          ("ports", .obj [("id", .obj [("ref", .arr [.str "userId"])])])],
        [("id", .str "posts"), ("component", .str "list"), ("parent", .str "user"),
          ("bindField", .str "postsKey"), ("relationKind", .str "connection")],
        [("id", .str "name"), ("cond", .obj [("if", .bool true),
          ("then", .obj [("ref", .arr [.str "user", .str "name"])])])]]
    let output : Val := .obj [("obj", .obj [("name", .obj [("ref", .arr [.str "name"])]),
      ("posts", .obj [("ref", .arr [.str "posts", .str "items"])])])]
    let handlers : Handlers := fun _ => some fun _ _ => .ok (.obj [("name", .str "Ann")])
    let input : Scope := fun x => if x = "userId" then some (.int 4) else none
    ∀ v, runPrepared (fun _ => "") ⟨none, [], body, none, compile output⟩ handlers input = .ok v ↔
      runPrepared (fun _ => "") ⟨none, [], body, some [[0], [2], [1]], compile output⟩ handlers
        input = .ok v := by
  intro body output handlers input
  have hids : UniqueIds body := by
    rw [UniqueIds]
    decide +kernel
  have hnone : Plans body none :=
    ⟨by rfl, by decide +kernel, by decide +kernel, by decide +kernel⟩
  have hstages : Plans body (some [[0], [2], [1]]) :=
    ⟨by rfl, by decide +kernel, by decide +kernel, by decide +kernel⟩
  let prep : PreparedComponent := ⟨none, [], body, none, compile output⟩
  exact runPrepared_plan_independent prep hids hnone hstages

/-! ## Typed results -/

/-- A result is put down in its declared form, and a skipped node puts nothing down. -/
theorem runOp_world {i : Nat} {op : OpSpec} {r t : Run Scope} {state : OpState}
    (h : runOp (wrappedExec jsonEncode prep handlers input) i op r = .ok (state, t)) :
    t.states = r.states ∧ (state = .skipped ∧ t.world = r.world ∨
      ∃ v w, state = .ok v ∧ conformResult prep op v = .ok w ∧
        t.world = Function.update r.world op.id (some w)) := by
  obtain ⟨policy, -, h⟩ := Exit.bind_ok_iff.mp h
  split at h
  · obtain ⟨rfl, rfl⟩ := Prod.mk.inj (Except.ok.inj h)
    exact ⟨rfl, .inl ⟨rfl, rfl⟩⟩
  · obtain ⟨⟨outcome, world⟩, hexec, h⟩ := Exit.bind_ok_iff.mp h
    obtain ⟨result, hsettle, h⟩ := Exit.bind_ok_iff.mp h
    obtain ⟨given, -, hexec⟩ := Exit.bind_ok_iff.mp hexec
    cases given with
    | ok v =>
      obtain ⟨w, hw, hexec⟩ := Exit.bind_ok_iff.mp hexec
      obtain ⟨rfl, rfl⟩ := Prod.mk.inj (Except.ok.inj hexec)
      obtain rfl := Except.ok.inj hsettle
      obtain ⟨rfl, rfl⟩ := Prod.mk.inj (Except.ok.inj h)
      exact ⟨rfl, .inr ⟨v, w, rfl, hw, rfl⟩⟩
    | error message detail =>
      obtain ⟨rfl, rfl⟩ := Prod.mk.inj (Except.ok.inj hexec)
      obtain rfl := settle_error hsettle
      obtain ⟨rfl, rfl⟩ := Prod.mk.inj (Except.ok.inj h)
      exact ⟨rfl, .inl ⟨rfl, rfl⟩⟩

/-- What each node that succeeded is read as is its port in the declared form. -/
def Conformed (prep : PreparedComponent) (r : Run Scope) : Prop :=
  ∀ i node v, prep.body[i]? = some node → r.states i = some (.ok v) →
    ∃ w, r.world (nodeId node) = some w ∧
      conformResult prep (opOfNode prep.body node) v = .ok w

theorem Conformed.run (hids : UniqueIds prep.body) {order : List Nat} {r t : Run Scope}
    (h : Conformed prep r)
    (hrun : runOps (wrappedExec jsonEncode prep handlers input) (opsOf prep.body) order r = .ok t)
    (hfresh : ∀ i ∈ order, r.states i = none) (hnodup : order.Nodup) : Conformed prep t := by
  induction order generalizing r with
  | nil =>
    obtain rfl := Except.ok.inj hrun
    exact h
  | cons i order ih =>
    obtain ⟨hnot, hnodup⟩ := List.nodup_cons.mp hnodup
    rw [runOps] at hrun
    cases hop : (opsOf prep.body)[i]? with
    | none =>
      rw [hop] at hrun
      exact ih h hrun (fun j hj => hfresh j (List.mem_cons_of_mem i hj)) hnodup
    | some op =>
      rw [hop] at hrun
      obtain ⟨⟨state, s⟩, hstep, hrest⟩ := Exit.bind_ok_iff.mp hrun
      rw [opsOf, List.getElem?_map] at hop
      obtain ⟨node, hi, rfl⟩ := Option.map_eq_some_iff.mp hop
      obtain ⟨hstates, hcase⟩ := runOp_world hstep
      refine ih ?_ hrest ?_ hnodup
      · intro j other v hj hv
        by_cases hji : j = i
        · subst hji
          obtain rfl := Option.some.inj (hi.symm.trans hj)
          simp only [Function.update_self] at hv
          obtain rfl := Option.some.inj hv
          rcases hcase with ⟨hskip, -⟩ | ⟨v', w, hstate, hw, hworld⟩
          · cases hskip
          · obtain rfl := OpState.ok.inj hstate
            refine ⟨w, ?_, hw⟩
            rw [hworld]
            exact Function.update_self _ _ _
        · simp only [Function.update_of_ne hji, hstates] at hv
          obtain ⟨w, hbound, hw⟩ := h j other v hj hv
          refine ⟨w, ?_, hw⟩
          rcases hcase with ⟨-, hworld⟩ | ⟨v', w', -, -, hworld⟩
          · rw [hworld]
            exact hbound
          · have hne : nodeId other ≠ nodeId node := by
              intro heq
              have := idToIndex_nodeId hids hj
              rw [heq, idToIndex_nodeId hids hi] at this
              exact hji (Option.some.inj this).symm
            rw [hworld, show (opOfNode prep.body node).id = nodeId node from rfl,
              Function.update_of_ne hne]
            exact hbound
      · intro j hj
        simp only [hstates, Function.update_of_ne (ne_of_mem_of_not_mem hj hnot)]
        exact hfresh j (List.mem_cons_of_mem i hj)

theorem conformResult_hasType (hids : UniqueIds prep.body) {i : Nat} {node : Props} {t v w : Val}
    (hi : prep.body[i]? = some node) (ht : node.lookup "outType" = some t)
    (h : conformResult prep (opOfNode prep.body node) v = .ok w) :
    HasType (resultTypeOf node t) w := by
  rw [conformResult, nodeOf_op hids hi, compileNodeConformer, ht] at h
  cases hc : compileConformer (resultTypeOf node t) with
  | pass =>
    refine hasType_of_apply _ w w ?_
    rw [hc, Conformer.apply]
  | check f =>
    simp only [hc] at h
    refine hasType_of_apply _ v w ?_
    rw [hc, Conformer.apply]
    cases hf : f v with
    | error e =>
      rw [hf] at h
      cases h
    | ok w' =>
      rw [hf] at h
      exact congrArg Except.ok (Except.ok.inj h)

/-- In every run that ends, whatever the plan and the leaves, the nodes that succeeded are read as
values of the types that they declare. -/
theorem runPlan_typed (hids : UniqueIds prep.body) {run : RunResult} {results : Scope}
    (h : runPlan (wrappedExec jsonEncode prep handlers input) prep.planSpec (opsOf prep.body)
      (fun _ => none) = .ok (run, results)) {i : Nat} {node : Props} {t v : Val}
    (hi : prep.body[i]? = some node) (ht : node.lookup "outType" = some t)
    (hv : run.stateOf i = some (.ok v)) :
    ∃ w, baseScope input results (nodeId node) = some w ∧ HasType (resultTypeOf node t) w := by
  obtain ⟨⟨⟩, hcover, h⟩ := Exit.bind_ok_iff.mp h
  obtain ⟨r, hrun, h⟩ := Exit.bind_ok_iff.mp h
  obtain ⟨rfl, rfl⟩ := Prod.mk.inj (Except.ok.inj h)
  have hnodup := (validateCoverage_order hcover).nodup_iff.mpr List.nodup_range
  have hinitial : Conformed prep (initialRun fun _ => none) := by
    intro j other v' _ hv'
    cases hv'
  have hlen : i < (opsOf prep.body).length := by
    rw [opsOf, List.length_map]
    exact (List.getElem?_eq_some_iff.mp hi).1
  rw [RunResult.stateOf, List.getElem?_map, List.getElem?_range hlen] at hv
  obtain ⟨w, hbound, hw⟩ := hinitial.run hids hrun (fun _ _ => rfl) hnodup i node v hi hv
  refine ⟨w, ?_, conformResult_hasType hids hi ht hw⟩
  rw [baseScope, hbound, Option.some_or]

/-- The leaf leaves the note out; the node is read with it. -/
theorem runPlan_typed_row :
    let note : Val := .obj [("obj", .obj [("n", .str "int"), ("note", .obj [("opt", .str "string")])])]
    let body : List Props := [[("id", .str "row"), ("component", .str "get"), ("outType", note)]]
    let handlers : Handlers := fun _ => some fun _ _ => .ok (.obj [("n", .int 7)])
    ∃ run results, runPlan (wrappedExec (fun _ => "") ⟨none, [], body, none, constant .null⟩ handlers
        fun _ => none) none (opsOf body) (fun _ => none) = .ok (run, results) ∧
      ∃ w, baseScope (fun _ => none) results "row" = some w ∧ HasType note w := by
  intro note body handlers
  let prep : PreparedComponent := ⟨none, [], body, none, constant .null⟩
  have hids : UniqueIds body := by
    rw [UniqueIds]
    decide +kernel
  have h : runPlan (wrappedExec (fun _ => "") prep handlers fun _ => none) prep.planSpec
      (opsOf prep.body) (fun _ => none) = .ok (⟨[some (.ok (.obj [("n", .int 7)]))], ["row"], []⟩,
        Function.update (fun _ => none) "row" (some (.obj [("n", .int 7), ("note", .null)]))) := by
    rfl
  exact ⟨_, _, h, runPlan_typed (i := 0) (t := note) hids h rfl rfl rfl⟩

end LiteDb.Behavior
