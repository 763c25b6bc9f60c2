import LiteDbModel.Behavior.ExprEval
import LiteDbModel.Behavior.OutType
import LiteDbModel.Behavior.Plan
import LiteDbModel.Lib.Keyed

/-!
# The nodes of a component

A node of a component's body calls a leaf, calls one for the elements of an array, fans an array of
ids out, or chooses between two expressions.
-/

namespace LiteDb.Behavior
set_option autoImplicit false

abbrev Props := List (String × Val)

/-- The properties of an object. -/
def recordOf : Option Val → Props
  | some (.obj ps) => ps
  | _ => []

def optStr : Option Val → Option String
  | some (.str s) => some s
  | _ => none

/-- A name that is put into a text. -/
def textOf (v : Option Val) : String := (optStr v).getD ""

inductive NodeKind
  | fanout | map | cond | componentRef
deriving DecidableEq

def kindOf (node : Props) : Option NodeKind :=
  if (node.lookup "fanout").isSome then some .fanout
  else if (node.lookup "map").isSome then some .map
  else if (node.lookup "cond").isSome then some .cond
  else if (node.lookup "component").isSome then some .componentRef
  else none

def nodeKind (node : Props) : Except Failure NodeKind :=
  match kindOf node with
  | some kind => .ok kind
  | none =>
    raise .unknownNodeKind ("body node '" ++ ((optStr (node.lookup "id")).getD "?") ++
      "' is not componentRef/map/cond/fanout")

/-- Where a node keeps what it says of itself; a node of no kind keeps it as a leaf does. -/
def nodeHead (node : Props) : Props :=
  match kindOf node with
  | some .fanout => recordOf (node.lookup "fanout")
  | some .map => recordOf (node.lookup "map")
  | some .cond => recordOf (node.lookup "cond")
  | _ => node

def nodeParent (node : Props) : Option String := optStr ((nodeHead node).lookup "parent")

def nodeBindField (node : Props) : Option String :=
  match kindOf node with
  | some .fanout | some .map | some .cond => none
  | _ => optStr (node.lookup "bindField")

def nodePolicy (node : Props) : Option String :=
  match kindOf node with
  | some .cond => none
  | _ => optStr ((nodeHead node).lookup "policy")

def nodeRelationKind (node : Props) : Option String :=
  match kindOf node with
  | some .cond => none
  | _ => optStr ((nodeHead node).lookup "relationKind")

def nodeId (node : Props) : String := textOf (node.lookup "id")

/-! ## The expressions of a node -/

structure NodeExprs where
  cond : Eval
  «over» : Eval
  when : Option Eval
  transform : Option Eval
  ports : List (String × Eval)

def compilePorts (ports : Option Val) : List (String × Eval) :=
  (recordOf ports).map fun p => (p.1, compile p.2)

/-- `{cond: [c, t, e]}`. -/
def condNode (c t e : Val) : Val := .obj [("cond", .arr [c, t, e])]

def orNull (v : Option Val) : Val := v.getD .null

def isTransform (m : Props) : Bool :=
  (match m.lookup "component" with
  | none | some .null => true
  | some _ => false) && (m.lookup "transform").isSome

def noExprs : NodeExprs := ⟨constant .null, constant .null, none, none, []⟩

def compileNodeExprs (node : Props) : NodeExprs :=
  match kindOf node with
  | some .fanout =>
    let f := recordOf (node.lookup "fanout")
    { noExprs with
      «over» := compile (orNull (f.lookup "over"))
      ports := compilePorts (f.lookup "ports") }
  | some .map =>
    let m := recordOf (node.lookup "map")
    { noExprs with
      «over» := compile (orNull (m.lookup "over"))
      when := (m.lookup "when").map fun w => compile (condNode w (.bool true) (.bool false))
      transform := if isTransform m then (m.lookup "transform").map compile else none
      ports := if isTransform m then [] else compilePorts (m.lookup "ports") }
  | some .cond =>
    let c := recordOf (node.lookup "cond")
    { noExprs with
      cond := compile (condNode (orNull (c.lookup "if")) (orNull (c.lookup "then"))
        (orNull (c.lookup "else"))) }
  | some .componentRef => { noExprs with ports := compilePorts (node.lookup "ports") }
  | none => noExprs

/-! ## What is declared of an iterated value -/

def scalarPort (type : String) : Bool :=
  type = "string" || type = "int" || type = "float" || type = "bool" || type = "null"

def isFalse : Option Val → Bool
  | some (.bool b) => !b
  | _ => false

def portableTypeOfInputPort (schema : Props) : Option Val :=
  let type := textOf (schema.lookup "type")
  let base :=
    if scalarPort type then some (.str type)
    else if type = "array" then (schema.lookup "elemType").map fun t => .obj [("arr", t)]
    else if type = "map" then (schema.lookup "elemType").map fun t => .obj [("map", t)]
    else none
  base.map fun t => if isFalse (schema.lookup "required") then .obj [("opt", t)] else t

/-- The type of a field, given what the type of `opt` makes of it; `obj` comes before `opt`. -/
def descendProps (field : String) (fields : Option Val) (inner : Option (Option Val)) : Option Val :=
  match fields with
  | some (.obj ps) => ps.lookup field
  | some _ => none
  | none =>
    match inner with
    | some (some t) => some (.obj [("opt", t)])
    | _ => none

mutual
def descendType (field : String) : Val → Option Val
  | .obj props => descendProps field (props.lookup "obj") ((descendTypes field props).lookup "opt")
  | _ => none

def descendTypes (field : String) : List (String × Val) → List (String × Option Val)
  | [] => []
  | (k, t) :: props => (k, descendType field t) :: descendTypes field props
end

/-- The path of a lone `ref` or `refOpt`. -/
def bareRefPath : Val → Option (String × List String)
  | .obj [(k, .arr path)] =>
    if k = "ref" ∨ k = "refOpt" then
      match segments path with
      | some (head :: rest) => some (head, rest)
      | _ => none
    else none
  | _ => none

def isOptArrType : Val → Bool
  | .obj props =>
    match props.lookup "opt" with
    | some (.obj inner) => (inner.lookup "arr").isSome
    | _ => false
  | _ => false

def descendPath (t : Val) : List String → Option Val
  | [] => some t
  | f :: rest =>
    match descendType f t with
    | some t => descendPath t rest
    | none => none

def endsInOptArr (t : Option Val) (rest : List String) : Bool :=
  match t with
  | some t => ((descendPath t rest).map isOptArrType).getD false
  | none => false

/-- Whether the iterated reference is declared to be an array that may be absent. -/
def overIsDeclaredOptArr (overExpr : Val) (body : List Props) (inputPorts : Option Props) : Bool :=
  match bareRefPath overExpr with
  | none => false
  | some (head, rest) =>
    match body.find? fun n => optStr (n.lookup "id") = some head with
    | some node => endsInOptArr ((node.lookup "outType").map (resultTypeOf node)) rest
    | none =>
      match inputPorts.bind (·.lookup head) with
      | some (.obj schema) =>
        if rest = [] then
          isFalse (schema.lookup "required") && decide (optStr (schema.lookup "type") = some "array")
        else endsInOptArr (portableTypeOfInputPort schema) rest
      | _ => false

def resolveOverArray («over» overExpr : Val) (body : List Props) (inputPorts : Option Props)
    (opId : String) (code : FailureCode) (label : String) : Except Failure (List Val) :=
  match «over» with
  | .arr els => .ok els
  | .null =>
    if overIsDeclaredOptArr overExpr body inputPorts then .ok []
    else raise code (label ++ " '" ++ opId ++ "': 'over' did not evaluate to an array")
  | _ => raise code (label ++ " '" ++ opId ++ "': 'over' did not evaluate to an array")

/-! ## Leaves -/

/-- What a leaf is told of where it is called. -/
structure Ctx where
  nodeId : String
  component : String
  bound : Option Val

abbrev Handler := Props → Ctx → ExecOutcome

abbrev Handlers := String → Option Handler

def handlerOf (handlers : Handlers) (component : String) : Except Failure Handler :=
  match handlers component with
  | some handler => .ok handler
  | none =>
    raise .unknownComponent ("component '" ++ component ++ "' has no handler (fail-closed)")

/-- The list that a batched call is answered with, where it is aligned to the items. -/
def alignedList (v : Val) (n : Nat) : Option (List Val) :=
  match v with
  | .arr r => if r.length = n then some r else none
  | _ => none

/-! ## Maps -/

def bindElement (scope : Scope) (as : String) (el : Val) : Scope := Function.update scope as (some el)

/-- The guard is strict: only `true` keeps an element. -/
def keep (when : Option Eval) (scope : Scope) : Except Failure Bool :=
  match when with
  | none => .ok true
  | some guard => do
    match ← guard scope with
    | .bool true => .ok true
    | _ => .ok false

def transformAll (when : Option Eval) (transform : Eval) (scope : Scope) (as : String) :
    List Val → Except Failure (List Val)
  | [] => .ok []
  | el :: els => do
    if ← keep when (bindElement scope as el) then
      let v ← transform (bindElement scope as el)
      let vs ← transformAll when transform scope as els
      .ok (v :: vs)
    else transformAll when transform scope as els

/-- The ports of the kept elements, with the elements' indices. -/
def batchItems (when : Option Eval) (ports : List (String × Eval)) (scope : Scope) (as : String) :
    Nat → List Val → Except Failure (List (Nat × Val))
  | _, [] => .ok []
  | i, el :: els => do
    if ← keep when (bindElement scope as el) then
      let ps ← evalFields (bindElement scope as el) ports
      let items ← batchItems when ports scope as (i + 1) els
      .ok ((i, .obj ps) :: items)
    else batchItems when ports scope as (i + 1) els

/-- A leaf's error: its message, and what it says of it. -/
abbrev LeafError := String × Option Detail

/-- The results of the kept elements with their indices, or the error that a failed element gives
the whole map. -/
def eachElement (when : Option Eval) (ports : List (String × Eval)) (handler : Handler) (ctx : Ctx)
    (skipFailed : Bool) (scope : Scope) (as : String) :
    Nat → List Val → Except Failure (Except LeafError (List (Nat × Val)))
  | _, [] => .ok (.ok [])
  | i, el :: els => do
    if ← keep when (bindElement scope as el) then
      let ps ← evalFields (bindElement scope as el) ports
      match handler ps { ctx with bound := some el } with
      | .ok v => do
        let rest ← eachElement when ports handler ctx skipFailed scope as (i + 1) els
        .ok (rest.map ((i, v) :: ·))
      | .error message detail =>
        if skipFailed then eachElement when ports handler ctx skipFailed scope as (i + 1) els
        else .ok (.error (message, detail))
    else eachElement when ports handler ctx skipFailed scope as (i + 1) els

def runBatch (handler : Handler) (ctx : Ctx) (mismatch : Failure) (items : List (Nat × Val)) :
    Except Failure (Except LeafError (List (Nat × Val))) :=
  if items = [] then .ok (.ok [])
  else
    match handler [("items", .arr (items.map (·.2)))] ctx with
    | .error message detail => .ok (.error (message, detail))
    | .ok v =>
      match alignedList v items.length with
      | some r => .ok (.ok ((items.map (·.1)).zip r))
      | none => .error mismatch

/-- The result of the element at an index, where it is the next one that was kept. -/
def nextKept (i : Nat) : List (Nat × Val) → Option Val × List (Nat × Val)
  | (j, v) :: rest => if j = i then (some v, rest) else (none, (j, v) :: rest)
  | [] => (none, [])

/-- What is put into an element that was not kept: the empty connection, or nothing. -/
def unkept (relationKind : Option String) : Option Val :=
  if relationKind = some "connection" then some (unproducedValue relationKind) else none

/-- The elements with the results put into them. -/
def attach (opId into : String) (relationKind : Option String) :
    Nat → List Val → List (Nat × Val) → Except Failure (List Val)
  | _, [], _ => .ok []
  | i, el :: els, kept =>
    let (found, rest) := nextKept i kept
    match found.or (unkept relationKind) with
    | none => do
      let vs ← attach opId into relationKind (i + 1) els rest
      .ok (el :: vs)
    | some v =>
      match el with
      | .obj ps => do
        let vs ← attach opId into relationKind (i + 1) els rest
        .ok (.obj (Keyed.put into v ps) :: vs)
      | _ =>
        raise .mapIntoElementNotObject ("map '" ++ opId ++
          "': 'into' requires object elements (element " ++ toString i ++ " is not an object)")

def elementPolicyOf (m : Props) : String :=
  match m.lookup "elementPolicy" with
  | none | some .null => "error"
  | v => textOf v

/-- `skip` drops the elements that fail; it needs a failure for each of them. -/
def elementPolicy (opId : String) (m : Props) (batched : Bool) : Except Failure Bool :=
  let policy := elementPolicyOf m
  if policy ≠ "error" ∧ policy ≠ "skip" then
    raise .unknownElementPolicy
      ("map '" ++ opId ++ "': unknown element policy '" ++ policy ++ "' (fail-closed)")
  else if policy = "skip" ∧ batched then
    raise .elementPolicyNotApplicable ("map '" ++ opId ++
      "': elementPolicy 'skip' needs a per-element Failure, but a batched map takes ONE outcome " ++
      "for the whole batch (fail-closed)")
  else .ok (policy = "skip")

def isTrue : Option Val → Bool
  | some (.bool b) => b
  | _ => false

def batchMismatch (opId : String) (want : Nat) : Failure :=
  ⟨.mapBatchResultMismatch, "map '" ++ opId ++
    "': batched handler must return a list aligned to items (want " ++ toString want ++ ")", none⟩

/-- The results of the elements: of one call for all of them, or of a call for each. -/
def collect (handler : Handler) (ctx : Ctx) (m : Props) (exprs : NodeExprs) (skipFailed : Bool)
    (scope : Scope) (els : List Val) : Except Failure (Except LeafError (List (Nat × Val))) :=
  let as := textOf (m.lookup "as")
  if isTrue (m.lookup "batched") then do
    let items ← batchItems exprs.when exprs.ports scope as 0 els
    runBatch handler ctx (batchMismatch ctx.nodeId items.length) items
  else eachElement exprs.when exprs.ports handler ctx skipFailed scope as 0 els

def mapOutcome (m : Props) (opId : String) (relationKind : Option String) (els : List Val) :
    Except LeafError (List (Nat × Val)) → Except Failure ExecOutcome
  | .error (message, detail) => .ok (.error message detail)
  | .ok kept =>
    match m.lookup "into" with
    | none => .ok (.ok (.arr (kept.map (·.2))))
    | some into => do
      let vs ← attach opId (textOf (some into)) relationKind 0 els kept
      .ok (.ok (.arr vs))

def execMap (handlers : Handlers) (m : Props) (exprs : NodeExprs) (relationKind : Option String)
    (opId : String) (scope : Scope) (els : List Val) : Except Failure ExecOutcome :=
  match exprs.transform with
  | some transform => do
    let vs ← transformAll exprs.when transform scope (textOf (m.lookup "as")) els
    .ok (.ok (.arr vs))
  | none => do
    let component := textOf (m.lookup "component")
    let handler ← handlerOf handlers component
    let skipFailed ← elementPolicy opId m (isTrue (m.lookup "batched"))
    let collected ← collect handler ⟨opId, component, none⟩ m exprs skipFailed scope els
    mapOutcome m opId relationKind els collected

/-! ## Fans -/

section
variable (jsonEncode : Val → String)

/-- What a body is recognised by; a text never meets the JSON of another value. -/
def seenKey : Val → String
  | .str s => "s:" ++ s
  | v => "j:" ++ jsonEncode v

/-- The key of a body that has one. -/
def dedupeKeyOf (dedupeKey : String) : Val → Option Val
  | .obj rec =>
    match rec.lookup dedupeKey with
    | none | some .null => none
    | some v => some v
  | _ => none

def stripImplicit (implicitSource : Option String) : Val → Val
  | .obj rec =>
    match implicitSource with
    | some source => .obj (rec.filter fun p => p.1 ≠ source)
    | none => .obj rec
  | v => v

def fanoutDedupDrop (dedupeKey drop : String) (implicitSource : Option String) :
    List String → List Val → List Val
  | _, [] => []
  | seen, body :: bodies =>
    match dedupeKeyOf dedupeKey body with
    | none =>
      if drop = "dangling" then fanoutDedupDrop dedupeKey drop implicitSource seen bodies
      else body :: fanoutDedupDrop dedupeKey drop implicitSource seen bodies
    | some key =>
      if seenKey jsonEncode key ∈ seen then
        fanoutDedupDrop dedupeKey drop implicitSource seen bodies
      else
        stripImplicit implicitSource body ::
          fanoutDedupDrop dedupeKey drop implicitSource (seenKey jsonEncode key :: seen) bodies

def connection (items : List Val) : Val := .obj [("items", .arr items), ("cursor", .null)]

def fanItems (ports : List (String × Eval)) (scope : Scope) (as : String) :
    List Val → Except Failure (List Val)
  | [] => .ok []
  | el :: els => do
    let ps ← evalFields (bindElement scope as el) ports
    let items ← fanItems ports scope as els
    .ok (.obj ps :: items)

def execFanout (handlers : Handlers) (f : Props) (exprs : NodeExprs) (opId : String)
    (scope : Scope) (els : List Val) : Except Failure ExecOutcome := do
  let component := textOf (f.lookup "component")
  let handler ← handlerOf handlers component
  let items ← fanItems exprs.ports scope (textOf (f.lookup "as")) els
  if items.length = 0 then .ok (.ok (connection []))
  else
    match handler [("items", .arr items)] ⟨opId, component, none⟩ with
    | .error message detail => .ok (.error message detail)
    | .ok v =>
      match alignedList v items.length with
      | none =>
        raise .fanoutBatchResultMismatch ("fanout '" ++ opId ++
          "': batched handler must return a list aligned to the deduped id list (want " ++
          toString items.length ++ ")")
      | some r =>
        .ok (.ok (connection (fanoutDedupDrop jsonEncode (textOf (f.lookup "dedupeKey"))
          (textOf (f.lookup "drop")) (optStr (f.lookup "implicitSource")) [] r)))

/-! ## Nodes -/

/-- What a node makes of the scope that it is run in. -/
def execNode (body : List Props) (inputPorts : Option Props) (handlers : Handlers) (node : Props)
    (exprs : NodeExprs) (opId : String) (scope : Scope) : Except Failure ExecOutcome := do
  match ← nodeKind node with
  | .cond => do
    let v ← exprs.cond scope
    .ok (.ok v)
  | .map => do
    let m := recordOf (node.lookup "map")
    let v ← exprs.over scope
    let els ← resolveOverArray v (orNull (m.lookup "over")) body inputPorts opId .mapOverNotArray
      "map"
    execMap handlers m exprs (nodeRelationKind node) opId scope els
  | .fanout => do
    let f := recordOf (node.lookup "fanout")
    let v ← exprs.over scope
    let els ← resolveOverArray v (orNull (f.lookup "over")) body inputPorts opId
      .fanoutOverNotArray "fanout"
    execFanout jsonEncode handlers f exprs opId scope els
  | .componentRef => do
    let component := textOf (node.lookup "component")
    let handler ← handlerOf handlers component
    let ports ← evalFields scope exprs.ports
    .ok (handler ports ⟨opId, component, none⟩)

end

/-! ## What a node depends on -/

def portHeads (ports : Option Val) : List String :=
  ((recordOf ports).map fun p => heads p.2).flatten

/-- The bindings that the expressions of a node begin at. -/
def nodeHeads (node : Props) : List String :=
  match kindOf node with
  | some .fanout =>
    let f := recordOf (node.lookup "fanout")
    heads (orNull (f.lookup "over")) ++ portHeads (f.lookup "ports")
  | some .map =>
    let m := recordOf (node.lookup "map")
    heads (orNull (m.lookup "over")) ++
      (heads (condNode (orNull (m.lookup "when")) (.bool true) (.bool false)) ++
        (heads (orNull (m.lookup "transform")) ++ portHeads (m.lookup "ports")))
  | some .cond =>
    let c := recordOf (node.lookup "cond")
    heads (condNode (orNull (c.lookup "if")) (orNull (c.lookup "then")) (orNull (c.lookup "else")))
  | some .componentRef => portHeads (node.lookup "ports")
  | none => []

structure NodeExprs.DependOn (named : String → Prop) (exprs : NodeExprs) : Prop where
  cond : DependsOn named exprs.cond
  iterated : DependsOn named exprs.over
  when : ∀ f, exprs.when = some f → DependsOn named f
  transform : ∀ f, exprs.transform = some f → DependsOn named f
  ports : ∀ p ∈ exprs.ports, DependsOn named p.2

section
variable {named : String → Prop}

theorem dependsOn_compile {node : Val} (h : ∀ x ∈ heads node, named x) :
    DependsOn named (compile node) :=
  fun _ _ hagree => evaluate_congr fun x hx => hagree x (h x hx)

theorem dependsOn_ports {ports : Option Val} (h : ∀ x ∈ portHeads ports, named x) :
    ∀ p ∈ compilePorts ports, DependsOn named p.2 := by
  intro p hp
  obtain ⟨q, hq, rfl⟩ := List.mem_map.mp hp
  exact dependsOn_compile fun x hx =>
    h x (List.mem_flatten.mpr ⟨_, List.mem_map_of_mem hq, hx⟩)

theorem noExprs_dependOn : noExprs.DependOn named :=
  ⟨fun _ _ _ => rfl, fun _ _ _ => rfl, by simp [noExprs], by simp [noExprs], by simp [noExprs]⟩

theorem compileNodeExprs_dependOn (node : Props) :
    (compileNodeExprs node).DependOn (· ∈ nodeHeads node) := by
  unfold compileNodeExprs nodeHeads
  cases kindOf node with
  | none => exact noExprs_dependOn
  | some kind =>
    cases kind with
    | fanout =>
      refine { noExprs_dependOn with iterated := ?_, ports := ?_ }
      · exact dependsOn_compile fun x hx => List.mem_append_left _ hx
      · exact dependsOn_ports fun x hx => List.mem_append_right _ hx
    | cond => exact { noExprs_dependOn with cond := dependsOn_compile fun x hx => hx }
    | componentRef => exact { noExprs_dependOn with ports := dependsOn_ports fun x hx => hx }
    | map =>
      refine { noExprs_dependOn with iterated := ?_, when := ?_, transform := ?_, ports := ?_ }
      · exact dependsOn_compile fun x hx => List.mem_append_left _ hx
      · intro f hf
        obtain ⟨w, hw, rfl⟩ := Option.map_eq_some_iff.mp hf
        refine dependsOn_compile fun x hx => ?_
        simp only [hw]
        exact List.mem_append_right _ (List.mem_append_left _ hx)
      · intro f hf
        dsimp only at hf
        split at hf
        · obtain ⟨t, ht, rfl⟩ := Option.map_eq_some_iff.mp hf
          refine dependsOn_compile fun x hx => ?_
          simp only [ht]
          exact List.mem_append_right _ (List.mem_append_right _ (List.mem_append_left _ hx))
        · cases hf
      · intro p hp
        dsimp only at hp
        split at hp
        · cases hp
        · refine dependsOn_ports (fun x hx => ?_) p hp
          exact List.mem_append_right _ (List.mem_append_right _ (List.mem_append_right _ hx))

variable {s t : Scope} {exprs : NodeExprs}

theorem agree_bindElement (h : ∀ x, named x → s x = t x) (as : String) (el : Val) :
    ∀ x, named x → bindElement s as el x = bindElement t as el x := by
  intro x hx
  by_cases hxa : x = as
  · simp [bindElement, hxa]
  · simp [bindElement, hxa, h x hx]

theorem keep_congr {when : Option Eval} (hwhen : ∀ f, when = some f → DependsOn named f)
    (h : ∀ x, named x → s x = t x) : keep when s = keep when t := by
  cases when with
  | none => rfl
  | some guard => rw [keep, keep, hwhen guard rfl s t h]

theorem ports_congr {ports : List (String × Eval)} (hports : ∀ p ∈ ports, DependsOn named p.2)
    (h : ∀ x, named x → s x = t x) : evalFields s ports = evalFields t ports :=
  evalFields_congr fun p hp => hports p hp s t h

variable (hexprs : exprs.DependOn named) (hagree : ∀ x, named x → s x = t x)
include hexprs hagree

theorem transformAll_congr {transform : Eval} (ht : DependsOn named transform) (as : String)
    (els : List Val) : transformAll exprs.when transform s as els =
      transformAll exprs.when transform t as els := by
  induction els with
  | nil => rfl
  | cons el els ih =>
    have hbound := agree_bindElement hagree as el
    rw [transformAll, transformAll, keep_congr hexprs.when hbound, ht _ _ hbound, ih]

theorem batchItems_congr (as : String) (i : Nat) (els : List Val) :
    batchItems exprs.when exprs.ports s as i els = batchItems exprs.when exprs.ports t as i els := by
  induction els generalizing i with
  | nil => rfl
  | cons el els ih =>
    have hbound := agree_bindElement hagree as el
    rw [batchItems, batchItems, keep_congr hexprs.when hbound, ports_congr hexprs.ports hbound, ih]

theorem eachElement_congr (handler : Handler) (ctx : Ctx) (skipFailed : Bool) (as : String)
    (i : Nat) (els : List Val) :
    eachElement exprs.when exprs.ports handler ctx skipFailed s as i els =
      eachElement exprs.when exprs.ports handler ctx skipFailed t as i els := by
  induction els generalizing i with
  | nil => rfl
  | cons el els ih =>
    have hbound := agree_bindElement hagree as el
    rw [eachElement, eachElement, keep_congr hexprs.when hbound, ports_congr hexprs.ports hbound, ih]

theorem fanItems_congr (as : String) (els : List Val) :
    fanItems exprs.ports s as els = fanItems exprs.ports t as els := by
  induction els with
  | nil => rfl
  | cons el els ih =>
    rw [fanItems, fanItems, ports_congr hexprs.ports (agree_bindElement hagree as el), ih]

theorem execMap_congr (handlers : Handlers) (m : Props) (relationKind : Option String)
    (opId : String) (els : List Val) :
    execMap handlers m exprs relationKind opId s els =
      execMap handlers m exprs relationKind opId t els := by
  unfold execMap collect
  cases htransform : exprs.transform with
  | some transform =>
    simp only [transformAll_congr hexprs hagree (hexprs.transform transform htransform)]
  | none =>
    simp only [batchItems_congr hexprs hagree, eachElement_congr hexprs hagree]

/-- A node sees no binding but those that its expressions begin at. -/
theorem execNode_congr (jsonEncode : Val → String) (body : List Props) (inputPorts : Option Props)
    (handlers : Handlers) (node : Props) (opId : String) :
    execNode jsonEncode body inputPorts handlers node exprs opId s =
      execNode jsonEncode body inputPorts handlers node exprs opId t := by
  unfold execNode execFanout
  simp only [hexprs.cond s t hagree, hexprs.iterated s t hagree, execMap_congr hexprs hagree,
    fanItems_congr hexprs hagree, ports_congr hexprs.ports hagree]

end

end LiteDb.Behavior
