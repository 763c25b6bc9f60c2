import LiteDbModel.Behavior.Nodes
import LiteDbModel.Lib.Schedule

/-!
# Runs of a component

A component is resolved once, its nodes are run as the operations of its plan, each in the scope of
the input and of the results so far, and its output is evaluated in the scope that is left.
-/

namespace LiteDb.Behavior
set_option autoImplicit false

/-! ## Components -/

/-- What a component is resolved to. -/
structure PreparedComponent where
  inputPorts : Option Props
  optionalPorts : List String
  body : List Props
  planSpec : Option (List (List Int))
  output : Eval

def arrayOf : Option Val → List Val
  | some (.arr vs) => vs
  | _ => []

/-- The last node of the name. -/
def idToIndex (body : List Props) (id : String) : Option Nat :=
  ((List.range body.length).reverse).find? fun i => (body[i]?.map nodeId) = some id

def opOfNode (body : List Props) (node : Props) : OpSpec :=
  ⟨nodeId node, (nodeParent node).bind (idToIndex body), nodeBindField node, nodeRelationKind node,
    nodePolicy node⟩

def opsOf (body : List Props) : List OpSpec := body.map (opOfNode body)

def readStage (stage : Val) : List Int :=
  (arrayOf (some stage)).filterMap fun i =>
    match i with
    | .int n => some n
    | _ => none

def planSpecOf : Option Val → Option (List (List Int))
  | some (.obj plan) => some ((arrayOf (plan.lookup "groups")).map readStage)
  | _ => none

def optionalPortsOf (inputPorts : Props) : List String :=
  inputPorts.filterMap fun p =>
    match p.2 with
    | .obj schema => if isFalse (schema.lookup "required") then some p.1 else none
    | _ => none

def objectOf : Option Val → Option Props
  | some (.obj ps) => some ps
  | _ => none

def componentOf (doc : Props) (entry : Option String) : Option Props :=
  let components := arrayOf (doc.lookup "components")
  match entry with
  | some entry =>
    (components.map fun c => recordOf (some c)).find? fun c => optStr (c.lookup "name") = some entry
  | none => components.head?.bind fun c => objectOf (some c)

def prepare (doc : Props) (entry : Option String) : Except Failure PreparedComponent :=
  match componentOf doc entry with
  | none =>
    raise .unknownEntry ("component '" ++ entry.getD "<first>" ++ "' not found in IR")
  | some comp =>
    let inputPorts := objectOf (comp.lookup "inputPorts")
    .ok ⟨inputPorts, optionalPortsOf (inputPorts.getD []),
      (arrayOf (comp.lookup "body")).map fun n => recordOf (some n),
      planSpecOf (comp.lookup "plan"), compile (orNull (comp.lookup "output"))⟩

/-! ## Runs -/

/-- The input, overridden by the results. -/
def baseScope (input results : Scope) : Scope := fun x => (results x).or (input x)

/-- An optional port that is left out is bound to null. -/
def bindOptional (optionalPorts : List String) (input : Scope) : Scope := fun x =>
  if x ∈ optionalPorts ∧ input x = none then some .null else input x

section
variable (jsonEncode : Val → String) (prep : PreparedComponent) (handlers : Handlers)
  (input : Scope)

/-- The node that an operation's name leads to. -/
def nodeOf (op : OpSpec) : Props :=
  ((idToIndex prep.body op.id).bind fun i => prep.body[i]?).getD []

def conformResult (op : OpSpec) (v : Val) : Except Failure Val :=
  match compileNodeConformer (nodeOf prep op) op.id with
  | some conform => conform v
  | none => .ok v

/-- The executor: a result is brought into its declared type before it is put down; the port keeps
the value as the node gave it. -/
def wrappedExec (op : OpSpec) (_bound : Option Val) (results : Scope) :
    Except Failure (ExecOutcome × Scope) := do
  let node := nodeOf prep op
  let outcome ← execNode jsonEncode prep.body prep.inputPorts handlers node (compileNodeExprs node)
    op.id (baseScope input results)
  match outcome with
  | .ok v => do
    let value ← conformResult prep op v
    .ok (.ok v, Function.update results op.id (some value))
  | .error message detail => .ok (.error message detail, results)

/-- A node that was skipped is read as what was not produced. -/
def writeUnproduced (states : List (Option OpState)) (results : Scope) : Scope :=
  ((states.zip prep.body).filter fun q => OpState.isSkipped q.1).foldl
    (fun results q =>
      Function.update results (nodeId q.2) (some (unproducedValue (nodeRelationKind q.2))))
    results

def runPrepared : Except Failure Val := do
  let input := bindOptional prep.optionalPorts input
  let (run, results) ← runPlan (wrappedExec jsonEncode prep handlers input) prep.planSpec
    (opsOf prep.body) fun _ => none
  prep.output (baseScope input (writeUnproduced prep run.states results))

end

def runBehavior (jsonEncode : Val → String) (doc : Props) (handlers : Handlers) (input : Scope)
    (entry : Option String) : Except Failure Val := do
  let prep ← prepare doc entry
  runPrepared jsonEncode prep handlers input

end LiteDb.Behavior
