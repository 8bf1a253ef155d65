import NodeGraph.Graph.Basic

/-!
Edits. An edit is made in full or refused with a reason. It is refused when it would break the
structure or when the edited node itself would no longer have a type; its descendants are typed
again and keep a failure as their state. Every node whose value an edit may change gets a new
revision, larger than all before.
-/

namespace NodeGraph

/-- What removing a node does to the slots that read it. -/
inductive RemovalPolicy where
  /-- Refuses to remove a node that is read. -/
  | reject
  /-- Empties the slots. -/
  | detach
  deriving DecidableEq, Repr

/-- Drops the empty slots at the end. -/
def trimSlots (slots : List (Option Nat)) : List (Option Nat) :=
  (slots.reverse.dropWhile Option.isNone).reverse

/-- What a slot reads after a node left: positions behind it move up by one. -/
def slotAfterRemoval (removed : Nat) : Option Nat → Option Nat
  | some target =>
      if target = removed then none
      else if removed < target then some (target - 1)
      else some target
  | none => none

/-- A node needs an output, and no parameter may be named like an input. -/
def checkParams (params : Params) : Except GraphError Unit :=
  if !params.names.contains Expr.outputName then .error (.missingOutput Expr.outputName)
  else
    match params.names.find? fun name => (Expr.inputSlot? name).isSome with
    | some name => .error (.invalidParameterName name)
    | none => .ok ()

namespace Graph

/-- What is known of the inputs that slots read. -/
def inputTypes (graph : Graph) (slots : List (Option Nat)) : List InputType :=
  slots.map fun
    | some target =>
        let ty := match graph.nodes[target]? with
          | some ⟨_, _, _, _, .ok ty, _⟩ => some ty
          | _ => none
        ⟨some target, ty⟩
    | none => ⟨none, none⟩

def infer (graph : Graph) (index : Nat) (params : Params) (slots : List (Option Nat)) :
    Except NodeTypeError Ty :=
  inferNode graph.registry index params (graph.inputTypes slots)

def checkTy (graph : Graph) (index : Nat) (params : Params) (slots : List (Option Nat)) :
    Except GraphError Ty :=
  (graph.infer index params slots).mapError .typing

def modify (graph : Graph) (index : Nat) (change : Node → Node) : Graph :=
  { graph with nodes := graph.nodes.modify index change }

/-- Types a node again from its present state. -/
def retype (graph : Graph) (index : Nat) : Graph :=
  match graph.nodes[index]? with
  | some node =>
      graph.modify index fun node' => { node' with ty := graph.infer index node.params node.slots }
  | none => graph

def retypeAll (graph : Graph) : Graph := graph.evaluationOrder.foldl retype graph

def restamp (graph : Graph) (index : Nat) : Graph :=
  let revision := graph.lastRevision + 1
  { graph.modify index fun node => { node with revision } with lastRevision := revision }

/-- Nodes and all their descendants, dependencies first. -/
def affectedBy (graph : Graph) (roots : List Nat) : List Nat :=
  let topology := graph.topology
  let affected := roots ++ roots.flatMap topology.descendantsOf
  graph.evaluationOrder.filter affected.contains

def invalidate (graph : Graph) (roots : List Nat) : Graph :=
  (graph.affectedBy roots).foldl (fun graph index => (graph.retype index).restamp index) graph

/-! ### Nodes -/

def push (graph : Graph) (label : Option String) (params : Params) (slots : List (Option Nat))
    (ty : Except NodeTypeError Ty) (revision : Nat) : Graph :=
  { graph with
    nodes := graph.nodes ++ [⟨graph.nextId, label, params, slots, ty, revision⟩]
    nextId := graph.nextId + 1 }

/-- Adds a node without inputs and tells its position. -/
def addNode (graph : Graph) (params : Params) : Except GraphError (Nat × Graph) := do
  checkParams params
  let index := graph.count
  let ty ← graph.checkTy index params []
  let revision := graph.lastRevision + 1
  return (index, { graph.push none params [] (.ok ty) revision with lastRevision := revision })

def addOutputNode (graph : Graph) (output : Expr) : Except GraphError (Nat × Graph) :=
  graph.addNode [(Expr.outputName, output)]

def setLabel (graph : Graph) (index : Nat) (label : Option String) :
    Except GraphError Graph := do
  let _ ← graph.node index
  return graph.modify index fun node => { node with label }

/-- Removes a node and returns it. All edges keep reading the same nodes. As type failures name
positions, every node is typed again; those that read the removed one and all their
descendants get new revisions. -/
def removeNode (graph : Graph) (index : Nat) (policy : RemovalPolicy) :
    Except GraphError (Node × Graph) := do
  let removed ← graph.node index
  let consumers := graph.topology.consumersOf index
  if !consumers.isEmpty && policy == .reject then
    throw (.hasConsumers index consumers)
  else
    let nodes := (graph.nodes.eraseIdx index).map fun node =>
      { node with slots := trimSlots (node.slots.map (slotAfterRemoval index)) }
    let retyped := { graph with nodes }.retypeAll
    let detached := consumers.map fun consumer =>
      if index < consumer then consumer - 1 else consumer
    return (removed, (retyped.affectedBy detached).foldl restamp retyped)

/-- Copies a node and everything it depends on behind the others, with edges among the copies, and
tells the positions of the copies; that of the root comes first. -/
def cloneSubgraph (graph : Graph) (root : Nat) : Except GraphError (List Nat × Graph) := do
  let _ ← graph.node root
  let closure := graph.topology.lineageOf root
  let base := graph.count
  let copySlot : Option Nat → Option Nat := fun slot => do
    return base + (← closure.idxOf? (← slot))
  let extended := (closure.filterMap (graph.nodes[·]?)).foldl
    (fun extended node =>
      extended.push node.label node.params (node.slots.map copySlot) node.ty 0)
    graph
  let added := (List.range closure.length).map (base + ·)
  return (added, extended.invalidate added)

/-! ### Expressions -/

def setExpression (graph : Graph) (index : Nat) (name : String) (expr : Expr) :
    Except GraphError Graph := do
  let node ← graph.node index
  if (Expr.inputSlot? name).isSome then throw (.invalidParameterName name)
  else
    let params := node.params.put name expr
    let ty ← graph.checkTy index params node.slots
    return (graph.modify index fun node => { node with params, ty := .ok ty }).invalidate [index]

def removeExpression (graph : Graph) (index : Nat) (name : String) :
    Except GraphError (Expr × Graph) := do
  let node ← graph.node index
  if name = Expr.outputName then throw (.missingOutput name)
  else
    match node.expression? name with
    | none => throw (.parameterNotFound index name)
    | some removed =>
        let params := node.params.erase name
        let ty ← graph.checkTy index params node.slots
        return (removed,
          (graph.modify index fun node => { node with params, ty := .ok ty }).invalidate [index])

/-! ### Edges -/

/-- Makes a slot of `reader`, or a new one right behind the last, read `target`. -/
def addEdge (graph : Graph) (reader slot target : Nat) : Except GraphError Graph := do
  let node ← graph.node reader
  let _ ← graph.node target
  let count := node.slots.length
  if count < slot then throw (.slotOutOfRange reader slot count)
  else if graph.topology.dependsOn target reader then throw (.cycle reader target)
  else
    let slots := if slot = count then node.slots ++ [some target] else node.slots.set slot target
    let ty ← graph.checkTy reader node.params slots
    return (graph.modify reader fun node => { node with slots, ty := .ok ty }).invalidate [reader]

/-- Empties a slot and tells what it read. Empty slots at the end are dropped. -/
def disconnect (graph : Graph) (reader slot : Nat) : Except GraphError (Option Nat × Graph) := do
  let node ← graph.node reader
  if node.slots.length ≤ slot then throw (.slotOutOfRange reader slot node.slots.length)
  else
    let removed := node.input? slot
    let slots := trimSlots (node.slots.set slot none)
    let trimmed := graph.modify reader fun node => { node with slots }
    return (removed, if removed.isSome then trimmed.invalidate [reader] else trimmed)

/-- Removes all nodes; identities and revisions go on from where they were. -/
def clear (graph : Graph) : Graph := { graph with nodes := [] }

end Graph

end NodeGraph
