import NodeGraph.Graph.Topology
import NodeGraph.Typing.Infer

/-!
Nodes, graphs, the failures of edits, and the queries on a graph. Slots read nodes by position, so
positions change when an earlier node is removed; identities never change.
-/

namespace NodeGraph

/-- The parameters of a node by name, in the order of their first insertion. -/
abbrev Params := List (String × Expr)

namespace Params

/-- Replaces the expression of a name, or adds the name at the end. -/
def put (params : Params) (name : String) (expr : Expr) : Params :=
  match params with
  | [] => [(name, expr)]
  | (first, old) :: rest =>
      if first = name then (first, expr) :: rest else (first, old) :: put rest name expr

def ofList (entries : List (String × Expr)) : Params :=
  entries.foldl (fun params (name, expr) => params.put name expr) []

def erase (params : Params) (name : String) : Params :=
  params.filter fun param => param.1 != name

def names (params : Params) : List String := params.map (·.1)

end Params

structure Node where
  /-- Different from that of every other node ever made. -/
  id : Nat
  label : Option String
  params : Params
  /-- The position that each input slot reads, if it is connected. -/
  slots : List (Option Nat)
  /-- The type of the output, or why there is none. -/
  ty : Except NodeTypeError Ty
  /-- Changes with everything that can change the node's value. -/
  revision : Nat

structure Graph where
  nodes : List Node
  registry : Registry
  name : Option String
  nextId : Nat
  lastRevision : Nat

inductive GraphError where
  | nodeOutOfRange (index count : Nat)
  | slotOutOfRange (node slot count : Nat)
  | cycle (reader target : Nat)
  | hasConsumers (node : Nat) (consumers : List Nat)
  | missingOutput (name : String)
  | invalidParameterName (name : String)
  | parameterNotFound (node : Nat) (name : String)
  | danglingEdge (node slot target : Nat)
  | nonFiniteConstant (node : Nat) (name : String)
  | incompatibleVersion (found expected : String)
  | typing (failure : NodeTypeError)

def natListText (numbers : List Nat) : String :=
  "[" ++ commaSeparated (numbers.map natText) ++ "]"

/-- The name of the kind of error; a type failure has the name of its own kind. -/
def GraphError.kind : GraphError → String
  | .nodeOutOfRange _ _ => "NodeOutOfRange"
  | .slotOutOfRange _ _ _ => "SlotOutOfRange"
  | .cycle _ _ => "CycleDetected"
  | .hasConsumers _ _ => "NodeHasConsumers"
  | .missingOutput _ => "MissingOutput"
  | .invalidParameterName _ => "InvalidParameterName"
  | .parameterNotFound _ _ => "ParameterNotFound"
  | .danglingEdge _ _ _ => "DanglingEdge"
  | .nonFiniteConstant _ _ => "NonFiniteConstant"
  | .incompatibleVersion _ _ => "IncompatibleVersion"
  | .typing failure => failure.error.kind

def GraphError.message : GraphError → String
  | .nodeOutOfRange index count =>
      "Node index " ++ natText index ++ " is out of range (" ++ natText count ++ " nodes)"
  | .slotOutOfRange node slot count =>
      "Input slot " ++ natText slot ++ " of node " ++ natText node ++ " is out of range (" ++
        natText count ++ " slots)"
  | .cycle reader target =>
      "Edge from node " ++ natText reader ++ " to node " ++ natText target ++
        " would create a cycle"
  | .hasConsumers node consumers =>
      "Cannot remove node " ++ natText node ++ ": consumed by nodes " ++ natListText consumers
  | .missingOutput name => "Node is missing its '" ++ name ++ "' parameter"
  | .invalidParameterName name => "Parameter name '" ++ name ++ "' is reserved for inputs"
  | .parameterNotFound node name =>
      "Parameter '" ++ name ++ "' not found on node " ++ natText node
  | .danglingEdge node slot target =>
      "Edge in slot " ++ natText slot ++ " of node " ++ natText node ++ " targets missing node " ++
        natText target
  | .nonFiniteConstant node name =>
      "Parameter '" ++ name ++ "' of node " ++ natText node ++
        " holds a non-finite number and cannot be stored"
  | .incompatibleVersion found expected =>
      "Graph format version " ++ found ++ " is not compatible with " ++ expected
  | .typing failure => failure.message

namespace Node

def expression? (node : Node) (name : String) : Option Expr := node.params.lookup name

def output? (node : Node) : Option Expr := node.expression? Expr.outputName

def input? (node : Node) (slot : Nat) : Option Nat := (node.slots[slot]?).join

def targets (node : Node) : List Nat := node.slots.filterMap fun slot => slot

/-- The label, or the identity in eight hexadecimal digits. -/
def displayName (node : Node) : String :=
  let digits := Nat.toDigits 16 node.id
  node.label.getD
    ("node " ++ String.ofList (List.replicate (8 - digits.length) '0' ++ digits))

end Node

namespace Graph

def empty (registry : Registry) : Graph := ⟨[], registry, none, 0, 0⟩

def count (graph : Graph) : Nat := graph.nodes.length

def isEmpty (graph : Graph) : Bool := graph.nodes.isEmpty

def node (graph : Graph) (index : Nat) : Except GraphError Node :=
  match graph.nodes[index]? with
  | some node => .ok node
  | none => .error (.nodeOutOfRange index graph.count)

def slots (graph : Graph) (index : Nat) : Except GraphError (List (Option Nat)) := do
  return (← graph.node index).slots

def ty (graph : Graph) (index : Nat) : Except GraphError Ty := do
  match (← graph.node index).ty with
  | .ok ty => return ty
  | .error failure => throw (.typing failure)

def revision (graph : Graph) (index : Nat) : Except GraphError Nat := do
  return (← graph.node index).revision

def topology (graph : Graph) : Topology := .ofTargets (graph.nodes.map Node.targets)

def consumers (graph : Graph) (index : Nat) : Except GraphError (List Nat) := do
  let _ ← graph.node index
  return graph.topology.consumersOf index

def descendants (graph : Graph) (index : Nat) : Except GraphError (List Nat) := do
  let _ ← graph.node index
  return graph.topology.descendantsOf index

def ancestors (graph : Graph) (index : Nat) : Except GraphError (List Nat) := do
  let _ ← graph.node index
  return graph.topology.ancestorsOf index

def index? (graph : Graph) (id : Nat) : Option Nat :=
  graph.nodes.findIdx? fun node => node.id == id

/-- Dependencies first; a graph with a cycle keeps its own order. -/
def evaluationOrder (graph : Graph) : List Nat :=
  match graph.topology.sort with
  | .ok order => order
  | .error _ => List.range graph.count

end Graph

end NodeGraph
