import NodeGraph.Graph.Edit
import NodeGraph.Json.Reader
import NodeGraph.Json.Writer
import NodeGraph.Stored.Expr
import NodeGraph.Validation.Pipeline
import NodeGraph.Version

/-!
Stored graphs: version, name, and for every node its label, expressions and edges. Identities,
revisions and types are made anew when a stored graph is loaded.
-/

namespace NodeGraph

structure StoredNode where
  label : Option String
  params : Params
  edges : List (Option Nat)

structure StoredGraph where
  version : String
  name : Option String
  nodes : List StoredNode

/-- Why there is no text under a path. -/
inductive FileFault where
  | missing
  | directory
  deriving DecidableEq, Repr

def FileFault.message : FileFault → String
  | .missing => "No such file or directory (os error 2)"
  | .directory => "Is a directory (os error 21)"

/-- Why a graph cannot be stored or loaded, or options cannot be read. -/
inductive StoreError where
  | graph (error : GraphError)
  | validation (error : ValidationError)
  /-- The text has not the stored form, or a part of the graph has none. -/
  | malformed
  | file (fault : FileFault)
  /-- The options are not what they should be. -/
  | options

namespace StoreError

def cause : StoreError → String
  | .graph error => error.message
  | .validation error => error.message
  | .malformed => "not in the stored form"
  | .file fault => fault.message
  | .options => "not a description of options"

/-- The cause behind the kind of failure. -/
def message (error : StoreError) : String :=
  let kind := match error with
    | .graph _ => "Graph"
    | .validation _ => "Validation"
    | .malformed => "Serialization"
    | .file _ => "I/O"
    | .options => "Configuration"
  kind ++ " error: " ++ error.cause

end StoreError

namespace StoredGraph

def currentVersion : String := "1.0.0"

def ofGraph (graph : Graph) : StoredGraph :=
  ⟨currentVersion, graph.name, graph.nodes.map fun node => ⟨node.label, node.params, node.slots⟩⟩

/-- The first parameter with a number that has no stored form. -/
def checkFinite (stored : StoredGraph) : Except GraphError Unit :=
  let offender := stored.nodes.zipIdx.findSome? fun (node, index) =>
    (node.params.find? fun param => !param.2.constantsFinite).map fun param => (index, param.1)
  match offender with
  | some (index, name) => .error (.nonFiniteConstant index name)
  | none => .ok ()

/-- Versions with the same major number go together. -/
def checkVersion (stored : StoredGraph) : Except GraphError Unit :=
  match Version.parse? stored.version, Version.parse? currentVersion with
  | some found, some current =>
      if found.major = current.major then .ok ()
      else .error (.incompatibleVersion stored.version currentVersion)
  | _, _ => .error (.incompatibleVersion stored.version currentVersion)

/-- Makes a graph after checking version, parameter names, edges and cycles in this order. Nodes
that have no type keep their failure. New identities start at `nextId`. -/
def toGraph (stored : StoredGraph) (registry : Registry) (nextId : Nat) :
    Except StoreError Graph := do
  stored.checkVersion.mapError .graph
  stored.nodes.forM fun node => (checkParams node.params).mapError .graph
  match Stage.checkEdges (stored.nodes.map (·.edges)) with
  | .error (.danglingEdge node slot target :: _) =>
      throw (.graph (.danglingEdge node slot target))
  | .error (error :: _) => throw (.validation error)
  | _ => pure ()
  let bare : Graph := { Graph.empty registry with name := stored.name, nextId }
  let filled := stored.nodes.foldl
    (fun graph node =>
      let revision := graph.lastRevision + 1
      { graph.push node.label node.params (trimSlots node.edges) (.ok (.generic 0)) revision with
        lastRevision := revision })
    bare
  return filled.retypeAll

end StoredGraph

namespace Stored

def optionalField (name : String) (value : Option String) : List (String × Json) :=
  value.elim [] fun text => [(name, .string text)]

def writeParams : Params → Option (List (String × Json))
  | [] => some []
  | (name, expr) :: rest => do
      let json ← writeExpr expr
      let rest ← writeParams rest
      return (name, json) :: rest

def writeEdge (edge : Option Nat) : Json := edge.elim .null .ofNat

def writeNode (node : StoredNode) : Option Json := do
  return .object (optionalField "label" node.label ++
    [("params", .object (← writeParams node.params)),
      ("edges", .array (node.edges.map writeEdge))])

def writeGraph (stored : StoredGraph) : Option Json := do
  return .object ([("version", .string stored.version)] ++ optionalField "name" stored.name ++
    [("nodes", .array (← stored.nodes.mapM writeNode))])

/-- A repeated name replaces the expression but keeps its place. -/
def readParams : Nat → Json → Option Params
  | room + 1, .object fields => do
      let entries ← fields.mapM fun (name, json) => do return (name, ← readExpr room json)
      return Params.ofList entries
  | _, _ => none

def readEdge (json : Json) : Option (Option Nat) :=
  readOptional (readNatural UInt64.size) (some json)

/-- Missing edges are none. -/
def readEdges (room : Nat) : Option Json → Option (List (Option Nat))
  | none => some []
  | some json => readItems (fun _ => readEdge) room json

def readNode : Nat → Json → Option StoredNode
  | 0, _ => none
  | room + 1, json => do
      match ← recordFields ["label", "params", "edges"] 2 json with
      | [label, some params, edges] =>
          return ⟨← readOptional readText label, ← readParams room params, ← readEdges room edges⟩
      | _ => none

def readGraph : Nat → Json → Option StoredGraph
  | 0, _ => none
  | room + 1, json => do
      match ← recordFields ["version", "name", "nodes"] 3 json with
      | [some version, name, some nodes] =>
          return ⟨← readText version, ← readOptional readText name, ← readItems readNode room nodes⟩
      | _ => none

end Stored

namespace Graph

/-- The stored form of a graph, after the check for numbers that have none. -/
def store (graph : Graph) : Except StoreError Json := do
  let stored := StoredGraph.ofGraph graph
  stored.checkFinite.mapError .graph
  match Stored.writeGraph stored with
  | some json => return json
  | none => throw .malformed

/-- The text that is kept in files. -/
def save (graph : Graph) : Except StoreError String := return (← graph.store).pretty

def saveCompact (graph : Graph) : Except StoreError String := return (← graph.store).compact

def load (text : String) (registry : Registry) (nextId : Nat) : Except StoreError Graph :=
  match Json.parse? text with
  | none => throw .malformed
  | some json =>
      match Stored.readGraph Stored.maxDepth json with
      | none => throw .malformed
      | some stored => stored.toGraph registry nextId

end Graph

end NodeGraph
