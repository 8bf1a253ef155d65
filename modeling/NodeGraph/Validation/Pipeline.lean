import NodeGraph.Expr.Free
import NodeGraph.Validation.Report

/-!
Validation stages and pipelines. A stage gives warnings, or errors in place of them; a pipeline
runs stages in order and stops at a fatal error.
-/

namespace NodeGraph

inductive Stage where
  | structural
  | expressions
  | types
  deriving DecidableEq, Repr

namespace Stage

def name : Stage → String
  | .structural => "Structural Validation"
  | .expressions => "Expression Validation"
  | .types => "Type Validation"

/-- Edges to nodes that are not there, in order. -/
def danglingEdges (rows : List (List (Option Nat))) : List ValidationError :=
  rows.zipIdx.flatMap fun (slots, node) =>
    slots.zipIdx.filterMap fun
      | (some target, slot) =>
          if rows.length ≤ target then some (.danglingEdge node slot target) else none
      | (none, _) => none

/-- Checks slots that may not form a graph yet; cycles only when no edge dangles. -/
def checkEdges (rows : List (List (Option Nat))) : Except (List ValidationError) Unit :=
  match danglingEdges rows with
  | [] =>
      match (Topology.ofTargets (rows.map fun slots => slots.filterMap fun slot => slot)).sort with
      | .ok _ => .ok ()
      | .error nodes => .error [.cycle nodes]
  | dangling => .error dangling

/-- Errors if there are any, else the warnings. -/
def outcome (errors : List ValidationError) (warnings : List Warning) :
    Except (List ValidationError) (List Warning) :=
  if errors.isEmpty then .ok warnings else .error errors

def checkStructure (graph : Graph) : Except (List ValidationError) (List Warning) :=
  if graph.isEmpty then
    .ok [⟨"Graph is empty", none, some "Add nodes to build a pipeline"⟩]
  else
    let missing := graph.nodes.zipIdx.filterMap fun (node, index) =>
      if node.output?.isNone then some (ValidationError.missingOutput index) else none
    let structural := match checkEdges (graph.nodes.map (·.slots)) with
      | .ok () => []
      | .error errors => errors
    let parts := graph.topology.components.length
    let warnings : List Warning :=
      if 1 < parts then
        [⟨"Graph contains " ++ natText parts ++ " disconnected subgraphs", none,
          some "Consider connecting all parts or removing unused nodes"⟩]
      else []
    outcome (missing ++ structural) warnings

/-- The names of unknown primitives in a node, each once. -/
def unknownPrimitives (registry : Registry) (node : Node) : List String :=
  ((node.params.flatMap fun param => param.2.primitiveNames).filter
    fun name => !registry.contains name).eraseDups

/-- The names that a node's expressions read, each once. -/
def namesRead (node : Node) : List String :=
  (node.params.flatMap fun param => param.2.freeNames).eraseDups

/-- Parameters that nothing reads. -/
def unreadWarnings (node : Node) (index : Nat) : List Warning :=
  let names := namesRead node
  node.params.names.filterMap fun name =>
    if name ≠ Expr.outputName ∧ ¬ name ∈ names then
      some ⟨"Parameter '" ++ name ++ "' of node " ++ natText index ++ " is never read", some index,
        some ("Remove '" ++ name ++ "' or use it in the output")⟩
    else none

/-- Inputs that are read but not connected, ascending; an input counts once for each way its name
is spelled. -/
def unconnectedWarnings (node : Node) (index : Nat) : List Warning :=
  let slots := (namesRead node).filterMap Expr.inputSlot?
  let unconnected := slots.filter fun slot => (node.input? slot).isNone
  (unconnected.mergeSort fun left right => left ≤ right).map fun slot =>
    ⟨"Node " ++ natText index ++ " reads input " ++ natText slot ++ " which is not connected",
      some index, some ("Connect input " ++ natText slot ++ " of node " ++ natText index)⟩

def checkExpressions (graph : Graph) : Except (List ValidationError) (List Warning) :=
  let errors := graph.nodes.zipIdx.flatMap fun (node, index) =>
    (unknownPrimitives graph.registry node).map fun name =>
      ValidationError.unknownPrimitive index name
  let warnings := graph.nodes.zipIdx.flatMap fun (node, index) =>
    unreadWarnings node index ++ unconnectedWarnings node index
  outcome errors warnings

def checkTypes (graph : Graph) : Except (List ValidationError) (List Warning) :=
  let errors := graph.nodes.filterMap fun node =>
    match node.ty with
    | .ok _ => none
    | .error failure => some (ValidationError.typing failure)
  let warnings : List Warning := graph.nodes.zipIdx.filterMap fun (node, index) =>
    match node.ty with
    | .ok ty =>
        if ty.isGround then none
        else some ⟨"Output type of node " ++ natText index ++ " is not fully determined: " ++
          ty.display, some index, some "Connect the inputs it reads"⟩
    | .error _ => none
  outcome errors warnings

def check (graph : Graph) : Stage → Except (List ValidationError) (List Warning)
  | .structural => checkStructure graph
  | .expressions => checkExpressions graph
  | .types => checkTypes graph

end Stage

namespace Pipeline

def standard : List Stage := [.structural, .expressions, .types]

def minimal : List Stage := [.structural, .types]

/-- Adds errors up to the first fatal one, and tells whether there was one. -/
def addErrors (report : Report) : List ValidationError → Report × Bool
  | [] => (report, false)
  | error :: rest =>
      let report := report.addError error
      if error.isFatal then (report, true) else addErrors report rest

def runFrom (graph : Graph) (report : Report) : List Stage → Report
  | [] => report
  | stage :: rest =>
      match stage.check graph with
      | .ok warnings => runFrom graph (warnings.foldl Report.addWarning report) rest
      | .error errors =>
          let (report, stopped) := addErrors report errors
          if stopped then report else runFrom graph report rest

end Pipeline

def Graph.validate (graph : Graph) (stages : List Stage) : Report :=
  Pipeline.runFrom graph .empty stages

end NodeGraph
