import NodeGraph.Expr.Eval
import NodeGraph.Graph.Basic

/-!
Plans: what evaluating a node takes, detached from the graph. A plan holds snapshots of the nodes to
evaluate, dependencies first, and the values that were known when it was made. Running it needs
nothing else, so the graph may change meanwhile.

Every evaluation of a node has a serial number of its own, from which the functions that it makes
take their identity.
-/

namespace NodeGraph

/-- What evaluating one node requires. -/
structure Snapshot where
  index : Nat
  revision : Nat
  params : Params
  slots : List (Option Nat)

/-- A value with the position and revision of the node it belongs to. -/
structure Computed where
  index : Nat
  revision : Nat
  value : Value

structure Outcome where
  target : Nat
  revision : Nat
  value : Value
  /-- Every value computed on the way, in order. -/
  computed : List Computed

structure Plan where
  target : Nat
  revision : Nat
  steps : List Snapshot
  published : List (Nat × Value)
  registry : Registry

namespace Snapshot

def ofNode (index : Nat) (node : Node) : Snapshot :=
  ⟨index, node.revision, node.params, node.slots⟩

def capture (graph : Graph) (index : Nat) : Except GraphError Snapshot := do
  return ofNode index (← graph.node index)

/-- Binds parameters in order, each seeing those before it. -/
def bindParams (registry : Registry) (serial : Nat) :
    Nat → Frame → List (String × Expr) → Except Fault Frame
  | _, frame, [] => .ok frame
  | position, frame, (name, expr) :: rest => do
      let value ← expr.eval registry frame [position, serial]
      bindParams registry serial (position + 1) (frame.bind name value) rest

/-- The value of the node for given inputs: that of its output, which sees all other
parameters. -/
def evaluate (snapshot : Snapshot) (registry : Registry) (serial : Nat)
    (inputs : List (Option Value)) : Except Fault Value := do
  let named := snapshot.params.filter fun param => param.1 != Expr.outputName
  let frame ← bindParams registry serial 0 (.ofInputs inputs) named
  match snapshot.params.lookup Expr.outputName with
  | some output => output.eval registry frame [named.length, serial]
  | none => return .error ("node " ++ natText snapshot.index ++ " has no output")

def inputValues (snapshot : Snapshot) (values : List (Nat × Value)) : List (Option Value) :=
  snapshot.slots.map fun slot => slot.bind fun target => values.lookup target

end Snapshot

namespace Plan

def isResolved (plan : Plan) : Bool := plan.steps.isEmpty

/-- Evaluates snapshots in order on top of known values, the last one first; `done` is in
reverse. -/
def runFrom (registry : Registry) :
    Nat → List (Nat × Value) → List Computed → List Snapshot →
      Except Fault (List (Nat × Value) × List Computed)
  | _, values, done, [] => .ok (values, done.reverse)
  | serial, values, done, step :: rest => do
      let value ← step.evaluate registry serial (step.inputValues values)
      runFrom registry (serial + 1) ((step.index, value) :: values)
        (⟨step.index, step.revision, value⟩ :: done) rest

def run (plan : Plan) (serial : Nat) : Except Fault Outcome := do
  let (values, computed) ← runFrom plan.registry serial plan.published [] plan.steps
  let value := match values.lookup plan.target with
    | some value => value
    | none => .error ("node " ++ natText plan.target ++ " was not evaluated")
  return ⟨plan.target, plan.revision, value, computed⟩

end Plan

end NodeGraph
