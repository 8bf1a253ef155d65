import NodeGraph.Execution.Cache
import NodeGraph.Execution.Plan
import NodeGraph.Graph.Edit

/-!
The engine evaluates nodes of a graph through the value cache: it plans what a node needs, runs the
plan, and commits the values that are still current.
-/

namespace NodeGraph

structure Options where
  /-- Whether independent nodes may be evaluated at the same time. -/
  parallel : Bool
  useCache : Bool
  cacheCapacity : Nat
  backgroundWorker : Bool
  deriving DecidableEq, Repr

def Options.default : Options := ⟨true, true, Cache.defaultCapacity, false⟩

structure Engine where
  options : Options
  cache : Cache
  /-- The serial number of the next evaluation of a node. -/
  serial : Nat

namespace Engine

/-- An engine with an empty cache, whose evaluations are numbered from `serial`. -/
def ofOptions (options : Options) (serial : Nat) : Engine :=
  ⟨options, .ofCapacity options.cacheCapacity, serial⟩

def clearCache (engine : Engine) : Engine := { engine with cache := engine.cache.clear }

/-- The cached value under a key, if the cache is in use; counts the lookup. -/
def lookup (engine : Engine) (key : CacheKey) : Option Value × Engine :=
  if engine.options.useCache then
    let (value, cache) := engine.cache.get key
    (value, { engine with cache })
  else (none, engine)

def remember (engine : Engine) (key : CacheKey) (value : Value) : Engine :=
  if engine.options.useCache then { engine with cache := engine.cache.put key value 0 }
  else engine

def cached (engine : Engine) (graph : Graph) (index : Nat) : Option Value × Engine :=
  match graph.nodes[index]? with
  | some node => engine.lookup ⟨index, node.revision⟩
  | none => (none, engine)

/-- What a plan needs, as far as it is known. -/
structure Demand where
  engine : Engine
  /-- Nodes without a cached value. -/
  needed : List Nat
  /-- Nodes with one. -/
  published : List (Nat × Value)

def Demand.isKnown (demand : Demand) (node : Nat) : Bool :=
  demand.needed.contains node || (demand.published.lookup node).isSome

/-- Walks along dependencies breadth first and stops at nodes whose value is cached. Every step
takes one entry of the queue, and the dependencies of a node are queued once. -/
def demandFrom (graph : Graph) (topology : Topology) : Nat → List Nat → Demand → Demand
  | fuel + 1, node :: queue, demand =>
      if demand.isKnown node then demandFrom graph topology fuel queue demand
      else
        match demand.engine.cached graph node with
        | (some value, engine) =>
            demandFrom graph topology fuel queue
              { demand with engine, published := (node, value) :: demand.published }
        | (none, engine) =>
            demandFrom graph topology fuel (queue ++ topology.dependenciesOf node)
              { demand with engine, needed := node :: demand.needed }
  | _, _, demand => demand

def plan (engine : Engine) (graph : Graph) (index : Nat) : Except GraphError (Plan × Engine) := do
  let revision ← graph.revision index
  let topology := graph.topology
  let demand := demandFrom graph topology (Topology.edgeCount topology.dependencies + 1) [index]
    ⟨engine, [], []⟩
  let order := match topology.sort with
    | .ok order => order
    | .error _ => []
  let steps ← (order.filter demand.needed.contains).mapM (Snapshot.capture graph)
  return (⟨index, revision, steps, demand.published, graph.registry⟩, demand.engine)

def run (engine : Engine) (plan : Plan) : Except Fault (Outcome × Engine) := do
  let outcome ← plan.run engine.serial
  return (outcome, { engine with serial := engine.serial + plan.steps.length })

/-- Whether a node still carries the revision that a value was computed at. -/
def isCurrent (graph : Graph) (index revision : Nat) : Bool :=
  match graph.nodes[index]? with
  | some node => node.revision == revision
  | none => false

/-- Caches the computed values that are still current and counts them. -/
def commit (engine : Engine) (graph : Graph) (outcome : Outcome) : Nat × Engine :=
  outcome.computed.foldl
    (fun (stored, engine) computed =>
      if isCurrent graph computed.index computed.revision then
        (stored + 1, engine.remember ⟨computed.index, computed.revision⟩ computed.value)
      else (stored, engine))
    (0, engine)

def evaluate (engine : Engine) (graph : Graph) (index : Nat) :
    Except Fault (Except GraphError (Value × Engine)) :=
  match engine.plan graph index with
  | .error error => .ok (.error error)
  | .ok (plan, engine) => do
      let (outcome, engine) ← engine.run plan
      let (_, engine) := engine.commit graph outcome
      return .ok (outcome.value, engine)

/-- The value of a node whose inputs are known: the cached one or a new one, which is cached. -/
def evaluateNode (engine : Engine) (registry : Registry) (values : List (Nat × Value))
    (snapshot : Snapshot) : Except Fault (Value × Engine) :=
  let key : CacheKey := ⟨snapshot.index, snapshot.revision⟩
  match engine.lookup key with
  | (some value, engine) => .ok (value, engine)
  | (none, engine) => do
      let value ← snapshot.evaluate registry engine.serial (snapshot.inputValues values)
      return (value, { engine.remember key value with serial := engine.serial + 1 })

/-- Evaluates the nodes of a batch on the values of earlier batches, and adds theirs. -/
def evaluateBatch (registry : Registry) (known : List (Nat × Value)) :
    Engine → List (Nat × Value) → List Snapshot →
      Except Fault (List (Nat × Value) × Engine)
  | engine, values, [] => .ok (values, engine)
  | engine, values, snapshot :: rest => do
      let (value, engine) ← engine.evaluateNode registry known snapshot
      evaluateBatch registry known engine ((snapshot.index, value) :: values) rest

def evaluateBatches (graph : Graph) :
    Engine → List (Nat × Value) → List (List Nat) →
      Except Fault (List (Nat × Value) × Engine)
  | engine, values, [] => .ok (values, engine)
  | engine, values, batch :: rest => do
      let snapshots := batch.filterMap fun index =>
        (graph.nodes[index]?).map (Snapshot.ofNode index)
      let (values, engine) ← evaluateBatch graph.registry values engine values snapshots
      evaluateBatches graph engine values rest

/-- The values of all nodes in their order, or the nodes that a cycle keeps from evaluation. -/
def evaluateAll (engine : Engine) (graph : Graph) :
    Except Fault (Except (List Nat) (List Value × Engine)) :=
  match graph.topology.batches with
  | .error nodes => .ok (.error nodes)
  | .ok batches => do
      let (values, engine) ← evaluateBatches graph engine [] batches
      let results := (List.range graph.count).map fun index =>
        match values.lookup index with
        | some value => value
        | none => .error ("node " ++ natText index ++ " was not evaluated")
      return .ok (results, engine)

end Engine

end NodeGraph
