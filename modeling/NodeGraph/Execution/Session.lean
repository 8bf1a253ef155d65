import NodeGraph.Execution.Engine
import NodeGraph.Execution.Worker
import NodeGraph.Stored.Graph

/-!
Editing sessions. A session owns a graph, the engine that evaluates it, and a background worker
that runs plans in the order of their submission. What the worker finishes is received in the same
order; a value whose node was edited meanwhile is dropped.
-/

namespace NodeGraph

structure Session where
  graph : Graph
  engine : Engine
  worker : Worker

namespace Session

def ofGraph (graph : Graph) (options : Options) (serial : Nat) : Session :=
  ⟨graph, .ofOptions options serial, .idle⟩

def clear (session : Session) : Session :=
  { session with graph := session.graph.clear, engine := session.engine.clearCache }

/-- A session on a loaded graph, with the same options, primitives and numbering. -/
def reload (session : Session) (text : String) : Except StoreError Session := do
  let graph ← Graph.load text session.graph.registry session.graph.nextId
  return ofGraph graph session.engine.options session.engine.serial

def reopen (session : Session) : Except StoreError Session := do
  session.reload (← session.graph.save)

def evaluate (session : Session) (index : Nat) :
    Except Fault (Except GraphError (Value × Session)) := do
  match ← session.engine.evaluate session.graph index with
  | .ok (value, engine) => return .ok (value, { session with engine })
  | .error error => return .error error

def evaluateAll (session : Session) :
    Except Fault (Except StoreError (List Value × Session)) := do
  match ← session.engine.evaluateAll session.graph with
  | .ok (values, engine) => return .ok (values, { session with engine })
  | .error nodes => return .error (.validation (.cycle nodes))

def cached (session : Session) (index : Nat) : Option Value × Session :=
  let (value, engine) := session.engine.cached session.graph index
  (value, { session with engine })

def plan (session : Session) (index : Nat) : Except GraphError (Plan × Session) := do
  let (plan, engine) ← session.engine.plan session.graph index
  return (plan, { session with engine })

def run (session : Session) (plan : Plan) : Except Fault (Outcome × Session) := do
  let (outcome, engine) ← session.engine.run plan
  return (outcome, { session with engine })

def commit (session : Session) (outcome : Outcome) : Nat × Session :=
  let (stored, engine) := session.engine.commit session.graph outcome
  (stored, { session with engine })

/-! ### The background worker -/

def submit (session : Session) (plan : Plan) : Session :=
  { session with worker := session.worker.submit plan }

def requestBackground (session : Session) (index : Nat) : Except GraphError Session := do
  let (plan, session) ← session.plan index
  return session.submit plan

def start (session : Session) : Session := { session with worker := session.worker.start }

/-- The worker runs the plan that it took up, if any. -/
def finish (session : Session) : Except Fault Session :=
  match session.worker.running with
  | none => .ok session
  | some plan => do
      let (outcome, session) ← session.run plan
      return { session with worker := session.worker.deliver outcome }

def work (session : Session) : Except Fault Session := session.start.finish

def workAll : Nat → Session → Except Fault Session
  | 0, session => .ok session
  | count + 1, session => do workAll count (← session.work)

/-- Commits an outcome, and returns it if its target is still at the planned revision. -/
def accept (session : Session) (outcome : Outcome) : Option Outcome × Session :=
  let (_, session) := session.commit outcome
  (if Engine.isCurrent session.graph outcome.target outcome.revision then some outcome else none,
    session)

def acceptAll (session : Session) : List Outcome → List Outcome × Session
  | [] => ([], session)
  | outcome :: rest =>
      let (accepted, session) := session.accept outcome
      let (others, session) := session.acceptAll rest
      (accepted.elim others (· :: others), session)

/-- What is finished by now, as far as it is accepted. -/
def poll (session : Session) : List Outcome × Session :=
  let (outcomes, worker) := session.worker.drain
  { session with worker }.acceptAll outcomes

/-- The first finished outcome, if there is one in time and it is accepted. -/
def wait (session : Session) : Option Outcome × Session :=
  match session.worker.receive with
  | (none, worker) => (none, { session with worker })
  | (some outcome, worker) => { session with worker }.accept outcome

/-- Lets the worker finish one plan if nothing is finished, and waits. -/
def waitBackground (session : Session) : Except Fault (Option Outcome × Session) := do
  let session ← if session.worker.finished.isEmpty then session.work else .ok session
  return session.wait

/-- Lets the worker finish everything, and polls: what is accepted comes in the order of the
requests. -/
def pollBackground (session : Session) : Except Fault (List Outcome × Session) := do
  let session ← workAll session.worker.waiting.length session
  return session.poll

end Session

end NodeGraph
