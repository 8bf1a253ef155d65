import NodeGraph.Execution.Plan

/-!
The background worker. It takes up plans in the order of their submission, runs one at a time, and
sends the outcomes back in the same order. Its owner submits and receives without waiting for it.
-/

namespace NodeGraph

structure Worker where
  /-- Plans that are not taken up yet, first one first. -/
  queued : List Plan
  running : Option Plan
  /-- Outcomes that are not received yet, first one first. -/
  finished : List Outcome
  /-- How many plans were submitted whose outcome was not received. -/
  pending : Nat

namespace Worker

def idle : Worker := ⟨[], none, [], 0⟩

/-- Plans without an outcome. -/
def waiting (worker : Worker) : List Plan := worker.running.toList ++ worker.queued

def submit (worker : Worker) (plan : Plan) : Worker :=
  { worker with queued := worker.queued ++ [plan], pending := worker.pending + 1 }

/-- Takes up the next plan, unless one is running or none is queued. -/
def start (worker : Worker) : Worker :=
  match worker.running, worker.queued with
  | none, plan :: queued => { worker with queued, running := some plan }
  | _, _ => worker

/-- Sends the outcome of the running plan. -/
def deliver (worker : Worker) (outcome : Outcome) : Worker :=
  { worker with running := none, finished := worker.finished ++ [outcome] }

def receive (worker : Worker) : Option Outcome × Worker :=
  match worker.finished with
  | [] => (none, worker)
  | outcome :: finished => (some outcome, { worker with finished, pending := worker.pending - 1 })

def receiveAll : Nat → Worker → List Outcome × Worker
  | 0, worker => ([], worker)
  | count + 1, worker =>
      match worker.receive with
      | (none, worker) => ([], worker)
      | (some outcome, worker) =>
          let (rest, worker) := receiveAll count worker
          (outcome :: rest, worker)

/-- Receives until nothing finished is left. -/
def drain (worker : Worker) : List Outcome × Worker :=
  receiveAll worker.finished.length worker

end Worker

end NodeGraph
