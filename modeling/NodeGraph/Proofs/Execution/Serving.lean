import NodeGraph.Proofs.Execution.Coherence

/-!
Sessions that use their worker. A session submits plans, goes on with edits and evaluations, and
receives outcomes when it likes, while the worker takes its own steps. In any interleaving, outcomes
come in the order of their plans, one for each.
-/

namespace NodeGraph

/-- An outcome of a plan, however evaluations are numbered. -/
def Plan.Yields (plan : Plan) (outcome : Outcome) : Prop :=
  ∃ serial, plan.run serial = .ok outcome

namespace Worker

structure Accounts (worker : Worker) (submitted : List Plan) (received : List Outcome) :
    Prop where
  answered : ∃ done, submitted = done ++ worker.waiting ∧
    List.Forall₂ Plan.Yields done (received ++ worker.finished)
  pending : worker.pending = worker.waiting.length + worker.finished.length

variable {worker : Worker} {submitted : List Plan} {received : List Outcome}

theorem start_keeps (worker : Worker) : worker.start.waiting = worker.waiting ∧
    worker.start.finished = worker.finished ∧ worker.start.pending = worker.pending := by
  obtain ⟨queued, running, finished, pending⟩ := worker
  cases running with
  | some plan => exact ⟨rfl, rfl, rfl⟩
  | none => cases queued <;> exact ⟨rfl, rfl, rfl⟩

theorem start_running {plan : Plan} {rest : List Plan} (waiting : worker.waiting = plan :: rest) :
    worker.start.running = some plan ∧ worker.start.queued = rest := by
  obtain ⟨queued, running, finished, pending⟩ := worker
  cases running with
  | some first =>
      cases waiting
      exact ⟨rfl, rfl⟩
  | none =>
      rw [Worker.waiting, Option.toList_none, List.nil_append] at waiting
      simp only at waiting
      subst waiting
      exact ⟨rfl, rfl⟩

theorem drain_eq (worker : Worker) :
    worker.drain = (worker.finished, { worker with
      finished := [], pending := worker.pending - worker.finished.length }) := by
  obtain ⟨queued, running, finished, pending⟩ := worker
  rw [drain]
  simp only
  induction finished generalizing pending with
  | nil => rfl
  | cons outcome finished ih =>
      rw [List.length_cons, receiveAll, receive]
      simp only [ih, Nat.sub_sub, Nat.add_comm 1]

theorem Accounts.submit (accounts : worker.Accounts submitted received) (plan : Plan) :
    (worker.submit plan).Accounts (submitted ++ [plan]) received := by
  obtain ⟨done, parts, yields⟩ := accounts.answered
  have waiting : (worker.submit plan).waiting = worker.waiting ++ [plan] := by
    simp [Worker.waiting, Worker.submit]
  refine ⟨⟨done, ?_, yields⟩, ?_⟩
  · rw [parts, waiting, List.append_assoc]
  · have pending := accounts.pending
    rw [waiting, List.length_append, List.length_singleton]
    simp only [Worker.submit]
    omega

theorem Accounts.start (accounts : worker.Accounts submitted received) :
    worker.start.Accounts submitted received := by
  obtain ⟨waiting, finished, pending⟩ := worker.start_keeps
  refine ⟨?_, ?_⟩
  · rw [waiting, finished]
    exact accounts.answered
  · rw [waiting, finished, pending]
    exact accounts.pending

theorem Accounts.deliver (accounts : worker.Accounts submitted received) {plan : Plan}
    (running : worker.running = some plan) {outcome : Outcome} (yields : plan.Yields outcome) :
    (worker.deliver outcome).Accounts submitted received := by
  obtain ⟨done, parts, answered⟩ := accounts.answered
  have waiting : worker.waiting = plan :: (worker.deliver outcome).waiting := by
    simp [Worker.waiting, Worker.deliver, running]
  refine ⟨⟨done ++ [plan], ?_, ?_⟩, ?_⟩
  · rw [parts, waiting, List.append_assoc]
    rfl
  · rw [Worker.deliver, ← List.append_assoc]
    exact List.rel_append answered (.cons yields .nil)
  · have pending := accounts.pending
    rw [waiting, List.length_cons] at pending
    simp only [Worker.deliver, List.length_append, List.length_singleton] at pending ⊢
    omega

theorem Accounts.receive (accounts : worker.Accounts submitted received) :
    worker.receive.2.Accounts submitted (received ++ worker.receive.1.toList) := by
  obtain ⟨queued, running, finished, pending⟩ := worker
  cases finished with
  | nil => simpa [Worker.receive] using accounts
  | cons outcome finished =>
      obtain ⟨done, parts, answered⟩ := accounts.answered
      refine ⟨⟨done, parts, ?_⟩, ?_⟩
      · simpa [Worker.receive] using answered
      · have pending := accounts.pending
        simp only [Worker.receive, Worker.waiting, List.length_cons] at pending ⊢
        omega

theorem Accounts.drain (accounts : worker.Accounts submitted received) :
    worker.drain.2.Accounts submitted (received ++ worker.drain.1) := by
  obtain ⟨done, parts, answered⟩ := accounts.answered
  rw [drain_eq]
  refine ⟨⟨done, parts, by simpa using answered⟩, ?_⟩
  have pending := accounts.pending
  simp only [Worker.waiting, List.length_nil] at pending ⊢
  omega

end Worker

namespace Session

/-- What a session or its worker does at a time, with the plans that it submits and the outcomes
that it receives. -/
inductive Step : Session → List Plan → List Outcome → Session → Prop
  | edit (session : Session) (edit : Edit) : Step session [] [] (session.after edit)
  | evaluate {session later : Session} {index : Nat} {value : Value}
      (result : session.evaluate index = .ok (.ok (value, later))) : Step session [] [] later
  | evaluateAll {session : Session} {order : List (List Nat)} {values : List Value}
      {engine : Engine} (schedules : session.graph.topology.Schedules order)
      (result : session.engine.evaluateAllIn session.graph order = .ok (values, engine)) :
      Step session [] [] { session with engine }
  | lookUp (session : Session) (index : Nat) : Step session [] [] (session.cached index).2
  | evict {session : Session} {cache : Cache}
      (fewer : cache.entries ⊆ session.engine.cache.entries) :
      Step session [] [] { session with engine := { session.engine with cache } }
  | request {session planned : Session} {index : Nat} {plan : Plan}
      (made : session.plan index = .ok (plan, planned)) :
      Step session [plan] [] (planned.submit plan)
  | start (session : Session) : Step session [] [] session.start
  | finish {session later : Session} (result : session.finish = .ok later) :
      Step session [] [] later
  | poll (session : Session) : Step session [] session.worker.drain.1 session.poll.2
  | wait (session : Session) : Step session [] session.worker.receive.1.toList session.wait.2

/-- What any interleaving of steps makes of a session that starts with nothing in the cache and an
idle worker, after so many plans were submitted and outcomes received. -/
inductive Serving : Session → List Plan → List Outcome → Prop
  | opened {graph : Graph} (reachable : graph.Reachable) (engine : Engine)
      (nothing : engine.cache.entries = []) : Serving ⟨graph, engine, .idle⟩ [] []
  | step {session later : Session} {submitted plans : List Plan} {received outcomes : List Outcome}
      (before : Serving session submitted received) (step : Step session plans outcomes later) :
      Serving later (submitted ++ plans) (received ++ outcomes)

variable {session later : Session} {plans submitted : List Plan}
  {outcomes received : List Outcome}

theorem after_worker (session : Session) (edit : Edit) :
    (session.after edit).worker = session.worker := by
  cases edit <;> rfl

theorem plan_eq {index : Nat} {plan : Plan} (made : session.plan index = .ok (plan, later)) :
    ∃ engine, session.engine.plan session.graph index = .ok (plan, engine) ∧
      later = { session with engine } := by
  obtain ⟨⟨made, engine⟩, planned, same⟩ := Graph.bind_ok_iff.mp made
  cases same
  exact ⟨engine, planned, rfl⟩

theorem requestBackground_step {index : Nat}
    (result : session.requestBackground index = .ok later) :
    ∃ plan, Step session [plan] [] later := by
  obtain ⟨⟨plan, planned⟩, made, same⟩ := Graph.bind_ok_iff.mp result
  cases same
  exact ⟨plan, .request made⟩

theorem finish_eq (result : session.finish = .ok later) :
    later = session ∨ ∃ plan outcome serial, session.worker.running = some plan ∧
      plan.Yields outcome ∧ later =
        { session with
          engine := { session.engine with serial }, worker := session.worker.deliver outcome } := by
  rw [finish] at result
  cases running : session.worker.running with
  | none =>
      rw [running] at result
      cases result
      exact Or.inl rfl
  | some plan =>
      rw [running] at result
      obtain ⟨_, ran, delivered⟩ := Graph.bind_ok_iff.mp result
      obtain ⟨_, engineRan, kept⟩ := Graph.bind_ok_iff.mp ran
      obtain ⟨outcome, planRan, numbered⟩ := Graph.bind_ok_iff.mp engineRan
      cases numbered
      cases kept
      cases delivered
      exact Or.inr ⟨plan, outcome, _, rfl, ⟨_, planRan⟩, rfl⟩

theorem accept_eq (session : Session) (outcome : Outcome) :
    session.accept outcome =
      (if Engine.isCurrent session.graph outcome.target outcome.revision then some outcome
        else none, { session with engine := (session.engine.commit session.graph outcome).2 }) :=
  rfl

theorem acceptAll_graph (session : Session) (outcomes : List Outcome) :
    (session.acceptAll outcomes).2.graph = session.graph := by
  induction outcomes generalizing session with
  | nil => rfl
  | cons outcome rest ih => exact ih (session.accept outcome).2

theorem acceptAll_worker (session : Session) (outcomes : List Outcome) :
    (session.acceptAll outcomes).2.worker = session.worker := by
  induction outcomes generalizing session with
  | nil => rfl
  | cons outcome rest ih => exact ih (session.accept outcome).2

theorem acceptAll_returned (session : Session) (outcomes : List Outcome) :
    (session.acceptAll outcomes).1 = outcomes.filter fun outcome =>
      Engine.isCurrent session.graph outcome.target outcome.revision := by
  induction outcomes generalizing session with
  | nil => rfl
  | cons outcome rest ih =>
      rw [acceptAll, List.filter_cons]
      simp only [accept_eq, ih]
      by_cases current : Engine.isCurrent session.graph outcome.target outcome.revision = true
      · simp only [current, if_true, Option.elim_some]
      · simp only [current, if_false, Option.elim_none, Bool.false_eq_true]

theorem poll_eq (session : Session) : session.poll =
    { session with worker := session.worker.drain.2 }.acceptAll session.worker.finished := by
  rw [poll, Worker.drain_eq]

theorem poll_worker (session : Session) : session.poll.2.worker = session.worker.drain.2 := by
  rw [poll_eq, acceptAll_worker]

theorem poll_graph (session : Session) : session.poll.2.graph = session.graph := by
  rw [poll_eq, acceptAll_graph]

theorem poll_returned (session : Session) :
    session.poll.1 = session.worker.finished.filter fun outcome =>
      Engine.isCurrent session.graph outcome.target outcome.revision := by
  rw [poll_eq, acceptAll_returned]

theorem wait_eq (session : Session) : session.wait =
    match session.worker.finished with
    | [] => (none, session)
    | outcome :: finished => { session with worker := { session.worker with
        finished, pending := session.worker.pending - 1 } }.accept outcome := by
  rw [wait, Worker.receive]
  cases session.worker.finished <;> rfl

theorem wait_worker (session : Session) : session.wait.2.worker = session.worker.receive.2 := by
  rw [wait_eq, Worker.receive]
  cases session.worker.finished <;> rfl

theorem wait_graph (session : Session) : session.wait.2.graph = session.graph := by
  rw [wait_eq]
  cases session.worker.finished <;> rfl

theorem Step.accounts (step : Step session plans outcomes later)
    (accounts : session.worker.Accounts submitted received) :
    later.worker.Accounts (submitted ++ plans) (received ++ outcomes) := by
  cases step with
  | edit edit =>
      rw [after_worker]
      simpa only [List.append_nil] using accounts
  | evaluate result =>
      obtain ⟨engine, _, rfl⟩ := evaluate_eq result
      simpa only [List.append_nil] using accounts
  | evaluateAll => simpa only [List.append_nil] using accounts
  | lookUp =>
      rw [List.append_nil, List.append_nil]
      exact accounts
  | evict => simpa only [List.append_nil] using accounts
  | request made =>
      obtain ⟨engine, _, rfl⟩ := plan_eq made
      rw [List.append_nil]
      exact accounts.submit _
  | start =>
      rw [List.append_nil, List.append_nil]
      exact accounts.start
  | finish result =>
      obtain rfl | ⟨plan, outcome, serial, running, yields, rfl⟩ := finish_eq result
      · simpa only [List.append_nil] using accounts
      · simpa only [List.append_nil] using accounts.deliver running yields
  | poll =>
      rw [List.append_nil, poll_worker]
      exact accounts.drain
  | wait =>
      rw [List.append_nil, wait_worker]
      exact accounts.receive

theorem Serving.accounts (serving : session.Serving submitted received) :
    session.worker.Accounts submitted received := by
  induction serving with
  | opened reachable engine nothing => exact ⟨⟨[], rfl, .nil⟩, rfl⟩
  | step before step ih => exact step.accounts ih

end Session

end NodeGraph
