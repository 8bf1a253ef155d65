import NodeGraph.Proofs.Execution.Promises
import NodeGraph.Proofs.Execution.Serving
import NodeGraph.Proofs.Expr.Faults

/-!
Background evaluation. Plans are made on one graph, run at any time after, and committed on whatever
the graph is by then; what is stored and returned is right for that graph.
-/

namespace NodeGraph

namespace Session

variable {session later : Session} {plans submitted : List Plan}
  {outcomes received : List Outcome} {right : Graph → Nat → Value → Prop}
  {faulty : Graph → Nat → Fault → Prop}

theorem Step.persists (step : Step session plans outcomes later)
    (reachable : session.graph.Reachable) :
    later.graph.Reachable ∧ ∃ place, session.graph.Persists place later.graph := by
  have unchanged : later.graph = session.graph →
      later.graph.Reachable ∧ ∃ place, session.graph.Persists place later.graph := by
    intro same
    rw [same]
    exact ⟨reachable, id, reachable.stamped.persists⟩
  cases step with
  | edit edit =>
      rw [after_graph]
      exact ⟨reachable.edited edit, reachable.persists [edit]⟩
  | evaluate result =>
      obtain ⟨engine, _, rfl⟩ := evaluate_eq result
      exact unchanged rfl
  | evaluateAll => exact unchanged rfl
  | lookUp => exact unchanged rfl
  | evict => exact unchanged rfl
  | request made =>
      obtain ⟨engine, _, rfl⟩ := plan_eq made
      exact unchanged rfl
  | start => exact unchanged rfl
  | finish result =>
      obtain rfl | ⟨plan, outcome, serial, _, _, rfl⟩ := finish_eq result
      · exact unchanged rfl
      · exact unchanged rfl
  | poll => exact unchanged (poll_graph session)
  | wait => exact unchanged (wait_graph session)

theorem Step.registry (step : Step session plans outcomes later)
    (reachable : session.graph.Reachable) : later.graph.registry = session.graph.registry :=
  (step.persists reachable).2.elim fun _ persists => persists.registry

theorem Serving.graph (serving : session.Serving submitted received) :
    session.graph.Reachable := by
  induction serving with
  | opened reachable engine nothing => exact reachable
  | step before step ih => exact (step.persists ih).1

/-- What is in the cache, finished or still to be run is right for the graph. -/
structure Honest (session : Session) (right : Graph → Nat → Value → Prop) : Prop where
  faithful : session.graph.Faithful (right session.graph) session.engine.cache
  finished : ∀ outcome ∈ session.worker.finished,
    session.graph.Credits (right session.graph) outcome
  waiting : ∀ plan ∈ session.worker.waiting, session.graph.Promises (right session.graph) plan
  registry : ∀ plan ∈ session.worker.waiting, plan.registry = session.graph.registry

theorem acceptAll_faithful {right : Nat → Value → Prop} (stamped : session.graph.Stamped)
    (faithful : session.graph.Faithful right session.engine.cache)
    (credits : ∀ outcome ∈ outcomes, session.graph.Credits right outcome) :
    session.graph.Faithful right (session.acceptAll outcomes).2.engine.cache := by
  induction outcomes generalizing session with
  | nil => exact faithful
  | cons outcome rest ih =>
      obtain ⟨first, others⟩ := List.forall_mem_cons.mp credits
      exact @ih (session.accept outcome).2 stamped (first.commit stamped faithful) others

theorem Honest.engine (honest : session.Honest right) {engine : Engine}
    (faithful : session.graph.Faithful (right session.graph) engine.cache) :
    Honest { session with engine } right :=
  ⟨faithful, honest.finished, honest.waiting, honest.registry⟩

theorem Honest.deliver (honest : session.Honest right) {plan : Plan}
    (running : session.worker.running = some plan) {outcome : Outcome}
    (yields : plan.Yields outcome) (serial : Nat) :
    Honest { session with
      engine := { session.engine with serial }, worker := session.worker.deliver outcome }
      right := by
  have waiting : session.worker.waiting = plan :: (session.worker.deliver outcome).waiting := by
    simp [Worker.waiting, Worker.deliver, running]
  have promised := honest.waiting
  have registered := honest.registry
  rw [waiting] at promised registered
  obtain ⟨promises, others⟩ := List.forall_mem_cons.mp promised
  obtain ⟨_, alike⟩ := List.forall_mem_cons.mp registered
  refine ⟨honest.faithful, fun other member => ?_, others, alike⟩
  rcases List.mem_append.mp member with old | same
  · exact honest.finished other old
  · obtain ⟨number, ran⟩ := yields
    rw [List.mem_singleton.mp same]
    exact promises number outcome ran

theorem Honest.poll (honest : session.Honest right) (stamped : session.graph.Stamped) :
    session.poll.2.Honest right := by
  have worker := session.poll_worker
  rw [Worker.drain_eq] at worker
  refine ⟨?_, ?_, ?_, ?_⟩
  · rw [poll_graph, poll_eq]
    exact @acceptAll_faithful { session with worker := session.worker.drain.2 } _
      (right session.graph) stamped honest.faithful honest.finished
  · rw [worker]
    exact fun outcome member => nomatch member
  · rw [worker, poll_graph]
    exact honest.waiting
  · rw [worker, poll_graph]
    exact honest.registry

theorem Honest.wait (honest : session.Honest right) (stamped : session.graph.Stamped) :
    session.wait.2.Honest right := by
  rw [wait_eq]
  cases finished : session.worker.finished with
  | nil => exact honest
  | cons outcome rest =>
      obtain ⟨first, others⟩ := List.forall_mem_cons.mp (finished ▸ honest.finished)
      exact ⟨first.commit stamped honest.faithful, others, honest.waiting, honest.registry⟩

section Cacheable

variable (cacheable : Graph.Cacheable right faulty) (reachable : session.graph.Reachable)

include cacheable

section Operations

include reachable

theorem Honest.edit (honest : session.Honest right) (edit : Edit) :
    (session.after edit).Honest right := by
  obtain ⟨place, persists⟩ := reachable.persists [edit]
  have laterReachable := reachable.edited edit
  refine ⟨faithful_after cacheable reachable honest.faithful edit, ?_, ?_, ?_⟩
  · rw [after_worker, after_graph]
    exact fun outcome member =>
      (honest.finished outcome member).persists cacheable persists reachable laterReachable
  · rw [after_worker, after_graph]
    exact fun plan member =>
      (honest.waiting plan member).persists cacheable persists reachable laterReachable
  · rw [after_worker, after_graph]
    exact fun plan member => (honest.registry plan member).trans persists.registry.symm

theorem Honest.request (honest : session.Honest right) {index : Nat} {plan : Plan}
    (made : session.plan index = .ok (plan, later)) : (later.submit plan).Honest right := by
  obtain ⟨engine, planned, rfl⟩ := plan_eq made
  have inside : index < session.graph.count := by
    by_contra outside
    rw [Engine.plan_outside (by omega)] at planned
    cases planned
  obtain ⟨_, _, same, faithful, _, plans⟩ :=
    Engine.plan_ok reachable.wellFormed Engine.faithful_answers honest.faithful inside
  rw [planned] at same
  cases same
  have waiting : ∀ other ∈ (session.worker.submit plan).waiting,
      other ∈ session.worker.waiting ∨ other = plan := by
    intro other member
    simpa [Worker.waiting, Worker.submit, or_assoc] using member
  refine ⟨faithful, honest.finished, fun other member => ?_, fun other member => ?_⟩
  · rcases waiting other member with old | rfl
    · exact honest.waiting other old
    · exact plans.promises cacheable reachable
  · rcases waiting other member with old | rfl
    · exact honest.registry other old
    · exact plans.registry

theorem Step.honest (step : Step session plans outcomes later) (honest : session.Honest right) :
    later.Honest right := by
  cases step with
  | edit edit => exact honest.edit cacheable reachable edit
  | evaluate result =>
      obtain ⟨engine, evaluated, rfl⟩ := evaluate_eq result
      exact honest.engine (faithful_evaluated cacheable reachable honest.faithful evaluated)
  | evaluateAll schedules result =>
      exact honest.engine ((Engine.evaluateAllIn_right cacheable reachable honest.faithful
        schedules).value result).1
  | lookUp index => exact honest.engine (Engine.cached_faithful honest.faithful index)
  | evict fewer => exact honest.engine (honest.faithful.of_entries fewer)
  | request made => exact honest.request cacheable reachable made
  | start =>
      obtain ⟨waiting, finished, _⟩ := session.worker.start_keeps
      exact ⟨honest.faithful, finished ▸ honest.finished, waiting ▸ honest.waiting,
        waiting ▸ honest.registry⟩
  | finish result =>
      obtain rfl | ⟨plan, outcome, serial, running, yields, rfl⟩ := finish_eq result
      · exact honest
      · exact honest.deliver running yields serial
  | poll => exact honest.poll reachable.stamped
  | wait => exact honest.wait reachable.stamped

end Operations

theorem Serving.honest (serving : session.Serving submitted received) :
    session.Honest right := by
  induction serving with
  | opened reachable engine nothing =>
      refine ⟨⟨?_, ?_⟩, ?_, ?_, ?_⟩
      · simp [nothing]
      · simp [nothing]
      · exact fun outcome member => nomatch member
      · exact fun plan member => nomatch member
      · exact fun plan member => nomatch member
  | step before step ih => exact step.honest cacheable before.graph ih

end Cacheable

theorem work_ok {plan : Plan} {rest : List Plan} (waiting : session.worker.waiting = plan :: rest)
    (returns : ∀ serial, Returns (plan.run serial)) :
    ∃ later, session.work = .ok later ∧ later.worker.waiting = rest := by
  obtain ⟨running, queued⟩ := Worker.start_running waiting
  obtain ⟨outcome, ran⟩ := returns session.engine.serial
  refine ⟨{ session with
    engine := { session.engine with serial := session.engine.serial + plan.steps.length }
    worker := session.worker.start.deliver outcome }, ?_, queued⟩
  simp only [work, finish, start, running, Session.run, Engine.run, bind, Except.bind, ran]
  rfl

theorem work_graph (worked : session.work = .ok later) : later.graph = session.graph := by
  obtain rfl | ⟨plan, outcome, serial, _, _, rfl⟩ := finish_eq worked
  · rfl
  · rfl

theorem work_step (worked : session.work = .ok later)
    (serving : session.Serving submitted received) : later.Serving submitted received := by
  have started := serving.step (.start session)
  have finished := started.step (.finish worked)
  simpa only [List.append_nil] using finished

theorem workAll_step {count : Nat} (worked : session.workAll count = .ok later)
    (serving : session.Serving submitted received) :
    later.Serving submitted received ∧ later.graph = session.graph := by
  induction count generalizing session with
  | zero =>
      cases worked
      exact ⟨serving, rfl⟩
  | succ count ih =>
      obtain ⟨middle, first, rest⟩ := Graph.bind_ok_iff.mp worked
      obtain ⟨served, same⟩ := ih rest (work_step first serving)
      exact ⟨served, same.trans (work_graph first)⟩

theorem Serving.workAll (serving : session.Serving submitted received)
    (never : session.graph.registry.NeverFaults) :
    ∃ later, session.workAll session.worker.waiting.length = .ok later ∧
      later.worker.waiting = [] := by
  -- Every turn of the worker takes one plan off those that wait, and changes nothing else here.
  generalize waiting : session.worker.waiting = plans
  induction plans generalizing session with
  | nil => exact ⟨session, rfl, waiting⟩
  | cons plan rest ih =>
      have registry := (serving.honest (Graph.reference_cacheable id)).registry plan (by simp [waiting])
      obtain ⟨middle, worked, remaining⟩ :=
        work_ok waiting fun serial => plan.run_returns (registry ▸ never) serial
      have same := work_graph worked
      obtain ⟨later, all, nothing⟩ :=
        ih (work_step worked serving) (same ▸ never) remaining
      refine ⟨later, ?_, nothing⟩
      rw [List.length_cons, Session.workAll, worked]
      exact all

/-- The outcomes that the next operation may commit: those that are finished, and that of a plan
made and run for an evaluation. -/
inductive Commits (session : Session) : Outcome → Prop
  | received {outcome : Outcome} (finished : outcome ∈ session.worker.finished) :
      Commits session outcome
  | evaluated {index : Nat} {plan : Plan} {planned : Session} {outcome : Outcome}
      (made : session.plan index = .ok (plan, planned)) (yields : plan.Yields outcome) :
      Commits session outcome

theorem Honest.commits (cacheable : Graph.Cacheable right faulty)
    (reachable : session.graph.Reachable) (honest : session.Honest right) {outcome : Outcome}
    (commits : session.Commits outcome) :
    session.graph.Credits (right session.graph) outcome := by
  cases commits with
  | received finished => exact honest.finished outcome finished
  | evaluated made yields =>
      obtain ⟨serial, ran⟩ := yields
      have promises := (honest.request cacheable reachable made).waiting _
        (List.mem_append_right _ (List.mem_append_right _ (List.mem_singleton.mpr rfl)))
      obtain ⟨engine, _, rfl⟩ := plan_eq made
      exact promises serial outcome ran

/-- Background evaluation is safe in any interleaving. A commit stores nothing but reference values,
each under the position and revision of its node. What polling or waiting returns has the reference
value of its target. Both are about nodes to whose value the identity of functions makes no
difference. Outcomes come one for each plan and in the order of the plans, the worker is never stuck
before the last if no primitive faults, and the count of pending plans is exact. -/
theorem Serving.safe (serving : session.Serving submitted received) (serials : Nat → Nat) :
    (∀ outcome, session.Commits outcome →
      (∀ engine : Engine, engine.commit session.graph outcome =
        ((Engine.stores session.graph outcome.computed).length,
          (Engine.stores session.graph outcome.computed).foldl
            (fun engine entry => engine.remember entry.1 entry.2) engine)) ∧
      ∀ key value, (key, value) ∈ Engine.stores session.graph outcome.computed →
        ∃ node, session.graph.nodes[key.index]? = some node ∧ node.revision = key.revision ∧
          (session.graph.IgnoresIdentity serials key.index →
            session.graph.HasValue serials key.index value)) ∧
    (∀ outcome, outcome ∈ session.poll.1 ∨ session.wait.1 = some outcome →
      session.graph.IgnoresIdentity serials outcome.target →
        session.graph.HasValue serials outcome.target outcome.value) ∧
    (∃ done, submitted = done ++ session.worker.waiting ∧
      List.Forall₂ Plan.Yields done (received ++ session.worker.finished)) ∧
    (session.graph.registry.NeverFaults →
      ∃ later, session.workAll session.worker.waiting.length = .ok later ∧
        List.Forall₂ Plan.Yields submitted (received ++ later.worker.finished)) ∧
    session.worker.pending = session.worker.queued.length +
      session.worker.running.toList.length + session.worker.finished.length := by
  have cacheable := Graph.reference_cacheable serials
  have honest := serving.honest cacheable
  have accounts := serving.accounts
  refine ⟨?_, ?_, accounts.answered, ?_, ?_⟩
  · intro outcome commits
    refine ⟨fun engine => engine.commit_eq session.graph outcome, fun key value stored => ?_⟩
    exact (honest.commits cacheable serving.graph commits).stores stored
  · rintro outcome (polled | waited)
    · rw [poll_returned] at polled
      obtain ⟨finished, current⟩ := List.mem_filter.mp polled
      exact (honest.finished outcome finished).current current
    · rw [wait_eq] at waited
      cases finished : session.worker.finished with
      | nil =>
          rw [finished] at waited
          cases waited
      | cons first rest =>
          rw [finished] at waited
          simp only [accept_eq, Option.ite_none_right_eq_some, Option.some.injEq] at waited
          obtain ⟨current, rfl⟩ := waited
          exact (honest.finished first (by simp [finished])).current current
  · intro never
    obtain ⟨later, worked, nothing⟩ := serving.workAll never
    obtain ⟨done, parts, yields⟩ := (workAll_step worked serving).1.accounts.answered
    rw [nothing, List.append_nil] at parts
    exact ⟨later, worked, parts ▸ yields⟩
  · rw [accounts.pending, Worker.waiting, List.length_append, Nat.add_comm
      session.worker.running.toList.length]

def falsified : Edit := .setExpression 0 Expr.outputName (.constant (.boolean false))

/-- The negation is requested, its input is edited, and it is requested again before the worker
runs both plans. -/
def negatedTwice : Except GraphError (Except Fault Session) := do
  let first ← (ofGraph negated .default 0).requestBackground 1
  return (← (first.after falsified).requestBackground 1).workAll 2

theorem negatedTwice_serving (reached : negatedTwice = .ok (.ok session)) :
    (∃ first second, session.Serving [first, second] []) ∧
      session.graph.registry = Registry.empty.register negation := by
  obtain ⟨requested, first, rest⟩ := Graph.bind_ok_iff.mp reached
  obtain ⟨again, second, rest⟩ := Graph.bind_ok_iff.mp rest
  obtain ⟨plan, step⟩ := requestBackground_step first
  obtain ⟨other, stepAgain⟩ := requestBackground_step second
  have empty := Graph.Reachable.empty (Registry.empty.register negation) none 0
  have opened : (ofGraph negated .default 0).Serving [] [] := .opened (empty.run _) _ rfl
  have served := opened.step step
  have edited := served.step (.edit requested falsified)
  obtain ⟨worked, same⟩ := workAll_step (Except.ok.inj rest) (edited.step stepAgain)
  refine ⟨⟨plan, other, worked⟩, ?_⟩
  calc
    session.graph.registry = again.graph.registry := by rw [same]
    _ = _ := stepAgain.registry edited.graph
    _ = requested.graph.registry := (Step.edit requested falsified).registry served.graph
    _ = negated.registry := step.registry opened.graph
    _ = Registry.empty.register negation := (empty.persists _).elim fun _ kept => kept.registry

/-- The outcome of the first plan is stale by then; that of the second has the value of its
target. -/
theorem negatedTwice_safe :
    ∃ (session : Session) (first second : Plan), session.Serving [first, second] [] ∧
      session.graph.registry.IgnoresIdentity ∧ session.graph.registry.NeverFaults ∧
      session.worker.pending = 2 ∧
      session.poll.1.map (fun outcome => (outcome.target, outcome.revision)) = [(1, 5)] ∧
      ∀ outcome ∈ session.poll.1, session.graph.HasValue id outcome.target outcome.value := by
  have summary : negatedTwice.toOption.bind (fun worked => worked.toOption.map fun session =>
      (session.worker.pending, session.poll.1.map fun outcome =>
        (outcome.target, outcome.revision))) = some (2, [(1, 5)]) := by decide +kernel
  cases reached : negatedTwice with
  | error error => simp [reached, Except.toOption] at summary
  | ok worked =>
      cases worked with
      | error fault => simp [reached, Except.toOption] at summary
      | ok session =>
          simp only [reached, Except.toOption, Option.bind_some, Option.map_some,
            Option.some.injEq, Prod.mk.injEq] at summary
          obtain ⟨⟨first, second, serving⟩, registry⟩ := negatedTwice_serving reached
          have primitives : session.graph.registry.primitives = [negation] := by
            rw [registry]
            rfl
          have blind : session.graph.registry.IgnoresIdentity := by
            simp [Registry.IgnoresIdentity, primitives, negation_ignoresIdentity]
          have never : session.graph.registry.NeverFaults := by
            simp only [Registry.NeverFaults, primitives, List.mem_singleton, forall_eq]
            exact Primitive.unary_neverFaults rfl
          have returned := (Serving.safe serving id).2.1
          exact ⟨session, first, second, serving, blind, never, summary.1, summary.2,
            fun outcome polled =>
              returned outcome (Or.inl polled) (Graph.ignoresIdentity blind id _)⟩

end Session

end NodeGraph
