import NodeGraph.Proofs.Execution.Planning

/-!
Demands. A node demands itself and what it is reached from, as far as no value in the cache cuts the
way off. A plan looks up exactly the nodes that its target demands, each of them once, takes the
values that it finds, and has a step for each of the others; so it never runs short of a value.
-/

namespace NodeGraph

namespace Cache

theorem find?_get (cache : Cache) (key other : CacheKey) :
    (cache.get key).2.find? other = cache.find? other := by
  rw [get]
  cases found : cache.find? key with
  | none => rfl
  | some entry =>
      have keyed : entry.key = key := by simpa using List.find?_some found
      by_cases same : key = other
      · subst same
        simp [find?, keyed, ← found]
      · have apart : (entry.key == other) = false := by simpa [keyed] using same
        simp only [find?, List.find?_cons, apart, List.find?_filter]
        congr 1
        funext entry
        by_cases hit : entry.key = other
        · simp [hit, Ne.symm same]
        · simp [hit]

end Cache

namespace Engine

variable {graph : Graph} {engine : Engine} {index : Nat}

/-- The value in the cache that belongs to a node as it is now, if the cache is in use. -/
def held (engine : Engine) (graph : Graph) (node : Nat) : Option Value :=
  if engine.options.useCache then
    graph.nodes[node]?.bind fun found => engine.cache.peek ⟨node, found.revision⟩
  else none

theorem cached_held (engine : Engine) (graph : Graph) (node : Nat) :
    (engine.cached graph node).1 = engine.held graph node := by
  rw [cached, held]
  cases graph.nodes[node]? with
  | none => simp
  | some found =>
      by_cases used : engine.options.useCache = true
      · simp only [lookup, used, if_true, Option.bind_some, Cache.get, Cache.peek]
        cases engine.cache.find? ⟨node, found.revision⟩ <;> rfl
      · simp [lookup, used]

theorem held_cached (engine : Engine) (graph : Graph) (node other : Nat) :
    (engine.cached graph node).2.held graph other = engine.held graph other := by
  rw [cached]
  cases graph.nodes[node]? with
  | none => rfl
  | some found =>
      by_cases used : engine.options.useCache = true
      · simp [lookup, held, used, Cache.peek, Cache.find?_get]
      · simp [lookup, used]

/-- What a node demands: itself, and whatever is read by something that it demands and the cache
does not hold. -/
inductive Demands (engine : Engine) (graph : Graph) (index : Nat) : Nat → Prop where
  | target : Demands engine graph index index
  | read {reader node : Nat} (demanded : Demands engine graph index reader)
      (missing : engine.held graph reader = none) (reads : graph.Reads reader node) :
      Demands engine graph index node

theorem Demands.bound (bound : index < graph.count) {node : Nat}
    (demanded : engine.Demands graph index node) : node < graph.count := by
  cases demanded with
  | target => exact bound
  | read _ _ reads => exact ((graph.reads_iff _ _).mp reads).1

def lookUpAll (engine : Engine) (graph : Graph) (nodes : List Nat) : Engine :=
  nodes.foldl (fun engine node => (engine.cached graph node).2) engine

theorem lookUpAll_concat (engine : Engine) (graph : Graph) (nodes : List Nat) (node : Nat) :
    engine.lookUpAll graph (nodes ++ [node]) =
      ((engine.lookUpAll graph nodes).cached graph node).2 := by
  simp [lookUpAll]

theorem held_lookUpAll (engine : Engine) (graph : Graph) (nodes : List Nat) (other : Nat) :
    (engine.lookUpAll graph nodes).held graph other = engine.held graph other := by
  induction nodes generalizing engine with
  | nil => rfl
  | cons node nodes ih => exact (ih _).trans (engine.held_cached graph node other)

theorem cached_stats (used : engine.options.useCache = true) (bound : index < graph.count) :
    (engine.cached graph index).2.options = engine.options ∧
    (engine.cached graph index).2.cache.stats.hits =
      engine.cache.stats.hits + [index].countP (fun node => (engine.held graph node).isSome) ∧
    (engine.cached graph index).2.cache.stats.misses =
      engine.cache.stats.misses + [index].countP (fun node => (engine.held graph node).isNone) := by
  obtain ⟨node, found⟩ := Graph.found_of_bound bound
  have here : engine.held graph index =
      (engine.cache.find? ⟨index, node.revision⟩).map (·.value) := by
    simp [held, used, found, Cache.peek]
  rw [List.countP_singleton, List.countP_singleton, here]
  simp only [cached, found, lookup, used, if_true, Cache.get]
  cases engine.cache.find? ⟨index, node.revision⟩ <;> simp

theorem lookUpAll_stats (used : engine.options.useCache = true) {nodes : List Nat}
    (bounds : ∀ node ∈ nodes, node < graph.count) :
    (engine.lookUpAll graph nodes).cache.stats.hits =
      engine.cache.stats.hits + nodes.countP (fun node => (engine.held graph node).isSome) ∧
    (engine.lookUpAll graph nodes).cache.stats.misses =
      engine.cache.stats.misses + nodes.countP (fun node => (engine.held graph node).isNone) := by
  induction nodes generalizing engine with
  | nil => exact ⟨rfl, rfl⟩
  | cons node nodes ih =>
      obtain ⟨options, hits, misses⟩ := cached_stats used (bounds node (by simp))
      obtain ⟨restHits, restMisses⟩ := ih (options ▸ used) fun other member =>
        bounds other (List.mem_cons_of_mem _ member)
      simp only [held_cached] at restHits restMisses
      refine ⟨restHits.trans ?_, restMisses.trans ?_⟩
      · rw [hits, Nat.add_assoc, ← List.countP_append, List.singleton_append]
      · rw [misses, Nat.add_assoc, ← List.countP_append, List.singleton_append]

/-- The walk of `demandFrom` with a record of the nodes that are looked up, in their order. -/
def recordFrom (graph : Graph) (topology : Topology) :
    Nat → List Nat → Demand → List Nat → Demand × List Nat
  | fuel + 1, node :: queue, demand, looked =>
      if demand.isKnown node then recordFrom graph topology fuel queue demand looked
      else
        match demand.engine.cached graph node with
        | (some value, engine) =>
            recordFrom graph topology fuel queue
              { demand with engine, published := (node, value) :: demand.published }
              (looked ++ [node])
        | (none, engine) =>
            recordFrom graph topology fuel (queue ++ topology.dependenciesOf node)
              { demand with engine, needed := node :: demand.needed } (looked ++ [node])
  | _, _, demand, looked => (demand, looked)

theorem recordFrom_demand (topology : Topology) (fuel : Nat) (queue : List Nat) (demand : Demand)
    (looked : List Nat) :
    (recordFrom graph topology fuel queue demand looked).1 =
      demandFrom graph topology fuel queue demand := by
  induction fuel generalizing queue demand looked with
  | zero => cases queue <;> rfl
  | succ fuel ih =>
      cases queue with
      | nil => rfl
      | cons node queue =>
          rw [recordFrom, demandFrom]
          split
          · exact ih _ _ _
          · rcases demand.engine.cached graph node with ⟨_ | value, engine⟩
            · exact ih _ _ _
            · exact ih _ _ _

structure Recorded (engine : Engine) (graph : Graph) (index : Nat) (queue : List Nat)
    (demand : Demand) (looked : List Nat) : Prop where
  state : demand.engine = engine.lookUpAll graph looked
  once : looked.Nodup
  parts : looked.Perm (demand.needed ++ demand.published.map Prod.fst)
  queued : ∀ node ∈ queue, engine.Demands graph index node
  needed : ∀ node ∈ demand.needed,
    engine.Demands graph index node ∧ engine.held graph node = none
  published : ∀ entry ∈ demand.published,
    engine.Demands graph index entry.1 ∧ engine.held graph entry.1 = some entry.2

theorem Recorded.answer {queue looked : List Nat} {demand : Demand}
    (recorded : Recorded engine graph index queue demand looked) (node : Nat) :
    (demand.engine.cached graph node).1 = engine.held graph node := by
  rw [cached_held, recorded.state, held_lookUpAll]

theorem Recorded.fresh {queue looked : List Nat} {demand : Demand} {node : Nat}
    (recorded : Recorded engine graph index queue demand looked)
    (unknown : ¬ demand.isKnown node = true) : (looked ++ [node]).Nodup := by
  rw [isKnown_keys, ← List.mem_append, ← recorded.parts.mem_iff] at unknown
  exact List.nodup_append_comm.mp (List.nodup_cons.mpr ⟨unknown, recorded.once⟩)

theorem Recorded.mono {queue rest looked : List Nat} {demand : Demand}
    (recorded : Recorded engine graph index queue demand looked)
    (fewer : ∀ node ∈ rest, node ∈ queue) :
    Recorded engine graph index rest demand looked :=
  { recorded with queued := fun node member => recorded.queued node (fewer node member) }

theorem Recorded.hit {queue looked : List Nat} {demand : Demand} {node : Nat} {value : Value}
    (recorded : Recorded engine graph index (node :: queue) demand looked)
    (unknown : ¬ demand.isKnown node = true)
    (found : (demand.engine.cached graph node).1 = some value) :
    Recorded engine graph index queue
      { demand with
        engine := (demand.engine.cached graph node).2
        published := (node, value) :: demand.published }
      (looked ++ [node]) where
  state := by rw [lookUpAll_concat, ← recorded.state]
  once := recorded.fresh unknown
  parts := (List.perm_append_singleton node looked).trans
    ((recorded.parts.cons node).trans List.perm_middle.symm)
  queued := fun other member => recorded.queued other (by simp [member])
  needed := recorded.needed
  published := List.forall_mem_cons.mpr
    ⟨⟨recorded.queued node (by simp), recorded.answer node ▸ found⟩, recorded.published⟩

theorem Recorded.miss {queue looked : List Nat} {demand : Demand} {node : Nat}
    (recorded : Recorded engine graph index (node :: queue) demand looked)
    (unknown : ¬ demand.isKnown node = true)
    (missing : (demand.engine.cached graph node).1 = none) :
    Recorded engine graph index (queue ++ graph.topology.dependenciesOf node)
      { demand with
        engine := (demand.engine.cached graph node).2
        needed := node :: demand.needed }
      (looked ++ [node]) := by
  have demanded := recorded.queued node (by simp)
  have missing := recorded.answer node ▸ missing
  refine ⟨?_, recorded.fresh unknown, ?_, ?_, ?_, recorded.published⟩
  · rw [lookUpAll_concat, ← recorded.state]
  · exact (List.perm_append_singleton node looked).trans (recorded.parts.cons node)
  · intro other member
    rcases List.mem_append.mp member with old | reads
    · exact recorded.queued other (by simp [old])
    · exact demanded.read missing reads
  · exact List.forall_mem_cons.mpr ⟨⟨demanded, missing⟩, recorded.needed⟩

theorem Recorded.run (fuel : Nat) {queue looked : List Nat} {demand : Demand}
    (recorded : Recorded engine graph index queue demand looked) :
    Recorded engine graph index [] (recordFrom graph graph.topology fuel queue demand looked).1
      (recordFrom graph graph.topology fuel queue demand looked).2 := by
  induction fuel generalizing queue demand looked with
  | zero => cases queue <;> exact recorded.mono nofun
  | succ fuel ih =>
      cases queue with
      | nil => exact recorded
      | cons node queue =>
          rw [recordFrom]
          split
          · exact ih (recorded.mono fun other member => List.mem_cons_of_mem _ member)
          · rename_i unknown
            split
            · rename_i value engine result
              have hit := recorded.hit unknown (congrArg Prod.fst result)
              rw [result] at hit
              exact ih hit
            · rename_i engine result
              have miss := recorded.miss unknown (congrArg Prod.fst result)
              rw [result] at miss
              exact ih miss

def recordFor (engine : Engine) (graph : Graph) (index : Nat) : Demand × List Nat :=
  recordFrom graph graph.topology (Topology.edgeCount graph.topology.dependencies + 1) [index]
    ⟨engine, [], []⟩ []

theorem recordFor_demand (engine : Engine) (graph : Graph) (index : Nat) :
    (engine.recordFor graph index).1 = engine.demandFor graph index :=
  recordFrom_demand _ _ _ _ _

theorem recordFor_recorded (engine : Engine) (graph : Graph) (index : Nat) :
    Recorded engine graph index [] (engine.demandFor graph index)
      (engine.recordFor graph index).2 := by
  have start : Recorded engine graph index [index] ⟨engine, [], []⟩ [] :=
    ⟨rfl, .nil, .nil, by simp [Demands.target], by simp, by simp⟩
  rw [← recordFor_demand]
  exact start.run _

theorem held_answers (engine : Engine) (graph : Graph) :
    Answers graph (fun node value => engine.held graph node = some value)
      (fun later => ∀ node, later.held graph node = engine.held graph node) where
  value := fun same hit => by rwa [cached_held, same] at hit
  kept := fun node same other => (held_cached _ _ _ _).trans (same other)

theorem Demands.isKnown {node : Nat} (demanded : engine.Demands graph index node) :
    (engine.demandFor graph index).isKnown node = true := by
  have complete : Demanded graph (fun node value => engine.held graph node = some value) _ index []
      (engine.demandFor graph index) := demandFor_demanded (held_answers engine graph) fun _ => rfl
  induction demanded with
  | target => simpa using complete.start
  | read _ missing reads ih =>
      -- What is not held is not published, so it is needed, and then its dependencies are known.
      rcases (isKnown_keys _ _).mp ih with needed | published
      · simpa using complete.behind _ needed _ reads
      · obtain ⟨entry, member, rfl⟩ := List.mem_map.mp published
        rw [complete.published entry member] at missing
        cases missing

theorem Demands.found {node : Nat} (demanded : engine.Demands graph index node) :
    node ∈ (engine.demandFor graph index).needed ∨
      ∃ value, (node, value) ∈ (engine.demandFor graph index).published := by
  refine ((isKnown_keys _ _).mp demanded.isKnown).imp_right fun published => ?_
  obtain ⟨entry, member, rfl⟩ := List.mem_map.mp published
  exact ⟨entry.2, member⟩

section Found

variable (engine : Engine) (graph : Graph) (index : Nat)

theorem mem_needed_iff (node : Nat) : node ∈ (engine.demandFor graph index).needed ↔
    engine.Demands graph index node ∧ engine.held graph node = none := by
  have recorded := engine.recordFor_recorded graph index
  refine ⟨recorded.needed node, fun ⟨demanded, missing⟩ => ?_⟩
  rcases demanded.found with needed | ⟨value, published⟩
  · exact needed
  · rw [(recorded.published _ published).2] at missing
    cases missing

theorem mem_published_iff (node : Nat) (value : Value) :
    (node, value) ∈ (engine.demandFor graph index).published ↔
      engine.Demands graph index node ∧ engine.held graph node = some value := by
  have recorded := engine.recordFor_recorded graph index
  refine ⟨recorded.published (node, value), fun ⟨demanded, found⟩ => ?_⟩
  rcases demanded.found with needed | ⟨other, published⟩
  · rw [(recorded.needed node needed).2] at found
    cases found
  · have same := (recorded.published _ published).2.symm.trans found
    rwa [← Option.some.inj same]

theorem mem_record_iff (node : Nat) : node ∈ (engine.recordFor graph index).2 ↔
    engine.Demands graph index node := by
  have recorded := engine.recordFor_recorded graph index
  rw [recorded.parts.mem_iff, List.mem_append]
  constructor
  · rintro (needed | published)
    · exact (recorded.needed node needed).1
    · obtain ⟨entry, member, rfl⟩ := List.mem_map.mp published
      exact (recorded.published entry member).1
  · exact fun demanded => (isKnown_keys _ _).mp demanded.isKnown

end Found

end Engine

/-- The values of the slots, unless there is none for a connected slot. -/
def Snapshot.inputValues? (snapshot : Snapshot) (values : List (Nat × Value)) :
    Option (List (Option Value)) :=
  snapshot.slots.mapM fun slot =>
    slot.elim (some none) fun target => (values.lookup target).map some

namespace Plan

def runFrom? (registry : Registry) :
    Nat → List (Nat × Value) → List Computed → List Snapshot →
      Option (Except Fault (List (Nat × Value) × List Computed))
  | _, values, done, [] => some (.ok (values, done.reverse))
  | serial, values, done, step :: rest =>
      (step.inputValues? values).bind fun inputs =>
        match step.evaluate registry serial inputs with
        | .error fault => some (.error fault)
        | .ok value =>
            runFrom? registry (serial + 1) ((step.index, value) :: values)
              (⟨step.index, step.revision, value⟩ :: done) rest

def run? (plan : Plan) (serial : Nat) : Option (Except Fault Outcome) :=
  (runFrom? plan.registry serial plan.published [] plan.steps).bind fun result =>
    match result with
    | .error fault => some (.error fault)
    | .ok (values, computed) =>
        (values.lookup plan.target).map fun value =>
          .ok ⟨plan.target, plan.revision, value, computed⟩

end Plan

theorem inputValues?_eq {snapshot : Snapshot} {values : List (Nat × Value)}
    (given : ∀ target, some target ∈ snapshot.slots → (values.lookup target).isSome) :
    snapshot.inputValues? values = some (snapshot.inputValues values) := by
  rw [Snapshot.inputValues?, Snapshot.inputValues]
  generalize snapshot.slots = slots at given
  induction slots with
  | nil => rfl
  | cons slot slots ih =>
      rw [List.mapM_cons, ih fun target member => given target (by simp [member]), List.map_cons]
      cases slot with
      | none => rfl
      | some target =>
          obtain ⟨value, found⟩ := Option.isSome_iff_exists.mp (given target (by simp))
          simp [found]

theorem Graph.Steps.runFrom?_eq {graph : Graph} {keys : List Nat} {steps : List Snapshot}
    (runnable : graph.Steps keys steps) (registry : Registry) (serial : Nat)
    (values : List (Nat × Value)) (done : List Computed)
    (known : ∀ target ∈ keys, (values.lookup target).isSome) :
    Plan.runFrom? registry serial values done steps =
      some (Plan.runFrom registry serial values done steps) ∧
    ∀ later computed, Plan.runFrom registry serial values done steps = .ok (later, computed) →
      ∀ target, target ∈ keys ∨ target ∈ steps.map Snapshot.index →
        (later.lookup target).isSome := by
  -- What is known only grows, so every step finds the values that it was planned to find.
  induction runnable generalizing serial values done with
  | nil =>
      refine ⟨rfl, ?_⟩
      rintro later computed ⟨⟩ target (old | impossible)
      · exact known target old
      · cases impossible
  | @cons keys index node rest found inputs steps ih =>
      rw [Plan.runFrom?, Plan.runFrom,
        inputValues?_eq fun target mentioned => known target (inputs target mentioned),
        Option.bind_some]
      cases (Snapshot.ofNode index node).evaluate registry serial
          ((Snapshot.ofNode index node).inputValues values) with
      | error fault =>
          refine ⟨rfl, ?_⟩
          intro later computed impossible
          cases impossible
      | ok value =>
          have grown : ∀ target ∈ index :: keys,
              (List.lookup target ((index, value) :: values)).isSome := by
            intro target member
            rw [List.lookup_cons]
            split
            · rfl
            · rename_i apart
              exact known target ((List.mem_cons.mp member).resolve_left (by simpa using apart))
          obtain ⟨same, present⟩ := ih (serial + 1) ((index, value) :: values)
            (⟨index, node.revision, value⟩ :: done) grown
          refine ⟨same, fun later computed result target member => ?_⟩
          refine present later computed result target ?_
          rcases member with old | step
          · exact Or.inl (List.mem_cons_of_mem _ old)
          · rcases List.mem_cons.mp step with first | later
            · exact Or.inl (first ▸ List.mem_cons_self)
            · exact Or.inr later

theorem Graph.Steps.inputs {graph : Graph} {keys : List Nat} {steps : List Snapshot}
    (runnable : graph.Steps keys steps) {before after : List Snapshot} {step : Snapshot}
    (parts : steps = before ++ step :: after) {target : Nat}
    (mentioned : some target ∈ step.slots) :
    target ∈ before.map Snapshot.index ∨ target ∈ keys := by
  induction runnable generalizing before with
  | nil => simp at parts
  | cons found inputs _ ih =>
      cases before with
      | nil =>
          obtain ⟨rfl, -⟩ := List.cons.inj parts
          exact Or.inr (inputs target mentioned)
      | cons first before =>
          obtain ⟨rfl, rest⟩ := List.cons.inj parts
          rcases ih rest with earlier | same | old
          · exact Or.inl (List.mem_cons_of_mem _ earlier)
          · exact Or.inl List.mem_cons_self
          · exact Or.inr ‹_›

theorem Graph.Plans.run?_eq {graph : Graph} {right : Nat → Value → Prop} {plan : Plan}
    (plans : graph.Plans right plan) (serial : Nat) :
    plan.run? serial = some (plan.run serial) := by
  have known : ∀ target ∈ plan.published.map Prod.fst, (plan.published.lookup target).isSome := by
    intro target key
    obtain ⟨entry, member, rfl⟩ := List.mem_map.mp key
    exact List.lookup_isSome_iff.mpr ⟨entry, member, by simp⟩
  obtain ⟨same, present⟩ := plans.steps.runFrom?_eq plan.registry serial plan.published [] known
  rw [Plan.run?, Plan.run, same]
  cases ran : Plan.runFrom plan.registry serial plan.published [] plan.steps with
  | error fault => rfl
  | ok result =>
      have planned : plan.target ∈ plan.published.map Prod.fst ∨
          plan.target ∈ plan.steps.map Snapshot.index :=
        plans.target.imp_right List.mem_map.mpr
      obtain ⟨value, found⟩ := Option.isSome_iff_exists.mp (present _ _ ran _ planned)
      simp [found, bind, Except.bind, pure, Except.pure]

namespace Engine

variable {graph : Graph} {engine : Engine} {index : Nat}

def planRecorded (engine : Engine) (graph : Graph) (index : Nat) :
    Except GraphError ((Plan × Engine) × List Nat) := do
  let revision ← graph.revision index
  let record := engine.recordFor graph index
  let order := graph.topology.sort.toOption.getD []
  let steps ← (order.filter record.1.needed.contains).mapM (Snapshot.capture graph)
  return ((⟨index, revision, steps, record.1.published, graph.registry⟩, record.1.engine), record.2)

theorem planRecorded_eq (engine : Engine) (graph : Graph) (index : Nat) :
    engine.planRecorded graph index =
      (engine.plan graph index).map fun planned => (planned, (engine.recordFor graph index).2) := by
  rw [planRecorded, plan]
  simp only [recordFor_demand, demandFor, bind, Except.bind]
  cases graph.revision index with
  | error failure => rfl
  | ok revision =>
      cases graph.topology.sort <;> simp only [Except.toOption, Option.getD] <;> split <;> rfl

/-- What makes a plan closed and minimal: it holds what its target demands, no more and no less, and
it can be run. -/
structure Economical (engine : Engine) (graph : Graph) (index : Nat) (plan : Plan) : Prop where
  once : (plan.steps.map Snapshot.index).Nodup
  single : (plan.published.map Prod.fst).Nodup
  snapshots : ∀ step ∈ plan.steps, ∃ node, graph.nodes[step.index]? = some node ∧
    step = .ofNode step.index node
  /-- What a step depends on was evaluated before it, or its value is known. -/
  inputs : ∀ before step after, plan.steps = before ++ step :: after →
    ∀ target, graph.Reads step.index target →
      target ∈ before.map Snapshot.index ∨ target ∈ plan.published.map Prod.fst
  target : index ∈ plan.steps.map Snapshot.index ∨ index ∈ plan.published.map Prod.fst
  published : ∀ node value, (node, value) ∈ plan.published ↔
    engine.Demands graph index node ∧ engine.held graph node = some value
  steps : ∀ node, node ∈ plan.steps.map Snapshot.index ↔
    engine.Demands graph index node ∧ engine.held graph node = none
  /-- A run does not break off, so it reads no value that is missing. -/
  runs : ∀ serial, plan.run? serial = some (plan.run serial)

theorem plan_economical (wellFormed : graph.WellFormed) (engine : Engine)
    (bound : index < graph.count) :
    ∃ plan, engine.plan graph index = .ok (plan, (engine.demandFor graph index).engine) ∧
      plan.target = index ∧ plan.published = (engine.demandFor graph index).published ∧
      Economical engine graph index plan := by
  obtain ⟨node, order, steps, _, ordered, snapshots, made⟩ := plan_eq wellFormed engine bound
  obtain ⟨plan, _, planned, _, target, plans⟩ :=
    plan_ok wellFormed (held_answers engine graph) (fun _ => rfl) bound
  rw [made] at planned
  obtain ⟨rfl, -⟩ := Prod.mk.inj (Except.ok.inj planned)
  have recorded := engine.recordFor_recorded graph index
  refine ⟨_, made, rfl, rfl, plans.once, ?_, plans.steps.found, ?_, ?_, ?_, ?_, plans.run?_eq⟩
  · exact (List.nodup_append.mp (recorded.parts.nodup_iff.mp recorded.once)).2.1
  · intro before step after parts target reads
    have member : step ∈ before ++ step :: after := by simp
    obtain ⟨_, found, shape⟩ := plans.steps.found step (parts ▸ member)
    obtain ⟨_, node, present, mentioned⟩ := (Graph.reads_iff _ _ _).mp reads
    obtain rfl := Option.some.inj (found.symm.trans present)
    exact plans.steps.inputs parts (shape ▸ mentioned)
  · exact plans.target.symm.imp_left List.mem_map.mpr
  · exact engine.mem_published_iff graph index
  · intro node
    rw [Graph.of_snapshots snapshots, List.mem_filter, List.contains_iff_mem, mem_needed_iff,
      ordered.mem_iff, Graph.topology_count, and_iff_right_iff_imp]
    exact fun needed => needed.1.bound bound

theorem demandFor_stats (engine : Engine) (bound : index < graph.count)
    (used : engine.options.useCache = true) :
    (engine.demandFor graph index).engine.cache.stats.hits =
      engine.cache.stats.hits + (engine.demandFor graph index).published.length ∧
    (engine.demandFor graph index).engine.cache.stats.misses =
      engine.cache.stats.misses + (engine.demandFor graph index).needed.length := by
  have recorded := engine.recordFor_recorded graph index
  have inside : ∀ node ∈ (engine.recordFor graph index).2, node < graph.count := fun node member =>
    ((engine.mem_record_iff graph index node).mp member).bound bound
  obtain ⟨hits, misses⟩ := lookUpAll_stats used inside
  have missed : ∀ node ∈ (engine.demandFor graph index).needed, engine.held graph node = none :=
    fun node member => (recorded.needed node member).2
  have taken : ∀ entry ∈ (engine.demandFor graph index).published,
      engine.held graph entry.1 = some entry.2 :=
    fun entry member => (recorded.published entry member).2
  rw [recorded.state, hits, misses, recorded.parts.countP_eq, recorded.parts.countP_eq]
  simp only [List.countP_append, List.countP_map]
  refine ⟨?_, ?_⟩
  · rw [List.countP_eq_zero.mpr fun node member => by simp [missed node member],
      List.countP_eq_length.mpr fun entry member => by simp [taken entry member], Nat.zero_add]
  · rw [List.countP_eq_length.mpr fun node member => by simp [missed node member],
      List.countP_eq_zero.mpr fun entry member => by simp [taken entry member], Nat.add_zero]

end Engine

/-- Plans are closed and minimal. Whatever the cache holds, a plan for a node can be made. It has
the values of the nodes that the node demands and the cache holds, and a step for each of the others
that it demands, once and after the steps it reads from; so running it never finds a value missing.
To make it, what the node demands is looked up, every node of it once. -/
theorem Graph.Reachable.plans_minimal {graph : Graph} (reachable : graph.Reachable)
    (engine : Engine) {index : Nat} (bound : index < graph.count) :
    ∃ plan later looked,
      engine.planRecorded graph index = .ok ((plan, later), looked) ∧
      engine.plan graph index = .ok (plan, later) ∧
      plan.target = index ∧ engine.Economical graph index plan ∧
      looked.Nodup ∧ (∀ node, node ∈ looked ↔ engine.Demands graph index node) ∧
      later = engine.lookUpAll graph looked ∧
      (engine.options.useCache = true →
        later.cache.stats.hits = engine.cache.stats.hits + plan.published.length ∧
        later.cache.stats.misses = engine.cache.stats.misses + plan.steps.length) := by
  obtain ⟨plan, made, target, published, economical⟩ :=
    Engine.plan_economical reachable.wellFormed engine bound
  have recorded := engine.recordFor_recorded graph index
  refine ⟨plan, _, (engine.recordFor graph index).2, ?_, made, target, economical, recorded.once,
    engine.mem_record_iff graph index, recorded.state, ?_⟩
  · rw [Engine.planRecorded_eq, made]
    rfl
  · intro used
    obtain ⟨hits, misses⟩ := Engine.demandFor_stats engine bound used
    have steps : (plan.steps.map Snapshot.index).Perm (engine.demandFor graph index).needed := by
      have needed := (List.nodup_append.mp (recorded.parts.nodup_iff.mp recorded.once)).1
      rw [List.perm_ext_iff_of_nodup economical.once needed]
      exact fun node => (economical.steps node).trans (engine.mem_needed_iff graph index node).symm
    rw [published, ← plan.steps.length_map, steps.length_eq]
    exact ⟨hits, misses⟩

/-- A constant, a node that reads it, and a node that reads both. -/
def Graph.shortcut : Graph :=
  (Graph.empty .empty).run
    [.addOutputNode (.constant (.boolean true)), .addOutputNode (.variable (Expr.inputName 0)),
      .addOutputNode (.variable (Expr.inputName 0)), .addEdge 1 0 0, .addEdge 2 0 1, .addEdge 2 1 0]

def Engine.halfway : Engine := (ofOptions .default 0).remember ⟨1, 4⟩ (.boolean true)

/-- The constant is behind the node in the middle, whose value is known; but the last node reads it
as well, so it is evaluated. -/
theorem Graph.shortcut_plans_minimal :
    shortcut.Reachable ∧ 2 < shortcut.count ∧
      ∃ plan later, Engine.halfway.planRecorded shortcut 2 = .ok ((plan, later), [2, 1, 0]) ∧
        plan.steps.map Snapshot.index = [0, 2] ∧ plan.published.map Prod.fst = [1] ∧
        Engine.halfway.Economical shortcut 2 plan := by
  have reachable : shortcut.Reachable := (Reachable.empty .empty none 0).run _
  have bound : 2 < shortcut.count := by decide +kernel
  obtain ⟨plan, later, looked, recorded, _, _, economical, _⟩ :=
    Graph.Reachable.plans_minimal reachable .halfway bound
  have lists : (Engine.halfway.planRecorded shortcut 2).toOption.map (fun planned =>
      (planned.1.1.steps.map Snapshot.index, planned.1.1.published.map Prod.fst, planned.2)) =
      some ([0, 2], [1], [2, 1, 0]) := by decide +kernel
  rw [recorded] at lists
  obtain ⟨steps, published, rfl⟩ : plan.steps.map Snapshot.index = [0, 2] ∧
      plan.published.map Prod.fst = [1] ∧ looked = [2, 1, 0] := by
    simpa [Except.toOption] using lists
  exact ⟨reachable, bound, plan, later, recorded, steps, published, economical⟩

end NodeGraph
