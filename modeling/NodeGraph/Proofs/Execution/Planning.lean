import NodeGraph.Proofs.Execution.Caching
import NodeGraph.Proofs.Topology.Layers

/-!
Plans. A plan for a node of an acyclic graph holds, for everything the node depends on, either the
value or a step that comes after the steps it needs; running it gives right values, for whatever
makes a value right.
-/

namespace NodeGraph

/-- A value with the one property, or a fault with the other. -/
inductive Concludes {result : Type} (fine : result → Prop) (broken : Fault → Prop) :
    Except Fault result → Prop where
  | ok {value : result} (holds : fine value) : Concludes fine broken (.ok value)
  | error {fault : Fault} (holds : broken fault) : Concludes fine broken (.error fault)

namespace Concludes

variable {first result : Type} {outcome : Except Fault first} {fine : first → Prop}
  {broken : Fault → Prop} {right : result → Prop} {faulty : Fault → Prop}

theorem bind {next : first → Except Fault result} (concludes : Concludes fine broken outcome)
    (continues : ∀ value, fine value → Concludes right faulty (next value))
    (breaks : ∀ fault, broken fault → faulty fault) :
    Concludes right faulty (outcome >>= next) := by
  cases concludes with
  | ok holds => exact continues _ holds
  | error holds => exact .error (breaks _ holds)

theorem mono {other : first → Prop} (concludes : Concludes fine broken outcome)
    (fines : ∀ value, fine value → other value) (breaks : ∀ fault, broken fault → faulty fault) :
    Concludes other faulty outcome := by
  cases concludes with
  | ok holds => exact .ok (fines _ holds)
  | error holds => exact .error (breaks _ holds)

theorem ends (concludes : Concludes fine broken outcome) :
    (∃ value, outcome = .ok value ∧ fine value) ∨
      ∃ fault, outcome = .error fault ∧ broken fault := by
  cases concludes with
  | ok holds => exact Or.inl ⟨_, rfl, holds⟩
  | error holds => exact Or.inr ⟨_, rfl, holds⟩

theorem value (concludes : Concludes fine broken outcome) {value : first}
    (result : outcome = .ok value) : fine value := by
  cases concludes with
  | ok holds =>
      cases result
      exact holds
  | error holds => cases result

end Concludes

variable {graph : Graph}

namespace Engine

variable {right : Nat → Value → Prop} {sound : Engine → Prop}

structure Answers (graph : Graph) (right : Nat → Value → Prop) (sound : Engine → Prop) :
    Prop where
  value : ∀ {engine : Engine} {node : Nat} {value : Value}, sound engine →
    (engine.cached graph node).1 = some value → right node value
  kept : ∀ {engine : Engine} (node : Nat), sound engine → sound (engine.cached graph node).2

theorem faithful_answers : Answers graph right fun engine => graph.Faithful right engine.cache where
  value := fun faithful hit => cached_value faithful hit
  kept := fun node faithful => cached_faithful faithful node

/-- What holds of a demand while nodes in the queue are still to be looked at. -/
structure Demanded (graph : Graph) (right : Nat → Value → Prop) (sound : Engine → Prop)
    (index : Nat) (queue : List Nat) (demand : Demand) : Prop where
  sound : sound demand.engine
  needed : ∀ node ∈ demand.needed, node = index ∨ graph.Reaches index node
  queued : ∀ node ∈ queue, node = index ∨ graph.Reaches index node
  published : ∀ entry ∈ demand.published, right entry.1 entry.2
  behind : ∀ node ∈ demand.needed, ∀ target, graph.Reads node target →
    demand.isKnown target = true ∨ target ∈ queue
  start : demand.isKnown index = true ∨ index ∈ queue

theorem isKnown_iff (demand : Demand) (node : Nat) :
    demand.isKnown node = true ↔
      node ∈ demand.needed ∨ (demand.published.lookup node).isSome := by
  simp [Demand.isKnown]

theorem isKnown_keys (demand : Demand) (node : Nat) :
    demand.isKnown node = true ↔ node ∈ demand.needed ∨ node ∈ demand.published.map Prod.fst := by
  rw [isKnown_iff, List.lookup_isSome_iff]
  simp

variable {index : Nat}

theorem Demanded.known {node : Nat} {queue : List Nat} {demand : Demand}
    (demanded : Demanded graph right sound index (node :: queue) demand)
    (known : demand.isKnown node = true) : Demanded graph right sound index queue demand where
  sound := demanded.sound
  needed := demanded.needed
  queued := fun other member => demanded.queued other (by simp [member])
  published := demanded.published
  behind := by
    intro other member target reads
    rcases demanded.behind other member target reads with old | queued
    · exact Or.inl old
    · rcases List.mem_cons.mp queued with same | later
      · exact Or.inl (same ▸ known)
      · exact Or.inr later
  start := by
    rcases demanded.start with old | queued
    · exact Or.inl old
    · rcases List.mem_cons.mp queued with same | later
      · exact Or.inl (same ▸ known)
      · exact Or.inr later

theorem Demanded.hit (answers : Answers graph right sound) {node : Nat} {queue : List Nat}
    {demand : Demand} (demanded : Demanded graph right sound index (node :: queue) demand)
    {value : Value} (hit : (demand.engine.cached graph node).1 = some value) :
    Demanded graph right sound index queue
      { demand with
        engine := (demand.engine.cached graph node).2
        published := (node, value) :: demand.published } := by
  have grows : ∀ {other : Nat}, demand.isKnown other = true ∨ other ∈ node :: queue →
      Demand.isKnown
        { demand with
          engine := (demand.engine.cached graph node).2
          published := (node, value) :: demand.published } other = true ∨ other ∈ queue := by
    intro other known
    rw [isKnown_iff] at known ⊢
    rw [List.lookup_cons]
    rcases known with (needed | published) | queued
    · exact Or.inl (Or.inl needed)
    · refine Or.inl (Or.inr ?_)
      split
      · rfl
      · exact published
    · rcases List.mem_cons.mp queued with same | later
      · exact Or.inl (Or.inr (by simp [same]))
      · exact Or.inr later
  refine ⟨answers.kept node demanded.sound, demanded.needed,
    fun other member => demanded.queued other (by simp [member]), ?_, ?_, grows demanded.start⟩
  · intro entry member
    rcases List.mem_cons.mp member with same | old
    · rw [same]
      exact answers.value demanded.sound hit
    · exact demanded.published entry old
  · exact fun other member target reads => grows (demanded.behind other member target reads)

theorem Demanded.miss (answers : Answers graph right sound) {node : Nat} {queue : List Nat}
    {demand : Demand} (demanded : Demanded graph right sound index (node :: queue) demand) :
    Demanded graph right sound index (queue ++ graph.topology.dependenciesOf node)
      { demand with
        engine := (demand.engine.cached graph node).2
        needed := node :: demand.needed } := by
  have path := demanded.queued node (by simp)
  have grows : ∀ {other : Nat}, demand.isKnown other = true ∨ other ∈ node :: queue →
      Demand.isKnown
        { demand with
          engine := (demand.engine.cached graph node).2
          needed := node :: demand.needed } other = true ∨
        other ∈ queue ++ graph.topology.dependenciesOf node := by
    intro other known
    rw [isKnown_iff] at known ⊢
    rcases known with (needed | published) | queued
    · exact Or.inl (Or.inl (by simp [needed]))
    · exact Or.inl (Or.inr published)
    · rcases List.mem_cons.mp queued with same | later
      · exact Or.inl (Or.inl (by simp [same]))
      · exact Or.inr (by simp [later])
  refine ⟨answers.kept node demanded.sound, ?_, ?_, demanded.published, ?_,
    grows demanded.start⟩
  · intro other member
    rcases List.mem_cons.mp member with same | old
    · exact same ▸ path
    · exact demanded.needed other old
  · intro other member
    rcases List.mem_append.mp member with old | adjacent
    · exact demanded.queued other (by simp [old])
    · rcases path with same | path
      · exact Or.inr (Relation.TransGen.single (same ▸ adjacent))
      · exact Or.inr (Relation.TransGen.tail path adjacent)
  · intro other member target reads
    rcases List.mem_cons.mp member with same | old
    · exact Or.inr (List.mem_append_right _ (same ▸ reads))
    · exact grows (demanded.behind other old target reads)

theorem demandFrom_demanded (answers : Answers graph right sound) (fuel : Nat)
    (queue : List Nat) (demand : Demand) (demanded : Demanded graph right sound index queue demand)
    (enough : queue.length + Topology.pending graph.topology.dependenciesOf graph.count
      demand.needed ≤ fuel) :
    Demanded graph right sound index [] (demandFrom graph graph.topology fuel queue demand) := by
  -- A needed node puts its dependencies into the queue once, so all the fuel it takes is bounded.
  induction fuel generalizing queue demand with
  | zero =>
      have empty : queue = [] := List.length_eq_zero_iff.mp (by omega)
      rw [empty] at demanded
      rw [demandFrom]
      · exact demanded
      · intro _ _ _ impossible
        cases impossible
  | succ fuel ih =>
      cases queue with
      | nil =>
          rw [demandFrom]
          · exact demanded
          · intro _ _ _ _ impossible
            cases impossible
      | cons node queue =>
          rw [List.length_cons] at enough
          rw [demandFrom]
          split
          · rename_i known
            exact ih queue demand (demanded.known known) (by omega)
          · rename_i unknown
            split
            · rename_i value engine result
              have hit := demanded.hit answers (congrArg Prod.fst result)
              rw [result] at hit
              exact ih queue _ hit (by simp only; omega)
            · rename_i engine result
              have miss := demanded.miss answers
              rw [result] at miss
              refine ih _ _ miss ?_
              have outside : ∀ other, graph.count ≤ other →
                  graph.topology.dependenciesOf other = [] := by
                intro other bound
                refine List.eq_nil_iff_forall_not_mem.mpr fun target reads => ?_
                have inside := (graph.mirrored.bound reads).1
                rw [Graph.topology_count] at inside
                omega
              have fresh : node ∉ demand.needed := by
                intro member
                exact unknown ((isKnown_iff demand node).mpr (Or.inl member))
              have shrinks := Topology.pending_cons graph.topology.dependenciesOf graph.count
                outside demand.needed node fresh
              simp only [List.length_append]
              omega

end Engine

namespace Graph

theorem lookup_right {right : Nat → Value → Prop} {known : List (Nat × Value)}
    (valued : ∀ entry ∈ known, right entry.1 entry.2) {target : Nat}
    (member : target ∈ known.map Prod.fst) :
    ∃ value, known.lookup target = some value ∧ right target value := by
  obtain ⟨entry, inside, same⟩ := List.mem_map.mp member
  have given : (known.lookup target).isSome :=
    List.lookup_isSome_iff.mpr ⟨entry, inside, by simp [same]⟩
  obtain ⟨value, found⟩ := Option.isSome_iff_exists.mp given
  obtain ⟨before, after, parts, _⟩ := List.lookup_eq_some_iff.mp found
  exact ⟨value, found, valued (target, value) (by simp [parts])⟩

/-- Steps of the graph, each of which reads from what is known or was evaluated before. -/
inductive Steps (graph : Graph) : List Nat → List Snapshot → Prop where
  | nil {known : List Nat} : Steps graph known []
  | cons {known : List Nat} {index : Nat} {node : Node} {rest : List Snapshot}
      (found : graph.nodes[index]? = some node)
      (inputs : ∀ target, some target ∈ node.slots → target ∈ known)
      (steps : Steps graph (index :: known) rest) :
      Steps graph known (Snapshot.ofNode index node :: rest)

def Computes (graph : Graph) (right : Nat → Value → Prop) (computed : Computed) : Prop :=
  right computed.index computed.value ∧
    ∃ node, graph.nodes[computed.index]? = some node ∧ node.revision = computed.revision

/-- Under a serial number, the evaluation of a node on right inputs gives a right value; where it
faults, the node is faulty. -/
structure Evaluates (graph : Graph) (right : Nat → Value → Prop) (faulty : Nat → Fault → Prop)
    (step : Snapshot) (serial : Nat) : Prop where
  value : ∀ {known : List (Nat × Value)} {value : Value},
    (∀ target, some target ∈ step.slots →
      ∃ value, known.lookup target = some value ∧ right target value) →
      step.evaluate graph.registry serial (step.inputValues known) = .ok value →
        right step.index value
  fault : ∀ {known : List (Nat × Value)} {fault : Fault},
    (∀ target, some target ∈ step.slots →
      ∃ value, known.lookup target = some value ∧ right target value) →
      step.evaluate graph.registry serial (step.inputValues known) = .error fault →
        faulty step.index fault

section Runs

variable {right : Nat → Value → Prop} {faulty : Nat → Fault → Prop}

theorem Evaluates.concludes {step : Snapshot} {serial : Nat}
    (evaluates : graph.Evaluates right faulty step serial) {known : List (Nat × Value)}
    (given : ∀ target, some target ∈ step.slots →
      ∃ value, known.lookup target = some value ∧ right target value) :
    Concludes (right step.index) (faulty step.index)
      (step.evaluate graph.registry serial (step.inputValues known)) := by
  cases evaluated : step.evaluate graph.registry serial (step.inputValues known) with
  | ok value => exact .ok (evaluates.value given evaluated)
  | error fault => exact .error (evaluates.fault given evaluated)

theorem Steps.runFrom {keys : List Nat} {steps : List Snapshot} (runnable : graph.Steps keys steps)
    (serial : Nat)
    (evaluates : ∀ offset step, steps[offset]? = some step →
      graph.Evaluates right faulty step (serial + offset))
    (known : List (Nat × Value)) (done : List Computed) (present : known.map Prod.fst = keys)
    (valued : ∀ entry ∈ known, right entry.1 entry.2)
    (computes : ∀ computed ∈ done, graph.Computes right computed) :
    Concludes
      (fun result => (∀ entry ∈ result.1, right entry.1 entry.2) ∧
        (∀ target ∈ keys, target ∈ result.1.map Prod.fst) ∧
        (∀ step ∈ steps, step.index ∈ result.1.map Prod.fst) ∧
        ∀ computed ∈ result.2, graph.Computes right computed)
      (fun fault => ∃ step ∈ steps, faulty step.index fault)
      (Plan.runFrom graph.registry serial known done steps) := by
  induction runnable generalizing serial known done with
  | nil =>
      rw [Plan.runFrom]
      exact .ok ⟨valued, fun target member => present ▸ member, by simp, by simpa using computes⟩
  | @cons keys index node rest found inputs steps ih =>
      have given : ∀ target, some target ∈ (Snapshot.ofNode index node).slots →
          ∃ value, known.lookup target = some value ∧ right target value :=
        fun target mentioned => lookup_right valued (present ▸ inputs target mentioned)
      rw [Plan.runFrom]
      refine ((evaluates 0 _ rfl).concludes given).bind (fun value newer => ?_)
        fun fault broken => ⟨_, List.mem_cons_self, broken⟩
      have rest := ih (serial + 1)
        (fun offset step later => by
          have shifted := evaluates (offset + 1) step later
          rwa [Nat.add_assoc, Nat.add_comm 1 offset])
        ((index, value) :: known) (⟨index, node.revision, value⟩ :: done) (by simp [present])
        (List.forall_mem_cons.mpr ⟨newer, valued⟩)
        (List.forall_mem_cons.mpr ⟨⟨newer, node, found, rfl⟩, computes⟩)
      refine rest.mono ?_ ?_
      · rintro ⟨values, computed⟩ ⟨right, old, new, outcome⟩
        refine ⟨right, fun target member => old target (by simp [member]), ?_, outcome⟩
        exact List.forall_mem_cons.mpr ⟨old index (by simp), new⟩
      · rintro fault ⟨step, member, broken⟩
        exact ⟨step, List.mem_cons_of_mem _ member, broken⟩

/-- What a plan made on a graph is worth: known values are right, every step is made once and can be
run in its order, and the target is among them. -/
structure Plans (graph : Graph) (right : Nat → Value → Prop) (plan : Plan) : Prop where
  registry : plan.registry = graph.registry
  revision : ∃ node, graph.nodes[plan.target]? = some node ∧ node.revision = plan.revision
  published : ∀ entry ∈ plan.published, right entry.1 entry.2
  steps : graph.Steps (plan.published.map Prod.fst) plan.steps
  once : (plan.steps.map Snapshot.index).Nodup
  behind : ∀ step ∈ plan.steps, plan.target = step.index ∨ graph.Reaches plan.target step.index
  target : plan.target ∈ plan.published.map Prod.fst ∨
    ∃ step ∈ plan.steps, step.index = plan.target

theorem Plans.mono {plan : Plan} {other : Nat → Value → Prop} (plans : graph.Plans right plan)
    (weaker : ∀ index value, right index value → other index value) : graph.Plans other plan where
  registry := plans.registry
  revision := plans.revision
  published := fun entry member => weaker _ _ (plans.published entry member)
  steps := plans.steps
  once := plans.once
  behind := plans.behind
  target := plans.target

theorem Steps.found {keys : List Nat} {steps : List Snapshot} (runnable : graph.Steps keys steps) :
    ∀ step ∈ steps, ∃ node, graph.nodes[step.index]? = some node ∧
      step = .ofNode step.index node := by
  induction runnable with
  | nil => simp
  | cons found _ _ ih => exact List.forall_mem_cons.mpr ⟨⟨_, found, rfl⟩, ih⟩

structure Achieves (graph : Graph) (right : Nat → Value → Prop) (outcome : Outcome) : Prop where
  revision : ∃ node, graph.nodes[outcome.target]? = some node ∧ node.revision = outcome.revision
  value : right outcome.target outcome.value
  computed : ∀ computed ∈ outcome.computed, graph.Computes right computed

theorem Plans.run {plan : Plan} (plans : graph.Plans right plan) (serial : Nat)
    (evaluates : ∀ offset step, plan.steps[offset]? = some step →
      graph.Evaluates right faulty step (serial + offset)) :
    Concludes (fun outcome => outcome.target = plan.target ∧ graph.Achieves right outcome)
      (fun fault => ∃ step ∈ plan.steps, faulty step.index fault) (plan.run serial) := by
  rw [Plan.run, plans.registry]
  refine (plans.steps.runFrom serial evaluates plan.published [] rfl plans.published
    (by simp)).bind ?_ fun _ broken => broken
  rintro ⟨values, computed⟩ ⟨valued, old, new, computes⟩
  have present : plan.target ∈ values.map Prod.fst := by
    rcases plans.target with published | ⟨step, member, same⟩
    · exact old _ published
    · exact same ▸ new step member
  obtain ⟨value, found, right⟩ := lookup_right valued present
  simp only [found]
  exact .ok ⟨rfl, plans.revision, right, computes⟩

end Runs

/-- What is right for a node lasts as long as its revision, and evaluation on right inputs makes
what is right; so it may come from the cache. Where evaluation faults, the node is faulty. -/
structure Cacheable (right : Graph → Nat → Value → Prop) (faulty : Graph → Nat → Fault → Prop) :
    Prop where
  lasting : Lasting right
  evaluates : ∀ {graph : Graph}, graph.Reachable → ∀ {index : Nat} {node : Node},
    graph.nodes[index]? = some node → ∀ serial,
      graph.Evaluates (right graph) (faulty graph) (.ofNode index node) serial

variable {right : Graph → Nat → Value → Prop} {faulty : Graph → Nat → Fault → Prop}

theorem Plans.run_cacheable (cacheable : Cacheable right faulty) (reachable : graph.Reachable)
    {plan : Plan} (plans : graph.Plans (right graph) plan) (serial : Nat) :
    Concludes (fun outcome => outcome.target = plan.target ∧ graph.Achieves (right graph) outcome)
      (fun fault => ∃ target, (plan.target = target ∨ graph.Reaches plan.target target) ∧
        faulty graph target fault)
      (plan.run serial) := by
  have evaluates : ∀ offset step, plan.steps[offset]? = some step →
      graph.Evaluates (right graph) (faulty graph) step (serial + offset) := by
    intro offset step member
    obtain ⟨node, found, shape⟩ := plans.steps.found step (List.mem_of_getElem? member)
    rw [shape]
    exact cacheable.evaluates reachable found _
  refine (plans.run serial evaluates).mono (fun _ fine => fine) ?_
  rintro fault ⟨step, member, broken⟩
  exact ⟨_, plans.behind step member, broken⟩

theorem capture_all {nodes : List Nat} (inside : ∀ index ∈ nodes, index < graph.count) :
    ∃ steps, nodes.mapM (Snapshot.capture graph) = .ok steps ∧
      List.Forall₂ (fun index step => ∃ node, graph.nodes[index]? = some node ∧
        step = Snapshot.ofNode index node) nodes steps := by
  induction nodes with
  | nil => exact ⟨[], rfl, .nil⟩
  | cons index rest ih =>
      obtain ⟨steps, captured, snapshots⟩ := ih fun other member => inside other (by simp [member])
      obtain ⟨node, found⟩ := found_of_bound (inside index (by simp))
      have first : Snapshot.capture graph index = .ok (.ofNode index node) := by
        rw [Snapshot.capture, node_ok.mpr found]
        rfl
      refine ⟨.ofNode index node :: steps, ?_, .cons ⟨node, found, rfl⟩ snapshots⟩
      rw [List.mapM_cons, first, captured]
      rfl

theorem of_snapshots {nodes : List Nat} {steps : List Snapshot}
    (snapshots : List.Forall₂ (fun index step => ∃ node, graph.nodes[index]? = some node ∧
      step = Snapshot.ofNode index node) nodes steps) :
    steps.map Snapshot.index = nodes := by
  induction snapshots with
  | nil => rfl
  | cons first _ ih =>
      obtain ⟨node, _, rfl⟩ := first
      rw [List.map_cons, ih]
      rfl

theorem steps_of_order {order needed keys : List Nat} (ordered : graph.topology.IsOrder order)
    (wellFormed : graph.WellFormed)
    (closed : ∀ node ∈ needed, ∀ target, graph.Reads node target →
      target ∈ needed ∨ target ∈ keys) :
    ∀ (later earlier known : List Nat) (steps : List Snapshot), order = earlier ++ later →
      (∀ target, target ∈ keys → target ∈ known) →
      (∀ target ∈ earlier, target ∈ needed → target ∈ known) →
      List.Forall₂ (fun index step => ∃ node, graph.nodes[index]? = some node ∧
        step = Snapshot.ofNode index node) (later.filter needed.contains) steps →
      graph.Steps known steps := by
  -- Along the order: what stands before the rest of it is known as far as it is needed.
  intro later
  induction later with
  | nil =>
      intro earlier known steps _ _ _ snapshots
      cases snapshots
      exact .nil
  | cons node later ih =>
      intro earlier known steps parts old before snapshots
      have extended : order = (earlier ++ [node]) ++ later := by simp [parts]
      by_cases member : node ∈ needed
      · rw [List.filter_cons_of_pos (by simpa using member)] at snapshots
        obtain _ | ⟨⟨found, present, rfl⟩, rest⟩ := snapshots
        refine .cons present ?_ (ih (earlier ++ [node]) (node :: known) _ extended ?_ ?_ rest)
        · intro target mentioned
          have reads := wellFormed.reads present mentioned
          rcases closed node member target reads with wanted | known
          · exact before target (ordered.target_mem graph.mirrored parts reads) wanted
          · exact old target known
        · exact fun target key => List.mem_cons_of_mem _ (old target key)
        · intro target passed wanted
          rcases List.mem_append.mp passed with early | same
          · exact List.mem_cons_of_mem _ (before target early wanted)
          · rw [List.mem_singleton.mp same]
            exact List.mem_cons_self
      · rw [List.filter_cons_of_neg (by simpa using member)] at snapshots
        refine ih (earlier ++ [node]) known steps extended old ?_ snapshots
        intro target passed wanted
        rcases List.mem_append.mp passed with early | same
        · exact before target early wanted
        · exact absurd (List.mem_singleton.mp same ▸ wanted) member

end Graph

namespace Engine

variable {right : Nat → Value → Prop} {sound : Engine → Prop} {engine : Engine} {index : Nat}

def demandFor (engine : Engine) (graph : Graph) (index : Nat) : Demand :=
  demandFrom graph graph.topology (Topology.edgeCount graph.topology.dependencies + 1) [index]
    ⟨engine, [], []⟩

theorem demandFor_demanded (answers : Answers graph right sound) (start : sound engine) :
    Demanded graph right sound index [] (engine.demandFor graph index) := by
  refine demandFrom_demanded answers _ _ _ ⟨start, ?_, ?_, ?_, ?_, ?_⟩ ?_
  · exact fun node member => nomatch member
  · exact fun node member => Or.inl (List.mem_singleton.mp member)
  · exact fun entry member => nomatch member
  · exact fun node member => nomatch member
  · exact Or.inr (List.mem_singleton.mpr rfl)
  · rw [Topology.edgeCount_eq, Topology.pending, List.length_singleton]
    simp only [List.toFinset_nil, Finset.sdiff_empty]
    rw [Nat.add_comm, ← graph.topology_count]
    rfl

theorem plan_eq (wellFormed : graph.WellFormed) (engine : Engine) (bound : index < graph.count) :
    ∃ node order steps, graph.nodes[index]? = some node ∧ graph.topology.IsOrder order ∧
      List.Forall₂ (fun index step => ∃ node, graph.nodes[index]? = some node ∧
        step = Snapshot.ofNode index node)
        (order.filter (engine.demandFor graph index).needed.contains) steps ∧
      engine.plan graph index = .ok (⟨index, node.revision, steps,
        (engine.demandFor graph index).published, graph.registry⟩,
          (engine.demandFor graph index).engine) := by
  obtain ⟨node, found⟩ := Graph.found_of_bound bound
  have stamp : graph.revision index = .ok node.revision := by
    rw [Graph.revision, Graph.node_ok.mpr found]
    rfl
  obtain ⟨order, sorted, ordered⟩ := wellFormed.acyclic.sort_ok graph.mirrored
  have bounded : ∀ node ∈ order.filter (engine.demandFor graph index).needed.contains,
      node < graph.count := by
    intro node member
    have inside := (ordered.mem_iff node).mp (List.mem_filter.mp member).1
    rwa [Graph.topology_count] at inside
  obtain ⟨steps, captured, snapshots⟩ := Graph.capture_all bounded
  refine ⟨node, order, steps, found, ordered, snapshots, ?_⟩
  rw [demandFor] at captured ⊢
  rw [plan, stamp]
  simp only [bind, Except.bind, sorted, captured]
  rfl

theorem plan_ok (wellFormed : graph.WellFormed) (answers : Answers graph right sound)
    (start : sound engine) (bound : index < graph.count) :
    ∃ plan later, engine.plan graph index = .ok (plan, later) ∧ sound later ∧
      plan.target = index ∧ graph.Plans right plan := by
  obtain ⟨node, order, steps, found, ordered, snapshots, made⟩ := plan_eq wellFormed engine bound
  have demanded := @demandFor_demanded graph right sound engine index answers start
  generalize engine.demandFor graph index = demand at demanded snapshots made
  have keyed : ∀ {node : Nat}, demand.isKnown node = true ∨ node ∈ [] →
      node ∈ demand.needed ∨ node ∈ demand.published.map Prod.fst := by
    rintro node (known | impossible)
    · exact (isKnown_keys demand node).mp known
    · cases impossible
  refine ⟨_, _, made, demanded.sound, rfl, rfl, ⟨_, found, rfl⟩, demanded.published, ?_, ?_, ?_, ?_⟩
  · refine Graph.steps_of_order ordered wellFormed
      (fun node member target reads => keyed (demanded.behind node member target reads))
      order [] _ steps rfl (fun target key => key) (fun target member => nomatch member) snapshots
  · rw [Graph.of_snapshots snapshots]
    exact ordered.nodup.filter _
  · intro step member
    have inside : step.index ∈ order.filter demand.needed.contains := by
      rw [← Graph.of_snapshots snapshots]
      exact List.mem_map_of_mem member
    have needed := (List.mem_filter.mp inside).2
    rcases demanded.needed step.index (by simpa using needed) with same | path
    · exact Or.inl same.symm
    · exact Or.inr path
  · rcases keyed demanded.start with needed | published
    · have listed : index ∈ order.filter demand.needed.contains := by
        refine List.mem_filter.mpr ⟨(ordered.mem_iff index).mpr ?_, by simpa using needed⟩
        rwa [Graph.topology_count]
      rw [← Graph.of_snapshots snapshots] at listed
      exact Or.inr (List.mem_map.mp listed)
    · exact Or.inl published

/-- An evaluation ends as the run of its plan does, and what was computed goes into the cache. -/
theorem evaluate_ends {plan : Plan} {planned : Engine}
    (made : engine.plan graph index = .ok (plan, planned)) {fine : Outcome → Prop}
    {broken : Fault → Prop} (concludes : Concludes fine broken (plan.run planned.serial)) :
    (∃ outcome, fine outcome ∧ engine.evaluate graph index = .ok (.ok (outcome.value,
      (Engine.commit { planned with serial := planned.serial + plan.steps.length } graph
        outcome).2))) ∨
    ∃ fault, broken fault ∧ engine.evaluate graph index = .error fault := by
  rw [evaluate, made]
  rcases concludes.ends with ⟨outcome, ran, holds⟩ | ⟨fault, ran, holds⟩
  · simp only [run, bind, Except.bind, ran]
    exact Or.inl ⟨outcome, holds, rfl⟩
  · simp only [run, bind, Except.bind, ran]
    exact Or.inr ⟨fault, holds, rfl⟩

end Engine

end NodeGraph
