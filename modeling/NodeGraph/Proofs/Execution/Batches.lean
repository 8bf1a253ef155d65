import NodeGraph.Proofs.Execution.Planning
import NodeGraph.Proofs.Execution.Reference

/-!
Evaluating everything. Nodes are evaluated batch by batch; a node reads from earlier batches only,
so the nodes of one batch may come in any order.
-/

namespace NodeGraph

/-- Batches in their order, the nodes of each in any order. -/
def Topology.Schedules (topology : Topology) (order : List (List Nat)) : Prop :=
  ∃ batches, topology.batches = .ok batches ∧ List.Forall₂ List.Perm order batches

variable {graph : Graph}

namespace Graph

def snapshots (graph : Graph) (batch : List Nat) : List Snapshot :=
  batch.filterMap fun index => (graph.nodes[index]?).map (Snapshot.ofNode index)

theorem snapshots_cons {index : Nat} {node : Node} (found : graph.nodes[index]? = some node)
    (rest : List Nat) :
    graph.snapshots (index :: rest) = .ofNode index node :: graph.snapshots rest := by
  simp [snapshots, found]

/-- The nodes of every batch read from what is known or was in an earlier batch. -/
def Batched (graph : Graph) : List Nat → List (List Nat) → Prop
  | _, [] => True
  | known, batch :: rest =>
      (∀ index ∈ batch, index < graph.count ∧
        ∀ target, graph.Reads index target → target ∈ known) ∧
      graph.Batched (batch ++ known) rest

theorem Batched.perm {known more : List Nat} {order batches : List (List Nat)}
    (batched : graph.Batched known batches) (perms : List.Forall₂ List.Perm order batches)
    (grows : ∀ target ∈ known, target ∈ more) : graph.Batched more order := by
  induction perms generalizing known more with
  | nil => trivial
  | @cons nodes batch order batches perm _ ih =>
      obtain ⟨inputs, rest⟩ := batched
      refine ⟨?_, ih rest ?_⟩
      · intro index member
        obtain ⟨bound, reads⟩ := inputs index (perm.mem_iff.mp member)
        exact ⟨bound, fun target read => grows target (reads target read)⟩
      · intro target member
        rcases List.mem_append.mp member with new | old
        · exact List.mem_append_left _ (perm.mem_iff.mpr new)
        · exact List.mem_append_right _ (grows target old)

theorem batched_levels {depth : Nat → Nat}
    (drops : ∀ reader target, graph.Reads reader target → depth target < depth reader)
    (levels start : Nat) (known : List Nat)
    (done : ∀ node, node < graph.count → depth node < start → node ∈ known) :
    graph.Batched known ((List.range' start levels).map fun level =>
      graph.topology.nodes.filter fun node => depth node = level) := by
  induction levels generalizing start known with
  | zero => trivial
  | succ levels ih =>
      rw [List.range'_succ, List.map_cons]
      refine ⟨?_, ih (start + 1) _ ?_⟩
      · intro index member
        obtain ⟨inside, level⟩ := List.mem_filter.mp member
        rw [Topology.nodes, topology_count, List.mem_range] at inside
        refine ⟨inside, fun target reads => done target ?_ ?_⟩
        · exact ((graph.reads_iff index target).mp reads).1
        · have less := drops index target reads
          simp only [decide_eq_true_eq] at level
          omega
      · intro node bound less
        by_cases level : depth node = start
        · refine List.mem_append_left _ (List.mem_filter.mpr ⟨?_, by simpa using level⟩)
          rw [Topology.nodes, topology_count]
          exact List.mem_range.mpr bound
        · exact List.mem_append_right _ (done node bound (by omega))

theorem WellFormed.scheduled (wellFormed : graph.WellFormed) {order : List (List Nat)}
    (schedules : graph.topology.Schedules order) :
    graph.Batched [] order ∧ ∀ index, index < graph.count → ∃ batch ∈ order, index ∈ batch := by
  obtain ⟨batches, found, perms⟩ := schedules
  obtain ⟨depth, total, levels, small, drops⟩ := wellFormed.acyclic.batches_ok graph.mirrored
  rw [levels] at found
  cases found
  rw [List.range_eq_range'] at perms
  refine ⟨(batched_levels drops total 0 [] fun _ _ less => ?_).perm perms fun _ member => member,
    fun index bound => ?_⟩
  · exact absurd less (Nat.not_lt_zero _)
  · have listed : (graph.topology.nodes.filter fun node => depth node = depth index) ∈
        (List.range' 0 total).map fun level =>
          graph.topology.nodes.filter fun node => depth node = level := by
      refine List.mem_map.mpr ⟨depth index, ?_, rfl⟩
      rw [← List.range_eq_range', List.mem_range]
      exact small index (by rwa [topology_count])
    have inside : index ∈ graph.topology.nodes.filter fun node => depth node = depth index := by
      refine List.mem_filter.mpr ⟨?_, by simp⟩
      rw [Topology.nodes, topology_count]
      exact List.mem_range.mpr bound
    obtain ⟨position, place⟩ := List.mem_iff_getElem?.mp listed
    have same := perms.length_eq
    obtain ⟨less, _⟩ := List.getElem?_eq_some_iff.mp place
    have perm := List.forall₂_iff_get.mp perms |>.2 position (by omega) less
    rw [List.get_eq_getElem, List.get_eq_getElem, (List.getElem?_eq_some_iff.mp place).2] at perm
    exact ⟨_, List.getElem_mem _, perm.mem_iff.mpr inside⟩

end Graph

namespace Engine

def evaluateAllIn (engine : Engine) (graph : Graph) (batches : List (List Nat)) :
    Except Fault (List Value × Engine) := do
  let (values, engine) ← evaluateBatches graph engine [] batches
  return ((List.range graph.count).map fun index =>
    match values.lookup index with
    | some value => value
    | none => Graph.unevaluated index, engine)

theorem evaluateAll_eq {engine : Engine} {batches : List (List Nat)}
    (found : graph.topology.batches = .ok batches) :
    engine.evaluateAll graph = .ok <$> engine.evaluateAllIn graph batches := by
  rw [evaluateAll, found, evaluateAllIn]
  simp only [bind, Except.bind, Functor.map, Except.map]
  cases evaluateBatches graph engine [] batches <;> rfl

variable {engine : Engine} {right : Graph → Nat → Value → Prop}
  {faulty : Graph → Nat → Fault → Prop}

section Cacheable

variable (cacheable : Graph.Cacheable right faulty) (reachable : graph.Reachable)

include cacheable reachable

theorem evaluateNode_right (faithful : graph.Faithful (right graph) engine.cache)
    {known : List (Nat × Value)} (valued : ∀ entry ∈ known, right graph entry.1 entry.2)
    {index : Nat} {node : Node} (found : graph.nodes[index]? = some node)
    (inputs : ∀ target, graph.Reads index target → target ∈ known.map Prod.fst) :
    Concludes
      (fun result => right graph index result.1 ∧ graph.Faithful (right graph) result.2.cache)
      (faulty graph index)
      (engine.evaluateNode graph.registry known (.ofNode index node)) := by
  have lookedUp := lookup_faithful faithful ⟨index, node.revision⟩
  rw [evaluateNode]
  simp only [Snapshot.ofNode]
  cases result : engine.lookup ⟨index, node.revision⟩ with
  | mk hit after =>
      rw [result] at lookedUp
      cases hit with
      | some cached =>
          have vouched := lookup_value faithful (congrArg Prod.fst result)
          exact .ok ⟨vouched index node found rfl, lookedUp⟩
      | none =>
          have given : ∀ target, some target ∈ (Snapshot.ofNode index node).slots →
              ∃ value, known.lookup target = some value ∧ right graph target value :=
            fun target mentioned =>
              Graph.lookup_right valued (inputs target (reachable.wellFormed.reads found mentioned))
          refine ((cacheable.evaluates reachable found after.serial).concludes given).bind
            (fun value newer => .ok ⟨newer, ?_⟩) fun _ broken => broken
          exact remember_faithful lookedUp (reachable.stamped.bound found)
            (reachable.stamped.vouches found newer)

theorem evaluateBatch_right {known : List (Nat × Value)}
    (valued : ∀ entry ∈ known, right graph entry.1 entry.2) (batch : List Nat)
    (inputs : ∀ index ∈ batch, index < graph.count ∧
      ∀ target, graph.Reads index target → target ∈ known.map Prod.fst)
    (engine : Engine) (values : List (Nat × Value))
    (faithful : graph.Faithful (right graph) engine.cache)
    (before : ∀ entry ∈ values, right graph entry.1 entry.2) :
    Concludes
      (fun result => graph.Faithful (right graph) result.2.cache ∧
        (∀ entry ∈ result.1, right graph entry.1 entry.2) ∧
        result.1.map Prod.fst = batch.reverse ++ values.map Prod.fst)
      (fun fault => ∃ index < graph.count, faulty graph index fault)
      (evaluateBatch graph.registry known engine values (graph.snapshots batch)) := by
  induction batch generalizing engine values with
  | nil => exact .ok ⟨faithful, before, rfl⟩
  | cons index rest ih =>
      obtain ⟨⟨bound, reads⟩, inputs⟩ := List.forall_mem_cons.mp inputs
      obtain ⟨node, found⟩ := Graph.found_of_bound bound
      rw [Graph.snapshots_cons found, evaluateBatch]
      refine (evaluateNode_right cacheable reachable faithful valued found reads).bind ?_
        fun fault broken => ⟨index, bound, broken⟩
      rintro ⟨value, after⟩ ⟨newer, faithful⟩
      refine (ih inputs after ((index, value) :: values) faithful
        (List.forall_mem_cons.mpr ⟨newer, before⟩)).mono ?_ fun _ broken => broken
      rintro ⟨result, later⟩ ⟨faithful, valued, keys⟩
      exact ⟨faithful, valued, by simp [keys]⟩

theorem evaluateBatches_right (order : List (List Nat)) (engine : Engine)
    (values : List (Nat × Value)) (faithful : graph.Faithful (right graph) engine.cache)
    (valued : ∀ entry ∈ values, right graph entry.1 entry.2)
    (batched : graph.Batched (values.map Prod.fst) order) :
    Concludes
      (fun result => graph.Faithful (right graph) result.2.cache ∧
        (∀ entry ∈ result.1, right graph entry.1 entry.2) ∧
        (∀ index ∈ values.map Prod.fst, index ∈ result.1.map Prod.fst) ∧
        ∀ batch ∈ order, ∀ index ∈ batch, index ∈ result.1.map Prod.fst)
      (fun fault => ∃ index < graph.count, faulty graph index fault)
      (evaluateBatches graph engine values order) := by
  induction order generalizing engine values with
  | nil => exact .ok ⟨faithful, valued, fun _ member => member, List.forall_mem_nil _⟩
  | cons batch order ih =>
      obtain ⟨inputs, batched⟩ := batched
      rw [evaluateBatches, ← Graph.snapshots]
      refine (evaluateBatch_right cacheable reachable valued batch inputs engine values faithful
        valued).bind ?_ fun _ broken => broken
      rintro ⟨middle, after⟩ ⟨faithful, valued, keys⟩
      have kept : ∀ index, index ∈ batch ++ values.map Prod.fst ↔ index ∈ middle.map Prod.fst := by
        intro index
        rw [keys, List.mem_append, List.mem_append, List.mem_reverse]
      have batched : graph.Batched (middle.map Prod.fst) order :=
        batched.perm (List.forall₂_same.mpr fun _ _ => List.Perm.refl _) fun index => (kept index).mp
      refine (ih after middle faithful valued batched).mono ?_ fun _ broken => broken
      rintro ⟨result, later⟩ ⟨faithful, valued, old, new⟩
      refine ⟨faithful, valued, fun index member => old index ?_,
        List.forall_mem_cons.mpr ⟨fun index inside => old index ?_, new⟩⟩
      · exact (kept index).mp (List.mem_append_right _ member)
      · exact (kept index).mp (List.mem_append_left _ inside)

theorem evaluateAllIn_right (faithful : graph.Faithful (right graph) engine.cache)
    {order : List (List Nat)} (schedules : graph.topology.Schedules order) :
    Concludes
      (fun result => graph.Faithful (right graph) result.2.cache ∧
        result.1.length = graph.count ∧
        ∀ index value, result.1[index]? = some value → right graph index value)
      (fun fault => ∃ index < graph.count, faulty graph index fault)
      (engine.evaluateAllIn graph order) := by
  obtain ⟨batched, everything⟩ := reachable.wellFormed.scheduled schedules
  rw [evaluateAllIn]
  refine (evaluateBatches_right cacheable reachable order engine [] faithful
    (List.forall_mem_nil _) batched).bind ?_ fun _ broken => broken
  rintro ⟨known, after⟩ ⟨faithful, valued, _, new⟩
  refine .ok ⟨faithful, by simp, fun index value found => ?_⟩
  obtain ⟨bound, result⟩ := List.getElem?_eq_some_iff.mp found
  rw [List.length_map, List.length_range] at bound
  obtain ⟨batch, listed, inside⟩ := everything index bound
  obtain ⟨expected, given, fits⟩ := Graph.lookup_right valued (new batch listed index inside)
  rw [List.getElem_map, List.getElem_range, given] at result
  exact result ▸ fits

end Cacheable

end Engine

end NodeGraph
