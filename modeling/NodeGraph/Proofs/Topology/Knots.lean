import NodeGraph.Proofs.Topology.Sorting

/-!
Knots. A node that lies on a cycle, or depends on one, never comes free, and every other node does.
So the sort ends with an order exactly when there is no cycle, and otherwise with the nodes that
cycles hold back. On the way no degree is lowered below zero.
-/

namespace NodeGraph.Topology

open Relation

variable {topology : Topology}

/-- The node lies on a cycle or depends on one. -/
def Tangled (topology : Topology) (node : Nat) : Prop :=
  ∃ knot, topology.Reaches knot knot ∧ ReflTransGen topology.Reads node knot

theorem tangled_of_reads {reader target : Nat} (reads : topology.Reads reader target)
    (tangled : topology.Tangled target) : topology.Tangled reader := by
  obtain ⟨knot, cycle, path⟩ := tangled
  exact ⟨knot, cycle, path.head reads⟩

theorem Tangled.exists_target {node : Nat} (tangled : topology.Tangled node) :
    ∃ target, topology.Reads node target ∧ topology.Tangled target := by
  obtain ⟨knot, cycle, path⟩ := tangled
  rcases ReflTransGen.cases_head path with same | ⟨target, reads, rest⟩
  · subst same
    obtain ⟨target, reads, rest⟩ := TransGen.head'_iff.mp cycle
    exact ⟨target, reads, node, cycle, rest⟩
  · exact ⟨target, reads, knot, cycle, rest⟩

namespace Sorting

variable {degrees : Array Nat} {queue sorted : List Nat}

theorem untangled (state : Sorting topology degrees queue sorted) :
    ∀ node ∈ sorted, ¬ topology.Tangled node := by
  -- On the nodes that were taken so far: each of them reads none but those before it.
  have earlier : ∀ taken later, sorted = later ++ taken →
      ∀ node ∈ taken, ¬ topology.Tangled node := by
    intro taken
    induction taken with
    | nil => simp
    | cons first rest ih =>
        intro later parts node member
        have before := ih (later ++ [first]) (by simp [parts])
        rcases List.mem_cons.mp member with same | member
        · subst same
          intro tangled
          obtain ⟨target, reads, held⟩ := tangled.exists_target
          have taken : node ∈ sorted := by simp [parts]
          have inside : target ∈ later ++ node :: rest := parts ▸ state.closed taken target reads
          rcases List.mem_append.mp inside with late | inside
          · have apart := (List.pairwise_append.mp (parts ▸ state.before)).2.2
            exact apart target late node (by simp) reads
          · rcases List.mem_cons.mp inside with same | early
            · exact state.irreflexive node taken (same ▸ reads)
            · exact before target early held
        · exact before node member
  exact earlier sorted [] rfl

theorem mem_iff_untangled (mirrored : topology.Mirrored)
    (state : Sorting topology degrees [] sorted) {node : Nat} (bound : node < topology.count) :
    node ∈ sorted ↔ ¬ topology.Tangled node := by
  refine ⟨state.untangled node, fun loose => ?_⟩
  induction less : (topology.behind node).card using Nat.strongRecOn generalizing node with
  | ind size ih =>
      have zero := (state.zero_iff bound).mpr fun target reads => by
        have targetLoose : ¬ topology.Tangled target := fun held =>
          loose (tangled_of_reads reads held)
        have smaller := behind_card_lt mirrored reads fun cycle =>
          targetLoose ⟨target, cycle, .refl⟩
        exact ih _ (less ▸ smaller) (mirrored.bound reads).2 targetLoose rfl
      exact ((state.free node).mpr ⟨bound, zero⟩).resolve_left (by simp)

theorem degree_pos (mirrored : topology.Mirrored) {node : Nat}
    (state : Sorting topology degrees (node :: queue) sorted) :
    ∀ consumer ∈ topology.consumersOf node, 0 < degrees.getD consumer 0 := by
  intro consumer member
  have reads := (mirrored.transposed consumer node).mp member
  have fresh : node ∉ sorted := by
    have unique : node ∉ queue ++ sorted := (List.nodup_cons.mp (by simpa using state.unique)).1
    exact fun taken => unique (by simp [taken])
  refine Nat.pos_of_ne_zero fun zero => fresh ?_
  exact (state.zero_iff (mirrored.bound reads).1).mp zero node reads

end Sorting

def lower? (degrees : Array Nat) (node : Nat) : Option (Array Nat) :=
  if 0 < degrees.getD node 0 then
    some (degrees.setIfInBounds node (degrees.getD node 0 - 1))
  else none

def release? (degrees : Array Nat) (queue : List Nat) : List Nat → Option (Array Nat × List Nat)
  | [] => some (degrees, queue)
  | consumer :: rest => do
      let degrees ← lower? degrees consumer
      release? degrees (if degrees.getD consumer 0 = 0 then queue ++ [consumer] else queue) rest

/-- Like `sortFrom`, but breaks off at a degree that cannot be lowered, and where fuel runs out
before the queue does. -/
def sortFrom? (topology : Topology) : Nat → Array Nat → List Nat → List Nat →
    Option (List Nat × Array Nat)
  | _, degrees, [], sorted => some (sorted.reverse, degrees)
  | 0, _, _ :: _, _ => none
  | fuel + 1, degrees, node :: queue, sorted => do
      let (degrees, queue) ← release? degrees queue (topology.consumersOf node)
      topology.sortFrom? fuel degrees queue (node :: sorted)

/-- The sort with every lowering guarded. -/
def sort? (topology : Topology) : Option (Except (List Nat) (List Nat)) := do
  let degrees := topology.dependencies.map List.length
  let free := topology.nodes.filter fun node => degrees.getD node 0 = 0
  let (sorted, degrees) ← topology.sortFrom? (topology.count + 1) degrees free []
  return if sorted.length = topology.count then .ok sorted
    else .error (topology.nodes.filter fun node => degrees.getD node 0 > 0)

theorem release?_eq (degrees : Array Nat) (queue consumers : List Nat) (unique : consumers.Nodup)
    (positive : ∀ consumer ∈ consumers, 0 < degrees.getD consumer 0) :
    release? degrees queue consumers = some (release degrees queue consumers) := by
  induction consumers generalizing degrees queue with
  | nil => rfl
  | cons first rest ih =>
      obtain ⟨fresh, restUnique⟩ := List.nodup_cons.mp unique
      have firstPositive := positive first (by simp)
      have inside : first < degrees.size := by
        by_contra outside
        simp [outside] at firstPositive
      have lowered : (degrees.setIfInBounds first (degrees.getD first 0 - 1)).getD first 0 =
          degrees.getD first 0 - 1 := by
        simp [inside]
      rw [release?, lower?, if_pos firstPositive, release, Option.bind_eq_bind, Option.bind_some,
        lowered]
      refine ih _ _ restUnique fun consumer member => ?_
      have different : first ≠ consumer := fun same => fresh (same ▸ member)
      simpa [different] using positive consumer (by simp [member])

theorem sortFrom?_eq (mirrored : topology.Mirrored) (fuel : Nat) (degrees : Array Nat)
    (queue sorted : List Nat) (state : Sorting topology degrees queue sorted)
    (enough : topology.count < fuel + sorted.length) :
    topology.sortFrom? fuel degrees queue sorted =
      some (topology.sortFrom fuel degrees queue sorted) := by
  induction fuel generalizing degrees queue sorted with
  | zero =>
      have bound := state.sorted_length_le
      omega
  | succ fuel ih =>
      cases queue with
      | nil => simp [sortFrom?, sortFrom]
      | cons node queue =>
          have released := release?_eq degrees queue (topology.consumersOf node)
            (mirrored.consumersNodup node) (state.degree_pos mirrored)
          rw [sortFrom?, released, sortFrom, Option.bind_eq_bind, Option.bind_some]
          exact ih _ _ _ (state.step mirrored) (by simp only [List.length_cons]; omega)

theorem sort?_eq (mirrored : topology.Mirrored) : topology.sort? = some topology.sort := by
  have run := sortFrom?_eq mirrored (topology.count + 1) _ _ [] (Sorting.initial topology)
    (by simp)
  rw [sort?, run]
  rfl

def Aims (targets : List (List Nat)) (reader target : Nat) : Prop :=
  ∃ row, targets[reader]? = some row ∧ target ∈ row ∧ target < targets.length

theorem reads_eq_aims (targets : List (List Nat)) : (ofTargets targets).Reads = Aims targets := by
  funext reader target
  rw [reads_ofTargets, Aims]
  cases targets[reader]? <;> simp

theorem stuck_of_sort (mirrored : topology.Mirrored) {stuck : List Nat}
    (found : topology.sort = .error stuck) :
    stuck.Pairwise (· < ·) ∧ ∀ node, node ∈ stuck ↔ topology.Tangled node := by
  obtain ⟨last, final, state, result⟩ := sort_spec mirrored
  rw [result] at found
  split at found
  · cases found
  · cases found
    refine ⟨List.pairwise_lt_range.filter _, fun node => ?_⟩
    simp only [nodes, List.mem_filter, List.mem_range, decide_eq_true_eq]
    constructor
    · rintro ⟨bound, waiting⟩
      by_contra loose
      have taken := (state.mem_iff_untangled mirrored bound).mpr loose
      have degree := ((state.free node).mp (Or.inr taken)).2
      omega
    · intro held
      obtain ⟨target, reads, _⟩ := held.exists_target
      have bound := (mirrored.bound reads).1
      refine ⟨bound, Nat.pos_of_ne_zero fun zero => ?_⟩
      have taken := ((state.free node).mpr ⟨bound, zero⟩).resolve_left (by simp)
      exact state.untangled node taken held

/-- Sorting is exact. The sort of any table, whose targets may be repeated or out of range, runs to
its end without lowering a degree below zero. It gives an order exactly when the targets that
there are close no cycle, and the order then has every node once, behind all that it names; else
it tells, ascending, the nodes that lie on a cycle or depend on one. -/
theorem sort_exact (targets : List (List Nat)) :
    (ofTargets targets).sort? = some (ofTargets targets).sort ∧
    ((∃ order, (ofTargets targets).sort = .ok order) ↔
      ∀ node, ¬ TransGen (Aims targets) node node) ∧
    (∀ order, (ofTargets targets).sort = .ok order →
      order.Perm (List.range targets.length) ∧
      ∀ reader target, Aims targets reader target →
        order.idxOf target < order.idxOf reader) ∧
    ∀ stuck, (ofTargets targets).sort = .error stuck →
      stuck.Pairwise (· < ·) ∧ ∀ node, node ∈ stuck ↔
        ∃ knot, TransGen (Aims targets) knot knot ∧ ReflTransGen (Aims targets) node knot := by
  have mirrored := mirrored_ofTargets targets
  rw [← reads_eq_aims]
  refine ⟨sort?_eq mirrored, sort_ok_iff mirrored, fun order found => ?_,
    fun stuck found => stuck_of_sort mirrored found⟩
  have ordered := isOrder_of_sort mirrored found
  have everything := ordered.perm
  rw [nodes, count_ofTargets] at everything
  exact ⟨everything, fun reader target reads => ordered.idxOf_lt mirrored reads⟩

/-- A source, a node that reads it twice and names a node that is missing, and a reader of itself
with a node that depends on it. -/
def knotted : List (List Nat) := [[], [0, 7, 0], [2], [1, 2]]

/-- The reader of itself holds back the node behind it, and no more. -/
theorem knotted_sort_exact :
    (ofTargets knotted).sort? = some (.error [2, 3]) ∧
      (∃ knot, TransGen (Aims knotted) knot knot ∧ ReflTransGen (Aims knotted) 3 knot) ∧
      (ofTargets (knotted.take 2)).sort = .ok [0, 1] ∧
      ∀ node, ¬ TransGen (Aims (knotted.take 2)) node node := by
  have stuck : (ofTargets knotted).sort = .error [2, 3] := by decide +kernel
  have sorted : (ofTargets (knotted.take 2)).sort = .ok [0, 1] := by decide +kernel
  obtain ⟨guarded, _, _, told⟩ := sort_exact knotted
  refine ⟨stuck ▸ guarded, ((told _ stuck).2 3).mp (by simp), sorted, ?_⟩
  exact (sort_exact (knotted.take 2)).2.1.mp ⟨_, sorted⟩

end NodeGraph.Topology
