import Mathlib.Data.List.Permutation
import NodeGraph.Proofs.Topology.Knots

/-!
Components. All searches share what was visited, and nothing leads out of it when a search ends. So
the next search, from a node that was not visited, finds exactly the nodes that are joined to it;
and as the starts ascend, each search starts from the least node of its component.
-/

namespace NodeGraph.Topology

open Relation

variable {topology : Topology}

/-- There is a path of dependencies, each of them taken in either direction. -/
def Joined (topology : Topology) : Nat → Nat → Prop := ReflTransGen (SymmGen topology.Reads)

theorem Joined.refl (node : Nat) : topology.Joined node node := ReflTransGen.refl

theorem Joined.symm {left right : Nat} (joined : topology.Joined left right) :
    topology.Joined right left :=
  ReflTransGen.stdSymm.symm left right joined

def Closed (topology : Topology) (nodes : List Nat) : Prop :=
  ∀ node ∈ nodes, ∀ other, SymmGen topology.Reads node other → other ∈ nodes

theorem Closed.mem_of_joined {nodes : List Nat} (closed : topology.Closed nodes)
    {node other : Nat} (member : node ∈ nodes) (joined : topology.Joined node other) :
    other ∈ nodes := by
  induction joined with
  | refl => exact member
  | tail _ edge ih => exact closed _ ih _ edge

theorem closed_nodes (mirrored : topology.Mirrored) : topology.Closed topology.nodes := by
  rintro node - other (reads | reads)
  · exact List.mem_range.mpr (mirrored.bound reads).2
  · exact List.mem_range.mpr (mirrored.bound reads).1

theorem mem_unseenAround (mirrored : topology.Mirrored) (seen : List Nat) (node other : Nat) :
    other ∈ topology.unseenAround seen node ↔
      SymmGen topology.Reads node other ∧ other ∉ seen := by
  have edges : SymmGen topology.Reads node other ↔
      topology.Reads node other ∨ topology.Reads other node := Iff.rfl
  simp [unseenAround, mirrored.transposed, edges, Reads]

theorem nodup_unseenAround (seen : List Nat) (node : Nat) :
    (topology.unseenAround seen node).Nodup :=
  (eraseDups_nodup _).filter _

/-- What was visited by the searches before: nodes, each of them once, that nothing leads out of. -/
structure Visited (topology : Topology) (visited : List Nat) : Prop where
  once : visited.Nodup
  inside : visited ⊆ topology.nodes
  closed : topology.Closed visited

structure Exploring (topology : Topology) (visited : List Nat) (start : Nat)
    (queue seen : List Nat) : Prop where
  kept : visited <+: seen
  begun : start ∈ seen
  once : seen.Nodup
  inside : seen ⊆ topology.nodes
  queued : ∀ node ∈ queue, node ∈ seen ∧ topology.Joined start node
  found : ∀ node ∈ seen, node ∈ visited ∨ topology.Joined start node
  settled : ∀ node ∈ seen, node ∈ queue ∨
    ∀ other, SymmGen topology.Reads node other → other ∈ seen

namespace Exploring

variable {visited queue seen : List Nat} {start node : Nat}

theorem initial (before : topology.Visited visited) (new : start ∉ visited)
    (bound : start < topology.count) :
    Exploring topology visited start [start] (visited ++ [start]) where
  kept := List.prefix_append _ _
  begun := by simp
  once := by
    rw [← List.concat_eq_append]
    exact before.once.concat new
  inside := List.append_subset.mpr
    ⟨before.inside, List.cons_subset.mpr ⟨List.mem_range.mpr bound, List.nil_subset _⟩⟩
  queued := by
    intro node member
    rw [List.mem_singleton.mp member]
    exact ⟨by simp, Joined.refl start⟩
  found := by
    intro node member
    rcases List.mem_append.mp member with old | same
    · exact Or.inl old
    · rw [List.mem_singleton.mp same]
      exact Or.inr (Joined.refl start)
  settled := by
    intro node member
    rcases List.mem_append.mp member with old | same
    · exact Or.inr fun other edge => List.mem_append_left _ (before.closed node old other edge)
    · exact Or.inl same

theorem length_le (exploring : Exploring topology visited start queue seen) :
    seen.length ≤ topology.count :=
  length_le_count exploring.once exploring.inside

theorem step (mirrored : topology.Mirrored)
    (exploring : Exploring topology visited start (node :: queue) seen) :
    Exploring topology visited start (queue ++ topology.unseenAround seen node)
      (seen ++ topology.unseenAround seen node) := by
  have around := mem_unseenAround mirrored seen node
  obtain ⟨known, reached⟩ := exploring.queued node List.mem_cons_self
  constructor
  case kept => exact exploring.kept.trans (List.prefix_append _ _)
  case begun => exact List.mem_append_left _ exploring.begun
  case once =>
    refine exploring.once.append (nodup_unseenAround seen node) fun other old fresh => ?_
    exact ((around other).mp fresh).2 old
  case inside =>
    refine List.append_subset.mpr ⟨exploring.inside, fun other fresh => ?_⟩
    exact closed_nodes mirrored node (exploring.inside known) other ((around other).mp fresh).1
  case queued =>
    intro other member
    rcases List.mem_append.mp member with waiting | fresh
    · exact (exploring.queued other (List.mem_cons_of_mem _ waiting)).imp_left
        (List.mem_append_left _)
    · exact ⟨List.mem_append_right _ fresh, reached.tail ((around other).mp fresh).1⟩
  case found =>
    intro other member
    rcases List.mem_append.mp member with old | fresh
    · exact exploring.found other old
    · exact Or.inr (reached.tail ((around other).mp fresh).1)
  case settled =>
    intro other member
    rcases List.mem_append.mp member with old | fresh
    · rcases exploring.settled other old with waiting | within
      · rcases List.mem_cons.mp waiting with same | later
        · -- What the node that is taken now leads to was seen before or is fresh.
          subst same
          refine Or.inr fun next edge => ?_
          by_cases seenBefore : next ∈ seen
          · exact List.mem_append_left _ seenBefore
          · exact List.mem_append_right _ ((around next).mpr ⟨edge, seenBefore⟩)
        · exact Or.inl (List.mem_append_left _ later)
      · exact Or.inr fun next edge => List.mem_append_left _ (within next edge)
    · exact Or.inl (List.mem_append_right _ fresh)

theorem run (mirrored : topology.Mirrored) (fuel : Nat)
    (exploring : Exploring topology visited start queue seen)
    (enough : queue.length + (topology.count - seen.length) ≤ fuel) :
    Exploring topology visited start [] (topology.collect fuel queue seen) := by
  -- A step takes one node from the queue, and what joins it counts among those seen.
  induction fuel generalizing queue seen with
  | zero =>
      have empty : queue = [] := List.length_eq_zero_iff.mp (by omega)
      subst empty
      exact exploring
  | succ fuel ih =>
      cases queue with
      | nil => exact exploring
      | cons node queue =>
          have next := exploring.step mirrored
          have room := next.length_le
          refine ih next ?_
          simp only [List.length_append, List.length_cons] at enough room ⊢
          omega

theorem complete (mirrored : topology.Mirrored) (before : topology.Visited visited)
    (new : start ∉ visited) (bound : start < topology.count) :
    Exploring topology visited start []
      (topology.collect topology.count [start] (visited ++ [start])) := by
  have begun := initial before new bound
  have room := begun.length_le
  refine begun.run mirrored topology.count ?_
  rw [List.length_append, List.length_singleton] at room ⊢
  omega

theorem visited_of_end (exploring : Exploring topology visited start [] seen) :
    topology.Visited seen where
  once := exploring.once
  inside := exploring.inside
  closed := fun node member => (exploring.settled node member).resolve_left List.not_mem_nil

theorem mem_drop_iff (exploring : Exploring topology visited start [] seen)
    (before : topology.Visited visited) (new : start ∉ visited) (node : Nat) :
    node ∈ seen.drop visited.length ↔ topology.Joined start node := by
  obtain ⟨added, rfl⟩ := exploring.kept
  rw [List.drop_left]
  constructor
  · intro member
    have apart := List.disjoint_of_nodup_append exploring.once
    exact (exploring.found node (List.mem_append_right _ member)).resolve_left
      fun old => apart old member
  · intro joined
    have reached := exploring.visited_of_end.closed.mem_of_joined exploring.begun joined
    refine (List.mem_append.mp reached).resolve_left fun old => new ?_
    exact before.closed.mem_of_joined old joined.symm

end Exploring

open Classical in
noncomputable def joinedTo (topology : Topology) (start : Nat) : List Nat :=
  topology.nodes.filter (topology.Joined start ·)

def Leads (topology : Topology) (start : Nat) : Prop :=
  ∀ node, topology.Joined start node → start ≤ node

theorem mem_joinedTo (mirrored : topology.Mirrored) {start : Nat} (bound : start < topology.count)
    (node : Nat) : node ∈ topology.joinedTo start ↔ topology.Joined start node := by
  simp only [joinedTo, List.mem_filter, decide_eq_true_eq, and_iff_right_iff_imp]
  exact (closed_nodes mirrored).mem_of_joined (List.mem_range.mpr bound)

theorem pairwise_joinedTo (start : Nat) : (topology.joinedTo start).Pairwise (· < ·) :=
  List.pairwise_lt_range.filter _

theorem mergeSort_eq_joinedTo (mirrored : topology.Mirrored) {start : Nat}
    (bound : start < topology.count) {added : List Nat} (once : added.Nodup)
    (told : ∀ node, node ∈ added ↔ topology.Joined start node) :
    added.mergeSort (fun left right => left ≤ right) = topology.joinedTo start := by
  have same : (added.mergeSort fun left right => left ≤ right).Perm (topology.joinedTo start) := by
    refine (List.mergeSort_perm _ _).trans ?_
    rw [List.perm_ext_iff_of_nodup once ((pairwise_joinedTo start).imp Nat.ne_of_lt)]
    intro node
    rw [told, mem_joinedTo mirrored bound]
  have sorted : (added.mergeSort fun left right => left ≤ right).Pairwise (· ≤ ·) := by
    simpa using List.pairwise_mergeSort' (· ≤ ·) added
  exact same.eq_of_pairwise (fun _ _ _ _ => Nat.le_antisymm) sorted
    ((pairwise_joinedTo start).imp Nat.le_of_lt)

/-- What holds whenever a start is looked at: the starts ascend, and every node that is not a start
any more was visited. -/
structure Sweeping (topology : Topology) (starts visited : List Nat) : Prop where
  before : topology.Visited visited
  ascending : starts.Pairwise (· < ·)
  inside : starts ⊆ topology.nodes
  covered : ∀ node ∈ topology.nodes, node ∈ visited ∨ node ∈ starts

namespace Sweeping

variable {starts visited seen : List Nat} {start : Nat}

theorem initial (topology : Topology) : Sweeping topology topology.nodes [] where
  before := ⟨List.nodup_nil, List.nil_subset _, by simp [Closed]⟩
  ascending := List.pairwise_lt_range
  inside := List.Subset.refl _
  covered := fun _ => Or.inr

theorem next (sweeping : Sweeping topology (start :: starts) visited)
    (after : topology.Visited seen) (kept : visited ⊆ seen) (begun : start ∈ seen) :
    Sweeping topology starts seen where
  before := after
  ascending := (List.pairwise_cons.mp sweeping.ascending).2
  inside := (List.cons_subset.mp sweeping.inside).2
  covered := by
    intro node member
    rcases sweeping.covered node member with old | waiting
    · exact Or.inl (kept old)
    · rcases List.mem_cons.mp waiting with rfl | waiting
      · exact Or.inl begun
      · exact Or.inr waiting

theorem bound (sweeping : Sweeping topology (start :: starts) visited) :
    start < topology.count :=
  List.mem_range.mp (List.cons_subset.mp sweeping.inside).1

theorem leads (mirrored : topology.Mirrored)
    (sweeping : Sweeping topology (start :: starts) visited) (new : start ∉ visited) :
    topology.Leads start := by
  intro node joined
  have inside := (closed_nodes mirrored).mem_of_joined
    (List.mem_range.mpr sweeping.bound) joined
  -- A node before the start was visited, and would have led there.
  rcases sweeping.covered node inside with old | waiting
  · exact absurd (sweeping.before.closed.mem_of_joined old joined.symm) new
  · rcases List.mem_cons.mp waiting with same | later
    · exact Nat.le_of_eq same.symm
    · exact Nat.le_of_lt ((List.pairwise_cons.mp sweeping.ascending).1 node later)

theorem mem_iff_of_leads (sweeping : Sweeping topology (start :: starts) visited)
    (explored : Exploring topology visited start [] seen) {later : Nat} (member : later ∈ starts)
    (leads : topology.Leads later) : later ∈ seen ↔ later ∈ visited := by
  refine ⟨fun reached => ?_, fun old => explored.kept.subset old⟩
  refine (explored.found later reached).resolve_right fun joined => ?_
  have less := (List.pairwise_cons.mp sweeping.ascending).1 later member
  exact absurd (leads start joined.symm) (Nat.not_le_of_lt less)

open Classical in
theorem componentsFrom_eq (mirrored : topology.Mirrored)
    (sweeping : Sweeping topology starts visited) :
    topology.componentsFrom starts visited =
      (starts.filter fun start => start ∉ visited ∧ topology.Leads start).map
        topology.joinedTo := by
  induction starts generalizing visited with
  | nil => rfl
  | cons start starts ih =>
      by_cases old : start ∈ visited
      · have rest := sweeping.next sweeping.before (List.Subset.refl _) old
        rw [componentsFrom, if_pos (by simpa using old), ih rest,
          List.filter_cons_of_neg (by simp [old])]
      · have explored := Exploring.complete mirrored sweeping.before old sweeping.bound
        have rest := sweeping.next explored.visited_of_end explored.kept.subset explored.begun
        have added := mergeSort_eq_joinedTo mirrored sweeping.bound
          (explored.once.sublist (List.drop_sublist _ _))
          (explored.mem_drop_iff sweeping.before old)
        have leads := sweeping.leads mirrored old
        simp only [componentsFrom, List.contains_iff_mem, old, if_false]
        rw [added, ih rest, List.filter_cons_of_pos (by simp [old, leads]), List.map_cons]
        congr 2
        refine List.filter_congr fun later member => decide_eq_decide.mpr ?_
        exact and_congr_left fun ahead =>
          not_congr (sweeping.mem_iff_of_leads explored member ahead)

end Sweeping

open Classical in
theorem components_eq (mirrored : topology.Mirrored) :
    topology.components =
      (topology.nodes.filter fun start => topology.Leads start).map topology.joinedTo := by
  rw [components, (Sweeping.initial topology).componentsFrom_eq mirrored]
  simp

theorem Leads.eq_of_joined {left right : Nat} (leftLeads : topology.Leads left)
    (rightLeads : topology.Leads right) (joined : topology.Joined left right) : left = right :=
  Nat.le_antisymm (leftLeads right joined) (rightLeads left joined.symm)

theorem exists_leads (node : Nat) :
    ∃ start, topology.Leads start ∧ topology.Joined start node := by
  classical
  have some : ∃ start, topology.Joined start node := ⟨node, Joined.refl node⟩
  refine ⟨Nat.find some, fun other joined => ?_, Nat.find_spec some⟩
  exact Nat.find_min' some (joined.symm.trans (Nat.find_spec some))

theorem mem_components (mirrored : topology.Mirrored) (part : List Nat) :
    part ∈ topology.components ↔
      ∃ start < topology.count, topology.Leads start ∧ topology.joinedTo start = part := by
  simp [components_eq mirrored, nodes, and_assoc]

theorem pairwise_components (mirrored : topology.Mirrored) {relates : List Nat → List Nat → Prop}
    (holds : ∀ left right, left < right → right < topology.count → topology.Leads left →
      topology.Leads right → relates (topology.joinedTo left) (topology.joinedTo right)) :
    topology.components.Pairwise relates := by
  classical
  rw [components_eq mirrored, List.pairwise_map, List.pairwise_filter]
  refine List.pairwise_lt_range.imp_of_mem fun _ inside less leftLeads rightLeads => ?_
  exact holds _ _ less (List.mem_range.mp inside) (by simpa using leftLeads)
    (by simpa using rightLeads)

theorem share_component_iff (mirrored : topology.Mirrored) (left right : Nat) :
    (∃ part ∈ topology.components, left ∈ part ∧ right ∈ part) ↔
      left < topology.count ∧ right < topology.count ∧ topology.Joined left right := by
  constructor
  · rintro ⟨part, listed, inLeft, inRight⟩
    obtain ⟨start, bound, -, rfl⟩ := (mem_components mirrored part).mp listed
    have bounds {node : Nat} (member : node ∈ topology.joinedTo start) : node < topology.count :=
      List.mem_range.mp (List.mem_of_mem_filter member)
    refine ⟨bounds inLeft, bounds inRight, ?_⟩
    rw [mem_joinedTo mirrored bound] at inLeft inRight
    exact inLeft.symm.trans inRight
  · rintro ⟨bound, -, joined⟩
    obtain ⟨start, leads, first⟩ := topology.exists_leads left
    have startBound : start < topology.count :=
      Nat.lt_of_le_of_lt (leads left first) bound
    refine ⟨_, (mem_components mirrored _).mpr ⟨start, startBound, leads, rfl⟩, ?_⟩
    rw [mem_joinedTo mirrored startBound, mem_joinedTo mirrored startBound]
    exact ⟨first, first.trans joined⟩

theorem disjoint_components (mirrored : topology.Mirrored) :
    topology.components.Pairwise List.Disjoint := by
  refine pairwise_components mirrored fun left right less bound leftLeads rightLeads => ?_
  intro node inLeft inRight
  rw [mem_joinedTo mirrored (less.trans bound)] at inLeft
  rw [mem_joinedTo mirrored bound] at inRight
  exact Nat.ne_of_lt less (leftLeads.eq_of_joined rightLeads (inLeft.trans inRight.symm))

theorem flatten_components_perm (mirrored : topology.Mirrored) :
    topology.components.flatten.Perm (List.range topology.count) := by
  have once : topology.components.flatten.Nodup := by
    refine List.nodup_flatten.mpr ⟨fun part listed => ?_, disjoint_components mirrored⟩
    obtain ⟨start, -, -, rfl⟩ := (mem_components mirrored part).mp listed
    exact (pairwise_joinedTo start).imp Nat.ne_of_lt
  rw [List.perm_ext_iff_of_nodup once List.nodup_range]
  intro node
  rw [List.mem_flatten, List.mem_range]
  simpa [Joined.refl] using share_component_iff mirrored node node

/-- Components are exact on any table, with cycles or without, whose targets may be repeated or out
of range. They have nodes in ascending order, they come by their least nodes, they hold every node
once in all, and two nodes share one exactly when a path of dependencies, each taken in either
direction, leads from one to the other. -/
theorem components_exact (targets : List (List Nat)) :
    (∀ part ∈ (ofTargets targets).components, part ≠ [] ∧ part.Pairwise (· < ·)) ∧
    ((ofTargets targets).components.Pairwise fun earlier later =>
      ∃ least ∈ earlier, (∀ node ∈ earlier, least ≤ node) ∧ ∀ node ∈ later, least < node) ∧
    (ofTargets targets).components.flatten.Perm (List.range targets.length) ∧
    ∀ left right, (∃ part ∈ (ofTargets targets).components, left ∈ part ∧ right ∈ part) ↔
      left < targets.length ∧ right < targets.length ∧
        ReflTransGen (SymmGen (Aims targets)) left right := by
  have mirrored := mirrored_ofTargets targets
  rw [← reads_eq_aims, ← count_ofTargets targets]
  refine ⟨fun part listed => ?_, ?_, flatten_components_perm mirrored,
    share_component_iff mirrored⟩
  · obtain ⟨start, bound, -, rfl⟩ := (mem_components mirrored part).mp listed
    have begun := (mem_joinedTo mirrored bound start).mpr (Joined.refl start)
    exact ⟨List.ne_nil_of_mem begun, pairwise_joinedTo start⟩
  · refine pairwise_components mirrored fun left right less bound leftLeads rightLeads => ?_
    have members := mem_joinedTo mirrored (less.trans bound)
    refine ⟨left, (members left).mpr (Joined.refl left),
      fun node member => leftLeads node ((members node).mp member), fun node member => ?_⟩
    exact less.trans_le (rightLeads node ((mem_joinedTo mirrored bound node).mp member))

def scattered : List (List Nat) := [[], [3], [0], [1, 1], [0, 9], [5]]

/-- The readers of one source are joined through it, and nothing joins it to the others. -/
theorem scattered_components_exact :
    (ofTargets scattered).components = [[0, 2, 4], [1, 3], [5]] ∧
      ([1, 3] ≠ [] ∧ [1, 3].Pairwise (· < ·)) ∧
      ReflTransGen (SymmGen (Aims scattered)) 2 4 ∧
      ¬ ReflTransGen (SymmGen (Aims scattered)) 0 1 := by
  have found : (ofTargets scattered).components = [[0, 2, 4], [1, 3], [5]] := by cbv
  obtain ⟨parts, _, _, joined⟩ := components_exact scattered
  rw [found] at parts joined
  refine ⟨found, parts [1, 3] (by simp), ((joined 2 4).mp ⟨[0, 2, 4], by simp⟩).2.2,
    fun path => ?_⟩
  obtain ⟨part, listed, first, second⟩ := (joined 0 1).mpr ⟨by decide, by decide, path⟩
  simp only [List.mem_cons, List.not_mem_nil, or_false] at listed
  rcases listed with rfl | rfl | rfl <;> simp at first second

end NodeGraph.Topology
