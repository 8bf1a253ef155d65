import Mathlib.Data.Finset.Card
import Mathlib.Data.List.Perm.Subperm
import NodeGraph.Proofs.Topology.Search

/-!
Sorting. While nodes are taken from the queue, the degree of a node counts its dependencies that are
not taken yet, and the queue holds the free nodes. A table without cycles is therefore sorted to
the end, and what is sorted to the end has no cycle.
-/

namespace NodeGraph.Topology

open Relation

/-- Every node once, and none before a node that it depends on. -/
structure IsOrder (topology : Topology) (order : List Nat) : Prop where
  perm : order.Perm topology.nodes
  before : order.Pairwise fun earlier later => ¬ topology.Reads earlier later
  irreflexive : ∀ node, ¬ topology.Reads node node

variable {topology : Topology}

theorem length_le_count {items : List Nat} (once : items.Nodup)
    (inside : items ⊆ topology.nodes) : items.length ≤ topology.count := by
  have bound := (List.subperm_of_subset once inside).length_le
  rwa [nodes, List.length_range] at bound

theorem acyclic_of_rank (rank : Nat → Nat)
    (drops : ∀ reader target, topology.Reads reader target → rank target < rank reader) :
    topology.Acyclic := by
  intro node cycle
  have descends : ∀ target, TransGen topology.Reads node target → rank target < rank node := by
    intro target path
    induction path with
    | single step => exact drops _ _ step
    | tail _ step ih => exact Nat.lt_trans (drops _ _ step) ih
  exact Nat.lt_irrefl _ (descends node cycle)

namespace IsOrder

variable {order : List Nat}

theorem nodup (ordered : topology.IsOrder order) : order.Nodup :=
  ordered.perm.nodup_iff.mpr List.nodup_range

theorem mem_iff (ordered : topology.IsOrder order) (node : Nat) :
    node ∈ order ↔ node < topology.count := by
  rw [ordered.perm.mem_iff]
  simp [nodes]

theorem idxOf_lt (ordered : topology.IsOrder order) (mirrored : topology.Mirrored)
    {reader target : Nat} (reads : topology.Reads reader target) :
    order.idxOf target < order.idxOf reader := by
  have bounds := mirrored.bound reads
  have readerIndex := List.idxOf_lt_length_iff.mpr ((ordered.mem_iff reader).mpr bounds.1)
  have targetIndex := List.idxOf_lt_length_iff.mpr ((ordered.mem_iff target).mpr bounds.2)
  rcases Nat.lt_trichotomy (order.idxOf target) (order.idxOf reader) with less | same | more
  · exact less
  · have equal : target = reader := by
      rw [← List.getElem_idxOf targetIndex, ← List.getElem_idxOf readerIndex]
      simp only [same]
    exact absurd (equal ▸ reads) (ordered.irreflexive target)
  · have apart := List.pairwise_iff_getElem.mp ordered.before _ _ readerIndex targetIndex more
    simp only [List.getElem_idxOf] at apart
    exact absurd reads apart

theorem acyclic (ordered : topology.IsOrder order) (mirrored : topology.Mirrored) :
    topology.Acyclic :=
  acyclic_of_rank order.idxOf fun _ _ => ordered.idxOf_lt mirrored

end IsOrder

open Classical in
noncomputable def behind (topology : Topology) (node : Nat) : Finset Nat :=
  (Finset.range topology.count).filter fun target => topology.Reaches node target

theorem mem_behind (mirrored : topology.Mirrored) (node target : Nat) :
    target ∈ topology.behind node ↔ topology.Reaches node target := by
  simp only [behind, Finset.mem_filter, Finset.mem_range, and_iff_right_iff_imp]
  intro path
  induction path with
  | single step => exact (mirrored.bound step).2
  | tail _ step _ => exact (mirrored.bound step).2

theorem behind_card_lt (mirrored : topology.Mirrored) {reader target : Nat}
    (reads : topology.Reads reader target) (loose : ¬ topology.Reaches target target) :
    (topology.behind target).card < (topology.behind reader).card := by
  apply Finset.card_lt_card
  rw [Finset.ssubset_iff_of_subset]
  · refine ⟨target, ?_, ?_⟩
    · rw [mem_behind mirrored]
      exact TransGen.single reads
    · rwa [mem_behind mirrored]
  · intro other member
    rw [mem_behind mirrored] at member ⊢
    exact TransGen.head reads member

theorem Acyclic.exists_rank (acyclic : topology.Acyclic) (mirrored : topology.Mirrored) :
    ∃ rank : Nat → Nat, (∀ node, rank node ≤ topology.count) ∧
      ∀ reader target, topology.Reads reader target → rank target < rank reader := by
  classical
  refine ⟨fun node => (topology.behind node).card, fun node => ?_, fun reader target reads =>
    behind_card_lt mirrored reads (acyclic target)⟩
  exact (Finset.card_filter_le _ _).trans_eq (Finset.card_range topology.count)

theorem Acyclic.induction (acyclic : topology.Acyclic) (mirrored : topology.Mirrored)
    {motive : Nat → Prop}
    (step : ∀ node, (∀ target, topology.Reads node target → motive target) → motive node)
    (node : Nat) : motive node := by
  obtain ⟨rank, _, drops⟩ := acyclic.exists_rank mirrored
  induction height : rank node using Nat.strongRecOn generalizing node with
  | ind bound ih =>
      subst height
      exact step node fun target reads => ih (rank target) (drops node target reads) target rfl

theorem release_spec (degrees : Array Nat) (queue consumers : List Nat)
    (unique : consumers.Nodup) (bound : ∀ consumer ∈ consumers, consumer < degrees.size) :
    (release degrees queue consumers).1.size = degrees.size ∧
    (∀ node, (release degrees queue consumers).1.getD node 0 =
      if node ∈ consumers then degrees.getD node 0 - 1 else degrees.getD node 0) ∧
    (release degrees queue consumers).2 =
      queue ++ consumers.filter fun consumer => degrees.getD consumer 0 - 1 = 0 := by
  induction consumers generalizing degrees queue with
  | nil => simp [release]
  | cons first rest ih =>
      have parts := List.nodup_cons.mp unique
      have firstBound := bound first (by simp)
      let lowered := degrees.setIfInBounds first (degrees.getD first 0 - 1)
      have lowered_get : ∀ node, lowered.getD node 0 =
          if node = first then degrees.getD first 0 - 1 else degrees.getD node 0 := by
        intro node
        by_cases same : node = first
        · subst same
          simp [lowered, firstBound]
        · simp [lowered, same, Ne.symm same]
      obtain ⟨size, get, entries⟩ := ih lowered
        (if degrees.getD first 0 - 1 = 0 then queue ++ [first] else queue) parts.2
        (fun consumer member => by simpa [lowered] using bound consumer (by simp [member]))
      rw [release]
      refine ⟨by simpa [lowered] using size, ?_, ?_⟩
      · intro node
        rw [get, lowered_get]
        by_cases same : node = first
        · subst same
          simp [parts.1]
        · simp [same]
      · rw [entries]
        have untouched : (rest.filter fun consumer => lowered.getD consumer 0 - 1 = 0) =
            rest.filter fun consumer => degrees.getD consumer 0 - 1 = 0 := by
          apply List.filter_congr
          intro consumer member
          have different : consumer ≠ first := fun same => parts.1 (same ▸ member)
          rw [lowered_get, if_neg different]
        rw [untouched, List.filter_cons]
        by_cases free : degrees.getD first 0 - 1 = 0
        · simp only [free, if_true, decide_true, List.append_assoc, List.singleton_append]
        · simp only [free, if_false, decide_false, Bool.false_eq_true]

/-- What holds whenever a node is about to be taken; `sorted` is in reverse. -/
structure Sorting (topology : Topology) (degrees : Array Nat) (queue sorted : List Nat) :
    Prop where
  size : degrees.size = topology.count
  degree : ∀ node, node < topology.count → degrees.getD node 0 =
    ((topology.dependenciesOf node).filter fun target => target ∉ sorted).length
  unique : (queue ++ sorted).Nodup
  free : ∀ node, node ∈ queue ∨ node ∈ sorted ↔
    node < topology.count ∧ degrees.getD node 0 = 0
  before : sorted.Pairwise fun later earlier => ¬ topology.Reads earlier later
  irreflexive : ∀ node ∈ sorted, ¬ topology.Reads node node

namespace Sorting

variable {degrees : Array Nat} {queue sorted : List Nat}

theorem zero_iff (state : Sorting topology degrees queue sorted) {node : Nat}
    (bound : node < topology.count) :
    degrees.getD node 0 = 0 ↔ ∀ target, topology.Reads node target → target ∈ sorted := by
  rw [state.degree node bound, List.length_eq_zero_iff, List.filter_eq_nil_iff]
  simp [Reads]

theorem closed (state : Sorting topology degrees queue sorted) {node : Nat}
    (member : node ∈ sorted) : ∀ target, topology.Reads node target → target ∈ sorted := by
  have facts := (state.free node).mp (Or.inr member)
  exact (state.zero_iff facts.1).mp facts.2

theorem initial (topology : Topology) :
    Sorting topology (topology.dependencies.map List.length)
      (topology.nodes.filter fun node =>
        (topology.dependencies.map List.length).getD node 0 = 0) [] where
  size := by simp [count]
  degree := by
    intro node bound
    have inside : node < topology.dependencies.size := bound
    simp [dependenciesOf, inside]
  unique := by
    rw [List.append_nil]
    exact List.nodup_range.filter _
  free := by
    intro node
    simp only [List.mem_filter, nodes, List.mem_range, decide_eq_true_eq, List.not_mem_nil,
      or_false]
  before := List.Pairwise.nil
  irreflexive := by simp

theorem filter_length_cons (targets sorted : List Nat) (node : Nat) (unique : targets.Nodup)
    (fresh : node ∉ sorted) :
    (targets.filter fun target => target ∉ node :: sorted).length =
      if node ∈ targets then (targets.filter fun target => target ∉ sorted).length - 1
      else (targets.filter fun target => target ∉ sorted).length := by
  have split : (targets.filter fun target => target ∉ node :: sorted) =
      (targets.filter fun target => target ∉ sorted).erase node := by
    rw [List.Nodup.erase_eq_filter (unique.filter _), List.filter_filter]
    apply List.filter_congr
    intro target _
    by_cases same : target = node <;> simp [same]
  rw [split, List.length_erase]
  simp [fresh]

theorem step (mirrored : topology.Mirrored) {node : Nat}
    (state : Sorting topology degrees (node :: queue) sorted) :
    Sorting topology (release degrees queue (topology.consumersOf node)).1
      (release degrees queue (topology.consumersOf node)).2 (node :: sorted) := by
  have nodeFree := (state.free node).mp (Or.inl (by simp))
  have unique : node ∉ queue ++ sorted ∧ (queue ++ sorted).Nodup :=
    List.nodup_cons.mp (by simpa using state.unique)
  have nodeFresh : node ∉ sorted := fun member => unique.1 (by simp [member])
  obtain ⟨size, get, entries⟩ := release_spec degrees queue (topology.consumersOf node)
    (mirrored.consumersNodup node) (fun consumer member => by
      rw [state.size]
      exact (mirrored.bound ((mirrored.transposed consumer node).mp member)).1)
  -- A consumer that becomes free was not free before, as it waited for this node.
  have waited : ∀ consumer ∈ topology.consumersOf node,
      ¬ (consumer ∈ node :: queue ∨ consumer ∈ sorted) := by
    intro consumer member known
    have reads := (mirrored.transposed consumer node).mp member
    have facts := (state.free consumer).mp known
    exact nodeFresh ((state.zero_iff facts.1).mp facts.2 node reads)
  constructor
  · rw [size, state.size]
  · intro other bound
    rw [get, state.degree other bound, filter_length_cons _ _ _
      (mirrored.dependenciesNodup other) nodeFresh]
    simp only [mirrored.transposed, Reads]
  · rw [entries, List.append_assoc, List.nodup_append]
    refine ⟨(List.nodup_append.mp unique.2).1, ?_, ?_⟩
    · rw [List.nodup_append]
      refine ⟨(mirrored.consumersNodup node).filter _,
        List.nodup_cons.mpr ⟨nodeFresh, (List.nodup_append.mp unique.2).2.1⟩, ?_⟩
      intro consumer member other later same
      subst same
      have fresh := waited consumer (List.mem_filter.mp member).1
      rcases List.mem_cons.mp later with first | later
      · exact fresh (Or.inl (by simp [first]))
      · exact fresh (Or.inr later)
    · intro entry queued other later same
      subst same
      rcases List.mem_append.mp later with member | member
      · exact waited entry (List.mem_filter.mp member).1 (Or.inl (by simp [queued]))
      · rcases List.mem_cons.mp member with first | member
        · subst first
          exact unique.1 (by simp [queued])
        · exact (List.nodup_append.mp unique.2).2.2 entry queued entry member rfl
  · intro other
    rw [entries, get]
    constructor
    · intro member
      have known : (other ∈ node :: queue ∨ other ∈ sorted) ∨
          (other ∈ topology.consumersOf node ∧ degrees.getD other 0 - 1 = 0) := by
        simp only [List.mem_append, List.mem_filter, List.mem_cons, decide_eq_true_eq] at member ⊢
        tauto
      rcases known with known | ⟨consumer, freed⟩
      · have facts := (state.free other).mp known
        refine ⟨facts.1, ?_⟩
        rw [facts.2]
        simp
      · rw [if_pos consumer]
        exact ⟨(mirrored.bound ((mirrored.transposed other node).mp consumer)).1, freed⟩
    · rintro ⟨bound, zero⟩
      by_cases consumer : other ∈ topology.consumersOf node
      · rw [if_pos consumer] at zero
        exact Or.inl (List.mem_append_right _
          (List.mem_filter.mpr ⟨consumer, by simpa using zero⟩))
      · rw [if_neg consumer] at zero
        have known := (state.free other).mpr ⟨bound, zero⟩
        simp only [List.mem_append, List.mem_cons] at known ⊢
        tauto
  · refine List.Pairwise.cons ?_ state.before
    intro earlier member reads
    exact nodeFresh (state.closed member node reads)
  · intro other member
    rcases List.mem_cons.mp member with same | member
    · subst same
      exact fun reads => nodeFresh ((state.zero_iff nodeFree.1).mp nodeFree.2 other reads)
    · exact state.irreflexive other member

theorem sorted_length_le (state : Sorting topology degrees queue sorted) :
    sorted.length ≤ topology.count := by
  have subset : sorted ⊆ topology.nodes := by
    intro node member
    simpa [nodes] using ((state.free node).mp (Or.inr member)).1
  exact length_le_count (List.nodup_append.mp state.unique).2.1 subset

end Sorting

theorem sortFrom_spec (mirrored : topology.Mirrored) (fuel : Nat) (degrees : Array Nat)
    (queue sorted : List Nat) (state : Sorting topology degrees queue sorted)
    (enough : topology.count < fuel + sorted.length) :
    ∃ last final, topology.sortFrom fuel degrees queue sorted = (last.reverse, final) ∧
      Sorting topology final [] last := by
  induction fuel generalizing degrees queue sorted with
  | zero =>
      have bound := state.sorted_length_le
      omega
  | succ fuel ih =>
      cases queue with
      | nil => exact ⟨sorted, degrees, by simp [sortFrom], state⟩
      | cons node queue =>
          have next := ih _ _ _ (state.step mirrored)
            (by simp only [List.length_cons]; omega)
          simpa [sortFrom] using next

theorem sort_spec (mirrored : topology.Mirrored) :
    ∃ last final, Sorting topology final [] last ∧
      topology.sort = if last.length = topology.count then .ok last.reverse
        else .error (topology.nodes.filter fun node => final.getD node 0 > 0) := by
  obtain ⟨last, final, run, state⟩ := sortFrom_spec mirrored (topology.count + 1) _ _ []
    (Sorting.initial topology) (by simp)
  refine ⟨last, final, state, ?_⟩
  simp only [sort, run, List.length_reverse]

theorem isOrder_of_sort (mirrored : topology.Mirrored) {order : List Nat}
    (found : topology.sort = .ok order) : topology.IsOrder order := by
  obtain ⟨last, final, state, result⟩ := sort_spec mirrored
  rw [result] at found
  split at found
  · rename_i complete
    cases found
    have unique : last.Nodup := by simpa using state.unique
    have inside : last ⊆ topology.nodes := by
      intro node member
      simpa [nodes] using ((state.free node).mp (Or.inr member)).1
    have perm : last.Perm topology.nodes :=
      (List.subperm_of_subset unique inside).perm_of_length_le (by simp [nodes, complete])
    refine ⟨(List.reverse_perm last).trans perm, List.pairwise_reverse.mpr state.before, ?_⟩
    intro node reads
    have inside : node ∈ topology.nodes := by simpa [nodes] using (mirrored.bound reads).1
    have member : node ∈ last := perm.mem_iff.mpr inside
    exact state.irreflexive node member reads
  · simp at found

theorem Acyclic.sort_ok (acyclic : topology.Acyclic) (mirrored : topology.Mirrored) :
    ∃ order, topology.sort = .ok order ∧ topology.IsOrder order := by
  obtain ⟨last, final, state, result⟩ := sort_spec mirrored
  have everything : ∀ node, node < topology.count → node ∈ last := by
    intro node
    induction node using acyclic.induction mirrored with
    | step node ih =>
        intro bound
        have zero := (state.zero_iff bound).mpr fun target reads =>
          ih target reads (mirrored.bound reads).2
        exact ((state.free node).mpr ⟨bound, zero⟩).resolve_left (by simp)
  have complete : last.length = topology.count := by
    refine Nat.le_antisymm state.sorted_length_le ?_
    have subset : topology.nodes ⊆ last := by
      intro node member
      exact everything node (by simpa [nodes] using member)
    simpa [nodes] using (List.subperm_of_subset List.nodup_range subset).length_le
  rw [if_pos complete] at result
  exact ⟨_, result, isOrder_of_sort mirrored result⟩

theorem sort_ok_iff (mirrored : topology.Mirrored) :
    (∃ order, topology.sort = .ok order) ↔ topology.Acyclic := by
  constructor
  · rintro ⟨order, found⟩
    exact (isOrder_of_sort mirrored found).acyclic mirrored
  · intro acyclic
    obtain ⟨order, found, _⟩ := acyclic.sort_ok mirrored
    exact ⟨order, found⟩

end NodeGraph.Topology
