import Mathlib.Logic.Relation
import NodeGraph.Graph.Topology

/-!
What dependency tables hold. The two tables of a topology mirror each other: a node lists a target
exactly when the target lists it as a consumer.
-/

namespace NodeGraph.Topology

def Reads (topology : Topology) (reader target : Nat) : Prop :=
  target ∈ topology.dependenciesOf reader

/-- No node depends on itself, directly or through others. -/
def Acyclic (topology : Topology) : Prop :=
  ∀ node, ¬ Relation.TransGen topology.Reads node node

/-- What holds of the tables that are made from rows of targets. -/
structure Mirrored (topology : Topology) : Prop where
  consumersSize : topology.consumers.size = topology.count
  bound : ∀ {reader target}, topology.Reads reader target →
    reader < topology.count ∧ target < topology.count
  transposed : ∀ reader target,
    reader ∈ topology.consumersOf target ↔ topology.Reads reader target
  dependenciesNodup : ∀ node, (topology.dependenciesOf node).Nodup
  consumersNodup : ∀ node, (topology.consumersOf node).Nodup

theorem eraseDups_nodup (items : List Nat) : items.eraseDups.Nodup := by
  induction length : items.length using Nat.strongRecOn generalizing items with
  | ind bound ih =>
      cases items with
      | nil => simp
      | cons first rest =>
          rw [List.eraseDups_cons, List.nodup_cons]
          have shorter : (rest.filter fun item => !item == first).length < bound := by
            have := List.length_filter_le (fun item => !item == first) rest
            simp only [List.length_cons] at length
            omega
          exact ⟨by simp, ih _ shorter _ rfl⟩

variable (targets : List (List Nat))

theorem count_ofTargets : (ofTargets targets).count = targets.length := by
  simp [count, ofTargets]

theorem dependenciesOf_ofTargets (node : Nat) :
    (ofTargets targets).dependenciesOf node =
      ((targets[node]?.getD []).filter (· < targets.length)).eraseDups := by
  simp only [dependenciesOf, ofTargets, Array.getD_eq_getD_getElem?, List.getElem?_toArray,
    List.getElem?_map]
  cases targets[node]? <;> simp

theorem reads_ofTargets (reader target : Nat) :
    (ofTargets targets).Reads reader target ↔
      target ∈ targets[reader]?.getD [] ∧ target < targets.length := by
  simp [Reads, dependenciesOf_ofTargets, List.mem_eraseDups]

theorem consumersOf_ofTargets (node : Nat) :
    (ofTargets targets).consumersOf node =
      if node < targets.length then
        (List.range targets.length).filter fun reader =>
          ((ofTargets targets).dependenciesOf reader).contains node
      else [] := by
  simp only [consumersOf, ofTargets, Array.getD_eq_getD_getElem?, List.getElem?_toArray,
    List.getElem?_map, dependenciesOf]
  by_cases bound : node < targets.length
  · simp [bound]
  · simp [bound]

theorem mirrored_ofTargets : (ofTargets targets).Mirrored where
  consumersSize := by simp [count, ofTargets]
  bound := by
    intro reader target reads
    rw [reads_ofTargets] at reads
    rw [count_ofTargets]
    refine ⟨Nat.lt_of_not_le fun outside => ?_, reads.2⟩
    simp [List.getElem?_eq_none outside] at reads
  transposed := by
    intro reader target
    rw [consumersOf_ofTargets, Reads]
    constructor
    · split
      · intro member
        simpa using (List.mem_filter.mp member).2
      · simp
    · intro reads
      have facts := (reads_ofTargets targets reader target).mp reads
      have inside : reader < targets.length := by
        refine Nat.lt_of_not_le fun outside => ?_
        simp [List.getElem?_eq_none outside] at facts
      rw [if_pos facts.2]
      simp [inside, reads]
  dependenciesNodup := by
    intro node
    rw [dependenciesOf_ofTargets]
    exact eraseDups_nodup _
  consumersNodup := by
    intro node
    rw [consumersOf_ofTargets]
    split
    · exact List.nodup_range.filter _
    · simp

end NodeGraph.Topology
