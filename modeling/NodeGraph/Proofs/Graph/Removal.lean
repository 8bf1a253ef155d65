import NodeGraph.Proofs.Graph.Atomicity
import NodeGraph.Proofs.Graph.Revisions

/-!
Removal. The nodes that stay keep their order and what they hold, and their slots go on reading the
same nodes, told by identity. Only the slots that read the removed node are emptied, and empty slots
are dropped only where none but empty ones follow.
-/

namespace NodeGraph

/-- What is left of a list without the empty entries at its end. -/
structure Trims {entry : Type} (full left : List (Option entry)) : Prop where
  dropped : ∃ count, full = left ++ List.replicate count none
  last : left.getLast? ≠ some none

theorem trims_trimSlots (slots : List (Option Nat)) : Trims slots (trimSlots slots) where
  dropped := by
    refine ⟨(slots.rtakeWhile Option.isNone).length, ?_⟩
    have empty : slots.rtakeWhile Option.isNone =
        List.replicate (slots.rtakeWhile Option.isNone).length none := by
      refine List.eq_replicate_iff.mpr ⟨rfl, fun slot member => ?_⟩
      exact Option.isNone_iff_eq_none.mp (List.mem_rtakeWhile_imp member)
    have split : slots = trimSlots slots ++ slots.rtakeWhile Option.isNone :=
      List.rdropWhile_append_rtakeWhile.symm
    rw [← empty]
    exact split
  last := (trimSlots_eq_self _).mp (trimSlots_trimSlots slots)

theorem Trims.bind {entry other : Type} {full left : List (Option entry)} (trims : Trims full left)
    (rename : entry → Option other) (kept : ∀ item, some item ∈ left → (rename item).isSome) :
    Trims (full.map (·.bind rename)) (left.map (·.bind rename)) where
  dropped := by
    obtain ⟨count, same⟩ := trims.dropped
    refine ⟨count, ?_⟩
    rw [same, List.map_append, List.map_replicate]
    rfl
  last := by
    intro ends
    rw [List.getLast?_map] at ends
    obtain ⟨slot, found, empty⟩ := Option.map_eq_some_iff.mp ends
    cases slot with
    | none => exact trims.last found
    | some item =>
        have present := kept item (List.mem_of_getLast? found)
        rw [show rename item = none from empty] at present
        cases present

namespace Graph

variable {graph : Graph}

def idAt (graph : Graph) (position : Nat) : Option Nat := graph.nodes[position]?.map Node.id

def readIds (graph : Graph) (node : Node) : List (Option Nat) :=
  node.slots.map (·.bind graph.idAt)

/-- What removing the node at a position makes of a graph. -/
structure Removal (graph : Graph) (index : Nat) (removed : Node) (edited : Graph) : Prop where
  survivors : edited.nodes.map (fun node => (node.id, node.label, node.params)) =
    (graph.nodes.eraseIdx index).map fun node => (node.id, node.label, node.params)
  inside : ∀ reader target, edited.Names reader target → target < edited.count
  reads : ∀ before ∈ graph.nodes, ∀ node ∈ edited.nodes, node.id = before.id →
    Trims ((graph.readIds before).map fun id => if id = some removed.id then none else id)
      (edited.readIds node)

theorem consumersOf_ascending (index : Nat) :
    (graph.topology.consumersOf index).Pairwise (· < ·) := by
  rw [topology, Topology.consumersOf_ofTargets]
  split
  · exact List.pairwise_lt_range.filter _
  · exact List.Pairwise.nil

theorem idAt_of_outlines {left right : Graph} (same : left.outlines = right.outlines) :
    left.idAt = right.idAt := by
  have ids : ∀ graph : Graph, graph.idAt = fun position => graph.outlines[position]?.map (·.id) := by
    intro graph
    funext position
    rw [idAt, outlines, List.getElem?_map, Option.map_map]
    rfl
  rw [ids, ids, same]

theorem idAt_without (index position : Nat) :
    (graph.without index).idAt position = graph.idAt (placeBefore index position) := by
  rw [idAt, without_nodes, Option.map_map]
  rfl

theorem WellFormed.idAt_injective (wellFormed : graph.WellFormed) {left right : Nat}
    {leftNode rightNode : Node} (leftFound : graph.nodes[left]? = some leftNode)
    (rightFound : graph.nodes[right]? = some rightNode) (same : leftNode.id = rightNode.id) :
    left = right := by
  have unique := wellFormed.ids_nodup
  have leftInside : left < (graph.nodes.map Node.id).length := by
    rw [List.length_map]
    exact bound_of_found leftFound
  refine (List.getElem?_inj leftInside unique).mp ?_
  rw [List.getElem?_map, List.getElem?_map, leftFound, rightFound, Option.map_some,
    Option.map_some, same]

theorem WellFormed.idAt_slotAfterRemoval (wellFormed : graph.WellFormed) {index : Nat}
    {removed : Node} (found : graph.nodes[index]? = some removed) (slot : Option Nat) :
    (slotAfterRemoval index slot).bind (graph.without index).idAt =
      if slot.bind graph.idAt = some removed.id then none else slot.bind graph.idAt := by
  cases slot with
  | none => rfl
  | some target =>
      rw [Option.bind_some]
      by_cases gone : target = index
      · subst gone
        have read : graph.idAt target = some removed.id := by rw [idAt, found]; rfl
        simp [slotAfterRemoval, read]
      · have moved : slotAfterRemoval index (some target) = some (placeAfter index target) := by
          rw [slotAfterRemoval_eq_some, placeBefore_placeAfter gone]
        have other : graph.idAt target ≠ some removed.id := by
          intro same
          obtain ⟨node, present, identity⟩ := Option.map_eq_some_iff.mp same
          exact gone (wellFormed.idAt_injective present found identity)
        rw [moved, Option.bind_some, idAt_without, placeBefore_placeAfter gone, if_neg other]

theorem WellFormed.removal (wellFormed : graph.WellFormed) {index : Nat} {removed : Node}
    (found : graph.nodes[index]? = some removed) :
    Removal graph index removed (graph.removed index) := by
  have bound := bound_of_found found
  have editedWellFormed : (graph.removed index).WellFormed :=
    (wellFormed.without bound).of_outlines (removed_outlines _) (removed_nextId _)
  refine ⟨?_, fun reader target ⟨node, present, mentioned⟩ => ?_, ?_⟩
  · have contents : ∀ graph : Graph,
        graph.nodes.map (fun node => (node.id, node.label, node.params)) =
          graph.outlines.map fun outline => (outline.id, outline.label, outline.params) := by
      intro graph
      rw [outlines, List.map_map]
      rfl
    rw [contents, removed_outlines, ← contents, Graph.without, List.map_map]
    rfl
  · exact (editedWellFormed.fits present).bound target mentioned
  · intro before member node editedMember same
    obtain ⟨place, present⟩ := List.mem_iff_getElem?.mp member
    obtain ⟨position, editedFound⟩ := List.mem_iff_getElem?.mp editedMember
    obtain ⟨bare, bareFound, outline⟩ :=
      outline_of_outlines (removed_outlines index) editedFound
    rw [without_nodes] at bareFound
    obtain ⟨source, sourceFound, shape⟩ := Option.map_eq_some_iff.mp bareFound
    -- The node stood where the node of its identity stood.
    have identity : source.id = before.id := by
      rw [← same]
      subst shape
      exact congrArg Outline.id outline
    have placed := wellFormed.idAt_injective sourceFound present identity
    rw [placed, present] at sourceFound
    cases sourceFound
    have slots : node.slots = trimSlots (before.slots.map (slotAfterRemoval index)) := by
      subst shape
      exact (congrArg Outline.slots outline).symm
    have trims := (trims_trimSlots (before.slots.map (slotAfterRemoval index))).bind
      (graph.removed index).idAt fun target mentioned => by
        rw [← slots] at mentioned
        have inside := (editedWellFormed.fits editedFound).bound target mentioned
        rw [idAt, Option.isSome_map, List.getElem?_eq_getElem inside]
        rfl
    rw [← slots, List.map_map] at trims
    have read : (graph.readIds before).map
        (fun id => if id = some removed.id then none else id) =
        before.slots.map ((·.bind (graph.removed index).idAt) ∘ slotAfterRemoval index) := by
      rw [readIds, List.map_map]
      refine List.map_congr_left fun slot _ => ?_
      rw [Function.comp_apply, Function.comp_apply, idAt_of_outlines (removed_outlines index),
        wellFormed.idAt_slotAfterRemoval found]
    rw [read]
    exact trims

theorem removeNode_eq {index : Nat} {removed : Node}
    (found : graph.nodes[index]? = some removed) (policy : RemovalPolicy) :
    graph.removeNode index policy =
      if policy = .reject ∧ graph.topology.consumersOf index ≠ [] then
        .error (.hasConsumers index (graph.topology.consumersOf index))
      else .ok (removed, graph.removed index) := by
  rw [removeNode, node_ok.mpr found]
  have rejects : (!(graph.topology.consumersOf index).isEmpty && policy == .reject) = true ↔
      policy = .reject ∧ graph.topology.consumersOf index ≠ [] := by
    simp [and_comm]
  by_cases kept : policy = .reject ∧ graph.topology.consumersOf index ≠ []
  · rw [if_pos kept]
    exact if_pos (rejects.mpr kept)
  · rw [if_neg kept]
    exact if_neg fun rejected => kept (rejects.mp rejected)

/-- Removing a node never moves an edge to another node. Where it is rejected, for the nodes that
read it, the graph is left as it was. -/
theorem Reachable.removal_keeps_edges (reachable : graph.Reachable) {index : Nat} {removed : Node}
    (found : graph.nodes[index]? = some removed) (policy : RemovalPolicy) :
    ∃ consumers : List Nat, consumers.Pairwise (· < ·) ∧
      (∀ reader, reader ∈ consumers ↔ graph.Names reader index) ∧
      if policy = .reject ∧ consumers ≠ [] then
        graph.removeNode index policy = .error (.hasConsumers index consumers) ∧
          (InPlace.removeNode index policy).on graph =
            (.error (.hasConsumers index consumers), graph)
      else
        ∃ edited, graph.removeNode index policy = .ok (removed, edited) ∧
          (InPlace.removeNode index policy).on graph = (.ok removed, edited) ∧
          Removal graph index removed edited := by
  have wellFormed := reachable.wellFormed
  refine ⟨graph.topology.consumersOf index, consumersOf_ascending index, fun reader => ?_, ?_⟩
  · rw [wellFormed.names_iff]
    exact graph.mirrored.transposed reader index
  · rw [InPlace.on_removeNode, removeNode_eq found]
    split
    · exact ⟨rfl, rfl⟩
    · exact ⟨_, rfl, rfl, wellFormed.removal found⟩

/-- A node that reads three others. -/
def fanned : Graph :=
  (Graph.empty .empty).run
    [.addOutputNode (.constant (.integer 1)), .addOutputNode (.constant (.integer 2)),
      .addOutputNode (.constant (.integer 3)), .addOutputNode (.constant (.integer 4)),
      .addEdge 3 0 0, .addEdge 3 1 1, .addEdge 3 2 2]

/-- Without the second node the third slot follows the node it reads, and the slot between stays. -/
theorem fanned_removal_keeps_edges :
    fanned.Reachable ∧ fanned.nodes.map Node.slots = [[], [], [], [some 0, some 1, some 2]] ∧
      ∃ removed edited, fanned.nodes[1]? = some removed ∧
        fanned.removeNode 1 .detach = .ok (removed, edited) ∧ Removal fanned 1 removed edited ∧
        edited.nodes.map Node.slots = [[], [], [some 0, none, some 1]] := by
  have reachable : fanned.Reachable := (Reachable.empty .empty none 0).run _
  obtain ⟨removed, found⟩ : ∃ removed, fanned.nodes[1]? = some removed :=
    Option.isSome_iff_exists.mp (by decide +kernel)
  obtain ⟨consumers, _, _, outcome⟩ := Reachable.removal_keeps_edges reachable found .detach
  rw [if_neg (fun kept => by cases kept.1)] at outcome
  obtain ⟨edited, accepted, _, removal⟩ := outcome
  refine ⟨reachable, by decide +kernel, removed, edited, found, accepted, removal, ?_⟩
  have shape : ((fanned.removeNode 1 .detach).map fun answer =>
      answer.2.nodes.map Node.slots).toOption = some [[], [], [some 0, none, some 1]] := by
    decide +kernel
  rw [accepted] at shape
  exact Option.some.inj shape

end Graph

end NodeGraph
