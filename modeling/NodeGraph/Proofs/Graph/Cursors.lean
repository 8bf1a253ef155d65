import NodeGraph.Graph.Cursor
import NodeGraph.Proofs.Graph.Connecting
import NodeGraph.Proofs.Graph.Removal

/-!
Cursors through histories of edits. A cursor on a node goes where the node goes, until the node is
removed, and never lands on another. A cursor on a connected slot goes with both of the nodes that
the edge joins, until one of them is removed or the slot itself is edited.
-/

namespace NodeGraph

namespace Edit

def Removes (id : Nat) (graph : Graph) : Edit → Prop
  | .removeNode index _ => graph.idAt index = some id
  | .clear => True
  | _ => False

def Rewires (id slot : Nat) (graph : Graph) : Edit → Prop
  | .addEdge reader other _ | .disconnect reader other => graph.idAt reader = some id ∧ other = slot
  | _ => False

instance (id : Nat) (graph : Graph) : DecidablePred (Removes id graph)
  | .removeNode index _ => inferInstanceAs (Decidable (graph.idAt index = some id))
  | .clear => inferInstanceAs (Decidable True)
  | .addNode _ | .addOutputNode _ | .setLabel _ _ | .cloneSubgraph _ | .setExpression _ _ _
  | .removeExpression _ _ | .addEdge _ _ _ | .disconnect _ _ => inferInstanceAs (Decidable False)

instance (id slot : Nat) (graph : Graph) : DecidablePred (Rewires id slot graph)
  | .addEdge reader other _ | .disconnect reader other =>
      inferInstanceAs (Decidable (graph.idAt reader = some id ∧ other = slot))
  | .addNode _ | .addOutputNode _ | .setLabel _ _ | .removeNode _ _ | .cloneSubgraph _
  | .setExpression _ _ _ | .removeExpression _ _ | .clear => inferInstanceAs (Decidable False)

def destination : Edit → Nat → Nat
  | .removeNode index _ => Graph.placeAfter index
  | _ => id

end Edit

namespace Graph

/-- Somewhere along a history an edit that was accepted has a property. -/
def Along (property : Graph → Edit → Prop) (graph : Graph) : List Edit → Prop
  | [] => False
  | edit :: rest =>
      ((graph.edit edit).isOk = true ∧ property graph edit) ∨ Along property (graph.after edit) rest

instance decidableAlong {property : Graph → Edit → Prop}
    [∀ graph, DecidablePred (property graph)] :
    ∀ graph edits, Decidable (Along property graph edits)
  | _, [] => inferInstanceAs (Decidable False)
  | graph, edit :: rest =>
      have _ : Decidable (Along property (graph.after edit) rest) := decidableAlong _ rest
      inferInstanceAs (Decidable (((graph.edit edit).isOk = true ∧ property graph edit) ∨
        Along property (graph.after edit) rest))

def Holds (graph : Graph) (id : Nat) : Prop := ∃ position, graph.idAt position = some id

structure Links (graph : Graph) (id slot other position target : Nat) : Prop where
  reader : graph.idAt position = some id
  connected : graph.slotAt position slot = some (some target)
  target : graph.idAt target = some other

variable {graph edited : Graph} {edit : Edit}

theorem idAt_eq_some {position id : Nat} :
    graph.idAt position = some id ↔ ∃ node, graph.nodes[position]? = some node ∧ node.id = id := by
  rw [idAt, Option.map_eq_some_iff]

theorem bound_of_idAt {position id : Nat} (known : graph.idAt position = some id) :
    position < graph.count := by
  obtain ⟨node, found, _⟩ := idAt_eq_some.mp known
  exact bound_of_found found

theorem idAt_modify {change : Node → Node} (kept : ∀ node, (change node).id = node.id)
    (index position : Nat) : (graph.modify index change).idAt position = graph.idAt position := by
  rw [idAt, idAt, modify, List.getElem?_modify]
  cases graph.nodes[position]? with
  | none => rfl
  | some node =>
      by_cases here : index = position
      · simp [here, kept]
      · simp [here]

theorem slotAt_modify {change : Node → Node} (kept : ∀ node, (change node).slots = node.slots)
    (index position slot : Nat) :
    (graph.modify index change).slotAt position slot = graph.slotAt position slot := by
  rw [slotAt, slotAt, modify, List.getElem?_modify]
  cases graph.nodes[position]? with
  | none => rfl
  | some node =>
      by_cases here : index = position
      · simp [here, kept]
      · simp [here]

theorem WellFormed.position_unique (wellFormed : graph.WellFormed) {left right id : Nat}
    (leftKnown : graph.idAt left = some id) (rightKnown : graph.idAt right = some id) :
    left = right := by
  obtain ⟨_, leftFound, leftSame⟩ := idAt_eq_some.mp leftKnown
  obtain ⟨_, rightFound, rightSame⟩ := idAt_eq_some.mp rightKnown
  exact wellFormed.idAt_injective leftFound rightFound (leftSame.trans rightSame.symm)

theorem WellFormed.index?_eq_some_iff (wellFormed : graph.WellFormed) {id index : Nat} :
    graph.index? id = some index ↔ graph.idAt index = some id := by
  rw [index?, List.findIdx?_eq_some_iff_getElem]
  constructor
  · rintro ⟨inside, same, _⟩
    exact idAt_eq_some.mpr ⟨_, List.getElem?_eq_getElem inside, beq_iff_eq.mp same⟩
  · intro known
    obtain ⟨node, found, same⟩ := idAt_eq_some.mp known
    obtain ⟨inside, here⟩ := List.getElem?_eq_some_iff.mp found
    refine ⟨inside, by rw [here, same]; exact beq_self_eq_true id, fun earlier less also => ?_⟩
    have there : graph.idAt earlier = some id :=
      idAt_eq_some.mpr ⟨_, List.getElem?_eq_getElem (Nat.lt_trans less inside), beq_iff_eq.mp also⟩
    exact Nat.ne_of_lt less (wellFormed.position_unique there known)

end Graph

namespace Address

variable {graph : Graph} {place : Place}

theorem resolve?_node_iff (wellFormed : graph.WellFormed) (id : Nat) :
    (node id).resolve? graph = some place ↔
      ∃ index, place = .node index ∧ graph.idAt index = some id := by
  have shape : (node id).resolve? graph = (graph.index? id).map .node := by
    rw [resolve?, Option.map_eq_bind]
    rfl
  simp only [shape, Option.map_eq_some_iff, wellFormed.index?_eq_some_iff]
  constructor
  · rintro ⟨index, known, same⟩
    exact ⟨index, same.symm, known⟩
  · rintro ⟨index, same, known⟩
    exact ⟨index, known, same.symm⟩

theorem resolve?_edge_iff (wellFormed : graph.WellFormed) (id slot : Nat) :
    (edge id slot).resolve? graph = some place ↔
      ∃ index target, place = .edge index slot target ∧ graph.idAt index = some id ∧
        graph.slotAt index slot = some (some target) := by
  have shape : (edge id slot).resolve? graph =
      (graph.index? id).bind fun index =>
        (graph.slotAt index slot).join.map fun target => .edge index slot target := by
    rw [resolve?]
    refine Option.bind_congr fun index _ => ?_
    rw [Graph.slotAt]
    cases graph.nodes[index]? with
    | none => rfl
    | some node =>
        change (node.input? slot).bind _ = ((node.slots[slot]?).join).map _
        rw [Option.map_eq_bind]
        rfl
  simp only [shape, Option.bind_eq_some_iff, Option.map_eq_some_iff, Option.join_eq_some_iff,
    wellFormed.index?_eq_some_iff]
  constructor
  · rintro ⟨index, known, target, connected, same⟩
    exact ⟨index, target, same.symm, known, connected⟩
  · rintro ⟨index, target, same, known, connected⟩
    exact ⟨index, known, target, connected, same.symm⟩

end Address

namespace Graph

variable {graph edited : Graph} {edit : Edit}

/-- Nodes that are not removed are carried along, and so are edges between them whose slots are not
edited. -/
structure Carries (graph : Graph) (edit : Edit) (edited : Graph) : Prop where
  nodes : ∀ {position id : Nat}, graph.idAt position = some id → ¬ edit.Removes id graph →
    edited.idAt (edit.destination position) = some id
  slots : ∀ {position slot target id other : Nat}, graph.idAt position = some id →
    graph.slotAt position slot = some (some target) → graph.idAt target = some other →
    ¬ edit.Removes id graph → ¬ edit.Removes other graph → ¬ edit.Rewires id slot graph →
      edited.slotAt (edit.destination position) slot = some (some (edit.destination target))

theorem carries_of_still (still : edit.destination = id)
    (ids : ∀ position < graph.count, edited.idAt position = graph.idAt position)
    (slots : ∀ {position slot target id : Nat}, graph.idAt position = some id →
      graph.slotAt position slot = some (some target) → ¬ edit.Rewires id slot graph →
        edited.slotAt position slot = some (some target)) : Carries graph edit edited where
  nodes := by
    intro position id known _
    rw [still]
    exact (ids position (bound_of_idAt known)).trans known
  slots := by
    intro position slot target id other known connected _ _ _ unedited
    rw [still]
    exact slots known connected unedited

theorem carries_rewritten {index : Nat} {node : Node} {params : Params}
    {slots : List (Option Nat)} {ty : Except NodeTypeError Ty}
    (found : graph.nodes[index]? = some node) (still : edit.destination = id)
    (outlines : edited.outlines = (graph.rewritten index params slots ty).outlines)
    (kept : ∀ {slot target : Nat}, node.slots[slot]? = some (some target) →
      ¬ edit.Rewires node.id slot graph → slots[slot]? = some (some target)) :
    Carries graph edit edited := by
  refine carries_of_still still (fun position _ => ?_) ?_
  · rw [idAt_of_outlines outlines, rewritten, idAt_modify]
    exact fun _ => rfl
  · intro position slot target id known connected unedited
    rw [slotAt_of_outlines outlines, slotAt_rewritten found]
    split
    · rename_i same
      subst same
      rw [slotAt, found, Option.bind_some] at connected
      rw [idAt, found] at known
      cases known
      exact kept connected unedited
    · exact connected

theorem getElem?_trimSlots {slots : List (Option Nat)} {slot target : Nat}
    (connected : slots[slot]? = some (some target)) :
    (trimSlots slots)[slot]? = some (some target) := by
  obtain ⟨count, whole⟩ := (trims_trimSlots slots).dropped
  rw [whole, List.getElem?_append] at connected
  split at connected
  · exact connected
  · rw [List.getElem?_replicate] at connected
    split at connected <;> cases connected

theorem carries_removed (index : Nat) (policy : RemovalPolicy) :
    Carries graph (.removeNode index policy) (graph.removed index) where
  nodes := by
    intro position id known stays
    have other : position ≠ index := by
      rintro rfl
      exact stays known
    rw [idAt_of_outlines (removed_outlines index), idAt_without]
    exact (congrArg graph.idAt (placeBefore_placeAfter other)).trans known
  slots := by
    intro position slot target id read known connected readKnown stays readStays _
    have other : position ≠ index := by
      rintro rfl
      exact stays known
    have readOther : target ≠ index := by
      rintro rfl
      exact readStays readKnown
    obtain ⟨node, found, here⟩ := Option.bind_eq_some_iff.mp connected
    rw [slotAt_of_outlines (removed_outlines index), slotAt, without_nodes]
    change (graph.nodes[placeBefore index (placeAfter index position)]?.map _).bind _ = _
    rw [placeBefore_placeAfter other, found]
    refine getElem?_trimSlots ?_
    rw [List.getElem?_map, here, Option.map_some, Option.some.injEq, slotAfterRemoval_eq_some]
    exact congrArg some (placeBefore_placeAfter readOther).symm

theorem carries_appended {params : Params} (ty : Ty) (still : edit.destination = id) :
    Carries graph edit (graph.appended params ty) := by
  have old : ∀ position < graph.count,
      (graph.appended params ty).nodes[position]? = graph.nodes[position]? := by
    intro position inside
    rw [appended_nodes, if_neg (Nat.ne_of_lt inside)]
  refine carries_of_still still (fun position inside => ?_) fun known connected _ => ?_
  · rw [idAt, idAt, old position inside]
  · rw [slotAt, old _ (bound_of_idAt known)]
    exact connected

theorem carries_relabelled (index : Nat) (label : Option String) :
    Carries graph (.setLabel index label) (graph.relabelled index label) := by
  refine carries_of_still rfl (fun position _ => ?_) fun _ connected _ => ?_
  · rw [relabelled, idAt_modify]
    exact fun _ => rfl
  · rw [relabelled, slotAt_modify, connected]
    exact fun _ => rfl

theorem carries_copied (root : Nat) : Carries graph (.cloneSubgraph root) (graph.copied root) := by
  let closure := graph.topology.lineageOf root
  have outlines : (graph.copied root).outlines = (graph.extended closure).outlines :=
    invalidate_outlines _
  refine carries_of_still rfl (fun position inside => ?_) fun known connected _ => ?_
  · rw [idAt_of_outlines outlines, idAt, idAt, extended_old inside]
  · rw [slotAt_of_outlines outlines, slotAt, extended_old (bound_of_idAt known)]
    exact connected

theorem carries_connected {reader slot target : Nat}
    (accepted : graph.addEdge reader slot target = .ok edited) :
    Carries graph (.addEdge reader slot target) edited := by
  obtain ⟨node, slots, ty, found, _, _, inside, connects, _, shape⟩ := addEdge_ok accepted
  have outlines :
      edited.outlines = (graph.rewritten reader node.params slots (.ok ty)).outlines := by
    rw [shape]
    exact invalidate_outlines _
  refine carries_rewritten found rfl outlines fun {other read} connected unedited => ?_
  have elsewhere : other ≠ slot := by
    rintro rfl
    exact unedited ⟨idAt_eq_some.mpr ⟨node, found, rfl⟩, rfl⟩
  have entries : slots[other]? = (connect node.slots slot target)[other]? := by
    rw [connects]
    rfl
  rw [entries, getElem?_connect inside, if_neg elsewhere]
  exact connected

theorem carries_disconnected {reader slot : Nat} {left : Option Nat}
    (accepted : graph.disconnect reader slot = .ok (left, edited)) :
    Carries graph (.disconnect reader slot) edited := by
  obtain ⟨node, slots, found, _, _, emptied, shape⟩ := disconnect_ok accepted
  have outlines :
      edited.outlines = (graph.rewritten reader node.params slots node.ty).outlines := by
    rw [shape]
    split
    · exact invalidate_outlines _
    · rfl
  refine carries_rewritten found rfl outlines fun {other read} connected unedited => ?_
  have elsewhere : slot ≠ other := by
    rintro rfl
    exact unedited ⟨idAt_eq_some.mpr ⟨node, found, rfl⟩, rfl⟩
  rw [emptied]
  refine getElem?_trimSlots ?_
  rw [List.getElem?_set_ne elsewhere]
  exact connected

theorem carries_edited (accepted : graph.edit edit = .ok edited) : Carries graph edit edited := by
  cases edit with
  | addNode entries =>
      obtain ⟨⟨index, result⟩, added, equal⟩ := bind_ok_iff.mp accepted
      obtain ⟨ty, _, _, _, shape⟩ := addNode_ok added
      cases equal
      rw [shape]
      exact carries_appended ty rfl
  | addOutputNode output =>
      obtain ⟨⟨index, result⟩, added, equal⟩ := bind_ok_iff.mp accepted
      obtain ⟨ty, _, _, _, shape⟩ := addNode_ok added
      cases equal
      rw [shape]
      exact carries_appended ty rfl
  | setLabel index label =>
      rw [setLabel_ok accepted]
      exact carries_relabelled index label
  | removeNode index policy =>
      obtain ⟨⟨node, result⟩, gone, equal⟩ := bind_ok_iff.mp accepted
      obtain ⟨_, shape⟩ := removeNode_ok gone
      cases equal
      have carried := @carries_removed graph index policy
      rw [← shape] at carried
      exact carried
  | cloneSubgraph root =>
      obtain ⟨⟨added, result⟩, cloned, equal⟩ := bind_ok_iff.mp accepted
      obtain ⟨_, shape⟩ := cloneSubgraph_ok cloned
      cases equal
      have carried := @carries_copied graph root
      rw [← shape] at carried
      exact carried
  | setExpression index name expr =>
      obtain ⟨node, ty, found, _, _, shape⟩ := setExpression_ok accepted
      rw [shape]
      exact carries_rewritten found rfl (invalidate_outlines _) fun connected _ => connected
  | removeExpression index name =>
      obtain ⟨⟨expr, result⟩, gone, equal⟩ := bind_ok_iff.mp accepted
      obtain ⟨node, ty, found, _, _, shape⟩ := removeExpression_ok gone
      cases equal
      rw [shape]
      exact carries_rewritten found rfl (invalidate_outlines _) fun connected _ => connected
  | addEdge reader slot target => exact carries_connected accepted
  | disconnect reader slot =>
      obtain ⟨⟨left, result⟩, parted, equal⟩ := bind_ok_iff.mp accepted
      cases equal
      exact carries_disconnected parted
  | clear => exact ⟨fun _ stays => absurd trivial stays, fun _ _ _ stays => absurd trivial stays⟩

theorem Change.nextId_le {origin : Nat → Nat} {fresh : Nat → Prop}
    (change : Change graph origin fresh edited) : graph.nextId ≤ edited.nextId := by
  cases change with
  | append named typed place => exact Nat.le_succ _
  | relabel place => exact Nat.le_refl _
  | rewrite found named trimmed free place =>
      rw [invalidate_nextId]
      exact Nat.le_refl _
  | remove bound place =>
      rw [removed_nextId]
  | copy bound place =>
      rw [copied, invalidate_nextId, extended_nextId (closed_lineageOf bound)]
      exact Nat.le_add_right _ _
  | clear place => exact Nat.le_refl _
  | keep place => exact Nat.le_refl _

theorem WellFormed.holds_before (wellFormed : graph.WellFormed)
    (accepted : graph.edit edit = .ok edited) {id : Nat} (given : id < graph.nextId)
    (held : edited.Holds id) : graph.Holds id ∧ ¬ edit.Removes id graph := by
  obtain ⟨position, known⟩ := held
  obtain ⟨node, found, rfl⟩ := idAt_eq_some.mp known
  rcases (wellFormed.keeps (wellFormed.change accepted)).identity found with
    ⟨before, present, same⟩ | fresh
  · have there : graph.idAt (edit.origin position) = some node.id :=
      idAt_eq_some.mpr ⟨before, present, same⟩
    refine ⟨⟨_, there⟩, fun removes => ?_⟩
    cases edit with
    | removeNode index policy =>
        -- No node that is left comes from the position of the one that went.
        have place := wellFormed.position_unique there removes
        change placeBefore index position = index at place
        rw [placeBefore] at place
        split at place <;> omega
    | clear =>
        cases accepted
        cases found
    | _ => exact removes
  · exact absurd given (Nat.not_lt.mpr fresh)

theorem WellFormed.holds_after_iff (wellFormed : graph.WellFormed) (edit : Edit) {id : Nat}
    (given : id < graph.nextId) :
    (graph.after edit).Holds id ↔
      graph.Holds id ∧ ¬ ((graph.edit edit).isOk = true ∧ edit.Removes id graph) := by
  rw [after]
  cases result : graph.edit edit with
  | error failure => simp [Except.isOk, Except.toBool]
  | ok edited =>
      simp only [Except.isOk, Except.toBool, true_and]
      constructor
      · exact wellFormed.holds_before result given
      · rintro ⟨⟨position, known⟩, stays⟩
        exact ⟨_, (carries_edited result).nodes known stays⟩

theorem WellFormed.nextId_after (wellFormed : graph.WellFormed) (edit : Edit) :
    graph.nextId ≤ (graph.after edit).nextId := by
  rw [after]
  cases result : graph.edit edit with
  | error failure => exact Nat.le_refl _
  | ok edited => exact (wellFormed.change result).nextId_le

variable {id slot other : Nat}

theorem Links.after {position target : Nat} (links : Links graph id slot other position target)
    (edit : Edit) (stays : ¬ ((graph.edit edit).isOk = true ∧ edit.Removes id graph))
    (readStays : ¬ ((graph.edit edit).isOk = true ∧ edit.Removes other graph))
    (unedited : ¬ ((graph.edit edit).isOk = true ∧ edit.Rewires id slot graph)) :
    ∃ position target, Links (graph.after edit) id slot other position target := by
  rw [Graph.after]
  cases result : graph.edit edit with
  | error failure => exact ⟨position, target, links⟩
  | ok edited =>
      simp only [result, Except.isOk, Except.toBool, true_and] at stays readStays unedited
      have carried := carries_edited result
      exact ⟨edit.destination position, edit.destination target,
        carried.nodes links.reader stays,
        carried.slots links.reader links.connected links.target stays readStays unedited,
        carried.nodes links.target readStays⟩

theorem Reachable.holds_run_iff (reachable : graph.Reachable) (edits : List Edit)
    (given : id < graph.nextId) :
    (graph.run edits).Holds id ↔ graph.Holds id ∧ ¬ Along (Edit.Removes id) graph edits := by
  induction edits generalizing graph with
  | nil => exact ⟨fun held => ⟨held, not_false⟩, And.left⟩
  | cons edit rest ih =>
      have later := Nat.lt_of_lt_of_le given (reachable.wellFormed.nextId_after edit)
      change ((graph.after edit).run rest).Holds id ↔ _
      rw [ih (reachable.edited edit) later, reachable.wellFormed.holds_after_iff edit given, Along,
        not_or, and_assoc]

theorem Links.run {position target : Nat} (links : Links graph id slot other position target)
    (edits : List Edit) (stays : ¬ Along (Edit.Removes id) graph edits)
    (readStays : ¬ Along (Edit.Removes other) graph edits)
    (unedited : ¬ Along (Edit.Rewires id slot) graph edits) :
    ∃ position target, Links (graph.run edits) id slot other position target := by
  induction edits generalizing graph position target with
  | nil => exact ⟨position, target, links⟩
  | cons edit rest ih =>
      rw [Along, not_or] at stays readStays unedited
      obtain ⟨_, _, next⟩ := links.after edit stays.1 readStays.1 unedited.1
      exact ih next stays.2 readStays.2 unedited.2

theorem WellFormed.given_of_holds (wellFormed : graph.WellFormed) (held : graph.Holds id) :
    id < graph.nextId := by
  obtain ⟨position, known⟩ := held
  obtain ⟨node, found, rfl⟩ := idAt_eq_some.mp known
  exact (wellFormed.fits found).identified

theorem WellFormed.isValid_node_iff (wellFormed : graph.WellFormed) :
    (Address.node id).isValid graph = true ↔ graph.Holds id := by
  rw [Address.isValid, Option.isSome_iff_exists]
  constructor
  · rintro ⟨place, resolves⟩
    obtain ⟨index, _, known⟩ := (Address.resolve?_node_iff wellFormed id).mp resolves
    exact ⟨index, known⟩
  · rintro ⟨index, known⟩
    exact ⟨.node index, (Address.resolve?_node_iff wellFormed id).mpr ⟨index, rfl, known⟩⟩

theorem WellFormed.isValid_edge_iff (wellFormed : graph.WellFormed) :
    (Address.edge id slot).isValid graph = true ↔
      ∃ index target, graph.idAt index = some id ∧
        graph.slotAt index slot = some (some target) := by
  rw [Address.isValid, Option.isSome_iff_exists]
  constructor
  · rintro ⟨place, resolves⟩
    obtain ⟨index, target, _, place⟩ := (Address.resolve?_edge_iff wellFormed id slot).mp resolves
    exact ⟨index, target, place⟩
  · rintro ⟨index, target, place⟩
    exact ⟨.edge index slot target,
      (Address.resolve?_edge_iff wellFormed id slot).mpr ⟨index, target, rfl, place⟩⟩

/-- Cursors are stable across edits. One on a node resolves as long as the node is not removed, and
to where the node is; one on a slot resolves where the slot is connected, and goes on to lead to the
same two nodes until one of them is removed or the slot is edited. -/
theorem Reachable.cursors_stable (reachable : graph.Reachable) (edits : List Edit) :
    let later := graph.run edits
    (∀ id, graph.Holds id →
      ((Address.node id).isValid later = true ↔ ¬ Along (Edit.Removes id) graph edits)) ∧
    (∀ id place, (Address.node id).resolve? later = some place ↔
      ∃ index, place = .node index ∧ later.idAt index = some id) ∧
    (∀ id slot, (Address.edge id slot).isValid later = true ↔
      ∃ index target, later.idAt index = some id ∧
        later.slotAt index slot = some (some target)) ∧
    ∀ id slot position target other,
      (Address.edge id slot).resolve? graph = some (.edge position slot target) →
      graph.idAt target = some other →
      ¬ Along (Edit.Removes id) graph edits → ¬ Along (Edit.Removes other) graph edits →
      ¬ Along (Edit.Rewires id slot) graph edits →
        ∃ position' target',
          (Address.edge id slot).resolve? later = some (.edge position' slot target') ∧
          later.idAt position' = some id ∧ later.idAt target' = some other := by
  intro later
  have before := reachable.wellFormed
  have wellFormed := (reachable.run edits).wellFormed
  refine ⟨fun id held => ?_, fun id _ => Address.resolve?_node_iff wellFormed id,
    fun _ _ => wellFormed.isValid_edge_iff, ?_⟩
  · rw [wellFormed.isValid_node_iff, reachable.holds_run_iff edits (before.given_of_holds held)]
    exact and_iff_right held
  · intro id slot position target other resolves readKnown stays readStays unedited
    obtain ⟨_, _, place, known, connected⟩ :=
      (Address.resolve?_edge_iff before id slot).mp resolves
    cases place
    obtain ⟨position', target', links⟩ :=
      Links.run ⟨known, connected, readKnown⟩ edits stays readStays unedited
    exact ⟨position', target',
      (Address.resolve?_edge_iff wellFormed id slot).mpr
        ⟨position', target', rfl, links.reader, links.connected⟩,
      links.reader, links.target⟩

/-- Edits that leave the third slot of a node that reads three others, and take away the nodes of
its other slots. -/
def thinning : List Edit :=
  [.removeNode 1 .detach, .cloneSubgraph 1, .disconnect 2 0, .removeNode 0 .reject]

/-- The node that reads and the one it reads move to other positions, and a cursor on the third slot
follows both; one on a removed node is no longer valid. -/
theorem fanned_thinning_moves_cursors :
    fanned.Reachable ∧ fanned.Holds 1 ∧ Along (Edit.Removes 1) fanned thinning ∧
      (Address.node 1).isValid (fanned.run thinning) = false ∧
      (Address.edge 3 2).resolve? fanned = some (.edge 3 2 2) ∧ fanned.idAt 2 = some 2 ∧
      (fanned.run thinning).count = 3 ∧
      ∃ position target,
        (Address.edge 3 2).resolve? (fanned.run thinning) = some (.edge position 2 target) ∧
        (fanned.run thinning).idAt position = some 3 ∧
        (fanned.run thinning).idAt target = some 2 := by
  have reachable : fanned.Reachable := (Reachable.empty .empty none 0).run _
  have held : fanned.Holds 1 := ⟨1, by decide +kernel⟩
  have removed : Along (Edit.Removes 1) fanned thinning := by decide +kernel
  have resolves : (Address.edge 3 2).resolve? fanned = some (.edge 3 2 2) := by decide +kernel
  have readKnown : fanned.idAt 2 = some 2 := by decide +kernel
  obtain ⟨nodes, _, _, edges⟩ := Reachable.cursors_stable reachable thinning
  refine ⟨reachable, held, removed, ?_, resolves, readKnown, by decide +kernel, ?_⟩
  · exact Bool.eq_false_iff.mpr fun valid => (nodes 1 held).mp valid removed
  · exact edges 3 2 3 2 2 resolves readKnown (by decide +kernel) (by decide +kernel)
      (by decide +kernel)

end Graph

end NodeGraph
