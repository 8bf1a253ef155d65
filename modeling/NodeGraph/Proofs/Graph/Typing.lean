import NodeGraph.Proofs.Graph.Structure

/-!
Stored types. After every change the type of every node is the one inference gives for its present
position, parameters and inputs: what the change may have made stale is affected by what it
touched, and the passes type the affected nodes in the order of their dependencies.
-/

namespace NodeGraph.Graph

variable {graph : Graph}

theorem TypedAt.of_node {edited : Graph} {index : Nat} (typed : graph.TypedAt index)
    (registry : edited.registry = graph.registry)
    (old : ∀ node, edited.nodes[index]? = some node → ∃ before, graph.nodes[index]? = some before ∧
      node.params = before.params ∧ node.slots = before.slots ∧ node.ty = before.ty ∧
      ∀ target, some target ∈ node.slots → edited.ty? target = graph.ty? target) :
    edited.TypedAt index := by
  intro node found
  obtain ⟨before, present, params, slots, ty, inputs⟩ := old node found
  rw [ty, typed before present, ← params, ← slots]
  exact infer_congr registry.symm index node.params fun target mentioned =>
    (inputs target mentioned).symm

theorem Typed.appended (typed : graph.Typed) (wellFormed : graph.WellFormed) {params : Params}
    {ty : Ty} (inferred : graph.infer graph.count params [] = .ok ty) :
    (graph.appended params ty).Typed := by
  intro index
  by_cases last : index = graph.count
  · intro node found
    rw [appended_nodes, if_pos last] at found
    cases found
    rw [last, ← inferred]
    exact infer_congr rfl graph.count params fun target mentioned => by simp at mentioned
  · refine (typed index).of_node rfl fun node found => ?_
    rw [appended_nodes, if_neg last] at found
    refine ⟨node, found, rfl, rfl, rfl, fun target mentioned => ?_⟩
    have bound := (wellFormed.fits found).bound target mentioned
    rw [ty?, ty?, appended_nodes, if_neg (Nat.ne_of_lt bound)]

theorem Typed.relabelled (typed : graph.Typed) (index : Nat) (label : Option String) :
    (graph.relabelled index label).Typed := by
  have tys : ∀ target, (graph.relabelled index label).ty? target = graph.ty? target := by
    intro target
    rw [ty?, ty?, relabelled_nodes, Option.map_map]
    congr 1
    funext node
    simp only [Function.comp_apply]
    split <;> rfl
  intro position
  refine (typed position).of_node rfl fun node found => ?_
  rw [relabelled_nodes] at found
  obtain ⟨before, present, same⟩ := Option.map_eq_some_iff.mp found
  refine ⟨before, present, ?_, ?_, ?_, fun target _ => tys target⟩
  all_goals
    rw [← same]
    split <;> rfl

theorem Typed.rewritten (typed : graph.Typed) {index : Nat} {params : Params}
    {slots : List (Option Nat)} {ty : Except NodeTypeError Ty}
    (wellFormed : (graph.rewritten index params slots ty).WellFormed) :
    ((graph.rewritten index params slots ty).invalidate [index]).Typed := by
  refine invalidate_typed wellFormed.acyclic [index] fun position outside => ?_
  rw [mem_affectedBy wellFormed.acyclic] at outside
  refine (typed position).of_node rfl fun node found => ?_
  have apart : position ≠ index ∧
      ¬ (graph.rewritten index params slots ty).Reads position index := by
    refine ⟨fun same => ?_, fun reads => ?_⟩
    · exact outside ⟨bound_of_found found, index, by simp, Or.inl same⟩
    · exact outside ⟨bound_of_found found, index, by simp,
        Or.inr (Relation.TransGen.single reads)⟩
  have before := found
  rw [rewritten_nodes] at before
  obtain ⟨old, present, same⟩ := Option.map_eq_some_iff.mp before
  rw [if_neg (Ne.symm apart.1)] at same
  subst same
  refine ⟨old, present, rfl, rfl, rfl, fun target mentioned => ?_⟩
  have different : index ≠ target := by
    intro equal
    exact apart.2 (equal ▸ wellFormed.reads found mentioned)
  rw [ty?, ty?, rewritten_nodes]
  simp [different]

theorem Typed.copied (typed : graph.Typed) (wellFormed : graph.WellFormed) {root : Nat}
    (bound : root < graph.count) : (graph.copied root).Typed := by
  have closed := closed_lineageOf bound
  have extended := wellFormed.extended closed
  rw [Graph.copied]
  generalize graph.topology.lineageOf root = closure at closed extended
  refine invalidate_typed extended.acyclic _ fun position outside => ?_
  rw [mem_affectedBy extended.acyclic, extended_count closed] at outside
  refine (typed position).of_node extended_registry fun node found => ?_
  rcases extended_nodes closed found with old | copy
  · refine ⟨node, old, rfl, rfl, rfl, fun target mentioned => ?_⟩
    have inside := (wellFormed.fits old).bound target mentioned
    rw [ty?, ty?, extended_old inside]
  · obtain ⟨offset, source, original, place, member, _, _⟩ := copy
    have inside := (List.getElem?_eq_some_iff.mp member).1
    refine absurd ⟨by omega, position, ?_, Or.inl rfl⟩ outside
    exact List.mem_map.mpr ⟨offset, List.mem_range.mpr inside, place.symm⟩

theorem Typed.changed (typed : graph.Typed) (wellFormed : graph.WellFormed) {origin : Nat → Nat}
    {fresh : Nat → Prop} {edited : Graph} (change : Change graph origin fresh edited) :
    edited.Typed := by
  cases change with
  | append named inferred place => exact typed.appended wellFormed inferred
  | relabel place => exact typed.relabelled _ _
  | rewrite found named trimmed free place =>
      exact typed.rewritten (wellFormed.rewritten _ named trimmed free)
  | remove bound place =>
      intro position
      refine typedAt_of_same (foldl_restamp_registry _) (foldl_restamp_outlines _)
        (foldl_restamp_tys _) ?_
      exact retypeAll_typed (wellFormed.without bound).acyclic position
  | copy bound place => exact typed.copied wellFormed bound
  | clear place =>
      intro position node found
      simp [clear] at found
  | keep place => exact typed

theorem Reachable.typed (reachable : graph.Reachable) : graph.Typed := by
  induction reachable with
  | empty registry name nextId =>
      intro position node found
      simp [Graph.empty] at found
  | loaded _ accepted =>
      obtain ⟨named, checked, shape⟩ := toGraph_ok accepted
      rw [shape]
      exact retypeAll_typed (wellFormed_filled named checked).acyclic
  | edited before edit ih =>
      rename_i graph
      cases result : graph.edit edit with
      | error error =>
          rw [after, result]
          exact ih
      | ok edited =>
          rw [after, result]
          exact ih.changed before.wellFormed (before.wellFormed.change result)

theorem retype_of_typedAt {index : Nat} (typed : graph.TypedAt index) :
    graph.retype index = graph := by
  rw [retype]
  cases found : graph.nodes[index]? with
  | none => rfl
  | some node =>
      have same : graph.modify index
          (fun node' => { node' with ty := graph.infer index node.params node.slots }) =
            graph.modify index id := by
        refine modify_congr found ?_
        rw [← typed node found]
        rfl
      simp only [same]
      rw [modify, List.modify_id]

/-- Incremental typing equals typing from scratch: in a reachable graph every stored type, or type
failure, is the one inferred from the node's position, its parameters and the stored types of what
its slots read; so typing nodes again in the order of their dependencies, or in any order, changes
nothing. -/
theorem Reachable.typed_afresh (reachable : graph.Reachable) :
    (∀ index node, graph.nodes[index]? = some node →
      node.ty = inferNode graph.registry index node.params (graph.inputTypes node.slots)) ∧
    graph.topology.IsOrder graph.evaluationOrder ∧ graph.retypeAll = graph ∧
    ∀ order : List Nat, order.foldl retype graph = graph := by
  have typed := reachable.typed
  have unchanged : ∀ order : List Nat, order.foldl retype graph = graph := by
    intro order
    induction order with
    | nil => rfl
    | cons index rest ih => rw [List.foldl_cons, retype_of_typedAt (typed index), ih]
  exact ⟨typed, isOrder_evaluationOrder reachable.wellFormed.acyclic, unchanged _, unchanged⟩

/-- A constant and a node that reads it, which has lost its first input. -/
def rewired : Graph :=
  (Graph.empty .empty).run
    [.addOutputNode (.constant (.boolean true)), .addOutputNode (.constant (.integer 1)),
      .addOutputNode (.variable (Expr.inputName 0)), .addEdge 2 0 0, .addEdge 2 0 1,
      .removeNode 0 .detach]

theorem rewired_typed_afresh :
    rewired.Reachable ∧ rewired.count = 2 ∧
      (∀ index node, rewired.nodes[index]? = some node → node.ty =
        inferNode rewired.registry index node.params (rewired.inputTypes node.slots)) ∧
      rewired.retypeAll = rewired := by
  have reachable : rewired.Reachable := (Reachable.empty .empty none 0).run _
  have afresh := Reachable.typed_afresh reachable
  exact ⟨reachable, by decide +kernel, afresh.1, afresh.2.2.1⟩

end NodeGraph.Graph
