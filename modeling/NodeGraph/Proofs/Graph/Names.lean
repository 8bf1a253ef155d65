import NodeGraph.Proofs.Graph.Structure
import NodeGraph.Proofs.Stored.Values

/-!
Parameters by name. No node of a reachable graph has two parameters of one name, and what is loaded
from a text is reachable.
-/

namespace NodeGraph

namespace Params

theorem nodup_put {params : Params} (distinct : params.names.Nodup) (name : String) (expr : Expr) :
    (params.put name expr).names.Nodup := by
  induction params with
  | nil => exact List.nodup_singleton name
  | cons first rest ih =>
      obtain ⟨head, old⟩ := first
      obtain ⟨new, others⟩ := List.nodup_cons.mp distinct
      rw [put]
      split
      · exact distinct
      · rename_i different
        refine List.nodup_cons.mpr ⟨fun member => ?_, ih others⟩
        rcases (mem_names_put rest name head expr).mp member with same | member
        · exact different same
        · exact new member

theorem nodup_erase {params : Params} (distinct : params.names.Nodup) (name : String) :
    (params.erase name).names.Nodup :=
  distinct.sublist (List.filter_sublist.map _)

theorem nodup_ofList (entries : List (String × Expr)) : (ofList entries).names.Nodup := by
  have general : ∀ (entries : List (String × Expr)) (before : Params), before.names.Nodup →
      (names (entries.foldl (fun params entry => params.put entry.1 entry.2) before)).Nodup := by
    intro entries
    induction entries with
    | nil => exact fun before distinct => distinct
    | cons entry rest ih => exact fun before distinct => ih _ (nodup_put distinct _ _)
  exact general entries [] List.nodup_nil

end Params

namespace Graph

variable {graph : Graph}

/-- No node has two parameters of one name. -/
def Keyed (graph : Graph) : Prop := ∀ node ∈ graph.nodes, node.params.names.Nodup

theorem Keyed.of_outlines {left right : Graph} (outlines : left.outlines = right.outlines)
    (keyed : right.Keyed) : left.Keyed := by
  intro node member
  obtain ⟨index, found⟩ := List.mem_iff_getElem?.mp member
  obtain ⟨other, present, same⟩ := outline_of_outlines outlines found
  have params : other.params = node.params := congrArg Outline.params same
  exact params ▸ keyed other (List.mem_of_getElem? present)

theorem Keyed.nodup (keyed : graph.Keyed) {index : Nat} {node : Node}
    (found : graph.nodes[index]? = some node) : node.params.names.Nodup :=
  keyed node (List.mem_of_getElem? found)

theorem keyed_of_found (distinct : ∀ {index : Nat} {node : Node},
    graph.nodes[index]? = some node → node.params.names.Nodup) : graph.Keyed := by
  intro node member
  obtain ⟨index, found⟩ := List.mem_iff_getElem?.mp member
  exact distinct found

theorem Keyed.appended (keyed : graph.Keyed) {params : Params} (distinct : params.names.Nodup)
    (ty : Ty) : (graph.appended params ty).Keyed := by
  intro node member
  rcases List.mem_append.mp member with old | new
  · exact keyed node old
  · obtain rfl := List.mem_singleton.mp new
    exact distinct

theorem Keyed.relabelled (keyed : graph.Keyed) (index : Nat) (label : Option String) :
    (graph.relabelled index label).Keyed := by
  refine keyed_of_found fun {position node} found => ?_
  rw [relabelled_nodes] at found
  obtain ⟨before, present, rfl⟩ := Option.map_eq_some_iff.mp found
  have distinct := keyed.nodup present
  split <;> exact distinct

theorem Keyed.rewritten (keyed : graph.Keyed) {index : Nat} {params : Params}
    (distinct : params.names.Nodup) (slots : List (Option Nat)) (ty : Except NodeTypeError Ty) :
    (graph.rewritten index params slots ty).Keyed := by
  refine keyed_of_found fun {position node} found => ?_
  rw [rewritten_nodes] at found
  obtain ⟨before, present, rfl⟩ := Option.map_eq_some_iff.mp found
  split
  · exact distinct
  · exact keyed.nodup present

theorem Keyed.without (keyed : graph.Keyed) (index : Nat) : (graph.without index).Keyed := by
  refine keyed_of_found fun {position node} found => ?_
  rw [without_nodes] at found
  obtain ⟨before, present, rfl⟩ := Option.map_eq_some_iff.mp found
  have distinct := keyed.nodup present
  exact distinct

theorem Keyed.extended (keyed : graph.Keyed) {closure : List Nat} (closed : graph.Closed closure) :
    (graph.extended closure).Keyed := by
  refine keyed_of_found fun {position node} found => ?_
  rcases extended_nodes closed found with before | copy
  · exact keyed.nodup before
  · obtain ⟨_, _, original, _, _, present, rfl⟩ := copy
    have distinct := keyed.nodup present
    exact distinct

theorem Keyed.invalidate (keyed : graph.Keyed) (roots : List Nat) :
    (graph.invalidate roots).Keyed :=
  keyed.of_outlines (invalidate_outlines roots)

theorem Keyed.edited (keyed : graph.Keyed) {edit : Edit} {edited : Graph}
    (accepted : graph.edit edit = .ok edited) : edited.Keyed := by
  cases edit with
  | addNode entries =>
      obtain ⟨⟨index, result⟩, added, equal⟩ := bind_ok_iff.mp accepted
      obtain ⟨ty, _, _, _, shape⟩ := addNode_ok added
      cases equal
      rw [shape]
      exact keyed.appended (Params.nodup_ofList entries) ty
  | addOutputNode output =>
      obtain ⟨⟨index, result⟩, added, equal⟩ := bind_ok_iff.mp accepted
      obtain ⟨ty, _, _, _, shape⟩ := addNode_ok added
      cases equal
      rw [shape]
      exact keyed.appended (by simp [Params.names]) ty
  | setLabel index label =>
      rw [setLabel_ok accepted]
      exact keyed.relabelled index label
  | removeNode index policy =>
      obtain ⟨⟨node, result⟩, gone, equal⟩ := bind_ok_iff.mp accepted
      obtain ⟨_, shape⟩ := removeNode_ok gone
      cases equal
      have kept := (keyed.without index).of_outlines (removed_outlines index)
      rw [← shape] at kept
      exact kept
  | cloneSubgraph root =>
      obtain ⟨⟨added, result⟩, cloned, equal⟩ := bind_ok_iff.mp accepted
      obtain ⟨bound, shape⟩ := cloneSubgraph_ok cloned
      cases equal
      have kept : (graph.copied root).Keyed :=
        (keyed.extended (closed_lineageOf bound)).invalidate _
      rw [← shape] at kept
      exact kept
  | setExpression index name expr =>
      obtain ⟨node, ty, found, _, _, shape⟩ := setExpression_ok accepted
      have distinct := Params.nodup_put (keyed.nodup found) name expr
      rw [shape]
      exact (keyed.rewritten distinct _ _).invalidate _
  | removeExpression index name =>
      obtain ⟨⟨expr, result⟩, gone, equal⟩ := bind_ok_iff.mp accepted
      obtain ⟨node, ty, found, _, _, shape⟩ := removeExpression_ok gone
      cases equal
      have distinct := Params.nodup_erase (keyed.nodup found) name
      rw [shape]
      exact (keyed.rewritten distinct _ _).invalidate _
  | addEdge reader slot target =>
      obtain ⟨node, slots, ty, found, _, _, _, _, _, shape⟩ := addEdge_ok accepted
      have distinct := keyed.nodup found
      rw [shape]
      exact (keyed.rewritten distinct _ _).invalidate _
  | disconnect reader slot =>
      obtain ⟨⟨left, result⟩, parted, equal⟩ := bind_ok_iff.mp accepted
      obtain ⟨node, slots, found, _, _, _, shape⟩ := disconnect_ok parted
      cases equal
      have distinct := keyed.nodup found
      have rewritten : (graph.rewritten reader node.params slots node.ty).Keyed :=
        keyed.rewritten distinct slots node.ty
      rw [shape]
      split
      · exact rewritten.invalidate _
      · exact rewritten
  | clear =>
      rw [edit, pure, Applicative.toPure] at accepted
      cases accepted
      exact fun _ member => absurd member List.not_mem_nil

theorem keyed_of_stored {stored : StoredGraph}
    (distinct : ∀ node ∈ stored.nodes, node.params.names.Nodup) {registry : Registry} {nextId : Nat}
    (accepted : stored.toGraph registry nextId = .ok graph) : graph.Keyed := by
  obtain ⟨_, _, shape⟩ := toGraph_ok accepted
  rw [shape]
  refine Keyed.of_outlines retypeAll_outlines (keyed_of_found fun {position node} found => ?_)
  obtain ⟨source, present, rfl⟩ := filled_nodes found
  exact distinct source (List.mem_of_getElem? present)

theorem Reachable.keyed (reachable : graph.Reachable) : graph.Keyed := by
  induction reachable with
  | empty registry name nextId => exact fun _ member => absurd member List.not_mem_nil
  | loaded distinct accepted => exact keyed_of_stored distinct accepted
  | edited before edit ih =>
      rw [after]
      split
      · rename_i edited accepted
        exact ih.edited accepted
      · exact ih

end Graph

namespace Stored

theorem readParams_keyed {room : Nat} {json : Json} {params : Params}
    (read : readParams room json = some params) : params.names.Nodup := by
  match room, json with
  | room + 1, .object fields =>
      obtain ⟨entries, _, made⟩ := Option.bind_eq_some_iff.mp read
      obtain rfl := Option.some.inj made
      exact Params.nodup_ofList entries

theorem readNode_keyed {room : Nat} {json : Json} {node : StoredNode}
    (read : readNode room json = some node) : node.params.names.Nodup := by
  cases room with
  | zero => cases read
  | succ room =>
      obtain ⟨fields, _, read⟩ := Option.bind_eq_some_iff.mp read
      split at read
      · obtain ⟨label, _, read⟩ := Option.bind_eq_some_iff.mp read
        obtain ⟨params, entries, read⟩ := Option.bind_eq_some_iff.mp read
        obtain ⟨edges, _, made⟩ := Option.bind_eq_some_iff.mp read
        obtain rfl := Option.some.inj made
        exact readParams_keyed entries
      · cases read

theorem mem_of_mapM {first result : Type} {each : first → Option result} {items : List first}
    {results : List result} (made : items.mapM each = some results) :
    ∀ value ∈ results, ∃ item, each item = some value := by
  induction items generalizing results with
  | nil =>
      obtain rfl := Option.some.inj made
      exact fun _ member => absurd member List.not_mem_nil
  | cons item rest ih =>
      obtain ⟨value, values, here, later, rfl⟩ := mapM_cons_some made
      exact List.forall_mem_cons.mpr ⟨⟨item, here⟩, ih later⟩

theorem readNodes_keyed {room : Nat} {json : Json} {nodes : List StoredNode}
    (read : readItems readNode room json = some nodes) :
    ∀ node ∈ nodes, node.params.names.Nodup := by
  match room, json with
  | room + 1, .array jsons =>
      intro node member
      obtain ⟨json, here⟩ := mem_of_mapM (show jsons.mapM (readNode room) = some nodes from read)
        node member
      exact readNode_keyed here

theorem readGraph_keyed {room : Nat} {json : Json} {stored : StoredGraph}
    (read : readGraph room json = some stored) :
    ∀ node ∈ stored.nodes, node.params.names.Nodup := by
  cases room with
  | zero => cases read
  | succ room =>
      obtain ⟨fields, _, read⟩ := Option.bind_eq_some_iff.mp read
      split at read
      · obtain ⟨version, _, read⟩ := Option.bind_eq_some_iff.mp read
        obtain ⟨name, _, read⟩ := Option.bind_eq_some_iff.mp read
        obtain ⟨nodes, all, made⟩ := Option.bind_eq_some_iff.mp read
        obtain rfl := Option.some.inj made
        exact readNodes_keyed all
      · cases read

end Stored

namespace Graph

theorem reachable_of_load {text : String} {registry : Registry} {nextId : Nat} {graph : Graph}
    (loaded : Graph.load text registry nextId = .ok graph) : graph.Reachable := by
  rw [load] at loaded
  split at loaded
  · cases loaded
  · split at loaded
    · cases loaded
    · rename_i stored read
      exact .loaded (Stored.readGraph_keyed read) loaded

end Graph

end NodeGraph
