import NodeGraph.Proofs.Graph.Saving

/-!
Which stored graphs are loaded. Those of a compatible version, whose nodes have an output and no
parameter named like an input, whose edges lead to nodes and close no cycle, and no others. Storing
again what was loaded gives the same back.
-/

namespace NodeGraph

namespace StoredGraph

variable {stored : StoredGraph}

def Reads (stored : StoredGraph) (reader target : Nat) : Prop :=
  ∃ node, stored.nodes[reader]? = some node ∧ some target ∈ node.edges

/-- What a stored graph must be to be loaded. -/
structure Sound (stored : StoredGraph) : Prop where
  version : ∃ version, Version.parse? stored.version = some version ∧ version.major = 1
  output : ∀ node ∈ stored.nodes, Expr.outputName ∈ node.params.names
  inputs : ∀ node ∈ stored.nodes, ∀ name ∈ node.params.names, Expr.inputSlot? name = none
  bound : ∀ node ∈ stored.nodes, ∀ target, some target ∈ node.edges →
    target < stored.nodes.length
  acyclic : ∀ position, ¬ Relation.TransGen stored.Reads position position

/-- A stored graph as it is stored again: in the current version, without empty edges at the
end. -/
def renewed (stored : StoredGraph) : StoredGraph where
  version := currentVersion
  name := stored.name
  nodes := stored.nodes.map fun node => { node with edges := trimSlots node.edges }

theorem checkVersion_ok_iff :
    stored.checkVersion = .ok () ↔
      ∃ version, Version.parse? stored.version = some version ∧ version.major = 1 := by
  have current : Version.parse? currentVersion = some ⟨1, 0, 0, [], []⟩ := by decide +kernel
  rw [checkVersion, current]
  cases Version.parse? stored.version with
  | none => simp
  | some version => simp

theorem reads_topology (bound : ∀ node ∈ stored.nodes, ∀ target, some target ∈ node.edges →
      target < stored.nodes.length) (reader target : Nat) :
    (Topology.ofTargets ((stored.nodes.map (·.edges)).map
      fun slots => slots.filterMap fun slot => slot)).Reads reader target ↔
        stored.Reads reader target := by
  rw [Topology.reads_ofTargets, Reads]
  simp only [List.map_map, List.getElem?_map, List.length_map]
  cases found : stored.nodes[reader]? with
  | none => simp
  | some node =>
      have inside := bound node (List.mem_of_getElem? found) target
      simpa using inside

theorem checkEdges_ok_iff :
    Stage.checkEdges (stored.nodes.map (·.edges)) = .ok () ↔
      (∀ node ∈ stored.nodes, ∀ target, some target ∈ node.edges →
        target < stored.nodes.length) ∧
      ∀ position, ¬ Relation.TransGen stored.Reads position position := by
  constructor
  · intro checked
    obtain ⟨none, acyclic⟩ := Graph.checkEdges_ok checked
    have bound : ∀ node ∈ stored.nodes, ∀ target, some target ∈ node.edges →
        target < stored.nodes.length := by
      intro node member target mentioned
      obtain ⟨position, found⟩ := List.mem_iff_getElem?.mp member
      have row : (stored.nodes.map (·.edges))[position]? = some node.edges := by simp [found]
      simpa using Graph.dangling_nil none row mentioned
    refine ⟨bound, fun position cycle => acyclic position ?_⟩
    exact Relation.TransGen.mono (fun reader target => (reads_topology bound reader target).mpr)
      _ _ cycle
  · rintro ⟨bound, acyclic⟩
    refine Graph.checkEdges_of_acyclic (Graph.danglingEdges_nil ?_) fun position cycle => ?_
    · intro slots row target mentioned
      obtain ⟨node, member, rfl⟩ := List.mem_map.mp row
      simpa using bound node member target mentioned
    · exact acyclic position (Relation.TransGen.mono
        (fun reader target => (reads_topology bound reader target).mp) _ _ cycle)

theorem toGraph_ok_iff (registry : Registry) (nextId : Nat) :
    (∃ graph, stored.toGraph registry nextId = .ok graph) ↔ stored.Sound := by
  constructor
  · rintro ⟨graph, accepted⟩
    obtain ⟨named, edges, _⟩ := Graph.toGraph_ok accepted
    have version : stored.checkVersion = .ok () := by
      rw [toGraph] at accepted
      obtain ⟨_, passed, _⟩ := Graph.bind_ok_iff.mp accepted
      cases checked : stored.checkVersion with
      | ok => rfl
      | error error => simp [checked, Except.mapError] at passed
    obtain ⟨bound, acyclic⟩ := checkEdges_ok_iff.mp edges
    exact
      { version := checkVersion_ok_iff.mp version
        output := fun node member => ((checkParams_ok_iff _).mp (named node member)).1
        inputs := fun node member => ((checkParams_ok_iff _).mp (named node member)).2
        bound
        acyclic }
  · intro sound
    refine ⟨_, Graph.toGraph_of_checks registry nextId (checkVersion_ok_iff.mpr sound.version)
      (fun node member => ?_) (checkEdges_ok_iff.mpr ⟨sound.bound, sound.acyclic⟩)⟩
    exact (checkParams_ok_iff _).mpr ⟨sound.output node member, sound.inputs node member⟩

theorem ofGraph_outlines (graph : Graph) :
    ofGraph graph = ⟨currentVersion, graph.name, graph.outlines.map fun outline =>
      ⟨outline.label, outline.params, outline.slots⟩⟩ := by
  rw [ofGraph, Graph.outlines, List.map_map]
  rfl

theorem ofGraph_toGraph {registry : Registry} {nextId : Nat} {graph : Graph}
    (accepted : stored.toGraph registry nextId = .ok graph) : ofGraph graph = stored.renewed := by
  obtain ⟨_, _, rfl⟩ := Graph.toGraph_ok accepted
  have name : (Graph.filled stored registry nextId).retypeAll.name = stored.name := by
    rw [Graph.retypeAll, Graph.foldl_retype_name, Graph.filled_eq]
  rw [ofGraph_outlines, name, Graph.retypeAll_outlines, Graph.outlines, Graph.filled_eq, renewed]
  congr 1
  apply List.ext_getElem?
  intro position
  simp only [List.getElem?_map, List.getElem?_mapIdx, Option.map_map]
  rfl

end StoredGraph

namespace Graph

/-- Loading accepts exactly the sound stored graphs and undoes storing: what it makes of a stored
graph is stored as the same again, in the current version and without empty edges at the end; and
what is stored of a reachable graph is loaded with the same name and, position by position, the
same label, parameters, slots and type or failure. -/
theorem loading_inverts_storing (nextId : Nat) :
    (∀ (stored : StoredGraph) (registry : Registry),
      ((∃ graph, stored.toGraph registry nextId = .ok graph) ↔ stored.Sound) ∧
      ∀ graph, stored.toGraph registry nextId = .ok graph →
        StoredGraph.ofGraph graph = stored.renewed) ∧
    ∀ graph : Graph, graph.Reachable →
      ∃ again, (StoredGraph.ofGraph graph).toGraph graph.registry nextId = .ok again ∧
        again.name = graph.name ∧ again.contents = graph.contents := by
  constructor
  · intro stored registry
    exact ⟨StoredGraph.toGraph_ok_iff registry nextId, fun _ => StoredGraph.ofGraph_toGraph⟩
  · intro graph reachable
    exact ⟨graph.reopened nextId, reachable.wellFormed.toGraph nextId, reopened_name nextId,
      reachable.reopened_contents nextId⟩

/-- Stored by an earlier program: a reader with a slot too many before the node that it reads. -/
def archived : StoredGraph where
  version := "1.0.0-rc.1"
  name := some "archive"
  nodes :=
    [⟨none, [(Expr.outputName, .variable (Expr.inputName 0))], [some 1, none]⟩,
      ⟨some "one", [(Expr.outputName, .constant (.integer 1))], []⟩]

theorem archived_loading_inverts_storing :
    archived.Sound ∧ (archived.renewed.nodes.map (·.edges)) = [[some 1], []] ∧
      (∃ graph, archived.toGraph .empty 0 = .ok graph ∧
        StoredGraph.ofGraph graph = archived.renewed) ∧
      ∃ again, (StoredGraph.ofGraph annotated).toGraph annotated.registry 0 = .ok again ∧
        again.name = annotated.name ∧ again.contents = annotated.contents := by
  obtain ⟨loads, stores⟩ := loading_inverts_storing 0
  obtain ⟨accepts, inverts⟩ := loads archived .empty
  have reachable : annotated.Reachable := (Reachable.empty .empty (some "notes") 0).run _
  have accepted : (archived.toGraph .empty 0).isOk = true := by decide +kernel
  cases loaded : archived.toGraph .empty 0 with
  | error error =>
      rw [loaded] at accepted
      cases accepted
  | ok graph =>
      exact ⟨accepts.mp ⟨graph, loaded⟩, by decide, ⟨graph, rfl, inverts graph loaded⟩,
        stores annotated reachable⟩

end Graph

end NodeGraph
