import NodeGraph.Proofs.Graph.Names
import NodeGraph.Proofs.Graph.Typing
import NodeGraph.Proofs.Stored.Graphs

/-!
Saving and loading. What a graph saves as is loaded as the same graph, up to identities and
revisions, exactly where its text nests no deeper than the reader goes and the extents of all images
in its constants are finite. The check before writing looks at neither.
-/

namespace NodeGraph

/-- What loading restores of a node. -/
structure Content where
  label : Option String
  params : Params
  slots : List (Option Nat)
  ty : Except NodeTypeError Ty

def Node.content (node : Node) : Content := ⟨node.label, node.params, node.slots, node.ty⟩

namespace Graph

variable {graph : Graph}

def contents (graph : Graph) : List Content := graph.nodes.map Node.content

def floats (graph : Graph) : List Float := graph.nodes.flatMap fun node => node.params.floats

def extents (graph : Graph) : List Rect := graph.nodes.flatMap fun node => node.params.extents

def nesting (graph : Graph) : Nat := graph.store.toOption.elim 0 Json.depth

/-- What makes sure that the stored form is read: the reader goes as deep, and finds no `null` in
the place of a number. -/
structure Loadable (graph : Graph) : Prop where
  nesting : graph.nesting ≤ Stored.maxDepth
  finite : ∀ extent ∈ graph.extents, extent.isFinite = true

theorem checkFinite_ok_iff (stored : StoredGraph) :
    stored.checkFinite = .ok () ↔
      ∀ node ∈ stored.nodes, ∀ param ∈ node.params, param.2.constantsFinite = true := by
  have accepted : stored.checkFinite = .ok () ↔ (stored.nodes.zipIdx.findSome? fun entry =>
      (entry.1.params.find? fun param => !param.2.constantsFinite).map
        fun param => (entry.2, param.1)) = none := by
    rw [StoredGraph.checkFinite]
    cases stored.nodes.zipIdx.findSome? _ <;> simp
  rw [accepted, List.findSome?_eq_none_iff]
  simp only [Option.map_eq_none_iff, List.find?_eq_none, Bool.not_eq_true, Bool.not_eq_false']
  constructor
  · intro finite node member
    obtain ⟨index, found⟩ := List.mem_iff_getElem?.mp member
    exact finite (node, index) (List.mem_zipIdx_iff_getElem?.mpr found)
  · intro finite entry member
    exact finite entry.1 (List.mem_of_getElem? (List.mem_zipIdx_iff_getElem?.mp member))

theorem store_ok {json : Json} (stored : graph.store = .ok json) :
    (StoredGraph.ofGraph graph).checkFinite = .ok () ∧
      Stored.writeGraph (StoredGraph.ofGraph graph) = some json := by
  rw [store] at stored
  obtain ⟨_, finite, written⟩ := bind_ok_iff.mp stored
  refine ⟨?_, ?_⟩
  · cases checked : (StoredGraph.ofGraph graph).checkFinite with
    | ok => rfl
    | error error =>
        rw [checked] at finite
        cases finite
  · cases made : Stored.writeGraph (StoredGraph.ofGraph graph) with
    | some other =>
        simp only [made] at written
        cases written
        rfl
    | none =>
        simp only [made] at written
        cases written

theorem Reachable.storable (reachable : graph.Reachable)
    (words : graph.count ≤ UInt64.size) (exact : Stored.ReadBack graph.floats)
    (finite : (StoredGraph.ofGraph graph).checkFinite = .ok ()) :
    ∀ stored ∈ (StoredGraph.ofGraph graph).nodes, Stored.Storable stored := by
  intro stored member
  have finite := (checkFinite_ok_iff _).mp finite stored member
  obtain ⟨node, inside, rfl⟩ := List.mem_map.mp member
  obtain ⟨index, found⟩ := List.mem_iff_getElem?.mp inside
  refine ⟨reachable.keyed node inside, fun target mentioned => ?_, finite,
    fun number written => ?_⟩
  · exact Nat.lt_of_lt_of_le ((reachable.wellFormed.fits found).bound target mentioned) words
  · exact exact number (List.mem_flatMap.mpr ⟨node, inside, written⟩)

theorem WellFormed.danglingEdges (wellFormed : graph.WellFormed) :
    Stage.danglingEdges (graph.nodes.map Node.slots) = [] := by
  refine danglingEdges_nil fun slots row target mentioned => ?_
  obtain ⟨node, member, rfl⟩ := List.mem_map.mp row
  obtain ⟨index, found⟩ := List.mem_iff_getElem?.mp member
  rw [List.length_map]
  exact (wellFormed.fits found).bound target mentioned

theorem WellFormed.checkEdges (wellFormed : graph.WellFormed) :
    Stage.checkEdges (graph.nodes.map Node.slots) = .ok () := by
  refine checkEdges_of_acyclic wellFormed.danglingEdges ?_
  rw [List.map_map]
  exact wellFormed.acyclic

def reopened (graph : Graph) (nextId : Nat) : Graph :=
  (filled (.ofGraph graph) graph.registry nextId).retypeAll

theorem WellFormed.toGraph (wellFormed : graph.WellFormed) (nextId : Nat) :
    (StoredGraph.ofGraph graph).toGraph graph.registry nextId = .ok (graph.reopened nextId) := by
  have version : (StoredGraph.ofGraph graph).checkVersion = .ok () := by
    -- Versions are decided once for all graphs, as all are stored with the current one.
    have current : Version.parse? StoredGraph.currentVersion = some ⟨1, 0, 0, [], []⟩ := by
      decide +kernel
    have same : (StoredGraph.ofGraph graph).version = StoredGraph.currentVersion := rfl
    rw [StoredGraph.checkVersion, same, current]
    exact if_pos rfl
  have edges : Stage.checkEdges ((StoredGraph.ofGraph graph).nodes.map (·.edges)) = .ok () := by
    rw [StoredGraph.ofGraph, List.map_map]
    exact wellFormed.checkEdges
  refine toGraph_of_checks graph.registry nextId version (fun stored member => ?_) edges
  obtain ⟨node, inside, rfl⟩ := List.mem_map.mp member
  obtain ⟨index, found⟩ := List.mem_iff_getElem?.mp inside
  exact (wellFormed.fits found).named

section Reopened

variable (nextId : Nat)

theorem reopened_count : (graph.reopened nextId).count = graph.count := by
  rw [reopened, count_of_outlines retypeAll_outlines, filled_eq]
  simp [count, StoredGraph.ofGraph]

theorem reopened_name : (graph.reopened nextId).name = graph.name := by
  rw [reopened, retypeAll, foldl_retype_name, filled_eq]
  rfl

variable (reachable : graph.Reachable)

include reachable

theorem Reachable.reopened_reachable : (graph.reopened nextId).Reachable := by
  refine .loaded (fun stored member => ?_) (reachable.wellFormed.toGraph nextId)
  obtain ⟨node, inside, rfl⟩ := List.mem_map.mp member
  exact reachable.keyed node inside

theorem Reachable.reopened_node {position : Nat} {node : Node}
    (found : graph.nodes[position]? = some node) :
    ∃ again, (graph.reopened nextId).nodes[position]? = some again ∧ again.label = node.label ∧
      again.params = node.params ∧ again.slots = node.slots := by
  have stored : (filled (.ofGraph graph) graph.registry nextId).nodes[position]? =
      some ⟨nextId + position, node.label, node.params, trimSlots node.slots, .ok (.generic 0),
        position + 1⟩ := by
    rw [filled_eq]
    simp [StoredGraph.ofGraph, found]
  obtain ⟨again, present, outline⟩ := outline_of_outlines retypeAll_outlines.symm stored
  have trimmed : trimSlots node.slots = node.slots := (reachable.wellFormed.fits found).trimmed
  refine ⟨again, present, congrArg Outline.label outline, congrArg Outline.params outline, ?_⟩
  exact (congrArg Outline.slots outline).trans trimmed

theorem Reachable.reopened_ty (position : Nat) :
    (graph.reopened nextId).ty? position = graph.ty? position := by
  have wellFormed := reachable.wellFormed
  have again := (reachable.reopened_reachable nextId).typed
  -- Both types are inferred, so they agree where the types of all dependencies do.
  induction position using wellFormed.acyclic.induction graph.mirrored with
  | step position ih =>
      cases found : graph.nodes[position]? with
      | none =>
          have outside : graph.count ≤ position := List.getElem?_eq_none_iff.mp found
          rw [← reopened_count nextId] at outside
          have absent : (graph.reopened nextId).nodes[position]? = none :=
            List.getElem?_eq_none_iff.mpr outside
          rw [ty?, ty?, found, absent]
      | some node =>
          obtain ⟨other, present, _, params, slots⟩ := reachable.reopened_node nextId found
          have registry : (graph.reopened nextId).registry = graph.registry := by
            rw [reopened, retypeAll, foldl_retype_registry, filled_eq]
          rw [ty?, ty?, found, present, Option.map_some, Option.map_some,
            again position other present, reachable.typed position node found, params, slots]
          exact congrArg some (infer_congr registry position node.params
            fun target mentioned => ih target (wellFormed.reads found mentioned))

theorem Reachable.reopened_contents :
    (graph.reopened nextId).contents = graph.contents := by
  apply List.ext_getElem?
  intro position
  rw [contents, contents, List.getElem?_map, List.getElem?_map]
  have ty := reachable.reopened_ty nextId position
  cases found : graph.nodes[position]? with
  | none =>
      rw [ty?, ty?, found, Option.map_none, Option.map_eq_none_iff] at ty
      rw [ty]
  | some node =>
      obtain ⟨again, present, label, params, slots⟩ := reachable.reopened_node nextId found
      rw [ty?, ty?, found, present, Option.map_some, Option.map_some, Option.some.injEq] at ty
      rw [present, Option.map_some, Option.map_some, Node.content, Node.content, label, params,
        slots, ty]

end Reopened

theorem save_ok {text : String} (saved : graph.save = .ok text) :
    ∃ json, graph.store = .ok json ∧ text = json.pretty := by
  obtain ⟨json, stored, written⟩ := bind_ok_iff.mp saved
  cases written
  exact ⟨json, stored, rfl⟩

theorem Reachable.load_saved (reachable : graph.Reachable)
    (words : graph.count ≤ UInt64.size) (exact : Stored.ReadBack graph.floats) {text : String}
    (saved : graph.save = .ok text) (nextId : Nat) :
    (graph.Loadable → Graph.load text graph.registry nextId = .ok (graph.reopened nextId)) ∧
      (¬ graph.Loadable → Graph.load text graph.registry nextId = .error .malformed) := by
  obtain ⟨json, stored, rfl⟩ := save_ok saved
  obtain ⟨finite, written⟩ := store_ok stored
  have kept := Stored.kept_graph (reachable.storable words exact finite) written
  have extents : ((StoredGraph.ofGraph graph).nodes.flatMap fun node => node.params.extents) =
      graph.extents := List.flatMap_map _ _ _
  have nesting : graph.nesting = json.depth := by
    rw [Graph.nesting, stored]
    rfl
  have loadable : (json.fits Stored.maxDepth && graph.extents.all Rect.isFinite) = true ↔
      graph.Loadable := by
    rw [Bool.and_eq_true, Json.fits_iff kept.proper, List.all_eq_true, ← nesting]
    exact ⟨fun ⟨deep, fine⟩ => ⟨deep, fine⟩, fun ⟨deep, fine⟩ => ⟨deep, fine⟩⟩
  have read := kept.read Stored.maxDepth
  rw [extents] at read
  rw [load, Json.parse?_pretty kept.proper]
  simp only [read]
  refine ⟨fun fine => ?_, fun broken => ?_⟩
  · rw [if_pos (loadable.mpr fine)]
    exact reachable.wellFormed.toGraph nextId
  · rw [if_neg (mt loadable.mp broken)]
    rfl

/-- What a graph saves as is loaded again, with the same name and node by node the same label,
parameters, slots and type, exactly if the graph is loadable. Else its text is refused. Positions
are machine words here, and the finite floats of the graph read back as they were written. -/
theorem Reachable.saved_loads (reachable : graph.Reachable)
    (words : graph.count ≤ UInt64.size) (exact : Stored.ReadBack graph.floats) {text : String}
    (saved : graph.save = .ok text) (nextId : Nat) :
    (graph.Loadable → ∃ loaded, Graph.load text graph.registry nextId = .ok loaded ∧
      loaded.Reachable ∧ loaded.name = graph.name ∧ loaded.contents = graph.contents) ∧
    (¬ graph.Loadable → Graph.load text graph.registry nextId = .error .malformed) := by
  obtain ⟨loads, fails⟩ := reachable.load_saved words exact saved nextId
  exact ⟨fun loadable => ⟨graph.reopened nextId, loads loadable, reachable_of_load (loads loadable),
    reopened_name nextId, reachable.reopened_contents nextId⟩, fails⟩

theorem exists_save (fine : graph.store.isOk = true) : ∃ text, graph.save = .ok text := by
  cases stored : graph.store with
  | ok json => exact ⟨json.pretty, by rw [save, stored]; rfl⟩
  | error error =>
      rw [stored] at fine
      cases fine

theorem readBack_of_isEmpty (none : graph.floats.isEmpty = true) :
    Stored.ReadBack graph.floats := by
  rw [List.isEmpty_iff.mp none]
  exact fun _ member => absurd member List.not_mem_nil

/-- A named graph with a label, quoted text, a lambda, and an input that no longer has the type that
its reader needs. -/
def annotated : Graph :=
  Graph.run { Graph.empty .empty with name := some "notes", nextId := 0 }
    [.addOutputNode (.constant (.array [.integer 1, .integer (-2)])),
      .addOutputNode (.lambda ["x"] (.variable "x")),
      .addNode [("note", .constant (.text "say \"x\"")),
        (Expr.outputName, .map (.variable (Expr.inputName 0)) (.variable (Expr.inputName 1)))],
      .addEdge 2 0 0, .addEdge 2 1 1, .setLabel 2 (some "mapped"),
      .setExpression 0 Expr.outputName (.constant (.boolean true))]

theorem annotated_saved_loads :
    annotated.Reachable ∧ annotated.Loadable ∧
      (annotated.nodes.map fun node => (node.slots, node.ty.isOk)) =
        [([], true), ([], true), ([some 0, some 1], false)] ∧
      ∃ text, annotated.save = .ok text ∧ ∀ nextId,
        ∃ loaded, Graph.load text annotated.registry nextId = .ok loaded ∧
          loaded.Reachable ∧ loaded.name = some "notes" ∧ loaded.contents = annotated.contents := by
  have reachable : annotated.Reachable := (Reachable.empty .empty (some "notes") 0).run _
  have words : annotated.count ≤ UInt64.size := by decide +kernel
  have exact : Stored.ReadBack annotated.floats := readBack_of_isEmpty (by decide +kernel)
  have loadable : annotated.Loadable := by
    have none : annotated.extents.isEmpty = true := by decide +kernel
    refine ⟨by decide +kernel, ?_⟩
    rw [List.isEmpty_iff.mp none]
    exact fun _ member => absurd member List.not_mem_nil
  have name : annotated.name = some "notes" := by decide +kernel
  obtain ⟨text, saved⟩ := exists_save (show annotated.store.isOk = true by decide +kernel)
  refine ⟨reachable, loadable, by decide +kernel, text, saved, fun nextId => ?_⟩
  rw [← name]
  exact (Reachable.saved_loads reachable words exact saved nextId).1 loadable

/-- So many lambdas, each called in the body of the next one, around a number. -/
def nestedCalls : Nat → Expr
  | 0 => .constant (.integer 1)
  | depth + 1 => .apply (.lambda [] (nestedCalls depth)) []

def deeplyNested : Graph := (Graph.empty .empty).run [.addOutputNode (nestedCalls 61)]

/-- A graph that nests one level deeper than the reader goes is saved and not loaded again. -/
theorem saved_too_deep :
    ¬ ∀ graph : Graph, graph.Reachable → graph.count ≤ UInt64.size →
      Stored.ReadBack graph.floats → ∀ text nextId, graph.save = .ok text →
        ∃ loaded, Graph.load text graph.registry nextId = .ok loaded ∧
          loaded.name = graph.name ∧ loaded.contents = graph.contents := by
  intro claimed
  have reachable : deeplyNested.Reachable := (Reachable.empty .empty none 0).run _
  have words : deeplyNested.count ≤ UInt64.size := by decide +kernel
  have exact : Stored.ReadBack deeplyNested.floats := readBack_of_isEmpty (by decide +kernel)
  have deep : deeplyNested.nesting = 128 := by decide +kernel
  obtain ⟨text, saved⟩ := exists_save (show deeplyNested.store.isOk = true by decide +kernel)
  obtain ⟨loaded, accepted, _⟩ := claimed deeplyNested reachable words exact text 0 saved
  have refused := (reachable.load_saved words exact saved 0).2 fun loadable =>
    absurd (deep ▸ loadable.nesting) (by decide)
  rw [accepted] at refused
  cases refused

end Graph

end NodeGraph
