import NodeGraph.Proofs.Execution.Uncached
import NodeGraph.Proofs.Primitive.Uniformity

/-!
Copies of nodes. Cloning puts copies of a node and of everything it depends on behind the others. The
copies are wired among each other as their originals are, so they are typed and evaluated alike, and
nothing else in the graph changes.
-/

namespace NodeGraph

/-- Two evaluations that both give a value, the same up to the identity of functions, or both
fault. -/
def Engine.SameOutcome (left right : Except Fault (Except GraphError (Value × Engine))) : Prop :=
  (∃ value other after later, left = .ok (.ok (value, after)) ∧
    right = .ok (.ok (other, later)) ∧ value.Alike other) ∨
  ∃ fault other, left = .error fault ∧ right = .error other

theorem Engine.Yields.same {left right : Except Fault (Except GraphError (Value × Engine))}
    {result : Except Fault Value} (leftYields : Engine.Yields left result)
    (rightYields : Engine.Yields right result) : Engine.SameOutcome left right := by
  rcases leftYields with ⟨value, after, expected, isLeft, rfl, alike⟩ | ⟨_, _, isLeft, rfl⟩ <;>
    rcases rightYields with ⟨other, later, also, isRight, same, otherAlike⟩ | ⟨_, _, isRight, same⟩
  · cases same
    exact Or.inl ⟨value, other, after, later, isLeft, isRight, alike.trans otherAlike.symm⟩
  · cases same
  · cases same
  · exact Or.inr ⟨_, _, isLeft, isRight⟩

namespace Graph

variable {graph edited : Graph} {root : Nat} {closure : List Nat}

/-- A node and everything that it depends on: the node first, every node once, and closer nodes
before those further away. -/
structure Lineage (graph : Graph) (root : Nat) (closure : List Nat) : Prop where
  first : closure.head? = some root
  once : closure.Nodup
  members : ∀ position, position ∈ closure ↔ position = root ∨ graph.Reaches root position
  closest : closure.Pairwise (Topology.NoFurther graph.topology.dependenciesOf root)

def copyOf (graph : Graph) (closure : List Nat) (source : Nat) : Nat :=
  graph.count + closure.idxOf source

/-- A copy of a node: its slots read the copies of what the node reads, and a type failure names the
copies of the nodes that it named. -/
structure CopyOf (graph : Graph) (closure : List Nat) (source : Nat) (original copy : Node) :
    Prop where
  label : copy.label = original.label
  params : copy.params = original.params
  targets : ∀ target, some target ∈ original.slots → target ∈ closure
  slots : copy.slots = original.slots.map (Option.map (graph.copyOf closure))
  failure : ∀ failure, original.ty = .error failure →
    failure.node = source ∧ failure.origin ∈ closure
  ty : copy.ty = original.ty.mapError (NodeTypeError.renumber (graph.copyOf closure))
  fresh : graph.nextId ≤ copy.id

/-- A graph with copies of nodes behind the others. All its nodes have identities of their own, and
the nodes from before are what they were. Under the serial number of its original a copy has the
value of its original; and it has the same when both are evaluated without a cache, whatever serial
numbers that takes, as long as primitives make nothing of serial numbers and none is taken that a
function in a constant has already. -/
structure Copies (graph : Graph) (closure : List Nat) (edited : Graph) : Prop where
  count : edited.count = graph.count + closure.length
  kept : ∀ position < graph.count, edited.nodes[position]? = graph.nodes[position]?
  identities : (edited.nodes.map Node.id).Nodup
  copies : ∀ offset source original, closure[offset]? = some source →
    graph.nodes[source]? = some original →
      ∃ copy, edited.nodes[graph.count + offset]? = some copy ∧
        graph.CopyOf closure source original copy
  values : ∀ serials : Nat → Nat,
    (∀ source ∈ closure, serials (graph.copyOf closure source) = serials source) →
      ∀ offset source, closure[offset]? = some source →
        edited.valueUnder serials (graph.count + offset) = edited.valueUnder serials source ∧
          edited.valueUnder serials source = graph.valueUnder serials source
  evaluates : ∀ first, graph.registry.Uniform first → graph.Settled first →
    ∀ engine other : Engine, engine.Uncached → other.Uncached →
      first ≤ engine.serial → first ≤ other.serial →
        ∀ offset source, closure[offset]? = some source →
          Engine.SameOutcome (engine.evaluate edited (graph.count + offset))
            (other.evaluate edited source)

theorem lineage_lineageOf (bound : root < graph.count) :
    graph.Lineage root (graph.topology.lineageOf root) where
  first := by rw [lineageOf_eq bound, List.head?_cons]
  once := by
    rw [lineageOf_eq bound, List.nodup_cons]
    exact ⟨fun member => ((Topology.mem_ancestorsOf root root).mp member).1 rfl,
      Topology.nodup_search _ root⟩
  members := mem_lineageOf bound
  closest := by
    rw [lineageOf_eq bound, List.pairwise_cons]
    exact ⟨fun position _ => Topology.noFurther_start position, Topology.pairwise_search _ root⟩

theorem copyOf_getElem? (once : closure.Nodup) {offset source : Nat}
    (listed : closure[offset]? = some source) :
    graph.copyOf closure source = graph.count + offset := by
  obtain ⟨inside, same⟩ := List.getElem?_eq_some_iff.mp listed
  rw [copyOf, ← same, once.idxOf_getElem offset inside]

theorem sourceOf_copyOf (once : closure.Nodup) {source : Nat} (member : source ∈ closure) :
    graph.sourceOf closure (graph.copyOf closure source) = source := by
  obtain ⟨offset, listed⟩ := List.mem_iff_getElem?.mp member
  rw [copyOf_getElem? once listed, sourceOf_copy listed]

theorem copiedSlot_eq {slot : Option Nat} (inside : ∀ target, slot = some target → target ∈ closure) :
    graph.copiedSlot closure slot = slot.map (graph.copyOf closure) := by
  cases slot with
  | none => rfl
  | some target =>
      obtain ⟨offset, listed⟩ := Option.isSome_iff_exists.mp (List.isSome_idxOf?.mpr (inside target rfl))
      rw [Option.map_some, copyOf, List.idxOf_eq_getD_idxOf?]
      simp [copiedSlot, listed]

theorem extended_copy (closed : graph.Closed closure) {offset source : Nat} {original : Node}
    (listed : closure[offset]? = some source) (present : graph.nodes[source]? = some original) :
    (graph.extended closure).nodes[graph.count + offset]? =
      some ⟨graph.nextId + offset, original.label, original.params,
        original.slots.map (graph.copiedSlot closure), original.ty, 0⟩ := by
  rw [extended, foldl_push (List.map (graph.copiedSlot closure)), count,
    List.getElem?_append_right (Nat.le_add_right _ _), Nat.add_sub_cancel_left,
    List.getElem?_mapIdx, sources_getElem? closed, listed, Option.bind_some, present,
    Option.map_some]

section Copied

variable (wellFormed : graph.WellFormed) (bound : root < graph.count)

theorem copied_outlines :
    (graph.copied root).outlines = (graph.extended (graph.topology.lineageOf root)).outlines :=
  invalidate_outlines _

include wellFormed bound

theorem targets_mem_lineageOf {source target : Nat} {original : Node}
    (member : source ∈ graph.topology.lineageOf root)
    (present : graph.nodes[source]? = some original) (mentioned : some target ∈ original.slots) :
    target ∈ graph.topology.lineageOf root :=
  (closed_lineageOf bound).reads source member target (wellFormed.reads present mentioned)

theorem copied_copy {offset source : Nat} {original : Node}
    (listed : (graph.topology.lineageOf root)[offset]? = some source)
    (present : graph.nodes[source]? = some original) :
    ∃ copy, (graph.copied root).nodes[graph.count + offset]? = some copy ∧
      copy.outline = ⟨graph.nextId + offset, original.label, original.params,
        original.slots.map (Option.map (graph.copyOf (graph.topology.lineageOf root)))⟩ := by
  have bare := extended_copy (closed_lineageOf bound) listed present
  obtain ⟨copy, found, outline⟩ := outline_of_outlines graph.copied_outlines.symm bare
  refine ⟨copy, found, outline.trans ?_⟩
  have slots : original.slots.map (graph.copiedSlot (graph.topology.lineageOf root)) =
      original.slots.map (Option.map (graph.copyOf (graph.topology.lineageOf root))) := by
    refine List.map_congr_left fun slot mentioned => copiedSlot_eq fun target same => ?_
    exact targets_mem_lineageOf wellFormed bound (List.mem_of_getElem? listed) present
      (same ▸ mentioned)
  rw [Node.outline, slots]

theorem copied_follows :
    (graph.copied root).Follows (graph.copyOf (graph.topology.lineageOf root))
      (fun position => position ∈ graph.topology.lineageOf root) graph where
  registry := by
    rw [copied, invalidate_eq, foldl_restamp_registry, foldl_retype_registry, extended_registry]
  nodes := by
    intro position node member found
    obtain ⟨offset, listed⟩ := List.mem_iff_getElem?.mp member
    obtain ⟨copy, there, outline⟩ := copied_copy wellFormed bound listed found
    rw [Node.outline, Outline.mk.injEq] at outline
    refine ⟨copy, ?_, outline.2.2.1, outline.2.2.2⟩
    rw [copyOf_getElem? (lineage_lineageOf bound).once listed, there]
  closed := fun member reads => (closed_lineageOf bound).reads _ member _ reads

theorem reached_copy {source target : Nat} (member : source ∈ graph.topology.lineageOf root)
    (reached : graph.copyOf (graph.topology.lineageOf root) source = target ∨
      (graph.copied root).Reaches (graph.copyOf (graph.topology.lineageOf root) source) target) :
    ∃ other ∈ graph.topology.lineageOf root,
      target = graph.copyOf (graph.topology.lineageOf root) other := by
  rcases reached with rfl | path
  · exact ⟨source, member, rfl⟩
  · obtain ⟨node, found⟩ := found_of_bound ((closed_lineageOf bound).bound source member)
    obtain ⟨other, _, _, inside, _, same⟩ :=
      (copied_follows wellFormed bound).reaches_place wellFormed member found path
    exact ⟨other, inside, same⟩

theorem copied_different {source left right : Nat} (member : source ∈ graph.topology.lineageOf root)
    (leftReached : graph.copyOf (graph.topology.lineageOf root) source = left ∨
      (graph.copied root).Reaches (graph.copyOf (graph.topology.lineageOf root) source) left)
    (rightReached : graph.copyOf (graph.topology.lineageOf root) source = right ∨
      (graph.copied root).Reaches (graph.copyOf (graph.topology.lineageOf root) source) right)
    (same : graph.sourceOf (graph.topology.lineageOf root) left =
      graph.sourceOf (graph.topology.lineageOf root) right) : left = right := by
  have once := (lineage_lineageOf bound).once
  obtain ⟨leftSource, leftInside, rfl⟩ := reached_copy wellFormed bound member leftReached
  obtain ⟨rightSource, rightInside, rfl⟩ := reached_copy wellFormed bound member rightReached
  rw [sourceOf_copyOf once leftInside, sourceOf_copyOf once rightInside] at same
  rw [same]

theorem copied_valueUnder (edited : (graph.copied root).WellFormed) (serials : Nat → Nat)
    {source : Nat} {original : Node} (member : source ∈ graph.topology.lineageOf root)
    (present : graph.nodes[source]? = some original) :
    (graph.copied root).valueUnder
        (fun node => serials (graph.sourceOf (graph.topology.lineageOf root) node))
        (graph.copyOf (graph.topology.lineageOf root) source) =
      graph.valueUnder serials source := by
  refine ((copied_follows wellFormed bound).valueUnder edited wellFormed (fun position inside => ?_)
    member present).symm
  rw [sourceOf_copyOf (lineage_lineageOf bound).once inside]

omit wellFormed in
theorem copied_settled {first : Nat} (settled : graph.Settled first) :
    (graph.copied root).Settled first := by
  intro node member param inside
  obtain ⟨position, found⟩ := List.mem_iff_getElem?.mp member
  obtain ⟨other, present, outline⟩ := outline_of_outlines copied_outlines found
  have params : other.params = node.params := congrArg Outline.params outline
  rcases extended_nodes (closed_lineageOf bound) present with old | copy
  · exact settled other (List.mem_of_getElem? old) param (params ▸ inside)
  · obtain ⟨_, source, original, _, _, there, rfl⟩ := copy
    exact settled original (List.mem_of_getElem? there) param (params ▸ inside)

end Copied

theorem mentioned_of_source {slots : List (Option Nat)} {input : InputType} {target : Nat}
    (inside : input ∈ graph.inputTypes slots) (named : input.source = some target) :
    some target ∈ slots := by
  rw [inputTypes_eq] at inside
  obtain ⟨slot, member, rfl⟩ := List.mem_map.mp inside
  cases slot with
  | none => cases named
  | some other =>
      cases named
      exact member

theorem cloneSubgraph_eq (bound : root < graph.count) :
    graph.cloneSubgraph root =
      .ok ((List.range (graph.topology.lineageOf root).length).map (graph.count + ·),
        graph.copied root) := by
  obtain ⟨node, found⟩ := found_of_bound bound
  rw [cloneSubgraph, node_ok.mpr found]
  rfl

theorem edit_cloneSubgraph (bound : root < graph.count) :
    graph.edit (.cloneSubgraph root) = .ok (graph.copied root) := by
  rw [edit, cloneSubgraph_eq bound]
  rfl

section Reachable

variable (reachable : graph.Reachable) (bound : root < graph.count)

include reachable bound

theorem Reachable.copied : (graph.copied root).Reachable := by
  have edited := reachable.edited (.cloneSubgraph root)
  rwa [after, edit_cloneSubgraph bound] at edited

theorem Reachable.copied_kept {position : Nat} (old : position < graph.count) :
    (graph.copied root).nodes[position]? = graph.nodes[position]? := by
  obtain ⟨node, present⟩ := found_of_bound old
  have bare : (graph.extended (graph.topology.lineageOf root)).nodes[position]? = some node :=
    (extended_old old).trans present
  obtain ⟨kept, found, outline⟩ := outline_of_outlines copied_outlines.symm bare
  have untouched : ¬ Edit.Restamps graph (graph.copied root) (.cloneSubgraph root) position :=
    fun restamped => Nat.not_le_of_lt old restamped.1
  obtain ⟨before, there, _, revision, _, _, ty⟩ :=
    (reachable.restamping (edit_cloneSubgraph bound)).kept position kept found untouched
  have origin : (Edit.cloneSubgraph root).origin = id := rfl
  rw [origin, id, present] at there
  cases there
  have types : kept.ty = node.ty := by
    rw [← ty, origin]
    cases kept.ty <;> rfl
  rw [found, present]
  obtain ⟨id, label, params, slots, ty, stamp⟩ := kept
  obtain ⟨_, _, _, _, _, _⟩ := node
  cases outline
  cases revision
  cases types
  rfl

theorem Reachable.kept_follows :
    graph.Follows id (fun position => position < graph.count) (graph.copied root) where
  registry := (copied_follows reachable.wellFormed bound).registry.symm
  nodes := by
    intro position node old found
    rw [reachable.copied_kept bound old] at found
    exact ⟨node, found, rfl, by simp⟩
  closed := by
    intro reader target old reads
    obtain ⟨_, node, found, mentioned⟩ := (reads_iff _ _ _).mp reads
    rw [reachable.copied_kept bound old] at found
    exact (reachable.wellFormed.fits found).bound target mentioned

theorem Reachable.copyOf_copied {offset source : Nat} {original : Node}
    (listed : (graph.topology.lineageOf root)[offset]? = some source)
    (present : graph.nodes[source]? = some original) :
    ∃ copy, (graph.copied root).nodes[graph.count + offset]? = some copy ∧
      graph.CopyOf (graph.topology.lineageOf root) source original copy := by
  have wellFormed := reachable.wellFormed
  have member := List.mem_of_getElem? listed
  obtain ⟨copy, found, outline⟩ := copied_copy wellFormed bound listed present
  rw [Node.outline, Outline.mk.injEq] at outline
  obtain ⟨id, label, params, slots⟩ := outline
  have place : graph.copyOf (graph.topology.lineageOf root) source = graph.count + offset :=
    copyOf_getElem? (lineage_lineageOf bound).once listed
  have typed : original.ty = graph.infer source original.params original.slots :=
    reachable.typed source original present
  refine ⟨copy, found, label, params, fun target mentioned => ?_, slots, fun failure failed => ?_,
    ?_, ?_⟩
  · exact targets_mem_lineageOf wellFormed bound member present mentioned
  · have inferred : inferNode graph.registry source original.params
        (graph.inputTypes original.slots) = .error failure := typed.symm.trans failed
    refine ⟨inferNode_failure inferred, ?_⟩
    rcases inferNode_origin inferred with same | ⟨input, inside, named⟩
    · exact same ▸ member
    · exact targets_mem_lineageOf wellFormed bound member present
        (mentioned_of_source inside named)
  · exact (copied_follows wellFormed bound).ty wellFormed (reachable.copied bound).typed
      reachable.typed source member present (place ▸ found)
  · rw [id]
    exact Nat.le_add_right _ _

theorem Reachable.copied_values {serials : Nat → Nat}
    (numbered : ∀ source ∈ graph.topology.lineageOf root,
      serials (graph.copyOf (graph.topology.lineageOf root) source) = serials source)
    {offset source : Nat} (listed : (graph.topology.lineageOf root)[offset]? = some source) :
    (graph.copied root).valueUnder serials (graph.count + offset) =
        (graph.copied root).valueUnder serials source ∧
      (graph.copied root).valueUnder serials source = graph.valueUnder serials source := by
  have wellFormed := reachable.wellFormed
  have edited := (reachable.copied bound).wellFormed
  have member := List.mem_of_getElem? listed
  have old := (closed_lineageOf bound).bound source member
  obtain ⟨original, present⟩ := found_of_bound old
  have kept : (graph.copied root).valueUnder serials source = graph.valueUnder serials source :=
    (reachable.kept_follows bound).valueUnder wellFormed edited (fun _ _ => rfl) old
      ((reachable.copied_kept bound old).trans present)
  have copy := (copied_follows wellFormed bound).valueUnder edited wellFormed
    (fun position inside => (numbered position inside).symm) member present
  rw [copyOf_getElem? (lineage_lineageOf bound).once listed] at copy
  exact ⟨copy.symm.trans kept.symm, kept⟩

/-- Both evaluations give what the original gives when every node has a serial number by its
position. -/
theorem Reachable.copied_evaluates {first : Nat} (uniform : graph.registry.Uniform first)
    (settled : graph.Settled first) {engine other : Engine} (uncached : engine.Uncached)
    (otherUncached : other.Uncached) (later : first ≤ engine.serial)
    (otherLater : first ≤ other.serial) {offset source : Nat}
    (listed : (graph.topology.lineageOf root)[offset]? = some source) :
    Engine.SameOutcome (engine.evaluate (graph.copied root) (graph.count + offset))
      (other.evaluate (graph.copied root) source) := by
  have wellFormed := reachable.wellFormed
  have edited := (reachable.copied bound).wellFormed
  have member := List.mem_of_getElem? listed
  have old := (closed_lineageOf bound).bound source member
  obtain ⟨original, present⟩ := found_of_bound old
  obtain ⟨copy, copyFound, _⟩ := reachable.copyOf_copied bound listed present
  have kept := (reachable.copied_kept bound old).trans present
  have registry : (graph.copied root).registry.Uniform first :=
    (copied_follows wellFormed bound).registry ▸ uniform
  have copySettled := copied_settled bound settled
  rw [← copyOf_getElem? (lineage_lineageOf bound).once listed] at copyFound ⊢
  have copyYields := Engine.evaluate_numbered edited registry copySettled uncached later
    (bound_of_found copyFound) fun _ _ => copied_different wellFormed bound member
  have keptYields := Engine.evaluate_numbered edited registry copySettled otherUncached otherLater
    (bound_of_found kept) fun _ _ _ _ same => same
  rw [copied_valueUnder wellFormed bound edited (first + 2 * ·) member present] at copyYields
  rw [(reachable.kept_follows bound).valueUnder wellFormed edited (fun _ _ => rfl) old kept]
    at keptYields
  exact copyYields.same keptYields

/-- Cloning succeeds at every node of the graph. It copies the node and everything the node depends
on, behind the other nodes and in the order in which a breadth-first search finds them. -/
theorem Reachable.cloning_copies :
    ∃ edited, graph.cloneSubgraph root =
        .ok ((List.range (graph.topology.lineageOf root).length).map (graph.count + ·), edited) ∧
      graph.Lineage root (graph.topology.lineageOf root) ∧
      graph.Copies (graph.topology.lineageOf root) edited :=
  ⟨graph.copied root, cloneSubgraph_eq bound, lineage_lineageOf bound,
    { count := by rw [count_of_outlines copied_outlines, extended_count (closed_lineageOf bound)]
      kept := fun _ old => reachable.copied_kept bound old
      identities := (reachable.copied bound).wellFormed.ids_nodup
      copies := fun _ _ _ listed present => reachable.copyOf_copied bound listed present
      values := fun _ numbered _ _ listed => reachable.copied_values bound numbered listed
      evaluates := fun _ uniform settled _ _ uncached otherUncached later otherLater _ _ listed =>
        reachable.copied_evaluates bound uniform settled uncached otherUncached later otherLater
          listed }⟩

end Reachable

/-- A function, and a node that compares it with itself. -/
def compared : Graph :=
  (empty Registry.builtin).run
    [.addOutputNode (.lambda ["x"] (.variable "x")),
      .addOutputNode (.primitive "eq" [.variable (Expr.inputName 0), .variable (Expr.inputName 1)]),
      .addEdge 1 0 0, .addEdge 1 1 0]

/-- The copy of the comparison reads the copy of the function twice, and has the same value. -/
theorem compared_cloning_copies :
    compared.Reachable ∧ 1 < compared.count ∧
      ∃ edited, compared.cloneSubgraph 1 = .ok ([2, 3], edited) ∧
        compared.Lineage 1 [1, 0] ∧ compared.Copies [1, 0] edited ∧
        (∃ copy, edited.nodes[2]? = some copy ∧ copy.slots = [some 3, some 3]) ∧
        Engine.SameOutcome ((Engine.ofOptions .default 0).evaluate edited 2)
          ((Engine.ofOptions .default 7).evaluate edited 1) := by
  have reachable : compared.Reachable := (Reachable.empty Registry.builtin none 0).run _
  have bound : 1 < compared.count := by decide +kernel
  have lineage : compared.topology.lineageOf 1 = [1, 0] := by decide +kernel
  have uniform : compared.registry.Uniform 0 := by
    obtain ⟨place, persists⟩ := (Reachable.empty Registry.builtin none 0).persists _
    have registry : compared.registry = Registry.builtin := persists.registry
    exact registry ▸ Registry.builtin_uniform 0
  have settled : compared.Settled 0 := settled_of_horizon (by decide +kernel)
  have slots : (compared.nodes.map Node.slots)[1]? = some [some 0, some 0] := by decide +kernel
  obtain ⟨edited, cloned, closest, copies⟩ := reachable.cloning_copies bound
  have count : compared.count = 2 := by decide +kernel
  rw [lineage, count] at cloned
  rw [lineage] at closest copies
  refine ⟨reachable, bound, edited, cloned, closest, copies, ?_, ?_⟩
  · rw [List.getElem?_map] at slots
    obtain ⟨original, present, shape⟩ := Option.map_eq_some_iff.mp slots
    obtain ⟨copy, found, copied⟩ := copies.copies 0 1 original rfl present
    rw [count] at found
    refine ⟨copy, found, ?_⟩
    rw [copied.slots, shape]
    simp [copyOf, count]
  · have same := copies.evaluates 0 uniform settled (.ofOptions .default 0) (.ofOptions .default 7)
      (Or.inr rfl) (Or.inr rfl) (Nat.zero_le _) (Nat.zero_le _) 0 1 rfl
    rwa [count] at same

end Graph

end NodeGraph
