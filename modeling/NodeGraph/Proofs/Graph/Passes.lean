import NodeGraph.Graph.Edit
import NodeGraph.Proofs.Topology.Sorting

/-!
The two passes that end an edit. Typing nodes again changes nothing but types, and restamping them
changes nothing but revisions; both follow the dependencies, which neither of them changes.
-/

namespace NodeGraph

/-- A node without its type and its revision, which follow from the rest of the graph. -/
structure Outline where
  id : Nat
  label : Option String
  params : Params
  slots : List (Option Nat)

def Node.outline (node : Node) : Outline := ⟨node.id, node.label, node.params, node.slots⟩

namespace Graph

def outlines (graph : Graph) : List Outline := graph.nodes.map Node.outline

def tys (graph : Graph) : List (Except NodeTypeError Ty) := graph.nodes.map Node.ty

def revisions (graph : Graph) : List Nat := graph.nodes.map Node.revision

abbrev Reads (graph : Graph) : Nat → Nat → Prop := graph.topology.Reads

abbrev Reaches (graph : Graph) : Nat → Nat → Prop := graph.topology.Reaches

variable (graph : Graph)

theorem mirrored : graph.topology.Mirrored := Topology.mirrored_ofTargets _

@[simp] theorem topology_count : graph.topology.count = graph.count := by
  simp [topology, Topology.count_ofTargets, count]

theorem reads_iff (reader target : Nat) :
    graph.Reads reader target ↔ target < graph.count ∧
      ∃ node, graph.nodes[reader]? = some node ∧ some target ∈ node.slots := by
  rw [Reads, topology, Topology.reads_ofTargets]
  simp only [List.length_map, List.getElem?_map, count]
  cases graph.nodes[reader]? with
  | none => simp
  | some node => simp [Node.targets, and_comm]

theorem topology_of_outlines {left right : Graph} (same : left.outlines = right.outlines) :
    left.topology = right.topology := by
  have targets : ∀ graph : Graph, graph.nodes.map Node.targets =
      graph.outlines.map fun outline => outline.slots.filterMap fun slot => slot := by
    intro graph
    simp [outlines, Node.targets, Node.outline, Function.comp_def]
  rw [topology, topology, targets, targets, same]

theorem count_of_outlines {left right : Graph} (same : left.outlines = right.outlines) :
    left.count = right.count := by
  simpa [outlines, count] using congrArg List.length same

theorem outline_of_outlines {left right : Graph} (same : left.outlines = right.outlines)
    {index : Nat} {node : Node} (found : left.nodes[index]? = some node) :
    ∃ other, right.nodes[index]? = some other ∧ other.outline = node.outline := by
  have entry := congrArg (·[index]?) same
  simp only [outlines, List.getElem?_map, found, Option.map_some] at entry
  obtain ⟨other, present, equal⟩ := Option.map_eq_some_iff.mp entry.symm
  exact ⟨other, present, equal⟩

theorem revision_of_revisions {left right : Graph} (same : left.revisions = right.revisions)
    {index : Nat} {node other : Node} (found : left.nodes[index]? = some node)
    (present : right.nodes[index]? = some other) : other.revision = node.revision := by
  have entry := congrArg (·[index]?) same
  simp only [revisions, List.getElem?_map, found, present, Option.map_some, Option.some.injEq]
    at entry
  exact entry.symm

def ty? (index : Nat) : Option (Except NodeTypeError Ty) := graph.nodes[index]?.map Node.ty

theorem inputTypes_eq (slots : List (Option Nat)) :
    graph.inputTypes slots = slots.map fun
      | some target => ⟨some target, (graph.ty? target).bind Except.toOption⟩
      | none => ⟨none, none⟩ := by
  apply List.map_congr_left
  intro slot _
  cases slot with
  | none => rfl
  | some target =>
      simp only [ty?]
      cases graph.nodes[target]? with
      | none => rfl
      | some node =>
          obtain ⟨_, _, _, _, ty, _⟩ := node
          cases ty <;> rfl

theorem infer_congr {left right : Graph} (registry : left.registry = right.registry)
    (index : Nat) (params : Params) {slots : List (Option Nat)}
    (agree : ∀ target, some target ∈ slots → left.ty? target = right.ty? target) :
    left.infer index params slots = right.infer index params slots := by
  have inputs : left.inputTypes slots = right.inputTypes slots := by
    rw [inputTypes_eq, inputTypes_eq]
    apply List.map_congr_left
    intro slot member
    cases slot with
    | none => rfl
    | some target => simp only [agree target member]
  rw [infer, infer, registry, inputs]

/-- The stored type of a node is the one that inference gives now. -/
def TypedAt (index : Nat) : Prop :=
  ∀ node, graph.nodes[index]? = some node → node.ty = graph.infer index node.params node.slots

def Typed : Prop := ∀ index, graph.TypedAt index

theorem retype_nodes (index other : Nat) :
    (graph.retype index).nodes[other]? = graph.nodes[other]?.map fun node =>
      if index = other then { node with ty := graph.infer index node.params node.slots }
      else node := by
  rw [retype]
  cases found : graph.nodes[index]? with
  | none =>
      by_cases same : index = other
      · subst same
        simp [found]
      · simp [same]
  | some node =>
      simp only [modify, List.getElem?_modify, Option.map_eq_map]
      by_cases same : index = other
      · subst same
        simp [found]
      · simp [same]

@[simp] theorem retype_registry (index : Nat) :
    (graph.retype index).registry = graph.registry := by
  rw [retype]
  split <;> rfl

@[simp] theorem retype_lastRevision (index : Nat) :
    (graph.retype index).lastRevision = graph.lastRevision := by
  rw [retype]
  split <;> rfl

@[simp] theorem retype_nextId (index : Nat) :
    (graph.retype index).nextId = graph.nextId := by
  rw [retype]
  split <;> rfl

@[simp] theorem retype_name (index : Nat) : (graph.retype index).name = graph.name := by
  rw [retype]
  split <;> rfl

@[simp] theorem retype_outlines (index : Nat) :
    (graph.retype index).outlines = graph.outlines := by
  apply List.ext_getElem?
  intro other
  simp only [outlines, List.getElem?_map, retype_nodes, Option.map_map]
  congr 1
  funext node
  simp only [Function.comp_apply]
  split <;> rfl

@[simp] theorem retype_revisions (index : Nat) :
    (graph.retype index).revisions = graph.revisions := by
  apply List.ext_getElem?
  intro other
  simp only [revisions, List.getElem?_map, retype_nodes, Option.map_map]
  congr 1
  funext node
  simp only [Function.comp_apply]
  split <;> rfl

theorem retype_ty?_ne {index other : Nat} (different : index ≠ other) :
    (graph.retype index).ty? other = graph.ty? other := by
  simp [ty?, retype_nodes, different]

theorem retype_infer {index reader : Nat} {node : Node} (found : graph.nodes[reader]? = some node)
    (apart : ¬ graph.Reads reader index) (position : Nat) :
    (graph.retype index).infer position node.params node.slots =
      graph.infer position node.params node.slots := by
  apply infer_congr (by simp)
  intro target mentioned
  by_cases same : index = target
  · subst same
    have outside : graph.count ≤ index := by
      refine Nat.le_of_not_lt fun bound => apart ?_
      exact (graph.reads_iff reader index).mpr ⟨bound, node, found, mentioned⟩
    simp [ty?, retype_nodes, List.getElem?_eq_none outside]
  · exact graph.retype_ty?_ne same

theorem retype_typedAt {index : Nat} (apart : ¬ graph.Reads index index) :
    (graph.retype index).TypedAt index := by
  intro node found
  rw [retype_nodes] at found
  obtain ⟨old, present, equal⟩ := Option.map_eq_some_iff.mp found
  rw [if_pos rfl] at equal
  subst equal
  exact (graph.retype_infer present apart index).symm

theorem retype_typedAt_other {index other : Nat} (different : index ≠ other)
    (apart : ¬ graph.Reads other index) (typed : graph.TypedAt other) :
    (graph.retype index).TypedAt other := by
  intro node found
  rw [retype_nodes] at found
  obtain ⟨old, present, equal⟩ := Option.map_eq_some_iff.mp found
  rw [if_neg different] at equal
  subst equal
  rw [graph.retype_infer present apart other]
  exact typed old present

section RetypeAll

variable {graph} (order : List Nat)

@[simp] theorem foldl_retype_registry :
    (order.foldl retype graph).registry = graph.registry := by
  induction order generalizing graph with
  | nil => rfl
  | cons index rest ih => simp [ih]

@[simp] theorem foldl_retype_lastRevision :
    (order.foldl retype graph).lastRevision = graph.lastRevision := by
  induction order generalizing graph with
  | nil => rfl
  | cons index rest ih => simp [ih]

@[simp] theorem foldl_retype_nextId : (order.foldl retype graph).nextId = graph.nextId := by
  induction order generalizing graph with
  | nil => rfl
  | cons index rest ih => simp [ih]

@[simp] theorem foldl_retype_name : (order.foldl retype graph).name = graph.name := by
  induction order generalizing graph with
  | nil => rfl
  | cons index rest ih => simp [ih]

@[simp] theorem foldl_retype_outlines :
    (order.foldl retype graph).outlines = graph.outlines := by
  induction order generalizing graph with
  | nil => rfl
  | cons index rest ih => simp [ih]

@[simp] theorem foldl_retype_revisions :
    (order.foldl retype graph).revisions = graph.revisions := by
  induction order generalizing graph with
  | nil => rfl
  | cons index rest ih => simp [ih]

theorem foldl_retype_typedAt
    (before : order.Pairwise fun earlier later => ¬ graph.Reads earlier later)
    (irreflexive : ∀ index, ¬ graph.Reads index index) :
    (∀ index ∈ order, (order.foldl retype graph).TypedAt index) ∧
    ∀ index, index ∉ order → graph.TypedAt index →
      (∀ other ∈ order, ¬ graph.Reads index other) →
        (order.foldl retype graph).TypedAt index := by
  induction order generalizing graph with
  | nil => simp
  | cons first rest ih =>
      have parts := List.pairwise_cons.mp before
      have same : (graph.retype first).topology = graph.topology :=
        topology_of_outlines (graph.retype_outlines first)
      obtain ⟨inner, outer⟩ := @ih (graph.retype first)
        (by simpa [Reads, same] using parts.2) (by simpa [Reads, same] using irreflexive)
      have firstTyped := graph.retype_typedAt (irreflexive first)
      rw [List.foldl_cons]
      refine ⟨?_, ?_⟩
      · intro index member
        by_cases later : index ∈ rest
        · exact inner index later
        · have equal : index = first := (List.mem_cons.mp member).resolve_right later
          subst equal
          exact outer index later firstTyped (by simpa [Reads, same] using parts.1)
      · intro index missing typed apart
        simp only [List.mem_cons, not_or] at missing
        apply outer index missing.2
        · exact graph.retype_typedAt_other (Ne.symm missing.1) (apart first (by simp)) typed
        · intro other member
          simpa [Reads, same] using apart other (by simp [member])

end RetypeAll

theorem restamp_nodes (index other : Nat) :
    (graph.restamp index).nodes[other]? = graph.nodes[other]?.map fun node =>
      if index = other then { node with revision := graph.lastRevision + 1 } else node := by
  simp only [restamp, modify, List.getElem?_modify, Option.map_eq_map]

@[simp] theorem restamp_registry (index : Nat) :
    (graph.restamp index).registry = graph.registry := rfl

@[simp] theorem restamp_nextId (index : Nat) : (graph.restamp index).nextId = graph.nextId := rfl

@[simp] theorem restamp_lastRevision (index : Nat) :
    (graph.restamp index).lastRevision = graph.lastRevision + 1 := rfl

@[simp] theorem restamp_outlines (index : Nat) :
    (graph.restamp index).outlines = graph.outlines := by
  apply List.ext_getElem?
  intro other
  simp only [outlines, List.getElem?_map, restamp_nodes, Option.map_map]
  congr 1
  funext node
  simp only [Function.comp_apply]
  split <;> rfl

@[simp] theorem restamp_tys (index : Nat) : (graph.restamp index).tys = graph.tys := by
  apply List.ext_getElem?
  intro other
  simp only [tys, List.getElem?_map, restamp_nodes, Option.map_map]
  congr 1
  funext node
  simp only [Function.comp_apply]
  split <;> rfl

theorem ty?_of_tys {left right : Graph} (same : left.tys = right.tys) (index : Nat) :
    left.ty? index = right.ty? index := by
  have entry := congrArg (·[index]?) same
  simpa [tys, ty?] using entry

theorem typedAt_of_same {left right : Graph} (registry : left.registry = right.registry)
    (outlines : left.outlines = right.outlines) (tys : left.tys = right.tys) {index : Nat}
    (typed : right.TypedAt index) : left.TypedAt index := by
  intro node found
  obtain ⟨other, present, equal⟩ := outline_of_outlines outlines found
  have sameTy : node.ty = other.ty := by
    simpa [ty?, found, present] using ty?_of_tys tys index
  have parts : other.params = node.params ∧ other.slots = node.slots := by
    simp only [Node.outline, Outline.mk.injEq] at equal
    exact ⟨equal.2.2.1, equal.2.2.2⟩
  rw [sameTy, typed other present, parts.1, parts.2]
  exact infer_congr registry.symm index node.params fun target _ => (ty?_of_tys tys target).symm

section RestampAll

variable {graph} (order : List Nat)

@[simp] theorem foldl_restamp_registry :
    (order.foldl restamp graph).registry = graph.registry := by
  induction order generalizing graph with
  | nil => rfl
  | cons index rest ih => simp [ih]

@[simp] theorem foldl_restamp_nextId : (order.foldl restamp graph).nextId = graph.nextId := by
  induction order generalizing graph with
  | nil => rfl
  | cons index rest ih => simp [ih]

@[simp] theorem foldl_restamp_outlines :
    (order.foldl restamp graph).outlines = graph.outlines := by
  induction order generalizing graph with
  | nil => rfl
  | cons index rest ih => simp [ih]

@[simp] theorem foldl_restamp_tys : (order.foldl restamp graph).tys = graph.tys := by
  induction order generalizing graph with
  | nil => rfl
  | cons index rest ih => simp [ih]

@[simp] theorem foldl_restamp_lastRevision :
    (order.foldl restamp graph).lastRevision = graph.lastRevision + order.length := by
  induction order generalizing graph with
  | nil => rfl
  | cons index rest ih =>
      simp only [List.foldl_cons, ih, restamp_lastRevision, List.length_cons]
      omega

theorem foldl_restamp_nodes (unique : order.Nodup) (other : Nat) :
    (order.foldl restamp graph).nodes[other]? = graph.nodes[other]?.map fun node =>
      if other ∈ order then { node with revision := graph.lastRevision + 1 + order.idxOf other }
      else node := by
  induction order generalizing graph with
  | nil => simp
  | cons index rest ih =>
      have parts := List.nodup_cons.mp unique
      rw [List.foldl_cons, ih parts.2, restamp_nodes, Option.map_map]
      congr 1
      funext node
      simp only [Function.comp_apply, restamp_lastRevision]
      by_cases first : index = other
      · subst first
        simp [parts.1]
      · by_cases later : other ∈ rest
        · simp only [first, later, if_true, if_false, List.mem_cons, or_true,
            List.idxOf_cons_ne rest first]
          congr 1
          omega
        · simp [first, later, Ne.symm first]

end RestampAll

theorem restamp_retype (index other : Nat) :
    (graph.restamp index).retype other = (graph.retype other).restamp index := by
  have nodes : ((graph.restamp index).retype other).nodes =
      ((graph.retype other).restamp index).nodes := by
    apply List.ext_getElem?
    intro position
    simp only [retype_nodes, restamp_nodes, Option.map_map]
    congr 1
    funext node
    have agree : (graph.restamp index).infer other node.params node.slots =
        graph.infer other node.params node.slots :=
      infer_congr (graph.restamp_registry index) other node.params fun target _ =>
        ty?_of_tys (graph.restamp_tys index) target
    simp only [Function.comp_apply, retype_lastRevision]
    by_cases first : index = position
    · by_cases second : other = position
      · rw [if_pos first, if_pos second, if_pos second, if_pos first]
        simp only [agree]
      · rw [if_pos first, if_neg second, if_neg second, if_pos first]
    · by_cases second : other = position
      · rw [if_neg first, if_pos second, if_pos second, if_neg first]
        simp only [agree]
      · rw [if_neg first, if_neg second, if_neg second, if_neg first]
  have ext : ∀ left right : Graph, left.nodes = right.nodes → left.registry = right.registry →
      left.name = right.name → left.nextId = right.nextId →
      left.lastRevision = right.lastRevision → left = right := by
    rintro ⟨_, _, _, _, _⟩ ⟨_, _, _, _, _⟩ rfl rfl rfl rfl rfl
    rfl
  refine ext _ _ nodes ?_ ?_ ?_ ?_
  · simp
  · rw [retype_name]
    exact (graph.retype_name other).symm
  · simp
  · simp

theorem invalidate_eq (roots : List Nat) :
    graph.invalidate roots =
      (graph.affectedBy roots).foldl restamp ((graph.affectedBy roots).foldl retype graph) := by
  have swap : ∀ (order : List Nat) (index : Nat) (graph : Graph),
      order.foldl retype (graph.restamp index) = (order.foldl retype graph).restamp index := by
    intro order index
    induction order with
    | nil => exact fun graph => rfl
    | cons first rest ih =>
        intro graph
        rw [List.foldl_cons, List.foldl_cons, restamp_retype, ih]
  rw [invalidate]
  generalize graph.affectedBy roots = order
  induction order generalizing graph with
  | nil => rfl
  | cons first rest ih =>
      rw [List.foldl_cons, List.foldl_cons, List.foldl_cons, ih, swap]

section Acyclic

variable {graph} (acyclic : graph.topology.Acyclic)

include acyclic

theorem isOrder_evaluationOrder : graph.topology.IsOrder graph.evaluationOrder := by
  obtain ⟨order, found, ordered⟩ := acyclic.sort_ok graph.mirrored
  simpa [evaluationOrder, found] using ordered

theorem mem_affectedBy (roots : List Nat) (index : Nat) :
    index ∈ graph.affectedBy roots ↔
      index < graph.count ∧ ∃ root ∈ roots, index = root ∨ graph.Reaches index root := by
  simp only [affectedBy, List.mem_filter, (isOrder_evaluationOrder acyclic).mem_iff,
    topology_count, List.contains_iff_mem, List.mem_append, List.mem_flatMap,
    Topology.mem_descendantsOf graph.mirrored]
  constructor
  · rintro ⟨bound, member | ⟨root, member, _, path⟩⟩
    · exact ⟨bound, index, member, Or.inl rfl⟩
    · exact ⟨bound, root, member, Or.inr path⟩
  · rintro ⟨bound, root, member, same | path⟩
    · exact ⟨bound, Or.inl (same ▸ member)⟩
    · by_cases same : index = root
      · exact ⟨bound, Or.inl (same ▸ member)⟩
      · exact ⟨bound, Or.inr ⟨root, member, same, path⟩⟩

theorem nodup_affectedBy (roots : List Nat) : (graph.affectedBy roots).Nodup :=
  (isOrder_evaluationOrder acyclic).nodup.filter _

theorem affectedBy_closed {roots : List Nat} {reader target : Nat}
    (member : target ∈ graph.affectedBy roots) (reads : graph.Reads reader target) :
    reader ∈ graph.affectedBy roots := by
  rw [mem_affectedBy acyclic] at member ⊢
  obtain ⟨_, root, isRoot, place⟩ := member
  have bound := (graph.mirrored.bound reads).1
  rw [topology_count] at bound
  refine ⟨bound, root, isRoot, Or.inr ?_⟩
  rcases place with same | path
  · subst same
    exact Relation.TransGen.single reads
  · exact Relation.TransGen.head reads path

theorem foldl_affectedBy_typedAt (roots : List Nat)
    (typed : ∀ index, index ∉ graph.affectedBy roots → graph.TypedAt index) :
    ((graph.affectedBy roots).foldl retype graph).Typed := by
  have ordered := isOrder_evaluationOrder acyclic
  obtain ⟨inner, outer⟩ := @foldl_retype_typedAt graph (graph.affectedBy roots)
    (ordered.before.filter _) ordered.irreflexive
  intro index
  by_cases member : index ∈ graph.affectedBy roots
  · exact inner index member
  · exact outer index member (typed index member) fun other affected reads =>
      member (affectedBy_closed acyclic affected reads)

theorem invalidate_typed (roots : List Nat)
    (typed : ∀ index, index ∉ graph.affectedBy roots → graph.TypedAt index) :
    (graph.invalidate roots).Typed := by
  rw [invalidate_eq]
  intro index
  exact typedAt_of_same (by simp) (by simp) (by simp)
    (foldl_affectedBy_typedAt acyclic roots typed index)

theorem retypeAll_typed : graph.retypeAll.Typed := by
  have ordered := isOrder_evaluationOrder acyclic
  obtain ⟨inner, _⟩ := @foldl_retype_typedAt graph graph.evaluationOrder
    ordered.before ordered.irreflexive
  intro index
  by_cases bound : index < graph.count
  · exact inner index ((ordered.mem_iff index).mpr (by simpa using bound))
  · intro node found
    have missing : graph.count = graph.retypeAll.count :=
      count_of_outlines (foldl_retype_outlines _).symm
    have outside : graph.retypeAll.nodes[index]? = none := by
      rw [List.getElem?_eq_none_iff]
      change graph.retypeAll.count ≤ index
      omega
    rw [outside] at found
    simp at found

end Acyclic

end Graph

end NodeGraph
