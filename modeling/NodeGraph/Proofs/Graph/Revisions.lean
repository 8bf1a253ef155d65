import NodeGraph.Proofs.Graph.Typing

/-!
Revisions. An accepted edit gives new revisions to exactly the nodes whose value it may change, and
this set is closed under reading: a node that keeps its revision reads only nodes that keep theirs.
So whatever carries an old revision stands on the same nodes as before, however much was edited
meanwhile.
-/

namespace NodeGraph.Graph

variable {graph edited : Graph} {origin : Nat → Nat} {fresh : Nat → Prop}

/-- Every node has a revision of its own, given before. -/
structure Stamped (graph : Graph) : Prop where
  bound : ∀ {position : Nat} {node : Node}, graph.nodes[position]? = some node →
    node.revision ≤ graph.lastRevision
  distinct : ∀ {left right : Nat} {leftNode rightNode : Node},
    graph.nodes[left]? = some leftNode → graph.nodes[right]? = some rightNode →
      leftNode.revision = rightNode.revision → left = right

/-- Nodes that are not fresh stand as they stood at their origin; the fresh ones have new revisions
and are all that reads one of them. -/
structure Keeps (graph : Graph) (origin : Nat → Nat) (fresh : Nat → Prop) (edited : Graph) :
    Prop where
  registry : edited.registry = graph.registry
  lastRevision : graph.lastRevision ≤ edited.lastRevision
  injective : Function.Injective origin
  old : ∀ {position : Nat} {node : Node}, edited.nodes[position]? = some node →
    ¬ fresh position → ∃ before, graph.nodes[origin position]? = some before ∧
      before.id = node.id ∧ before.revision = node.revision ∧ before.params = node.params ∧
      before.slots = node.slots.map (Option.map origin)
  new : ∀ {position : Nat} {node : Node}, edited.nodes[position]? = some node →
    fresh position → graph.lastRevision < node.revision ∧ node.revision ≤ edited.lastRevision
  distinct : ∀ {left right : Nat} {leftNode rightNode : Node},
    edited.nodes[left]? = some leftNode → edited.nodes[right]? = some rightNode →
      fresh left → fresh right → leftNode.revision = rightNode.revision → left = right
  closed : ∀ {reader target : Nat}, edited.Reads reader target → fresh target → fresh reader
  identity : ∀ {position : Nat} {node : Node}, edited.nodes[position]? = some node →
    (∃ before, graph.nodes[origin position]? = some before ∧ before.id = node.id) ∨
      graph.nextId ≤ node.id

theorem Stamped.nodup (stamped : graph.Stamped) : graph.revisions.Nodup := by
  rw [revisions, List.Nodup, List.pairwise_iff_getElem]
  intro left right leftInside rightInside less same
  rw [List.length_map] at leftInside rightInside
  rw [List.getElem_map, List.getElem_map] at same
  have equal := stamped.distinct (List.getElem?_eq_getElem leftInside)
    (List.getElem?_eq_getElem rightInside) same
  omega

theorem Stamped.of_mem (stamped : graph.Stamped) (node : Node) (member : node ∈ graph.nodes) :
    node.revision ≤ graph.lastRevision := by
  obtain ⟨position, found⟩ := List.mem_iff_getElem?.mp member
  exact stamped.bound found

theorem Keeps.stamped (keeps : graph.Keeps origin fresh edited) (stamped : graph.Stamped) :
    edited.Stamped where
  bound := by
    intro position node found
    by_cases isFresh : fresh position
    · exact (keeps.new found isFresh).2
    · obtain ⟨before, present, _, revision, _, _⟩ := keeps.old found isFresh
      have small := stamped.bound present
      have grown := keeps.lastRevision
      omega
  distinct := by
    -- A fresh revision is larger than every one that was kept.
    have apart : ∀ {left right : Nat} {leftNode rightNode : Node},
        edited.nodes[left]? = some leftNode → edited.nodes[right]? = some rightNode →
          fresh left → ¬ fresh right → leftNode.revision ≠ rightNode.revision := by
      intro left right leftNode rightNode leftFound rightFound isFresh isOld
      obtain ⟨before, present, _, revision, _, _⟩ := keeps.old rightFound isOld
      have small := stamped.bound present
      have large := (keeps.new leftFound isFresh).1
      omega
    intro left right leftNode rightNode leftFound rightFound same
    by_cases leftFresh : fresh left
    · by_cases rightFresh : fresh right
      · exact keeps.distinct leftFound rightFound leftFresh rightFresh same
      · exact absurd same (apart leftFound rightFound leftFresh rightFresh)
    · by_cases rightFresh : fresh right
      · exact absurd same.symm (apart rightFound leftFound rightFresh leftFresh)
      · obtain ⟨leftBefore, leftPresent, _, leftRevision, _⟩ := keeps.old leftFound leftFresh
        obtain ⟨rightBefore, rightPresent, _, rightRevision, _⟩ := keeps.old rightFound rightFresh
        exact keeps.injective (stamped.distinct leftPresent rightPresent
          (by rw [leftRevision, rightRevision, same]))

theorem passes_nodes {bare : Graph} {order affected : List Nat} (unique : affected.Nodup)
    {position : Nat} {node : Node}
    (found : (affected.foldl restamp (order.foldl retype bare)).nodes[position]? = some node) :
    ∃ before, bare.nodes[position]? = some before ∧ node.outline = before.outline ∧
      node.revision = if position ∈ affected
        then bare.lastRevision + 1 + affected.idxOf position else before.revision := by
  rw [foldl_restamp_nodes affected unique] at found
  obtain ⟨typed, present, same⟩ := Option.map_eq_some_iff.mp found
  have outlines : (order.foldl retype bare).outlines = bare.outlines := foldl_retype_outlines order
  obtain ⟨before, there, outline⟩ := outline_of_outlines outlines present
  have revision := revision_of_revisions (foldl_retype_revisions order) present there
  refine ⟨before, there, ?_, ?_⟩
  · rw [outline, ← same]
    split <;> rfl
  · rw [← same]
    split
    · simp
    · exact revision.symm

theorem keeps_of_passes {bare : Graph} {order affected : List Nat} (unique : affected.Nodup)
    (registry : bare.registry = graph.registry)
    (lastRevision : bare.lastRevision = graph.lastRevision)
    (injective : Function.Injective origin)
    (place : ∀ {position : Nat} {node : Node}, bare.nodes[position]? = some node →
      (fresh position ↔ position ∈ affected))
    (old : ∀ {position : Nat} {node : Node}, bare.nodes[position]? = some node →
      ¬ fresh position → ∃ before, graph.nodes[origin position]? = some before ∧
        before.id = node.id ∧ before.revision = node.revision ∧ before.params = node.params ∧
        before.slots = node.slots.map (Option.map origin))
    (closed : ∀ {reader target : Nat}, bare.Reads reader target → fresh target → fresh reader)
    (identity : ∀ {position : Nat} {node : Node}, bare.nodes[position]? = some node →
      (∃ before, graph.nodes[origin position]? = some before ∧ before.id = node.id) ∨
        graph.nextId ≤ node.id) :
    graph.Keeps origin fresh (affected.foldl restamp (order.foldl retype bare)) where
  registry := by simp [registry]
  lastRevision := by
    simp only [foldl_restamp_lastRevision, foldl_retype_lastRevision, lastRevision]
    omega
  injective := injective
  old := by
    intro position node found isOld
    obtain ⟨middle, there, outline, revision⟩ := passes_nodes unique found
    rw [if_neg (fun member => isOld ((place there).mpr member))] at revision
    obtain ⟨before, present, id, stamp, params, slots⟩ := old there isOld
    simp only [Node.outline, Outline.mk.injEq] at outline
    refine ⟨before, present, id.trans outline.1.symm, stamp.trans revision.symm,
      params.trans outline.2.2.1.symm, ?_⟩
    rw [slots, outline.2.2.2]
  new := by
    intro position node found isFresh
    obtain ⟨middle, there, _, revision⟩ := passes_nodes unique found
    have member := (place there).mp isFresh
    have inside := List.idxOf_lt_length_iff.mpr member
    rw [if_pos member] at revision
    simp only [foldl_restamp_lastRevision, foldl_retype_lastRevision]
    omega
  distinct := by
    intro left right leftNode rightNode leftFound rightFound leftFresh rightFresh same
    obtain ⟨_, leftThere, _, leftRevision⟩ := passes_nodes unique leftFound
    obtain ⟨_, rightThere, _, rightRevision⟩ := passes_nodes unique rightFound
    have leftMember := (place leftThere).mp leftFresh
    have rightMember := (place rightThere).mp rightFresh
    rw [if_pos leftMember] at leftRevision
    rw [if_pos rightMember] at rightRevision
    exact (List.idxOf_inj leftMember).mp (by omega)
  closed := by
    intro reader target reads
    refine closed ?_
    rw [Reads, @topology_of_outlines _ bare (by simp)] at reads
    exact reads
  identity := by
    intro position node found
    obtain ⟨middle, there, outline, _⟩ := passes_nodes unique found
    have same : node.id = middle.id := congrArg Outline.id outline
    rw [same]
    exact identity there

theorem Keeps.unchanged {edited : Graph} (none : ∀ position, ¬ fresh position)
    (registry : edited.registry = graph.registry)
    (lastRevision : edited.lastRevision = graph.lastRevision)
    (old : ∀ {position : Nat} {node : Node}, edited.nodes[position]? = some node →
      ∃ before, graph.nodes[position]? = some before ∧ before.id = node.id ∧
        before.revision = node.revision ∧ before.params = node.params ∧
        before.slots = node.slots) : graph.Keeps id fresh edited where
  registry := registry
  lastRevision := Nat.le_of_eq lastRevision.symm
  injective := Function.injective_id
  old := by
    intro position node found _
    obtain ⟨before, present, id, revision, params, slots⟩ := old found
    exact ⟨before, present, id, revision, params, by simpa using slots⟩
  new := fun _ isFresh => absurd isFresh (none _)
  distinct := fun _ _ isFresh => absurd isFresh (none _)
  closed := fun _ isFresh => absurd isFresh (none _)
  identity := by
    intro position node found
    obtain ⟨before, present, id, _⟩ := old found
    exact Or.inl ⟨before, present, id⟩

theorem keeps_relabelled (index : Nat) (label : Option String)
    (none : ∀ position, ¬ fresh position) :
    graph.Keeps id fresh (graph.relabelled index label) := by
  refine .unchanged none rfl rfl fun found => ?_
  rw [relabelled_nodes] at found
  obtain ⟨before, present, same⟩ := Option.map_eq_some_iff.mp found
  refine ⟨before, present, ?_⟩
  rw [← same]
  split <;> simp

theorem keeps_appended (wellFormed : graph.WellFormed) (params : Params) (ty : Ty)
    (place : ∀ position, fresh position ↔ position = graph.count) :
    graph.Keeps id fresh (graph.appended params ty) where
  registry := rfl
  lastRevision := Nat.le_succ _
  injective := Function.injective_id
  old := by
    intro position node found isOld
    rw [appended_nodes, if_neg (fun last => isOld ((place position).mpr last))] at found
    exact ⟨node, found, rfl, rfl, rfl, by simp⟩
  new := by
    intro position node found isFresh
    rw [appended_nodes, if_pos ((place position).mp isFresh)] at found
    cases found
    exact ⟨Nat.lt_succ_self _, Nat.le_refl _⟩
  distinct := by
    intro left right _ _ _ _ leftFresh rightFresh _
    rw [(place left).mp leftFresh, (place right).mp rightFresh]
  closed := by
    intro reader target reads isFresh
    rw [place] at isFresh
    obtain ⟨_, node, found, mentioned⟩ := (reads_iff _ _ _).mp reads
    rw [appended_nodes] at found
    split at found
    · cases found
      simp at mentioned
    · have bound := (wellFormed.fits found).bound target mentioned
      omega
  identity := by
    intro position node found
    rw [appended_nodes] at found
    split at found
    · cases found
      exact Or.inr (Nat.le_refl _)
    · exact Or.inl ⟨node, found, rfl⟩

theorem keeps_rewritten {index : Nat} {params : Params} {slots : List (Option Nat)}
    {ty : Except NodeTypeError Ty} (wellFormed : (graph.rewritten index params slots ty).WellFormed)
    (place : ∀ position, fresh position ↔ position = index ∨
      ((graph.rewritten index params slots ty).invalidate [index]).Reaches position index) :
    graph.Keeps id fresh ((graph.rewritten index params slots ty).invalidate [index]) := by
  have acyclic := wellFormed.acyclic
  have topology : ((graph.rewritten index params slots ty).invalidate [index]).topology =
      (graph.rewritten index params slots ty).topology :=
    topology_of_outlines (invalidate_outlines _)
  simp only [Reaches, topology] at place
  rw [invalidate_eq]
  refine keeps_of_passes (nodup_affectedBy acyclic _) rfl rfl Function.injective_id ?_ ?_ ?_ ?_
  · intro position node found
    have bound := bound_of_found found
    rw [place, mem_affectedBy acyclic]
    simp only [List.mem_singleton, exists_eq_left, bound, true_and]
  · intro position node found isOld
    rw [place, not_or] at isOld
    rw [rewritten_nodes] at found
    obtain ⟨before, present, same⟩ := Option.map_eq_some_iff.mp found
    rw [if_neg (Ne.symm isOld.1)] at same
    exact ⟨before, present, by simp [same]⟩
  · intro reader target reads isFresh
    rw [place] at isFresh ⊢
    rcases isFresh with same | path
    · exact Or.inr (Relation.TransGen.single (same ▸ reads))
    · exact Or.inr (Relation.TransGen.head reads path)
  · intro position node found
    rw [rewritten_nodes] at found
    obtain ⟨before, present, same⟩ := Option.map_eq_some_iff.mp found
    refine Or.inl ⟨before, present, ?_⟩
    rw [← same]
    split <;> rfl

theorem placeBefore_injective (index : Nat) : Function.Injective (placeBefore index) := by
  intro left right same
  simp only [placeBefore] at same
  split at same <;> split at same <;> omega

theorem placeAfter_placeBefore (index position : Nat) :
    placeAfter index (placeBefore index position) = position := by
  simp only [placeAfter, placeBefore]
  split <;> split <;> omega

theorem placeBefore_placeAfter {index position : Nat} (other : position ≠ index) :
    placeBefore index (placeAfter index position) = position := by
  simp only [placeBefore, placeAfter]
  split <;> split <;> omega

theorem placeAfter_lt {index position bound : Nat} (other : position ≠ index)
    (inside : position < bound + 1) (removed : index < bound + 1) :
    placeAfter index position < bound := by
  rw [placeAfter]
  split <;> omega

theorem keeps_removed (wellFormed : graph.WellFormed) {index : Nat} (inside : index < graph.count)
    (place : ∀ position, fresh position ↔ ∃ root ∈ graph.detachedBy index,
      position = root ∨ (graph.removed index).Reaches position root) :
    graph.Keeps (placeBefore index) fresh (graph.removed index) := by
  have acyclic : (graph.without index).retypeAll.topology.Acyclic := by
    rw [topology_of_outlines retypeAll_outlines]
    exact (wellFormed.without inside).acyclic
  have topology : (graph.removed index).topology = (graph.without index).retypeAll.topology := by
    rw [topology_of_outlines (removed_outlines index), topology_of_outlines retypeAll_outlines]
  simp only [Reaches, topology] at place
  refine keeps_of_passes (nodup_affectedBy acyclic _) rfl rfl (placeBefore_injective index)
    ?_ ?_ ?_ ?_
  · intro position node found
    have bound : position < (graph.without index).retypeAll.count := by
      rw [count_of_outlines retypeAll_outlines]
      exact bound_of_found found
    rw [place, mem_affectedBy acyclic]
    simp [bound, Reaches]
  · intro position node found isOld
    rw [without_nodes] at found
    obtain ⟨before, present, same⟩ := Option.map_eq_some_iff.mp found
    have unread : some index ∉ before.slots := by
      intro mentioned
      refine isOld ((place position).mpr ⟨position, ?_, Or.inl rfl⟩)
      refine List.mem_map.mpr ⟨placeBefore index position, ?_, placeAfter_placeBefore _ _⟩
      exact (graph.mirrored.transposed _ _).mpr (wellFormed.reads present mentioned)
    have moved : ∀ slot ∈ before.slots,
        (slotAfterRemoval index slot).map (placeBefore index) = slot := by
      intro slot member
      cases slot with
      | none => rfl
      | some target =>
          have other : target ≠ index := fun same => unread (same ▸ member)
          simp only [slotAfterRemoval, if_neg other]
          split
          · simp only [Option.map_some, placeBefore, Option.some.injEq]
            split <;> omega
          · simp only [Option.map_some, placeBefore, Option.some.injEq]
            split <;> omega
    have trimmed : trimSlots (before.slots.map (slotAfterRemoval index)) =
        before.slots.map (slotAfterRemoval index) := by
      refine trimSlots_map _ (wellFormed.fits present).trimmed fun slot member => ?_
      rw [← Option.isSome_map, moved slot member]
    subst same
    refine ⟨before, present, rfl, rfl, rfl, ?_⟩
    rw [trimmed, List.map_map]
    exact ((List.map_congr_left moved).trans (List.map_id' _)).symm
  · intro reader target reads isFresh
    rw [Reads, ← @topology_of_outlines _ (graph.without index) retypeAll_outlines] at reads
    obtain ⟨root, member, above⟩ := (place target).mp isFresh
    refine (place reader).mpr ⟨root, member, Or.inr ?_⟩
    rcases above with same | path
    · exact Relation.TransGen.single (same ▸ reads)
    · exact Relation.TransGen.head reads path
  · intro position node found
    rw [without_nodes] at found
    obtain ⟨before, present, same⟩ := Option.map_eq_some_iff.mp found
    exact Or.inl ⟨before, present, by rw [← same]⟩

theorem keeps_copied (wellFormed : graph.WellFormed) {root : Nat} (inside : root < graph.count)
    (place : ∀ position, fresh position ↔
      graph.count ≤ position ∧ position < (graph.copied root).count) :
    graph.Keeps id fresh (graph.copied root) := by
  have closed := closed_lineageOf inside
  rw [copied] at place ⊢
  generalize graph.topology.lineageOf root = closure at closed place ⊢
  have extended := wellFormed.extended closed
  have acyclic := extended.acyclic
  simp only [count_of_outlines (invalidate_outlines _), extended_count closed] at place
  -- The nodes from before read no copy.
  have behind : ∀ {reader target : Nat}, (graph.extended closure).Reads reader target →
      graph.count ≤ target → graph.count ≤ reader := by
    intro reader target reads copy
    refine Nat.le_of_not_lt fun old => ?_
    obtain ⟨_, node, found, mentioned⟩ := (reads_iff _ _ _).mp reads
    rw [extended_old old] at found
    have bound := (wellFormed.fits found).bound target mentioned
    omega
  have reached : ∀ {position start : Nat}, (graph.extended closure).Reaches position start →
      graph.count ≤ start → graph.count ≤ position := by
    intro position start path copy
    induction path with
    | single step => exact behind step copy
    | tail _ step ih => exact ih (behind step copy)
  rw [invalidate_eq]
  refine keeps_of_passes (nodup_affectedBy acyclic _) extended_registry extended_lastRevision
    Function.injective_id ?_ ?_ ?_ ?_
  · intro position node found
    have bound := bound_of_found found
    rw [extended_count closed] at bound
    rw [place, mem_affectedBy acyclic, extended_count closed]
    constructor
    · rintro ⟨copy, _⟩
      refine ⟨bound, position, List.mem_map.mpr ⟨position - graph.count, ?_, ?_⟩, Or.inl rfl⟩
      · exact List.mem_range.mpr (by omega)
      · omega
    · rintro ⟨_, start, member, above⟩
      obtain ⟨offset, _, shape⟩ := List.mem_map.mp member
      refine ⟨?_, bound⟩
      rcases above with same | path
      · omega
      · exact reached path (by omega)
  · intro position node found isOld
    rw [place] at isOld
    have bound := bound_of_found found
    rw [extended_count closed] at bound
    rw [extended_old (by omega)] at found
    exact ⟨node, found, rfl, rfl, rfl, by simp⟩
  · intro reader target reads isFresh
    rw [place] at isFresh ⊢
    have bound := (mirrored _).bound reads
    rw [topology_count, extended_count closed] at bound
    exact ⟨behind reads isFresh.1, bound.1⟩
  · intro position node found
    rcases extended_nodes closed found with old | copy
    · exact Or.inl ⟨node, old, rfl⟩
    · obtain ⟨offset, _, _, _, _, _, shape⟩ := copy
      rw [shape]
      exact Or.inr (Nat.le_add_right _ _)

theorem WellFormed.keeps (wellFormed : graph.WellFormed)
    (change : Change graph origin fresh edited) : graph.Keeps origin fresh edited := by
  cases change with
  | append named typed place => exact keeps_appended wellFormed _ _ place
  | relabel place => exact keeps_relabelled _ _ place
  | rewrite found named trimmed free place =>
      exact keeps_rewritten (wellFormed.rewritten _ named trimmed free) place
  | remove bound place => exact keeps_removed wellFormed bound place
  | copy bound place => exact keeps_copied wellFormed bound place
  | clear place =>
      refine .unchanged place rfl rfl fun found => ?_
      cases found
  | keep place => exact .unchanged place rfl rfl fun found => ⟨_, found, rfl, rfl, rfl, rfl⟩

theorem Stamped.retypeAll (stamped : graph.Stamped) : graph.retypeAll.Stamped := by
  have old : ∀ {position : Nat} {node : Node}, graph.retypeAll.nodes[position]? = some node →
      ∃ before, graph.nodes[position]? = some before ∧ before.revision = node.revision := by
    intro position node found
    obtain ⟨before, present, _⟩ := outline_of_outlines retypeAll_outlines found
    exact ⟨before, present, revision_of_revisions (foldl_retype_revisions _) found present⟩
  refine ⟨?_, ?_⟩
  · intro position node found
    obtain ⟨before, present, same⟩ := old found
    rw [← same, Graph.retypeAll, foldl_retype_lastRevision]
    exact stamped.bound present
  · intro left right leftNode rightNode leftFound rightFound same
    obtain ⟨leftBefore, leftPresent, leftSame⟩ := old leftFound
    obtain ⟨rightBefore, rightPresent, rightSame⟩ := old rightFound
    exact stamped.distinct leftPresent rightPresent (by rw [leftSame, rightSame, same])

theorem stamped_filled {stored : StoredGraph} {registry : Registry} {nextId : Nat} :
    (filled stored registry nextId).Stamped := by
  refine ⟨?_, ?_⟩
  · intro position node found
    obtain ⟨source, present, shape⟩ := filled_nodes found
    have inside := (List.getElem?_eq_some_iff.mp present).1
    rw [shape, filled_eq]
    exact inside
  · intro left right leftNode rightNode leftFound rightFound same
    obtain ⟨_, _, leftShape⟩ := filled_nodes leftFound
    obtain ⟨_, _, rightShape⟩ := filled_nodes rightFound
    rw [leftShape, rightShape] at same
    exact Nat.succ_inj.mp same

theorem Reachable.stamped (reachable : graph.Reachable) : graph.Stamped := by
  induction reachable with
  | empty registry name nextId =>
      refine ⟨fun found => ?_, fun found => ?_⟩ <;> simp [Graph.empty] at found
  | loaded _ accepted =>
      obtain ⟨_, _, shape⟩ := toGraph_ok accepted
      rw [shape]
      exact stamped_filled.retypeAll
  | edited before edit ih =>
      rename_i graph
      cases result : graph.edit edit with
      | error error =>
          rw [after, result]
          exact ih
      | ok edited =>
          rw [after, result]
          exact (before.wellFormed.keeps (before.wellFormed.change result)).stamped ih

def Names (graph : Graph) (reader target : Nat) : Prop :=
  ∃ node, graph.nodes[reader]? = some node ∧ some target ∈ node.slots

theorem WellFormed.names_iff (wellFormed : graph.WellFormed) (reader target : Nat) :
    graph.Names reader target ↔ graph.Reads reader target := by
  rw [reads_iff]
  refine ⟨fun ⟨node, found, mentioned⟩ => ?_, fun ⟨_, named⟩ => named⟩
  exact ⟨(wellFormed.fits found).bound target mentioned, node, found, mentioned⟩

theorem WellFormed.ids_nodup (wellFormed : graph.WellFormed) : (graph.nodes.map Node.id).Nodup := by
  have distinct := wellFormed.distinct
  rwa [outlines, List.map_map] at distinct

/-- Well-formedness is an invariant. After any edits of an empty or a loaded graph, accepted or not,
edges end at nodes and close no cycle, the last slot of a node is connected, every node has an
output and no parameter that could be taken for an input, and both identities and revisions are
all different, the latter never above the last one issued. -/
theorem Reachable.keeps_structure (reachable : graph.Reachable) :
    (∀ reader target, graph.Names reader target → target < graph.count) ∧
    (∀ position, ¬ Relation.TransGen graph.Names position position) ∧
    (∀ node ∈ graph.nodes, node.slots.getLast? ≠ some none ∧
      Expr.outputName ∈ node.params.names ∧
      ∀ name ∈ node.params.names, Expr.inputSlot? name = none) ∧
    (graph.nodes.map Node.id).Nodup ∧ graph.revisions.Nodup ∧
    ∀ node ∈ graph.nodes, node.revision ≤ graph.lastRevision := by
  have wellFormed := reachable.wellFormed
  refine ⟨?_, ?_, ?_, wellFormed.ids_nodup, reachable.stamped.nodup, reachable.stamped.of_mem⟩
  · rintro reader target ⟨node, found, mentioned⟩
    exact (wellFormed.fits found).bound target mentioned
  · intro position path
    refine wellFormed.acyclic position (path.lift id fun reader target => ?_)
    exact (wellFormed.names_iff reader target).mp
  · intro node member
    obtain ⟨position, found⟩ := List.mem_iff_getElem?.mp member
    have fits := wellFormed.fits found
    exact ⟨(trimSlots_eq_self _).mp fits.trimmed, (checkParams_ok_iff _).mp fits.named⟩

/-- The rewired graph, whose reader moved up and whose edge with it, keeps to all of it. -/
theorem rewired_keeps_structure :
    rewired.Reachable ∧ rewired.nodes.map Node.slots = [[], [some 0]] ∧
      (∀ position, ¬ Relation.TransGen rewired.Names position position) ∧
      ∀ reader target, rewired.Names reader target → target < rewired.count := by
  have reachable : rewired.Reachable := (Reachable.empty .empty none 0).run _
  have sound := Reachable.keeps_structure reachable
  exact ⟨reachable, by decide +kernel, sound.2.1, sound.1⟩

end NodeGraph.Graph
