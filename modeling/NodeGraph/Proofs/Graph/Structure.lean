import NodeGraph.Proofs.Graph.Edits

/-!
The structure of graphs. Every change keeps a graph well-formed, and so does loading, hence every
reachable graph is. That no cycle arises is shown by ranks: a change that adds dependencies leaves
room for them above the ranks of the nodes they lead to.
-/

namespace NodeGraph.Graph

variable {graph : Graph}

@[simp] theorem invalidate_outlines (roots : List Nat) :
    (graph.invalidate roots).outlines = graph.outlines := by
  rw [invalidate_eq]
  simp

@[simp] theorem invalidate_nextId (roots : List Nat) :
    (graph.invalidate roots).nextId = graph.nextId := by
  rw [invalidate_eq]
  simp

@[simp] theorem retypeAll_outlines : graph.retypeAll.outlines = graph.outlines :=
  foldl_retype_outlines _

@[simp] theorem retypeAll_nextId : graph.retypeAll.nextId = graph.nextId :=
  foldl_retype_nextId _

@[simp] theorem removed_outlines (index : Nat) :
    (graph.removed index).outlines = (graph.without index).outlines := by
  simp [removed]

@[simp] theorem removed_nextId (index : Nat) : (graph.removed index).nextId = graph.nextId := by
  simp [removed, without]

theorem WellFormed.of_outlines {left right : Graph} (outlines : left.outlines = right.outlines)
    (nextId : left.nextId = right.nextId) (wellFormed : right.WellFormed) : left.WellFormed where
  fits := by
    intro index node found
    obtain ⟨other, present, same⟩ := outline_of_outlines outlines found
    rw [← same, count_of_outlines outlines, nextId]
    exact wellFormed.fits present
  acyclic := by
    rw [topology_of_outlines outlines]
    exact wellFormed.acyclic
  distinct := outlines ▸ wellFormed.distinct

theorem acyclic_of_place {edited : Graph} (place : Nat → Nat)
    (maps : ∀ reader target, edited.Reads reader target → graph.Reads (place reader) (place target))
    (acyclic : graph.topology.Acyclic) : edited.topology.Acyclic := by
  obtain ⟨rank, _, drops⟩ := acyclic.exists_rank graph.mirrored
  exact Topology.acyclic_of_rank (fun node => rank (place node)) fun reader target reads =>
    drops _ _ (maps reader target reads)

/-! ### Adding and labelling -/

theorem appended_outlines (params : Params) (ty : Ty) :
    (graph.appended params ty).outlines = graph.outlines ++ [⟨graph.nextId, none, params, []⟩] := by
  simp [appended, push, outlines, Node.outline]

theorem appended_nodes (params : Params) (ty : Ty) (position : Nat) :
    (graph.appended params ty).nodes[position]? =
      if position = graph.count then
        some ⟨graph.nextId, none, params, [], .ok ty, graph.lastRevision + 1⟩
      else graph.nodes[position]? := by
  have nodes : (graph.appended params ty).nodes =
      graph.nodes ++ [⟨graph.nextId, none, params, [], .ok ty, graph.lastRevision + 1⟩] := rfl
  rw [nodes]
  rcases Nat.lt_trichotomy position graph.count with less | same | more
  · rw [if_neg (Nat.ne_of_lt less), List.getElem?_append_left less]
  · rw [if_pos same, same]
    exact List.getElem?_concat_length
  · rw [if_neg (Nat.ne_of_gt more), List.getElem?_eq_none, List.getElem?_eq_none]
    · exact Nat.le_of_lt more
    · rw [List.length_append]
      exact more

theorem WellFormed.appended (wellFormed : graph.WellFormed) {params : Params} {ty : Ty}
    (named : checkParams params = .ok ()) : (graph.appended params ty).WellFormed where
  fits := by
    intro index node found
    have grown : (graph.appended params ty).count = graph.count + 1 := by
      simp [count, Graph.appended, push]
    have next : (graph.appended params ty).nextId = graph.nextId + 1 := rfl
    rw [grown, next]
    rw [appended_nodes] at found
    split at found
    · cases found
      exact ⟨by simp [Node.outline], rfl, named, Nat.lt_succ_self _⟩
    · exact (wellFormed.fits found).mono (Nat.le_succ _) (Nat.le_succ _)
  acyclic := by
    refine acyclic_of_place id ?_ wellFormed.acyclic
    intro reader target reads
    obtain ⟨_, node, found, mentioned⟩ := ((graph.appended params ty).reads_iff _ _).mp reads
    rw [appended_nodes] at found
    split at found
    · cases found
      simp at mentioned
    · exact wellFormed.reads found mentioned
  distinct := by
    rw [appended_outlines, List.map_append]
    refine List.Nodup.append wellFormed.distinct (by simp) ?_
    intro id old new
    obtain ⟨outline, member, same⟩ := List.mem_map.mp old
    obtain ⟨node, present, shape⟩ := List.mem_map.mp member
    obtain ⟨index, found⟩ := List.mem_iff_getElem?.mp present
    have fresh : id = graph.nextId := by simpa using new
    have known := (wellFormed.fits found).identified
    rw [shape] at known
    omega

theorem relabelled_nodes (index : Nat) (label : Option String) (position : Nat) :
    (graph.relabelled index label).nodes[position]? = graph.nodes[position]?.map fun node =>
      if index = position then { node with label } else node := by
  simp only [relabelled, modify, List.getElem?_modify, Option.map_eq_map]

theorem WellFormed.relabelled (wellFormed : graph.WellFormed) (index : Nat)
    (label : Option String) : (graph.relabelled index label).WellFormed := by
  have old : ∀ {position : Nat} {node : Node},
      (graph.relabelled index label).nodes[position]? = some node →
        ∃ before, graph.nodes[position]? = some before ∧
          node.outline = ⟨before.id, node.label, before.params, before.slots⟩ := by
    intro position node found
    rw [relabelled_nodes] at found
    obtain ⟨before, present, same⟩ := Option.map_eq_some_iff.mp found
    refine ⟨before, present, ?_⟩
    subst same
    split <;> rfl
  refine ⟨?_, ?_, ?_⟩
  · intro position node found
    obtain ⟨before, present, shape⟩ := old found
    have size : (graph.relabelled index label).count = graph.count := by
      simp [count, Graph.relabelled, modify]
    obtain ⟨bound, trimmed, named, identified⟩ := wellFormed.fits present
    rw [size, shape]
    exact ⟨bound, trimmed, named, identified⟩
  · refine acyclic_of_place id ?_ wellFormed.acyclic
    intro reader target reads
    obtain ⟨_, node, found, mentioned⟩ := (reads_iff _ _ _).mp reads
    obtain ⟨before, present, shape⟩ := old found
    have slots : node.slots = before.slots := congrArg Outline.slots shape
    exact wellFormed.reads present (slots ▸ mentioned)
  · have ids : (graph.relabelled index label).outlines.map Outline.id =
        graph.outlines.map Outline.id := by
      apply List.ext_getElem?
      intro position
      simp only [outlines, List.getElem?_map, relabelled_nodes, Option.map_map]
      congr 1
      funext node
      simp only [Function.comp_apply]
      split <;> rfl
    rw [ids]
    exact wellFormed.distinct

/-! ### Rewriting -/

theorem rewritten_nodes (index : Nat) (params : Params) (slots : List (Option Nat))
    (ty : Except NodeTypeError Ty) (position : Nat) :
    (graph.rewritten index params slots ty).nodes[position]? =
      graph.nodes[position]?.map fun node =>
        if index = position then { node with params, slots, ty } else node := by
  simp only [rewritten, modify, List.getElem?_modify, Option.map_eq_map]

@[simp] theorem rewritten_count (index : Nat) (params : Params) (slots : List (Option Nat))
    (ty : Except NodeTypeError Ty) :
    (graph.rewritten index params slots ty).count = graph.count := by
  simp [count, rewritten, modify]

theorem reads_of_rewritten {index : Nat} {params : Params} {slots : List (Option Nat)}
    {ty : Except NodeTypeError Ty} {reader target : Nat}
    (reads : (graph.rewritten index params slots ty).Reads reader target) :
    (reader = index ∧ some target ∈ slots) ∨ (reader ≠ index ∧ graph.Reads reader target) := by
  obtain ⟨bound, node, found, mentioned⟩ := (reads_iff _ _ _).mp reads
  rw [rewritten_count] at bound
  rw [rewritten_nodes] at found
  obtain ⟨before, present, same⟩ := Option.map_eq_some_iff.mp found
  split at same
  · rename_i this
    subst same
    exact Or.inl ⟨this.symm, mentioned⟩
  · rename_i other
    subst same
    exact Or.inr ⟨Ne.symm other, (reads_iff _ _ _).mpr ⟨bound, before, present, mentioned⟩⟩

/-- No cycle arises when the new slots of a node lead to nodes that do not depend on it: those that
do get ranks above all others. -/
theorem rewritten_acyclic (acyclic : graph.topology.Acyclic) {index : Nat} {params : Params}
    {slots : List (Option Nat)} {ty : Except NodeTypeError Ty}
    (free : ∀ target, some target ∈ slots → ¬ (target = index ∨ graph.Reaches target index)) :
    (graph.rewritten index params slots ty).topology.Acyclic := by
  classical
  obtain ⟨rank, small, drops⟩ := acyclic.exists_rank graph.mirrored
  let lifted := fun node => rank node +
    if node = index ∨ graph.Reaches node index then graph.topology.count + 1 else 0
  refine Topology.acyclic_of_rank lifted fun reader target reads => ?_
  rcases reads_of_rewritten reads with ⟨this, mentioned⟩ | ⟨_, old⟩
  · subst this
    have targetSmall := small target
    simp only [lifted, if_neg (free target mentioned), true_or, if_true]
    omega
  · have less := drops reader target old
    by_cases above : target = index ∨ graph.Reaches target index
    · have readerAbove : reader = index ∨ graph.Reaches reader index := by
        rcases above with same | path
        · subst same
          exact Or.inr (Relation.TransGen.single old)
        · exact Or.inr (Relation.TransGen.head old path)
      simp only [lifted, if_pos above, if_pos readerAbove]
      omega
    · simp only [lifted, if_neg above]
      omega

theorem WellFormed.rewritten (wellFormed : graph.WellFormed) {index : Nat} {params : Params}
    {slots : List (Option Nat)} (ty : Except NodeTypeError Ty)
    (named : checkParams params = .ok ()) (trimmed : trimSlots slots = slots)
    (free : ∀ target, some target ∈ slots → target < graph.count ∧
      ¬ (target = index ∨ graph.Reaches target index)) :
    (graph.rewritten index params slots ty).WellFormed where
  fits := by
    intro position node found
    rw [rewritten_count]
    rw [rewritten_nodes] at found
    obtain ⟨before, present, same⟩ := Option.map_eq_some_iff.mp found
    have fits := wellFormed.fits present
    split at same
    · subst same
      exact ⟨fun target mentioned => (free target mentioned).1, trimmed, named, fits.identified⟩
    · subst same
      exact fits
  acyclic := rewritten_acyclic wellFormed.acyclic fun target mentioned => (free target mentioned).2
  distinct := by
    have ids : (graph.rewritten index params slots ty).outlines.map Outline.id =
        graph.outlines.map Outline.id := by
      apply List.ext_getElem?
      intro position
      simp only [outlines, List.getElem?_map, rewritten_nodes, Option.map_map]
      congr 1
      funext node
      simp only [Function.comp_apply]
      split <;> rfl
    rw [ids]
    exact wellFormed.distinct

/-! ### Removing -/

theorem slotAfterRemoval_eq_some (removed : Nat) (slot : Option Nat) (target : Nat) :
    slotAfterRemoval removed slot = some target ↔
      slot = some (placeBefore removed target) := by
  cases slot with
  | none => simp [slotAfterRemoval]
  | some old =>
      simp only [slotAfterRemoval, placeBefore, Option.some.injEq]
      split
      · simp only [reduceCtorEq, false_iff]
        split <;> omega
      · split
        · simp only [Option.some.injEq]
          split <;> omega
        · simp only [Option.some.injEq]
          split <;> omega

theorem without_nodes (index position : Nat) :
    (graph.without index).nodes[position]? =
      graph.nodes[placeBefore index position]?.map fun node =>
        { node with slots := trimSlots (node.slots.map (slotAfterRemoval index)) } := by
  simp only [without, List.getElem?_map, List.getElem?_eraseIdx, placeBefore]
  split <;> rfl

theorem without_count {index : Nat} (bound : index < graph.count) :
    (graph.without index).count + 1 = graph.count := by
  have length : index < graph.nodes.length := bound
  simp only [count, without, List.length_map, List.length_eraseIdx, length, if_true]
  omega

theorem placeBefore_lt {index position bound : Nat}
    (inside : placeBefore index position < bound + 1) (different : index ≤ bound) :
    position < bound := by
  rw [placeBefore] at inside
  split at inside <;> omega

theorem without_mentions {index : Nat} {node : Node} {target : Nat} :
    some target ∈ trimSlots (node.slots.map (slotAfterRemoval index)) ↔
      some (placeBefore index target) ∈ node.slots := by
  simp only [mem_trimSlots, List.mem_map, slotAfterRemoval_eq_some, exists_eq_right]

theorem WellFormed.without (wellFormed : graph.WellFormed) {index : Nat}
    (bound : index < graph.count) : (graph.without index).WellFormed where
  fits := by
    intro position node found
    rw [without_nodes] at found
    obtain ⟨before, present, same⟩ := Option.map_eq_some_iff.mp found
    have fits := wellFormed.fits present
    subst same
    refine ⟨?_, trimSlots_trimSlots _, fits.named, fits.identified⟩
    intro target mentioned
    have inside := fits.bound _ (without_mentions.mp mentioned)
    have size := without_count bound
    exact placeBefore_lt (size ▸ inside) (by omega)
  acyclic := by
    refine acyclic_of_place (placeBefore index) ?_ wellFormed.acyclic
    intro reader target reads
    obtain ⟨_, node, found, mentioned⟩ := (reads_iff _ _ _).mp reads
    rw [without_nodes] at found
    obtain ⟨before, present, same⟩ := Option.map_eq_some_iff.mp found
    subst same
    exact wellFormed.reads present (without_mentions.mp mentioned)
  distinct := by
    have ids : (graph.without index).outlines.map Outline.id =
        (graph.outlines.map Outline.id).eraseIdx index := by
      simp [Graph.without, outlines, Node.outline, Function.comp_def, List.eraseIdx_map]
    rw [ids]
    exact wellFormed.distinct.sublist (List.eraseIdx_sublist _ _)

/-! ### Copying -/

theorem foldl_push (shift : List (Option Nat) → List (Option Nat)) (sources : List Node)
    (graph : Graph) :
    sources.foldl (fun extended node =>
        extended.push node.label node.params (shift node.slots) node.ty 0) graph =
      { graph with
        nodes := graph.nodes ++ sources.mapIdx fun offset node =>
          ⟨graph.nextId + offset, node.label, node.params, shift node.slots, node.ty, 0⟩
        nextId := graph.nextId + sources.length } := by
  induction sources generalizing graph with
  | nil => simp
  | cons first rest ih =>
      rw [List.foldl_cons, ih]
      simp only [push, List.mapIdx_cons, List.append_assoc, List.singleton_append,
        List.length_cons, Nat.add_zero]
      simp only [Nat.add_assoc, Nat.add_comm 1]

structure Closed (graph : Graph) (closure : List Nat) : Prop where
  bound : ∀ position ∈ closure, position < graph.count
  reads : ∀ position ∈ closure, ∀ target, graph.Reads position target → target ∈ closure

theorem lineageOf_eq {root : Nat} (bound : root < graph.count) :
    graph.topology.lineageOf root = root :: graph.topology.ancestorsOf root := by
  rw [Topology.lineageOf, if_pos (by simpa using bound)]

theorem mem_lineageOf {root : Nat} (bound : root < graph.count) (position : Nat) :
    position ∈ graph.topology.lineageOf root ↔ position = root ∨ graph.Reaches root position := by
  rw [lineageOf_eq bound, List.mem_cons, Topology.mem_ancestorsOf]
  constructor
  · rintro (same | ⟨_, path⟩)
    · exact Or.inl same
    · exact Or.inr path
  · rintro (same | path)
    · exact Or.inl same
    · by_cases same : position = root
      · exact Or.inl same
      · exact Or.inr ⟨same, path⟩

theorem closed_lineageOf {root : Nat} (bound : root < graph.count) :
    graph.Closed (graph.topology.lineageOf root) := by
  refine ⟨?_, ?_⟩
  · intro position inside
    rcases (mem_lineageOf bound position).mp inside with same | path
    · exact same ▸ bound
    · simpa using (Topology.Reaches.bound graph.mirrored path).2
  · intro position inside target reads
    rw [mem_lineageOf bound]
    rcases (mem_lineageOf bound position).mp inside with same | path
    · exact Or.inr (Relation.TransGen.single (same ▸ reads))
    · exact Or.inr (Relation.TransGen.tail path reads)

section Copy

variable {closure : List Nat} (closed : graph.Closed closure)

include closed

theorem sources_getElem? (offset : Nat) :
    (closure.filterMap (graph.nodes[·]?))[offset]? =
      closure[offset]?.bind (graph.nodes[·]?) := by
  have bound := closed.bound
  clear closed
  induction closure generalizing offset with
  | nil => simp
  | cons first rest ih =>
      have inside : first < graph.nodes.length := bound first (by simp)
      rw [List.filterMap_cons, List.getElem?_eq_getElem inside]
      cases offset with
      | zero => simp [List.getElem?_eq_getElem inside]
      | succ offset =>
          simpa using ih offset fun position member => bound position (by simp [member])

theorem sources_length : (closure.filterMap (graph.nodes[·]?)).length = closure.length := by
  have bound := closed.bound
  clear closed
  induction closure with
  | nil => simp
  | cons first rest ih =>
      have inside : first < graph.nodes.length := bound first (by simp)
      rw [List.filterMap_cons, List.getElem?_eq_getElem inside]
      simpa using ih fun position member => bound position (by simp [member])

theorem extended_count : (graph.extended closure).count = graph.count + closure.length := by
  rw [extended, foldl_push (List.map (graph.copiedSlot closure))]
  simp [count, sources_length closed]

theorem extended_nextId : (graph.extended closure).nextId = graph.nextId + closure.length := by
  rw [extended, foldl_push (List.map (graph.copiedSlot closure))]
  simp [sources_length closed]

omit closed in
theorem extended_registry : (graph.extended closure).registry = graph.registry := by
  rw [extended, foldl_push (List.map (graph.copiedSlot closure))]

omit closed in
theorem extended_lastRevision :
    (graph.extended closure).lastRevision = graph.lastRevision := by
  rw [extended, foldl_push (List.map (graph.copiedSlot closure))]

omit closed in
theorem extended_old {position : Nat} (inside : position < graph.count) :
    (graph.extended closure).nodes[position]? = graph.nodes[position]? := by
  rw [extended, foldl_push (List.map (graph.copiedSlot closure))]
  exact List.getElem?_append_left inside

theorem extended_nodes {position : Nat} {node : Node}
    (found : (graph.extended closure).nodes[position]? = some node) :
    graph.nodes[position]? = some node ∨
      ∃ offset source original, position = graph.count + offset ∧
        closure[offset]? = some source ∧ graph.nodes[source]? = some original ∧
        node = ⟨graph.nextId + offset, original.label, original.params,
          original.slots.map (graph.copiedSlot closure), original.ty, 0⟩ := by
  rw [extended, foldl_push (List.map (graph.copiedSlot closure))] at found
  simp only [List.getElem?_append] at found
  split at found
  · exact Or.inl found
  · rename_i outside
    rw [List.getElem?_mapIdx, sources_getElem? closed] at found
    obtain ⟨original, present, same⟩ := Option.map_eq_some_iff.mp found
    obtain ⟨source, member, present⟩ := Option.bind_eq_some_iff.mp present
    refine Or.inr ⟨position - graph.nodes.length, source, original, ?_, member, present, same.symm⟩
    rw [count]
    omega

omit closed in
theorem of_copiedSlot {slot : Option Nat} {target : Nat}
    (copied : graph.copiedSlot closure slot = some target) :
    ∃ old offset, slot = some old ∧ closure[offset]? = some old ∧
      target = graph.count + offset := by
  cases slot with
  | none => simp [copiedSlot] at copied
  | some old =>
      cases known : closure.idxOf? old with
      | none => simp [copiedSlot, known] at copied
      | some offset =>
          obtain ⟨inside, same, _⟩ := List.idxOf?_eq_some_iff.mp known
          refine ⟨old, offset, rfl, ?_, ?_⟩
          · rw [List.getElem?_eq_getElem inside, same]
          · simpa [copiedSlot, known, eq_comm] using copied

theorem copiedSlot_isSome {source : Nat} {original : Node} (member : source ∈ closure)
    (present : graph.nodes[source]? = some original)
    (bound : ∀ target, some target ∈ original.slots → target < graph.count)
    {slot : Option Nat} (inside : slot ∈ original.slots) :
    (graph.copiedSlot closure slot).isSome = slot.isSome := by
  cases slot with
  | none => rfl
  | some target =>
      have reads : graph.Reads source target :=
        (reads_iff _ _ _).mpr ⟨bound target inside, original, present, inside⟩
      have reached := closed.reads source member target reads
      obtain ⟨offset, found⟩ := Option.isSome_iff_exists.mp (List.isSome_idxOf?.mpr reached)
      simp [copiedSlot, found]

/-- Where the node stands that a node of an extended graph is or is a copy of. -/
def sourceOf (graph : Graph) (closure : List Nat) (position : Nat) : Nat :=
  if position < graph.count then position else closure.getD (position - graph.count) 0

omit closed in
theorem sourceOf_old {position : Nat} (old : position < graph.count) :
    graph.sourceOf closure position = position := if_pos old

omit closed in
theorem sourceOf_copy {offset source : Nat} (member : closure[offset]? = some source) :
    graph.sourceOf closure (graph.count + offset) = source := by
  have outside : ¬ graph.count + offset < graph.count := by omega
  rw [sourceOf, if_neg outside, Nat.add_sub_cancel_left, List.getD_eq_getElem?_getD, member]
  rfl

theorem WellFormed.extended (wellFormed : graph.WellFormed) :
    (graph.extended closure).WellFormed where
  fits := by
    intro position node found
    rw [extended_count closed, extended_nextId closed]
    rcases extended_nodes closed found with old | copy
    · exact (wellFormed.fits old).mono (by omega) (by omega)
    · obtain ⟨offset, source, original, _, member, present, shape⟩ := copy
      have fits := wellFormed.fits present
      have inside := (List.getElem?_eq_some_iff.mp member).1
      subst shape
      refine ⟨?_, ?_, fits.named, Nat.add_lt_add_left inside _⟩
      · intro target mentioned
        obtain ⟨slot, _, same⟩ := List.mem_map.mp mentioned
        obtain ⟨old, next, _, known, placed⟩ := of_copiedSlot same
        have less := (List.getElem?_eq_some_iff.mp known).1
        omega
      · refine trimSlots_map _ fits.trimmed fun slot mentioned => ?_
        exact copiedSlot_isSome closed (List.mem_of_getElem? member) present fits.bound mentioned
  acyclic := by
    refine acyclic_of_place (graph.sourceOf closure) ?_ wellFormed.acyclic
    intro reader target reads
    obtain ⟨_, node, found, mentioned⟩ := (reads_iff _ _ _).mp reads
    rcases extended_nodes closed found with old | copy
    · have reads := wellFormed.reads old mentioned
      rw [sourceOf_old (bound_of_found old), sourceOf_old ((wellFormed.fits old).bound _ mentioned)]
      exact reads
    · obtain ⟨offset, source, original, place, member, present, shape⟩ := copy
      subst shape
      obtain ⟨slot, inside, same⟩ := List.mem_map.mp mentioned
      obtain ⟨old, next, connected, known, placed⟩ := of_copiedSlot same
      subst connected
      rw [place, placed, sourceOf_copy member, sourceOf_copy known]
      exact wellFormed.reads present inside
  distinct := by
    have ids : (graph.extended closure).outlines.map Outline.id =
        graph.outlines.map Outline.id ++
          (List.range closure.length).map (graph.nextId + ·) := by
      rw [Graph.extended, foldl_push (List.map (graph.copiedSlot closure)), outlines, outlines,
        List.map_append, List.map_append]
      congr 1
      apply List.ext_getElem?
      intro offset
      simp only [List.getElem?_map, List.getElem?_mapIdx, Option.map_map]
      by_cases inside : offset < closure.length
      · have source : offset < (closure.filterMap (graph.nodes[·]?)).length := by
          rw [sources_length closed]
          exact inside
        rw [List.getElem?_eq_getElem source, List.getElem?_range inside]
        rfl
      · rw [List.getElem?_eq_none (by rw [sources_length closed]; omega),
          List.getElem?_eq_none (by simpa using inside)]
        rfl
    rw [ids]
    refine List.Nodup.append wellFormed.distinct ?_ ?_
    · exact List.nodup_range.map fun left right same => Nat.add_left_cancel same
    · intro id old new
      obtain ⟨outline, member, same⟩ := List.mem_map.mp old
      obtain ⟨node, present, shape⟩ := List.mem_map.mp member
      obtain ⟨index, found⟩ := List.mem_iff_getElem?.mp present
      obtain ⟨offset, _, fresh⟩ := List.mem_map.mp new
      have known := (wellFormed.fits found).identified
      rw [shape] at known
      omega

end Copy

/-! ### All changes -/

theorem WellFormed.clear (wellFormed : graph.WellFormed) : graph.clear.WellFormed where
  fits := by
    intro index node found
    simp [Graph.clear] at found
  acyclic := by
    refine acyclic_of_place id ?_ wellFormed.acyclic
    intro reader target reads
    obtain ⟨bound, _⟩ := (reads_iff _ _ _).mp reads
    simp [count, Graph.clear] at bound
  distinct := by simp [Graph.clear, outlines]

theorem WellFormed.invalidate (wellFormed : graph.WellFormed) (roots : List Nat) :
    (graph.invalidate roots).WellFormed :=
  wellFormed.of_outlines (invalidate_outlines roots) (invalidate_nextId roots)

theorem WellFormed.changed (wellFormed : graph.WellFormed) {origin : Nat → Nat}
    {fresh : Nat → Prop} {edited : Graph} (change : Change graph origin fresh edited) :
    edited.WellFormed := by
  cases change with
  | append named typed place => exact wellFormed.appended named
  | relabel place => exact wellFormed.relabelled _ _
  | rewrite found named trimmed free place =>
      exact (wellFormed.rewritten _ named trimmed free).invalidate _
  | remove bound place =>
      exact (wellFormed.without bound).of_outlines (removed_outlines _) (removed_nextId _)
  | copy bound place => exact (wellFormed.extended (closed_lineageOf bound)).invalidate _
  | clear place => exact wellFormed.clear
  | keep place => exact wellFormed

/-! ### Loading -/

def filled (stored : StoredGraph) (registry : Registry) (nextId : Nat) : Graph :=
  stored.nodes.foldl
    (fun graph node =>
      let revision := graph.lastRevision + 1
      { graph.push node.label node.params (trimSlots node.edges) (.ok (.generic 0)) revision with
        lastRevision := revision })
    { Graph.empty registry with name := stored.name, nextId }

theorem filled_eq (stored : StoredGraph) (registry : Registry) (nextId : Nat) :
    filled stored registry nextId =
      { nodes := stored.nodes.mapIdx fun offset node =>
          ⟨nextId + offset, node.label, node.params, trimSlots node.edges, .ok (.generic 0),
            offset + 1⟩
        registry
        name := stored.name
        nextId := nextId + stored.nodes.length
        lastRevision := stored.nodes.length } := by
  have general : ∀ (nodes : List StoredNode) (graph : Graph),
      nodes.foldl
        (fun graph node =>
          let revision := graph.lastRevision + 1
          { graph.push node.label node.params (trimSlots node.edges) (.ok (.generic 0)) revision
            with lastRevision := revision })
        graph =
      { graph with
        nodes := graph.nodes ++ nodes.mapIdx fun offset node =>
          ⟨graph.nextId + offset, node.label, node.params, trimSlots node.edges,
            .ok (.generic 0), graph.lastRevision + offset + 1⟩
        nextId := graph.nextId + nodes.length
        lastRevision := graph.lastRevision + nodes.length } := by
    intro nodes
    induction nodes with
    | nil => simp
    | cons first rest ih =>
        intro graph
        rw [List.foldl_cons, ih]
        simp only [push, List.mapIdx_cons, List.append_assoc, List.singleton_append,
          List.length_cons, Nat.add_zero]
        simp only [Nat.add_assoc, Nat.add_comm 1]
  rw [filled, general]
  simp [Graph.empty]

theorem filled_nodes {stored : StoredGraph} {registry : Registry} {nextId position : Nat}
    {node : Node} (found : (filled stored registry nextId).nodes[position]? = some node) :
    ∃ source, stored.nodes[position]? = some source ∧
      node = ⟨nextId + position, source.label, source.params, trimSlots source.edges,
        .ok (.generic 0), position + 1⟩ := by
  rw [filled_eq] at found
  simp only [List.getElem?_mapIdx] at found
  obtain ⟨source, present, same⟩ := Option.map_eq_some_iff.mp found
  exact ⟨source, present, same.symm⟩

theorem dangling_nil {rows : List (List (Option Nat))} (none : Stage.danglingEdges rows = [])
    {position : Nat} {slots : List (Option Nat)} (found : rows[position]? = some slots)
    {target : Nat} (mentioned : some target ∈ slots) : target < rows.length := by
  refine Nat.lt_of_not_le fun outside => ?_
  obtain ⟨slot, place⟩ := List.mem_iff_getElem?.mp mentioned
  have dangling : ValidationError.danglingEdge position slot target ∈ Stage.danglingEdges rows := by
    rw [Stage.danglingEdges, List.mem_flatMap]
    refine ⟨(slots, position), List.mem_zipIdx_iff_getElem?.mpr found, ?_⟩
    rw [List.mem_filterMap]
    exact ⟨(some target, slot), List.mem_zipIdx_iff_getElem?.mpr place, if_pos outside⟩
  rw [none] at dangling
  exact List.not_mem_nil dangling

theorem danglingEdges_nil {rows : List (List (Option Nat))}
    (bound : ∀ slots ∈ rows, ∀ target, some target ∈ slots → target < rows.length) :
    Stage.danglingEdges rows = [] := by
  rw [Stage.danglingEdges, List.flatMap_eq_nil_iff]
  rintro ⟨slots, index⟩ member
  rw [List.filterMap_eq_nil_iff]
  rintro ⟨slot, position⟩ inside
  have row := List.mem_of_getElem? (List.mem_zipIdx_iff_getElem?.mp member)
  have mentioned := List.mem_of_getElem? (List.mem_zipIdx_iff_getElem?.mp inside)
  cases slot with
  | none => rfl
  | some target => exact if_neg (Nat.not_le.mpr (bound slots row target mentioned))

theorem checkEdges_nonempty (rows : List (List (Option Nat))) :
    Stage.checkEdges rows ≠ .error [] := by
  intro failed
  rw [Stage.checkEdges] at failed
  split at failed
  · split at failed <;> cases failed
  · rename_i nonempty
    exact nonempty (by simpa using failed)

theorem checkEdges_ok {rows : List (List (Option Nat))} (checked : Stage.checkEdges rows = .ok ()) :
    Stage.danglingEdges rows = [] ∧
      (Topology.ofTargets (rows.map fun slots => slots.filterMap fun slot => slot)).Acyclic := by
  rw [Stage.checkEdges] at checked
  split at checked
  · rename_i none
    split at checked
    · rename_i order sorted
      have mirrored := Topology.mirrored_ofTargets
        (rows.map fun slots => slots.filterMap fun slot => slot)
      exact ⟨none, (Topology.isOrder_of_sort mirrored sorted).acyclic mirrored⟩
    · cases checked
  · cases checked

theorem checkEdges_of_acyclic {rows : List (List (Option Nat))}
    (none : Stage.danglingEdges rows = [])
    (acyclic : (Topology.ofTargets
      (rows.map fun slots => slots.filterMap fun slot => slot)).Acyclic) :
    Stage.checkEdges rows = .ok () := by
  obtain ⟨order, sorted, _⟩ := acyclic.sort_ok (Topology.mirrored_ofTargets _)
  rw [Stage.checkEdges, none]
  simp only [sorted]

theorem forM_ok {item failure : Type} {check : item → Except failure Unit} {items : List item}
    (passed : items.forM check = .ok ()) : ∀ item ∈ items, check item = .ok () := by
  induction items with
  | nil => simp
  | cons first rest ih =>
      rw [List.forM] at passed
      obtain ⟨_, now, later⟩ := bind_ok_iff.mp passed
      intro item member
      rcases List.mem_cons.mp member with same | member
      · exact same ▸ now
      · exact ih later item member

theorem forM_of_ok {item failure : Type} {check : item → Except failure Unit} {items : List item}
    (passed : ∀ item ∈ items, check item = .ok ()) : items.forM check = .ok () := by
  induction items with
  | nil => rfl
  | cons first rest ih =>
      obtain ⟨now, later⟩ := List.forall_mem_cons.mp passed
      rw [List.forM, now]
      exact ih later

theorem toGraph_ok {stored : StoredGraph} {registry : Registry} {nextId : Nat} {graph : Graph}
    (accepted : stored.toGraph registry nextId = .ok graph) :
    (∀ node ∈ stored.nodes, checkParams node.params = .ok ()) ∧
      Stage.checkEdges (stored.nodes.map (·.edges)) = .ok () ∧
      graph = (filled stored registry nextId).retypeAll := by
  rw [StoredGraph.toGraph] at accepted
  obtain ⟨_, _, accepted⟩ := bind_ok_iff.mp accepted
  obtain ⟨_, named, accepted⟩ := bind_ok_iff.mp accepted
  simp only at accepted
  refine ⟨?_, ?_⟩
  · intro node member
    have passed := forM_ok named node member
    cases checked : checkParams node.params with
    | ok => rfl
    | error error => simp [checked, Except.mapError] at passed
  · split at accepted
    · cases accepted
    · cases accepted
    · rename_i dangling other
      have clean : Stage.checkEdges (stored.nodes.map (·.edges)) = .ok () := by
        cases checked : Stage.checkEdges (stored.nodes.map (·.edges)) with
        | ok => rfl
        | error errors =>
            cases errors with
            | nil => exact absurd checked (checkEdges_nonempty _)
            | cons error rest => exact absurd checked (other error rest)
      refine ⟨clean, ?_⟩
      cases accepted
      rfl

theorem toGraph_of_checks {stored : StoredGraph} (registry : Registry) (nextId : Nat)
    (version : stored.checkVersion = .ok ())
    (named : ∀ node ∈ stored.nodes, checkParams node.params = .ok ())
    (edges : Stage.checkEdges (stored.nodes.map (·.edges)) = .ok ()) :
    stored.toGraph registry nextId = .ok (filled stored registry nextId).retypeAll := by
  have passed : (stored.nodes.forM fun node =>
      (checkParams node.params).mapError StoreError.graph) = .ok () := by
    refine forM_of_ok fun node member => ?_
    simp only [named node member]
    rfl
  rw [StoredGraph.toGraph, version, passed, edges]
  rfl

theorem wellFormed_filled {stored : StoredGraph} {registry : Registry} {nextId : Nat}
    (named : ∀ node ∈ stored.nodes, checkParams node.params = .ok ())
    (checked : Stage.checkEdges (stored.nodes.map (·.edges)) = .ok ()) :
    (filled stored registry nextId).WellFormed := by
  obtain ⟨none, acyclic⟩ := checkEdges_ok checked
  have size : (filled stored registry nextId).count = stored.nodes.length := by
    simp [filled_eq, count]
  have next : (filled stored registry nextId).nextId = nextId + stored.nodes.length := by
    simp [filled_eq]
  refine ⟨?_, ?_, ?_⟩
  · intro position node found
    obtain ⟨source, present, shape⟩ := filled_nodes found
    have inside := (List.getElem?_eq_some_iff.mp present).1
    have row : (stored.nodes.map (·.edges))[position]? = some source.edges := by
      simp [present]
    subst shape
    refine ⟨?_, trimSlots_trimSlots _, named _ (List.mem_of_getElem? present), ?_⟩
    · intro target mentioned
      simpa [size] using dangling_nil none row ((mem_trimSlots _ _).mp mentioned)
    · rw [next]
      exact Nat.add_lt_add_left inside nextId
  · obtain ⟨rank, _, drops⟩ := acyclic.exists_rank (Topology.mirrored_ofTargets _)
    refine Topology.acyclic_of_rank rank fun reader target reads => ?_
    apply drops
    obtain ⟨bound, node, found, mentioned⟩ := (reads_iff _ _ _).mp reads
    obtain ⟨source, present, shape⟩ := filled_nodes found
    subst shape
    rw [Topology.reads_ofTargets]
    rw [mem_trimSlots] at mentioned
    rw [size] at bound
    simp [present, mentioned, bound]
  · rw [outlines, filled_eq, List.map_map, List.Nodup, List.pairwise_iff_getElem]
    intro left right leftInside rightInside less
    simp [Node.outline]
    omega

theorem Reachable.wellFormed (reachable : graph.Reachable) : graph.WellFormed := by
  induction reachable with
  | empty registry name nextId =>
      refine ⟨?_, ?_, ?_⟩
      · intro index node found
        simp [Graph.empty] at found
      · refine Topology.acyclic_of_rank id fun reader target reads => ?_
        obtain ⟨bound, _⟩ := (reads_iff _ _ _).mp reads
        simp [count, Graph.empty] at bound
      · simp [outlines, Graph.empty]
  | loaded _ accepted =>
      obtain ⟨named, checked, shape⟩ := toGraph_ok accepted
      rw [shape]
      exact (wellFormed_filled named checked).of_outlines retypeAll_outlines retypeAll_nextId
  | edited before edit ih =>
      rename_i graph
      cases result : graph.edit edit with
      | error error =>
          rw [after, result]
          exact ih
      | ok edited =>
          rw [after, result]
          exact ih.changed (ih.change result)

end NodeGraph.Graph
