import NodeGraph.Proofs.Graph.Revisions

/-!
Histories. What a revision stands for lasts: through any number of edits, a node that carries an old
revision is the node that carried it before, on the same cone of nodes.
-/

namespace NodeGraph

def NodeTypeError.renumber (place : Nat → Nat) (failure : NodeTypeError) : NodeTypeError :=
  { failure with node := place failure.node, origin := place failure.origin }

def InputType.renumber (place : Nat → Nat) (input : InputType) : InputType :=
  { input with source := input.source.map place }

section Renumber

variable (place : Nat → Nat) (node : Nat) (inputs : List InputType)

theorem ofInputs_renumber :
    InferState.ofInputs (inputs.map (InputType.renumber place)) = InferState.ofInputs inputs := by
  rw [InferState.ofInputs, InferState.ofInputs, List.foldl_map]
  rfl

theorem locate_renumber (parameter : String) (error : TypeError) :
    locate (place node) (inputs.map (InputType.renumber place)) parameter error =
      (locate node inputs parameter error).renumber place := by
  rw [locate, locate, NodeTypeError.renumber]
  congr 1
  split
  · rename_i slot _
    rw [List.getElem?_map]
    cases inputs[slot]? with
    | none => rfl
    | some input =>
        obtain ⟨source, ty⟩ := input
        cases source <;> rfl
  · rfl

theorem inferParams_renumber (context : TypeContext) (state : InferState)
    (params : List (String × Expr)) :
    inferParams (place node) (inputs.map (InputType.renumber place)) context state params =
      (inferParams node inputs context state params).mapError
        (NodeTypeError.renumber place) := by
  induction params generalizing context state with
  | nil => rfl
  | cons param rest ih =>
      obtain ⟨name, expr⟩ := param
      simp only [inferParams]
      split
      · exact ih _ _
      · rw [locate_renumber]
        rfl

theorem inferNode_renumber (registry : Registry) (params : List (String × Expr)) :
    inferNode registry (place node) params (inputs.map (InputType.renumber place)) =
      (inferNode registry node params inputs).mapError (NodeTypeError.renumber place) := by
  simp only [inferNode, inferParams_renumber, ofInputs_renumber]
  cases inferParams node inputs (.ofRegistry registry) (.ofInputs inputs)
      (params.filter fun param => param.1 != Expr.outputName) with
  | error error => rfl
  | ok result =>
      obtain ⟨context, state⟩ := result
      simp only [Except.mapError, bind, Except.bind]
      split
      · rw [locate_renumber]
      · split
        · rfl
        · rw [locate_renumber]

end Renumber

section Located

variable {registry : Registry} {node : Nat} {params : Params} {inputs : List InputType}
  {failure : NodeTypeError}

theorem inferNode_located (failed : inferNode registry node params inputs = .error failure) :
    ∃ parameter error, failure = locate node inputs parameter error := by
  have early : ∀ {params : List (String × Expr)} {context : TypeContext} {state : InferState},
      inferParams node inputs context state params = .error failure →
        ∃ parameter error, failure = locate node inputs parameter error := by
    intro params
    induction params with
    | nil =>
        intro context state failed
        cases failed
    | cons param rest ih =>
        intro context state failed
        rw [inferParams] at failed
        split at failed
        · exact ih failed
        · cases failed
          exact ⟨_, _, rfl⟩
  rw [inferNode] at failed
  cases bound : inferParams node inputs (.ofRegistry registry) (.ofInputs inputs)
      (params.filter fun param => param.1 != Expr.outputName) with
  | error other =>
      rw [bound] at failed
      cases failed
      exact early bound
  | ok pair =>
      rw [bound] at failed
      simp only [bind, Except.bind] at failed
      split at failed
      · cases failed
        exact ⟨_, _, rfl⟩
      · split at failed
        · cases failed
        · cases failed
          exact ⟨_, _, rfl⟩

theorem inferNode_failure (failed : inferNode registry node params inputs = .error failure) :
    failure.node = node := by
  obtain ⟨_, _, rfl⟩ := inferNode_located failed
  rfl

theorem inferNode_origin (failed : inferNode registry node params inputs = .error failure) :
    failure.origin = node ∨ ∃ input ∈ inputs, input.source = some failure.origin := by
  obtain ⟨parameter, error, rfl⟩ := inferNode_located failed
  rw [locate]
  split
  · rename_i slot _
    cases found : inputs[slot]?.bind (·.source) with
    | none => exact Or.inl rfl
    | some source =>
        obtain ⟨input, present, same⟩ := Option.bind_eq_some_iff.mp found
        exact Or.inr ⟨input, List.mem_of_getElem? present, same⟩
  · exact Or.inl rfl

end Located

namespace Graph

variable {graph edited : Graph} {origin : Nat → Nat} {fresh : Nat → Prop}

/-- Some nodes of a later graph compute as nodes of the graph do elsewhere, and so does all that they
read. -/
structure Follows (graph : Graph) (place : Nat → Nat) (among : Nat → Prop) (later : Graph) :
    Prop where
  registry : later.registry = graph.registry
  nodes : ∀ {position : Nat} {node : Node}, among position → later.nodes[position]? = some node →
    ∃ before, graph.nodes[place position]? = some before ∧ before.params = node.params ∧
      before.slots = node.slots.map (Option.map place)
  closed : ∀ {reader target : Nat}, among reader → later.Reads reader target → among target

section Follows

variable {later : Graph} {place : Nat → Nat} {among : Nat → Prop}

theorem Follows.inputTypes (follows : graph.Follows place among later)
    (wellFormed : later.WellFormed) {position : Nat} {node : Node} (member : among position)
    (found : later.nodes[position]? = some node)
    (inputs : ∀ target, later.Reads position target → ∀ {node before : Node}, among target →
      later.nodes[target]? = some node → graph.nodes[place target]? = some before →
        before.ty = node.ty.mapError (NodeTypeError.renumber place)) :
    graph.inputTypes (node.slots.map (Option.map place)) =
      (later.inputTypes node.slots).map (InputType.renumber place) := by
  rw [inputTypes_eq, inputTypes_eq, List.map_map, List.map_map]
  apply List.map_congr_left
  intro slot mentioned
  cases slot with
  | none => rfl
  | some target =>
      have reads := wellFormed.reads found mentioned
      have bound := (wellFormed.fits found).bound target mentioned
      have targetAmong := follows.closed member reads
      have there : later.nodes[target]? = some later.nodes[target] :=
        List.getElem?_eq_getElem bound
      obtain ⟨before, present, _⟩ := follows.nodes targetAmong there
      have same := inputs target reads targetAmong there present
      simp only [Function.comp_apply, Option.map_some, InputType.renumber, ty?, present, there,
        same]
      cases (later.nodes[target]).ty <;> rfl

theorem Follows.ty (follows : graph.Follows place among later) (wellFormed : later.WellFormed)
    (typed : graph.Typed) (laterTyped : later.Typed) (position : Nat) :
    ∀ {node before : Node}, among position → later.nodes[position]? = some node →
      graph.nodes[place position]? = some before →
        before.ty = node.ty.mapError (NodeTypeError.renumber place) := by
  induction position using wellFormed.acyclic.induction later.mirrored with
  | step position ih =>
      intro node before member found present
      obtain ⟨same, there, params, slots⟩ := follows.nodes member found
      rw [present] at there
      cases there
      rw [typed _ before present, laterTyped _ node found, infer, infer, params, slots,
        follows.registry, follows.inputTypes wellFormed member found ih]
      exact inferNode_renumber place position _ graph.registry node.params

theorem Follows.reads_place (follows : graph.Follows place among later)
    (wellFormed : later.WellFormed) {reader target : Nat} {node : Node} (member : among reader)
    (found : later.nodes[reader]? = some node) (reads : graph.Reads (place reader) target) :
    ∃ source sourceNode, later.Reads reader source ∧ among source ∧
      later.nodes[source]? = some sourceNode ∧ target = place source := by
  obtain ⟨before, present, _, slots⟩ := follows.nodes member found
  obtain ⟨_, there, same, mentioned⟩ := (reads_iff _ _ _).mp reads
  rw [present] at same
  cases same
  rw [slots] at mentioned
  obtain ⟨slot, inside, shape⟩ := List.mem_map.mp mentioned
  obtain ⟨source, rfl, rfl⟩ := Option.map_eq_some_iff.mp shape
  have sourceReads := wellFormed.reads found inside
  exact ⟨source, _, sourceReads, follows.closed member sourceReads,
    List.getElem?_eq_getElem ((wellFormed.fits found).bound source inside), rfl⟩

theorem Follows.reaches_place (follows : graph.Follows place among later)
    (wellFormed : later.WellFormed) {reader target : Nat} {node : Node} (member : among reader)
    (found : later.nodes[reader]? = some node) (path : graph.Reaches (place reader) target) :
    ∃ source sourceNode, later.Reaches reader source ∧ among source ∧
      later.nodes[source]? = some sourceNode ∧ target = place source := by
  induction path with
  | single reads =>
      obtain ⟨source, sourceNode, read, rest⟩ :=
        follows.reads_place wellFormed member found reads
      exact ⟨source, sourceNode, .single read, rest⟩
  | tail _ reads ih =>
      obtain ⟨middle, middleNode, path, middleMember, middleFound, rfl⟩ := ih
      obtain ⟨source, sourceNode, read, rest⟩ :=
        follows.reads_place wellFormed middleMember middleFound reads
      exact ⟨source, sourceNode, .tail path read, rest⟩

end Follows

theorem Keeps.follows (keeps : graph.Keeps origin fresh edited) :
    graph.Follows origin (fun position => ¬ fresh position) edited where
  registry := keeps.registry
  nodes := by
    intro position node isOld found
    obtain ⟨before, present, _, _, params, slots⟩ := keeps.old found isOld
    exact ⟨before, present, params, slots⟩
  closed := fun isOld reads isFresh => isOld (keeps.closed reads isFresh)

/-- What carries an old revision stands as it stood at its place in the earlier graph, and so does
everything that it reads. -/
structure Persists (graph : Graph) (place : Nat → Nat) (later : Graph) : Prop where
  registry : later.registry = graph.registry
  lastRevision : graph.lastRevision ≤ later.lastRevision
  old : ∀ {position : Nat} {node : Node}, later.nodes[position]? = some node →
    node.revision ≤ graph.lastRevision → ∃ before, graph.nodes[place position]? = some before ∧
      before.id = node.id ∧ before.revision = node.revision ∧ before.params = node.params ∧
      before.slots = node.slots.map (Option.map place)
  closed : ∀ {reader target : Nat} {readerNode targetNode : Node}, later.Reads reader target →
    later.nodes[reader]? = some readerNode → later.nodes[target]? = some targetNode →
      readerNode.revision ≤ graph.lastRevision → targetNode.revision ≤ graph.lastRevision

theorem Stamped.persists (stamped : graph.Stamped) : graph.Persists id graph where
  registry := rfl
  lastRevision := Nat.le_refl _
  old := fun found _ => ⟨_, found, rfl, rfl, rfl, by simp⟩
  closed := fun _ _ targetFound _ => stamped.bound targetFound

theorem Keeps.persists (keeps : graph.Keeps origin fresh edited) (stamped : graph.Stamped) :
    graph.Persists origin edited := by
  have isOld : ∀ {position : Nat} {node : Node}, edited.nodes[position]? = some node →
      node.revision ≤ graph.lastRevision → ¬ fresh position := by
    intro position node found small isFresh
    have large := (keeps.new found isFresh).1
    omega
  refine ⟨keeps.registry, keeps.lastRevision,
    fun found small => keeps.old found (isOld found small), ?_⟩
  intro reader target readerNode targetNode reads readerFound targetFound small
  have readerOld := isOld readerFound small
  have targetOld : ¬ fresh target := fun isFresh => readerOld (keeps.closed reads isFresh)
  obtain ⟨before, present, _, revision, _⟩ := keeps.old targetFound targetOld
  rw [← revision]
  exact stamped.bound present

theorem Persists.reads {later : Graph} {place : Nat → Nat} (persists : graph.Persists place later)
    (wellFormed : graph.WellFormed) {reader target : Nat} {node : Node}
    (found : later.nodes[reader]? = some node) (small : node.revision ≤ graph.lastRevision)
    (mentioned : some target ∈ node.slots) : graph.Reads (place reader) (place target) := by
  obtain ⟨before, present, _, _, _, slots⟩ := persists.old found small
  refine wellFormed.reads present ?_
  rw [slots]
  exact List.mem_map.mpr ⟨some target, mentioned, rfl⟩

theorem Persists.follows {later : Graph} {place : Nat → Nat}
    (persists : graph.Persists place later) :
    graph.Follows place (fun position => ∃ node, later.nodes[position]? = some node ∧
      node.revision ≤ graph.lastRevision) later where
  registry := persists.registry
  nodes := by
    rintro position node ⟨same, there, small⟩ found
    rw [found] at there
    cases there
    obtain ⟨before, present, _, _, params, slots⟩ := persists.old found small
    exact ⟨before, present, params, slots⟩
  closed := by
    rintro reader target ⟨readerNode, found, small⟩ reads
    have bound : target < later.count := ((reads_iff _ _ _).mp reads).1
    have targetFound : later.nodes[target]? = some later.nodes[target] :=
      List.getElem?_eq_getElem bound
    exact ⟨_, targetFound, persists.closed reads found targetFound small⟩

theorem Persists.trans {middle later : Graph} {first second : Nat → Nat}
    (earlier : graph.Persists first middle) (afterwards : middle.Persists second later)
    (wellFormed : middle.WellFormed) : graph.Persists (first ∘ second) later where
  registry := afterwards.registry.trans earlier.registry
  lastRevision := Nat.le_trans earlier.lastRevision afterwards.lastRevision
  old := by
    intro position node found small
    obtain ⟨between, there, id, revision, params, slots⟩ :=
      afterwards.old found (Nat.le_trans small earlier.lastRevision)
    obtain ⟨before, present, oldId, oldRevision, oldParams, oldSlots⟩ :=
      earlier.old there (by omega)
    refine ⟨before, present, oldId.trans id, oldRevision.trans revision, oldParams.trans params, ?_⟩
    rw [oldSlots, slots, List.map_map]
    congr 1
    funext slot
    cases slot <;> rfl
  closed := by
    intro reader target readerNode targetNode reads readerFound targetFound small
    have readerMiddle := Nat.le_trans small earlier.lastRevision
    have targetMiddle := afterwards.closed reads readerFound targetFound readerMiddle
    obtain ⟨_, node, found, mentioned⟩ := (reads_iff _ _ _).mp reads
    rw [readerFound] at found
    cases found
    obtain ⟨readerBetween, readerThere, _, readerRevision, _⟩ :=
      afterwards.old readerFound readerMiddle
    obtain ⟨targetBetween, targetThere, _, targetRevision, _⟩ :=
      afterwards.old targetFound targetMiddle
    have between := afterwards.reads wellFormed readerFound readerMiddle mentioned
    have bound := earlier.closed between readerThere targetThere (by omega)
    omega

theorem Reachable.persists (reachable : graph.Reachable) (edits : List Edit) :
    ∃ place, graph.Persists place (graph.run edits) := by
  induction edits using List.reverseRecOn with
  | nil => exact ⟨id, reachable.stamped.persists⟩
  | append_singleton edits last ih =>
      obtain ⟨place, persists⟩ := ih
      have middle := reachable.run edits
      have step : graph.run (edits ++ [last]) = (graph.run edits).after last := by
        simp [Graph.run]
      rw [step, after]
      split
      · rename_i edited accepted
        have keeps := middle.wellFormed.keeps (middle.wellFormed.change accepted)
        exact ⟨_, persists.trans (keeps.persists middle.stamped) middle.wellFormed⟩
      · exact ⟨place, persists⟩

/-- What a node computes from: its identity, its parameters, and the identity behind each slot. -/
structure Wiring where
  id : Nat
  params : Params
  inputs : List (Option (Option Nat))

def wiring (graph : Graph) (node : Node) : Wiring :=
  ⟨node.id, node.params,
    node.slots.map (Option.map fun target => graph.nodes[target]?.map Node.id)⟩

def cone (graph : Graph) (position : Nat) : Set Wiring :=
  { wiring | ∃ source node, Relation.ReflTransGen graph.Reads position source ∧
    graph.nodes[source]? = some node ∧ graph.wiring node = wiring }

variable {later : Graph} {place : Nat → Nat}

theorem Persists.wiring (persists : graph.Persists place later) (wellFormed : later.WellFormed)
    {position : Nat} {node before : Node} (found : later.nodes[position]? = some node)
    (small : node.revision ≤ graph.lastRevision)
    (present : graph.nodes[place position]? = some before) :
    graph.wiring before = later.wiring node := by
  obtain ⟨same, there, id, _, params, slots⟩ := persists.old found small
  rw [present] at there
  cases there
  rw [Graph.wiring, Graph.wiring, id, params, slots, List.map_map]
  congr 1
  apply List.map_congr_left
  intro slot member
  cases slot with
  | none => rfl
  | some target =>
      have bound := (wellFormed.fits found).bound target member
      have targetFound : later.nodes[target]? = some later.nodes[target] :=
        List.getElem?_eq_getElem bound
      have targetSmall :=
        persists.closed (wellFormed.reads found member) found targetFound small
      obtain ⟨targetBefore, targetPresent, targetId, _⟩ := persists.old targetFound targetSmall
      simp only [Function.comp_apply, Option.map_some, targetPresent, targetFound, targetId]

theorem Persists.cone (persists : graph.Persists place later) (wellFormed : graph.WellFormed)
    (laterWellFormed : later.WellFormed) {position : Nat} {node : Node}
    (found : later.nodes[position]? = some node) (small : node.revision ≤ graph.lastRevision) :
    later.cone position = graph.cone (place position) := by
  have forward : ∀ source, Relation.ReflTransGen later.Reads position source →
      ∃ sourceNode, later.nodes[source]? = some sourceNode ∧
        sourceNode.revision ≤ graph.lastRevision ∧
        Relation.ReflTransGen graph.Reads (place position) (place source) := by
    intro source path
    induction path with
    | refl => exact ⟨node, found, small, .refl⟩
    | @tail middle source _ reads ih =>
        obtain ⟨middleNode, middleFound, middleSmall, middlePath⟩ := ih
        obtain ⟨bound, _, same, mentioned⟩ := (reads_iff _ _ _).mp reads
        rw [middleFound] at same
        cases same
        have sourceFound : later.nodes[source]? = some later.nodes[source] :=
          List.getElem?_eq_getElem bound
        exact ⟨_, sourceFound, persists.closed reads middleFound sourceFound middleSmall,
          middlePath.tail (persists.reads wellFormed middleFound middleSmall mentioned)⟩
  have backward : ∀ old, Relation.ReflTransGen graph.Reads (place position) old →
      ∃ source, old = place source ∧ Relation.ReflTransGen later.Reads position source := by
    intro old path
    rcases Relation.reflTransGen_iff_eq_or_transGen.mp path with rfl | path
    · exact ⟨position, rfl, .refl⟩
    · obtain ⟨source, _, sourcePath, _, _, same⟩ :=
        persists.follows.reaches_place laterWellFormed ⟨node, found, small⟩ found path
      exact ⟨source, same, sourcePath.to_reflTransGen⟩
  ext wiring
  constructor
  · rintro ⟨source, sourceNode, path, sourceFound, shape⟩
    obtain ⟨same, there, sourceSmall, oldPath⟩ := forward source path
    rw [sourceFound] at there
    cases there
    obtain ⟨before, present, _⟩ := persists.old sourceFound sourceSmall
    refine ⟨place source, before, oldPath, present, ?_⟩
    rw [persists.wiring laterWellFormed sourceFound sourceSmall present, shape]
  · rintro ⟨old, before, path, present, shape⟩
    obtain ⟨source, same, sourcePath⟩ := backward old path
    subst same
    obtain ⟨sourceNode, sourceFound, sourceSmall, _⟩ := forward source sourcePath
    refine ⟨source, sourceNode, sourcePath, sourceFound, ?_⟩
    rw [← persists.wiring laterWellFormed sourceFound sourceSmall present, shape]

/-- What an accepted edit does to revisions. The restamped nodes have new revisions, larger than all
before and all different; every other node is, up to its position, what it was. -/
structure Restamping (graph : Graph) (edit : Edit) (edited : Graph) : Prop where
  restamped : ∀ position node, edited.nodes[position]? = some node →
    edit.Restamps graph edited position →
      graph.lastRevision < node.revision ∧ node.revision ≤ edited.lastRevision
  kept : ∀ position node, edited.nodes[position]? = some node →
    ¬ edit.Restamps graph edited position →
      ∃ before, graph.nodes[edit.origin position]? = some before ∧ node.id = before.id ∧
        node.revision = before.revision ∧ node.params = before.params ∧
        node.slots.map (Option.map edit.origin) = before.slots ∧
        node.ty.mapError (NodeTypeError.renumber edit.origin) = before.ty
  identity : ∀ position node, edited.nodes[position]? = some node →
    (∃ before, graph.nodes[edit.origin position]? = some before ∧ node.id = before.id) ∨
      ∀ before ∈ graph.nodes, before.id < node.id
  distinct : edited.revisions.Nodup
  later : graph.lastRevision ≤ edited.lastRevision

theorem Reachable.restamping (reachable : graph.Reachable) {edit : Edit}
    (accepted : graph.edit edit = .ok edited) : Restamping graph edit edited := by
  have wellFormed := reachable.wellFormed
  have change := wellFormed.change accepted
  have keeps := wellFormed.keeps change
  have editedTyped := reachable.typed.changed wellFormed change
  refine ⟨fun _ _ found isFresh => keeps.new found isFresh, ?_, ?_,
    (keeps.stamped reachable.stamped).nodup, keeps.lastRevision⟩
  · intro position node found isOld
    obtain ⟨before, present, id, revision, params, slots⟩ := keeps.old found isOld
    have ty := keeps.follows.ty (wellFormed.changed change) reachable.typed editedTyped position
      isOld found present
    exact ⟨before, present, id.symm, revision.symm, params.symm, slots.symm, ty.symm⟩
  · intro position node found
    rcases keeps.identity found with ⟨before, present, same⟩ | fresh
    · exact Or.inl ⟨before, present, same.symm⟩
    · refine Or.inr fun before member => ?_
      obtain ⟨index, present⟩ := List.mem_iff_getElem?.mp member
      exact Nat.lt_of_lt_of_le (wellFormed.fits present).identified fresh

/-- Exact restamping: an accepted edit gives new revisions to the nodes that `Edit.Restamps` tells
and leaves all others as they were. So through any run nodes of one revision are the same node on
the same cone. -/
theorem Reachable.restamps_exactly (reachable : graph.Reachable) :
    (∀ edit edited, graph.edit edit = .ok edited → Restamping graph edit edited) ∧
    (graph.nodes.map Node.id).Nodup ∧ graph.revisions.Nodup ∧
    (∀ node ∈ graph.nodes, node.revision ≤ graph.lastRevision) ∧
    ∀ edits : List Edit, graph.lastRevision ≤ (graph.run edits).lastRevision ∧
      ∀ place before, graph.nodes[place]? = some before →
        ∀ position node, (graph.run edits).nodes[position]? = some node →
          node.revision = before.revision →
            node.id = before.id ∧ (graph.run edits).cone position = graph.cone place := by
  refine ⟨fun _ _ accepted => reachable.restamping accepted, reachable.wellFormed.ids_nodup,
    reachable.stamped.nodup, reachable.stamped.of_mem, ?_⟩
  · intro edits
    obtain ⟨origin, persists⟩ := reachable.persists edits
    refine ⟨persists.lastRevision, fun place before present position node found same => ?_⟩
    have small : node.revision ≤ graph.lastRevision := by
      rw [same]
      exact reachable.stamped.bound present
    obtain ⟨old, there, id, revision, _⟩ := persists.old found small
    have placed := reachable.stamped.distinct there present (revision.trans same)
    rw [placed, present] at there
    cases there
    refine ⟨id.symm, ?_⟩
    rw [persists.cone reachable.wellFormed (reachable.run edits).wellFormed found small, placed]

/-- Writing a new constant into the first node of the rewired graph restamps both nodes. -/
theorem rewired_restamps_exactly :
    rewired.Reachable ∧ rewired.revisions = [2, 5] ∧
      (rewired.after (.setExpression 0 Expr.outputName (.constant (.integer 2)))).revisions =
        [6, 7] ∧
      ∀ edit edited, rewired.edit edit = .ok edited → Restamping rewired edit edited := by
  have reachable : rewired.Reachable := (Reachable.empty .empty none 0).run _
  exact ⟨reachable, by decide +kernel, by decide +kernel, (Reachable.restamps_exactly reachable).1⟩

end Graph

end NodeGraph
