import NodeGraph.Proofs.Graph.Typing

/-!
Edits in place. A program that changes a graph step by step leaves behind, when it fails, whatever
it has done before. Each edit is written here as such a program, with its checks and its changes in
the order in which they happen, and ends as the edit itself does: so an edit that fails has changed
nothing, and one that checks the type of a node leaves the node with that type.
-/

namespace NodeGraph

/-- Changes a graph in place and gives an answer, or fails on the way. -/
abbrev InPlace (answer : Type) := ExceptT GraphError (StateM Graph) answer

namespace InPlace

variable {answer result : Type}

def on (program : InPlace answer) (graph : Graph) : Except GraphError answer × Graph :=
  program.run.run graph

def check (outcome : Except GraphError answer) : InPlace answer := ExceptT.mk (pure outcome)

def bump : InPlace Nat := do
  modify fun graph => { graph with lastRevision := graph.lastRevision + 1 }
  return (← get).lastRevision

def change (index : Nat) (renew : Node → Node) : InPlace Unit :=
  modify (Graph.modify · index renew)

def retype (index : Nat) : InPlace Unit := modify (Graph.retype · index)

def restamp (index : Nat) : InPlace Unit := do
  let revision ← bump
  change index fun node => { node with revision }

def invalidate (roots : List Nat) : InPlace Unit := do
  ((← get).affectedBy roots).forM fun index => do
    retype index
    restamp index

def addNode (params : Params) : InPlace Nat := do
  check (checkParams params)
  let graph ← get
  let ty ← check (graph.checkTy graph.count params [])
  let revision ← bump
  modify (Graph.push · none params [] (.ok ty) revision)
  return graph.count

def addOutputNode (output : Expr) : InPlace Nat := addNode [(Expr.outputName, output)]

def setLabel (index : Nat) (label : Option String) : InPlace Unit := do
  let _ ← check ((← get).node index)
  change index fun node => { node with label }

def removeNode (index : Nat) (policy : RemovalPolicy) : InPlace Node := do
  let graph ← get
  let removed ← check (graph.node index)
  let consumers := graph.topology.consumersOf index
  if !consumers.isEmpty && policy == .reject then
    throw (.hasConsumers index consumers)
  else
    modify fun graph => { graph with nodes := graph.nodes.eraseIdx index }
    modify fun graph =>
      { graph with
        nodes := graph.nodes.map fun node =>
          { node with slots := trimSlots (node.slots.map (slotAfterRemoval index)) } }
    (← get).evaluationOrder.forM retype
    let detached := consumers.map fun consumer =>
      if index < consumer then consumer - 1 else consumer
    ((← get).affectedBy detached).forM restamp
    return removed

def cloneSubgraph (root : Nat) : InPlace (List Nat) := do
  let graph ← get
  let _ ← check (graph.node root)
  let closure := graph.topology.lineageOf root
  (closure.filterMap (graph.nodes[·]?)).forM fun node =>
    modify (Graph.push · node.label node.params (node.slots.map (graph.copiedSlot closure))
      node.ty 0)
  let added := (List.range closure.length).map (graph.count + ·)
  invalidate added
  return added

def setExpression (index : Nat) (name : String) (expr : Expr) : InPlace Unit := do
  let graph ← get
  let node ← check (graph.node index)
  if (Expr.inputSlot? name).isSome then throw (.invalidParameterName name)
  else
    let params := node.params.put name expr
    let ty ← check (graph.checkTy index params node.slots)
    change index fun node => { node with params }
    change index fun node => { node with ty := .ok ty }
    invalidate [index]

def removeExpression (index : Nat) (name : String) : InPlace Expr := do
  let graph ← get
  let node ← check (graph.node index)
  if name = Expr.outputName then throw (.missingOutput name)
  else
    match node.expression? name with
    | none => throw (.parameterNotFound index name)
    | some removed =>
        let params := node.params.erase name
        let ty ← check (graph.checkTy index params node.slots)
        change index fun node => { node with params }
        change index fun node => { node with ty := .ok ty }
        invalidate [index]
        return removed

def addEdge (reader slot target : Nat) : InPlace Unit := do
  let graph ← get
  let node ← check (graph.node reader)
  let _ ← check (graph.node target)
  let count := node.slots.length
  if count < slot then throw (.slotOutOfRange reader slot count)
  else if graph.topology.dependsOn target reader then throw (.cycle reader target)
  else
    let slots := if slot = count then node.slots ++ [some target] else node.slots.set slot target
    let ty ← check (graph.checkTy reader node.params slots)
    change reader fun node => { node with slots }
    change reader fun node => { node with ty := .ok ty }
    invalidate [reader]

def disconnect (reader slot : Nat) : InPlace (Option Nat) := do
  let graph ← get
  let node ← check (graph.node reader)
  if node.slots.length ≤ slot then throw (.slotOutOfRange reader slot node.slots.length)
  else
    let removed := node.input? slot
    change reader fun node => { node with slots := node.slots.set slot none }
    change reader fun node => { node with slots := trimSlots node.slots }
    if removed.isSome then
      invalidate [reader]
      return removed
    else
      return removed

def clear : InPlace Unit := modify Graph.clear

theorem on_bind (program : InPlace answer) (next : answer → InPlace result) (graph : Graph) :
    (program >>= next).on graph =
      match program.on graph with
      | (.ok value, left) => (next value).on left
      | (.error failure, left) => (.error failure, left) := by
  change (ExceptT.bindCont next (program.on graph).1).run (program.on graph).2 = _
  cases program.on graph with
  | mk ending left => cases ending <;> rfl

theorem on_then {program : InPlace answer} {next : answer → InPlace result} {graph left : Graph}
    {value : answer} (done : program.on graph = (.ok value, left)) :
    (program >>= next).on graph = (next value).on left := by
  rw [on_bind, done]

theorem on_get_bind (next : Graph → InPlace result) (graph : Graph) :
    (get >>= next).on graph = (next graph).on graph := rfl

theorem on_modify (step : Graph → Graph) (graph : Graph) :
    (modify step : InPlace Unit).on graph = (.ok (), step graph) := rfl

theorem on_check (outcome : Except GraphError answer) (graph : Graph) :
    (check outcome).on graph = (outcome, graph) := rfl

theorem on_change (index : Nat) (renew : Node → Node) (graph : Graph) :
    (change index renew).on graph = (.ok (), graph.modify index renew) := rfl

theorem on_retype (index : Nat) (graph : Graph) :
    (retype index).on graph = (.ok (), graph.retype index) := rfl

theorem on_bump (graph : Graph) :
    bump.on graph =
      (.ok (graph.lastRevision + 1), { graph with lastRevision := graph.lastRevision + 1 }) := rfl

theorem on_restamp (index : Nat) (graph : Graph) :
    (restamp index).on graph = (.ok (), graph.restamp index) := by
  rw [restamp, on_then (on_bump graph)]
  rfl

theorem on_forM {item : Type} {body : item → InPlace Unit} {step : Graph → item → Graph}
    (once : ∀ item graph, (body item).on graph = (.ok (), step graph item)) (items : List item)
    (graph : Graph) : (items.forM body).on graph = (.ok (), items.foldl step graph) := by
  induction items generalizing graph with
  | nil => rfl
  | cons first rest ih =>
      have loop : ((first :: rest).forM body).on graph =
          (body first >>= fun _ => rest.forM body).on graph := rfl
      rw [loop, on_then (once first graph)]
      exact ih _

theorem on_invalidate (roots : List Nat) (graph : Graph) :
    (invalidate roots).on graph = (.ok (), graph.invalidate roots) := by
  rw [invalidate, on_get_bind]
  refine on_forM (fun index graph => ?_) _ graph
  rw [on_then (on_retype index graph)]
  exact on_restamp index _

end InPlace

namespace Graph

variable {graph : Graph}

/-- The ending of a program that does what an edit says: a failure leaves the graph as it was. -/
def ending {answer : Type} (graph : Graph) :
    Except GraphError (answer × Graph) → Except GraphError answer × Graph
  | .ok (value, edited) => (.ok value, edited)
  | .error failure => (.error failure, graph)

theorem modify_modify (index : Nat) (first second : Node → Node) :
    (graph.modify index first).modify index second =
      graph.modify index fun node => second (first node) := by
  simp only [modify, List.modify_modify_eq]
  rfl

end Graph

namespace InPlace

variable {graph : Graph}

open NodeGraph.Graph (ending modify_modify)

theorem on_check_bind {value answer : Type} {outcome : Except GraphError value}
    {next : value → InPlace answer} {rest : value → Except GraphError (answer × Graph)}
    (agree : ∀ given, outcome = .ok given → (next given).on graph = graph.ending (rest given)) :
    (check outcome >>= next).on graph = graph.ending (outcome >>= rest) := by
  rw [on_bind, on_check]
  cases outcome with
  | error failure => rfl
  | ok given => exact agree given rfl

theorem on_check_bind_done {value : Type} {outcome : Except GraphError value}
    {next : value → InPlace Unit} {rest : value → Except GraphError Graph}
    (agree : ∀ given, outcome = .ok given →
      (next given).on graph = graph.ending ((rest given).map ((), ·))) :
    (check outcome >>= next).on graph = graph.ending ((outcome >>= rest).map ((), ·)) := by
  rw [on_bind, on_check]
  cases outcome with
  | error failure => rfl
  | ok given => exact agree given rfl

theorem on_addNode (params : Params) :
    (addNode params).on graph = graph.ending (graph.addNode params) := by
  refine on_check_bind fun _ _ => ?_
  rw [on_get_bind]
  refine on_check_bind fun ty _ => ?_
  rw [on_then (on_bump graph)]
  rfl

theorem on_setLabel (index : Nat) (label : Option String) :
    (setLabel index label).on graph =
      graph.ending ((graph.setLabel index label).map ((), ·)) := by
  rw [setLabel, on_get_bind]
  exact on_check_bind_done fun _ _ => rfl

theorem on_removeNode (index : Nat) (policy : RemovalPolicy) :
    (removeNode index policy).on graph = graph.ending (graph.removeNode index policy) := by
  rw [removeNode, on_get_bind]
  refine on_check_bind fun removed _ => ?_
  dsimp only
  split
  · rfl
  · rw [on_then (on_modify _ _), on_then (on_modify _ _), on_get_bind,
      on_then (on_forM on_retype _ _), on_get_bind, on_then (on_forM on_restamp _ _)]
    rfl

theorem on_cloneSubgraph (root : Nat) :
    (cloneSubgraph root).on graph = graph.ending (graph.cloneSubgraph root) := by
  rw [cloneSubgraph, on_get_bind]
  refine on_check_bind fun _ _ => ?_
  dsimp only
  rw [on_then (on_forM (fun _ _ => on_modify _ _) _ _), on_then (on_invalidate _ _)]
  rfl

theorem on_setExpression (index : Nat) (name : String) (expr : Expr) :
    (setExpression index name expr).on graph =
      graph.ending ((graph.setExpression index name expr).map ((), ·)) := by
  rw [setExpression, on_get_bind]
  refine on_check_bind_done fun node _ => ?_
  split
  · rfl
  · refine on_check_bind_done fun ty _ => ?_
    rw [on_then (on_change _ _ _), on_then (on_change _ _ _), on_invalidate, modify_modify]
    rfl

theorem on_removeExpression (index : Nat) (name : String) :
    (removeExpression index name).on graph = graph.ending (graph.removeExpression index name) := by
  rw [removeExpression, on_get_bind]
  refine on_check_bind fun node _ => ?_
  split
  · rfl
  · cases node.expression? name with
    | none => rfl
    | some removed =>
        refine on_check_bind fun ty _ => ?_
        rw [on_then (on_change _ _ _), on_then (on_change _ _ _), on_then (on_invalidate _ _),
          modify_modify]
        rfl

theorem on_addEdge (reader slot target : Nat) :
    (addEdge reader slot target).on graph =
      graph.ending ((graph.addEdge reader slot target).map ((), ·)) := by
  rw [addEdge, on_get_bind]
  refine on_check_bind_done fun node _ => on_check_bind_done fun _ _ => ?_
  dsimp only
  split
  · rfl
  · split
    · rfl
    · refine on_check_bind_done fun ty _ => ?_
      rw [on_then (on_change _ _ _), on_then (on_change _ _ _), on_invalidate, modify_modify]
      rfl

theorem on_disconnect (reader slot : Nat) :
    (disconnect reader slot).on graph = graph.ending (graph.disconnect reader slot) := by
  rw [disconnect, on_get_bind]
  refine on_check_bind fun node present => ?_
  split
  · rfl
  · have emptied : (graph.modify reader fun old =>
          { old with slots := old.slots.set slot none }).modify reader
            (fun old => { old with slots := trimSlots old.slots }) =
        graph.modify reader fun old =>
          { old with slots := trimSlots (node.slots.set slot none) } := by
      rw [modify_modify]
      exact Graph.modify_congr (Graph.node_ok.mp present) rfl
    dsimp only
    rw [on_then (on_change _ _ _), on_then (on_change _ _ _), emptied]
    split
    · rw [on_then (on_invalidate _ _)]
      rfl
    · rfl

end InPlace

def Edit.inPlace : Edit → InPlace Unit
  | .addNode entries => do let _ ← InPlace.addNode (.ofList entries)
  | .addOutputNode output => do let _ ← InPlace.addOutputNode output
  | .setLabel index label => InPlace.setLabel index label
  | .removeNode index policy => do let _ ← InPlace.removeNode index policy
  | .cloneSubgraph root => do let _ ← InPlace.cloneSubgraph root
  | .setExpression index name expr => InPlace.setExpression index name expr
  | .removeExpression index name => do let _ ← InPlace.removeExpression index name
  | .addEdge reader slot target => InPlace.addEdge reader slot target
  | .disconnect reader slot => do let _ ← InPlace.disconnect reader slot
  | .clear => InPlace.clear

/-- The node that an edit accepts only with a type, by its position afterwards. -/
def Edit.subject? (graph : Graph) : Edit → Option Nat
  | .addNode _ | .addOutputNode _ => some graph.count
  | .setExpression index _ _ | .removeExpression index _ | .addEdge index _ _ => some index
  | .setLabel _ _ | .removeNode _ _ | .cloneSubgraph _ | .disconnect _ _ | .clear => none

namespace Graph

variable {graph : Graph}

theorem on_silenced {answer : Type} {program : InPlace answer}
    {outcome : Except GraphError (answer × Graph)}
    (ends : program.on graph = graph.ending outcome) :
    (program >>= fun _ => pure ()).on graph =
      graph.ending ((outcome >>= fun result => pure result.2).map ((), ·)) := by
  rw [InPlace.on_bind, ends]
  cases outcome <;> rfl

theorem on_inPlace (edit : Edit) :
    edit.inPlace.on graph = graph.ending ((graph.edit edit).map ((), ·)) := by
  cases edit with
  | addNode entries => exact on_silenced (InPlace.on_addNode _)
  | addOutputNode output => exact on_silenced (InPlace.on_addNode _)
  | setLabel index label => exact InPlace.on_setLabel index label
  | removeNode index policy => exact on_silenced (InPlace.on_removeNode index policy)
  | cloneSubgraph root => exact on_silenced (InPlace.on_cloneSubgraph root)
  | setExpression index name expr => exact InPlace.on_setExpression index name expr
  | removeExpression index name => exact on_silenced (InPlace.on_removeExpression index name)
  | addEdge reader slot target => exact InPlace.on_addEdge reader slot target
  | disconnect reader slot => exact on_silenced (InPlace.on_disconnect reader slot)
  | clear => rfl

theorem ty_ok {index : Nat} {ty : Ty} :
    graph.ty index = .ok ty ↔ graph.ty? index = some (.ok ty) := by
  rw [Graph.ty, ty?, Graph.node]
  cases graph.nodes[index]? with
  | none => simp [bind, Except.bind]
  | some node =>
      cases typed : node.ty with
      | ok other => simp [bind, Except.bind, typed, pure, Except.pure]
      | error failure => simp [bind, Except.bind, typed, throw, throwThe, MonadExceptOf.throw]

theorem foldl_retype_ty? {order : List Nat} {other : Nat} (outside : other ∉ order) :
    (order.foldl retype graph).ty? other = graph.ty? other := by
  induction order generalizing graph with
  | nil => rfl
  | cons first rest ih =>
      simp only [List.mem_cons, not_or] at outside
      rw [List.foldl_cons, ih outside.2, retype_ty?_ne graph (Ne.symm outside.1)]

/-- The pass over a rewritten node and its descendants gives the node the type that admitted the
edit: what the node reads is not affected by it. -/
theorem rewritten_ty? {index : Nat} {node : Node} {params : Params} {slots : List (Option Nat)}
    {ty : Ty} (found : graph.nodes[index]? = some node)
    (typed : graph.infer index params slots = .ok ty)
    (wellFormed : (graph.rewritten index params slots (.ok ty)).WellFormed) :
    ((graph.rewritten index params slots (.ok ty)).invalidate [index]).ty? index =
      some (.ok ty) := by
  let bare := graph.rewritten index params slots (.ok ty)
  have acyclic := wellFormed.acyclic
  have place : bare.nodes[index]? = some { node with params, slots, ty := .ok ty } := by
    simp [bare, rewritten_nodes, found]
  have affected : index ∈ bare.affectedBy [index] :=
    (mem_affectedBy acyclic [index] index).mpr
      ⟨bound_of_found place, index, by simp, Or.inl rfl⟩
  have ordered := isOrder_evaluationOrder acyclic
  have settled := (foldl_retype_typedAt (bare.affectedBy [index]) (ordered.before.filter _)
    ordered.irreflexive).1 index affected
  have inputs : ∀ target, some target ∈ slots →
      ((bare.affectedBy [index]).foldl retype bare).ty? target = graph.ty? target := by
    intro target mentioned
    have reads : bare.Reads index target := wellFormed.reads place mentioned
    have apart : index ≠ target := by
      rintro rfl
      exact ordered.irreflexive index reads
    have outside : target ∉ bare.affectedBy [index] := by
      rw [mem_affectedBy acyclic]
      rintro ⟨_, root, isRoot, same | path⟩
      · exact apart ((List.mem_singleton.mp isRoot).symm.trans same.symm)
      · exact acyclic index (Relation.TransGen.head reads (List.mem_singleton.mp isRoot ▸ path))
    rw [foldl_retype_ty? outside, ty?, ty?, rewritten_nodes]
    simp [apart]
  rw [invalidate_eq, ty?_of_tys (foldl_restamp_tys _) index]
  obtain ⟨after, present, same⟩ :=
    outline_of_outlines (foldl_retype_outlines (bare.affectedBy [index])).symm place
  have shape : after.params = params ∧ after.slots = slots := by
    simp only [Node.outline, Outline.mk.injEq] at same
    exact ⟨same.2.2.1, same.2.2.2⟩
  have registry : ((bare.affectedBy [index]).foldl retype bare).registry = graph.registry :=
    foldl_retype_registry _
  have again := settled after present
  rw [shape.1, shape.2, infer_congr registry index params inputs, typed] at again
  rw [ty?, present, Option.map_some, again]

theorem appended_ty? (params : Params) (ty : Ty) :
    (graph.appended params ty).ty? graph.count = some (.ok ty) := by
  rw [ty?, appended_nodes, if_pos rfl]
  rfl

theorem Reachable.subject_typed (reachable : graph.Reachable) {edit : Edit} {edited : Graph}
    (accepted : graph.edit edit = .ok edited) {index : Nat}
    (subject : edit.subject? graph = some index) : ∃ ty, edited.ty index = .ok ty := by
  have wellFormed := reachable.wellFormed.changed (reachable.wellFormed.change accepted)
  have bare : ∀ {params : Params} {slots : List (Option Nat)} {ty : Ty},
      edited = (graph.rewritten index params slots (.ok ty)).invalidate [index] →
        (graph.rewritten index params slots (.ok ty)).WellFormed := by
    rintro params slots ty rfl
    exact wellFormed.of_outlines (invalidate_outlines _).symm (invalidate_nextId _).symm
  simp only [ty_ok]
  cases edit with
  | addNode entries =>
      obtain ⟨⟨_, _⟩, added, equal⟩ := bind_ok_iff.mp accepted
      obtain ⟨ty, _, _, _, shape⟩ := addNode_ok added
      cases equal
      cases subject
      exact ⟨ty, shape ▸ appended_ty? _ ty⟩
  | addOutputNode output =>
      obtain ⟨⟨_, _⟩, added, equal⟩ := bind_ok_iff.mp accepted
      obtain ⟨ty, _, _, _, shape⟩ := addNode_ok added
      cases equal
      cases subject
      exact ⟨ty, shape ▸ appended_ty? _ ty⟩
  | setExpression reader name expr =>
      obtain ⟨node, ty, found, _, typed, shape⟩ := setExpression_ok accepted
      cases subject
      exact ⟨ty, shape ▸ rewritten_ty? found typed (bare shape)⟩
  | removeExpression reader name =>
      obtain ⟨⟨_, _⟩, gone, equal⟩ := bind_ok_iff.mp accepted
      obtain ⟨node, ty, found, _, typed, shape⟩ := removeExpression_ok gone
      cases equal
      cases subject
      exact ⟨ty, shape ▸ rewritten_ty? found typed (bare shape)⟩
  | addEdge reader slot target =>
      obtain ⟨node, slots, ty, found, _, _, _, _, typed, shape⟩ := addEdge_ok accepted
      cases subject
      exact ⟨ty, shape ▸ rewritten_ty? found typed (bare shape)⟩
  | setLabel index label => cases subject
  | removeNode index policy => cases subject
  | cloneSubgraph root => cases subject
  | disconnect reader slot => cases subject
  | clear => cases subject

/-- Edits are atomic: made in place on a reachable graph, an edit that fails leaves the graph it
was given, and one that succeeds has made the edit and leaves the node whose type it has checked
with a type, also after the pass that types the node again. -/
theorem Reachable.edits_atomic (reachable : graph.Reachable) (edit : Edit) :
    (∀ failure left, edit.inPlace.on graph = (.error failure, left) →
      left = graph ∧ graph.edit edit = .error failure) ∧
    (∀ edited, edit.inPlace.on graph = (.ok (), edited) →
      graph.edit edit = .ok edited ∧
        ∀ index, edit.subject? graph = some index → ∃ ty, edited.ty index = .ok ty) := by
  rw [on_inPlace]
  constructor
  · intro failure left ends
    cases result : graph.edit edit with
    | ok edited => simp [result, Except.map, ending] at ends
    | error error =>
        simp only [result, Except.map, ending, Prod.mk.injEq, Except.error.injEq] at ends
        exact ⟨ends.2.symm, congrArg Except.error ends.1⟩
  · intro edited ends
    cases result : graph.edit edit with
    | error error => simp [result, Except.map, ending] at ends
    | ok other =>
        simp only [result, Except.map, ending, Prod.mk.injEq, true_and] at ends
        subst ends
        exact ⟨rfl, fun index subject => reachable.subject_typed result subject⟩

theorem rewired_edits_atomic :
    (∃ failure, (Edit.addEdge 0 0 1).inPlace.on rewired = (.error failure, rewired)) ∧
    ∃ edited ty, (Edit.addEdge 1 0 0).inPlace.on rewired = (.ok (), edited) ∧
      edited.ty 1 = .ok ty := by
  have reachable : rewired.Reachable := (Reachable.empty .empty none 0).run _
  have refused : ((Edit.addEdge 0 0 1).inPlace.on rewired).1.isOk = false := by decide +kernel
  have accepted : ((Edit.addEdge 1 0 0).inPlace.on rewired).1.isOk = true := by decide +kernel
  constructor
  · cases ends : (Edit.addEdge 0 0 1).inPlace.on rewired with
    | mk ending left =>
        rw [ends] at refused
        cases ending with
        | ok _ => cases refused
        | error failure =>
            obtain ⟨same, _⟩ := (Reachable.edits_atomic reachable _).1 failure left ends
            exact ⟨failure, by rw [same]⟩
  · cases ends : (Edit.addEdge 1 0 0).inPlace.on rewired with
    | mk ending edited =>
        rw [ends] at accepted
        cases ending with
        | error failure => cases accepted
        | ok _ =>
            obtain ⟨_, typed⟩ := (Reachable.edits_atomic reachable _).2 edited ends
            obtain ⟨ty, found⟩ := typed 1 rfl
            exact ⟨edited, ty, rfl, found⟩

end Graph

end NodeGraph
