import Mathlib.Data.List.DropRight
import NodeGraph.Proofs.Graph.Passes
import NodeGraph.Stored.Graph

/-!
Histories of edits. An accepted edit is one of a few changes: a node is added, labelled, rewritten
in place, removed or copied, or all nodes go, or nothing happens. Which one it is, and what it
checked, is settled here once; what graphs keep through their history follows change by change.
-/

namespace NodeGraph

inductive Edit where
  | addNode (entries : List (String × Expr))
  | addOutputNode (output : Expr)
  | setLabel (index : Nat) (label : Option String)
  | removeNode (index : Nat) (policy : RemovalPolicy)
  | cloneSubgraph (root : Nat)
  | setExpression (index : Nat) (name : String) (expr : Expr)
  | removeExpression (index : Nat) (name : String)
  | addEdge (reader slot target : Nat)
  | disconnect (reader slot : Nat)
  | clear

namespace Graph

def edit (graph : Graph) : Edit → Except GraphError Graph
  | .addNode entries => return (← graph.addNode (.ofList entries)).2
  | .addOutputNode output => return (← graph.addOutputNode output).2
  | .setLabel index label => graph.setLabel index label
  | .removeNode index policy => return (← graph.removeNode index policy).2
  | .cloneSubgraph root => return (← graph.cloneSubgraph root).2
  | .setExpression index name expr => graph.setExpression index name expr
  | .removeExpression index name => return (← graph.removeExpression index name).2
  | .addEdge reader slot target => graph.addEdge reader slot target
  | .disconnect reader slot => return (← graph.disconnect reader slot).2
  | .clear => return graph.clear

def after (graph : Graph) (edit : Edit) : Graph :=
  match graph.edit edit with
  | .ok edited => edited
  | .error _ => graph

def run (graph : Graph) (edits : List Edit) : Graph := edits.foldl after graph

/-- What edits make of an empty graph, or of a stored one whose parameters go by their names. -/
inductive Reachable : Graph → Prop
  | empty (registry : Registry) (name : Option String) (nextId : Nat) :
      Reachable { Graph.empty registry with name, nextId }
  | loaded {stored : StoredGraph} {registry : Registry} {nextId : Nat} {graph : Graph}
      (keyed : ∀ node ∈ stored.nodes, node.params.names.Nodup)
      (accepted : stored.toGraph registry nextId = .ok graph) : Reachable graph
  | edited {graph : Graph} (before : Reachable graph) (edit : Edit) : Reachable (graph.after edit)

theorem Reachable.run {graph : Graph} (reachable : graph.Reachable) (edits : List Edit) :
    (graph.run edits).Reachable := by
  induction edits generalizing graph with
  | nil => exact reachable
  | cons edit rest ih => exact ih (reachable.edited edit)

def placeAfter (removed position : Nat) : Nat :=
  if removed < position then position - 1 else position

def placeBefore (removed position : Nat) : Nat :=
  if position < removed then position else position + 1

def appended (graph : Graph) (params : Params) (ty : Ty) : Graph :=
  { graph.push none params [] (.ok ty) (graph.lastRevision + 1) with
    lastRevision := graph.lastRevision + 1 }

def relabelled (graph : Graph) (index : Nat) (label : Option String) : Graph :=
  graph.modify index fun node => { node with label }

def rewritten (graph : Graph) (index : Nat) (params : Params) (slots : List (Option Nat))
    (ty : Except NodeTypeError Ty) : Graph :=
  graph.modify index fun node => { node with params, slots, ty }

def without (graph : Graph) (index : Nat) : Graph :=
  { graph with
    nodes := (graph.nodes.eraseIdx index).map fun node =>
      { node with slots := trimSlots (node.slots.map (slotAfterRemoval index)) } }

def detachedBy (graph : Graph) (index : Nat) : List Nat :=
  (graph.topology.consumersOf index).map (placeAfter index)

def removed (graph : Graph) (index : Nat) : Graph :=
  let retyped := (graph.without index).retypeAll
  (retyped.affectedBy (graph.detachedBy index)).foldl restamp retyped

def copiedSlot (graph : Graph) (closure : List Nat) (slot : Option Nat) : Option Nat := do
  return graph.count + (← closure.idxOf? (← slot))

def extended (graph : Graph) (closure : List Nat) : Graph :=
  (closure.filterMap (graph.nodes[·]?)).foldl
    (fun extended node =>
      extended.push node.label node.params (node.slots.map (graph.copiedSlot closure)) node.ty 0)
    graph

def copied (graph : Graph) (root : Nat) : Graph :=
  let closure := graph.topology.lineageOf root
  (graph.extended closure).invalidate ((List.range closure.length).map (graph.count + ·))

/-- What an accepted edit does, with what it has checked. The position where a node was before is
`origin`, and `fresh` nodes get new revisions. -/
inductive Change (graph : Graph) : (origin : Nat → Nat) → (fresh : Nat → Prop) → Graph → Prop
  | append {params : Params} {ty : Ty} {fresh : Nat → Prop} (named : checkParams params = .ok ())
      (typed : graph.infer graph.count params [] = .ok ty)
      (place : ∀ position, fresh position ↔ position = graph.count) :
      Change graph id fresh (graph.appended params ty)
  | relabel {index : Nat} {label : Option String} {fresh : Nat → Prop}
      (place : ∀ position, ¬ fresh position) : Change graph id fresh (graph.relabelled index label)
  | rewrite {index : Nat} {node : Node} {params : Params} {slots : List (Option Nat)}
      {ty : Except NodeTypeError Ty} {fresh : Nat → Prop}
      (found : graph.nodes[index]? = some node) (named : checkParams params = .ok ())
      (trimmed : trimSlots slots = slots)
      (free : ∀ target, some target ∈ slots → target < graph.count ∧
        ¬ (target = index ∨ graph.Reaches target index))
      (place : ∀ position, fresh position ↔ position = index ∨
        ((graph.rewritten index params slots ty).invalidate [index]).Reaches position index) :
      Change graph id fresh ((graph.rewritten index params slots ty).invalidate [index])
  | remove {index : Nat} {fresh : Nat → Prop} (bound : index < graph.count)
      (place : ∀ position, fresh position ↔ ∃ root ∈ graph.detachedBy index,
        position = root ∨ (graph.removed index).Reaches position root) :
      Change graph (placeBefore index) fresh (graph.removed index)
  | copy {root : Nat} {fresh : Nat → Prop} (bound : root < graph.count)
      (place : ∀ position, fresh position ↔
        graph.count ≤ position ∧ position < (graph.copied root).count) :
      Change graph id fresh (graph.copied root)
  | clear {fresh : Nat → Prop} (place : ∀ position, ¬ fresh position) :
      Change graph id fresh graph.clear
  | keep {fresh : Nat → Prop} (place : ∀ position, ¬ fresh position) : Change graph id fresh graph

end Graph

/-- Where the node at a position was before an accepted edit, if it was there. -/
def Edit.origin : Edit → Nat → Nat
  | .removeNode index _ => Graph.placeBefore index
  | _ => id

/-- Whether an edit that made one graph from another has given the node at a position a new
revision. -/
def Edit.Restamps (graph edited : Graph) : Edit → Nat → Prop
  | .addNode _, position | .addOutputNode _, position => position = graph.count
  | .cloneSubgraph _, position => graph.count ≤ position ∧ position < edited.count
  | .setExpression index _ _, position
  | .removeExpression index _, position
  | .addEdge index _ _, position => position = index ∨ edited.Reaches position index
  | .disconnect index slot, position =>
      (graph.nodes[index]?.bind (·.input? slot)).isSome ∧
        (position = index ∨ edited.Reaches position index)
  | .removeNode index _, position =>
      ∃ consumer, graph.Reads consumer index ∧ (position = Graph.placeAfter index consumer ∨
        edited.Reaches position (Graph.placeAfter index consumer))
  | .setLabel _ _, _ | .clear, _ => False

theorem trimSlots_eq_self (slots : List (Option Nat)) :
    trimSlots slots = slots ↔ slots.getLast? ≠ some none := by
  rw [trimSlots, ← List.rdropWhile, List.rdropWhile_eq_self_iff]
  constructor
  · intro last empty
    have nonempty : slots ≠ [] := by
      intro nothing
      simp [nothing] at empty
    rw [List.getLast?_eq_some_getLast nonempty, Option.some.injEq] at empty
    exact last nonempty (by simp [empty])
  · intro last nonempty empty
    rw [List.getLast?_eq_some_getLast nonempty] at last
    exact last (by simpa using empty)

@[simp] theorem trimSlots_trimSlots (slots : List (Option Nat)) :
    trimSlots (trimSlots slots) = trimSlots slots :=
  List.rdropWhile_idempotent Option.isNone slots

@[simp] theorem mem_trimSlots (slots : List (Option Nat)) (target : Nat) :
    some target ∈ trimSlots slots ↔ some target ∈ slots := by
  have general : ∀ slots : List (Option Nat),
      some target ∈ slots.dropWhile Option.isNone ↔ some target ∈ slots := by
    intro slots
    induction slots with
    | nil => simp
    | cons slot rest ih => cases slot <;> simp [ih]
  simp [trimSlots, general]

theorem trimSlots_map {slots : List (Option Nat)} (shift : Option Nat → Option Nat)
    (trimmed : trimSlots slots = slots) (kept : ∀ slot ∈ slots, (shift slot).isSome = slot.isSome) :
    trimSlots (slots.map shift) = slots.map shift := by
  rw [trimSlots_eq_self] at trimmed ⊢
  rw [List.getLast?_map]
  intro empty
  obtain ⟨last, found, gone⟩ := Option.map_eq_some_iff.mp empty
  have same := kept last (List.mem_of_getLast? found)
  rw [gone] at same
  cases last with
  | none => exact trimmed found
  | some target => simp at same

theorem checkParams_ok_iff (params : Params) :
    checkParams params = .ok () ↔
      Expr.outputName ∈ params.names ∧ ∀ name ∈ params.names, Expr.inputSlot? name = none := by
  rw [checkParams]
  by_cases output : Expr.outputName ∈ params.names
  · have contained : params.names.contains Expr.outputName = true := by simpa using output
    rw [contained]
    cases found : params.names.find? fun name => (Expr.inputSlot? name).isSome with
    | none =>
        have clean := List.find?_eq_none.mp found
        simpa [output] using clean
    | some name =>
        have member := List.mem_of_find?_eq_some found
        have reserved := List.find?_some found
        constructor
        · intro accepted
          simp at accepted
        · rintro ⟨_, clean⟩
          simp [clean name member] at reserved
  · simp [output]

namespace Params

theorem mem_names_put (params : Params) (name other : String) (expr : Expr) :
    other ∈ (params.put name expr).names ↔ other = name ∨ other ∈ params.names := by
  induction params with
  | nil => simp [put, names]
  | cons first rest ih =>
      obtain ⟨head, old⟩ := first
      simp only [names] at ih
      simp only [put]
      split
      · rename_i same
        subst same
        simp [names]
      · simp only [names, List.map_cons, List.mem_cons, ih]
        tauto

theorem mem_names_erase (params : Params) (name other : String) :
    other ∈ (params.erase name).names ↔ other ≠ name ∧ other ∈ params.names := by
  simp only [erase, names, List.mem_map, List.mem_filter, bne_iff_ne]
  constructor
  · rintro ⟨param, ⟨member, different⟩, same⟩
    subst same
    exact ⟨different, param, member, rfl⟩
  · rintro ⟨different, param, member, same⟩
    subst same
    exact ⟨param, ⟨member, different⟩, rfl⟩

end Params

theorem checkParams_put {params : Params} {name : String} {expr : Expr}
    (named : checkParams params = .ok ()) (free : Expr.inputSlot? name = none) :
    checkParams (params.put name expr) = .ok () := by
  rw [checkParams_ok_iff] at named ⊢
  refine ⟨(Params.mem_names_put _ _ _ _).mpr (Or.inr named.1), ?_⟩
  intro other member
  rcases (Params.mem_names_put _ _ _ _).mp member with same | member
  · exact same ▸ free
  · exact named.2 other member

theorem checkParams_erase {params : Params} {name : String} (named : checkParams params = .ok ())
    (other : name ≠ Expr.outputName) : checkParams (params.erase name) = .ok () := by
  rw [checkParams_ok_iff] at named ⊢
  refine ⟨(Params.mem_names_erase _ _ _).mpr ⟨Ne.symm other, named.1⟩, ?_⟩
  intro reserved member
  exact named.2 reserved ((Params.mem_names_erase _ _ _).mp member).2

structure Outline.Fits (outline : Outline) (count nextId : Nat) : Prop where
  bound : ∀ target, some target ∈ outline.slots → target < count
  trimmed : trimSlots outline.slots = outline.slots
  named : checkParams outline.params = .ok ()
  identified : outline.id < nextId

theorem Outline.Fits.mono {outline : Outline} {count nextId more next : Nat}
    (fits : outline.Fits count nextId) (counts : count ≤ more) (identities : nextId ≤ next) :
    outline.Fits more next where
  bound := fun target mentioned => Nat.lt_of_lt_of_le (fits.bound target mentioned) counts
  trimmed := fits.trimmed
  named := fits.named
  identified := Nat.lt_of_lt_of_le fits.identified identities

namespace Graph

/-- What every graph keeps to, apart from types and revisions. -/
structure WellFormed (graph : Graph) : Prop where
  fits : ∀ {index : Nat} {node : Node}, graph.nodes[index]? = some node →
    node.outline.Fits graph.count graph.nextId
  acyclic : graph.topology.Acyclic
  distinct : (graph.outlines.map Outline.id).Nodup

variable {graph : Graph}

theorem bound_of_found {index : Nat} {node : Node} (found : graph.nodes[index]? = some node) :
    index < graph.count :=
  (List.getElem?_eq_some_iff.mp found).1

theorem found_of_bound {index : Nat} (bound : index < graph.count) :
    ∃ node, graph.nodes[index]? = some node :=
  ⟨_, List.getElem?_eq_getElem bound⟩

theorem WellFormed.reads (wellFormed : graph.WellFormed) {index target : Nat} {node : Node}
    (found : graph.nodes[index]? = some node) (mentioned : some target ∈ node.slots) :
    graph.Reads index target :=
  (graph.reads_iff index target).mpr
    ⟨(wellFormed.fits found).bound target mentioned, node, found, mentioned⟩

theorem WellFormed.free (wellFormed : graph.WellFormed) {index target : Nat} {node : Node}
    (found : graph.nodes[index]? = some node) (mentioned : some target ∈ node.slots) :
    target < graph.count ∧ ¬ (target = index ∨ graph.Reaches target index) := by
  have reads := wellFormed.reads found mentioned
  refine ⟨(wellFormed.fits found).bound target mentioned, ?_⟩
  rintro (same | path)
  · subst same
    exact wellFormed.acyclic target (Relation.TransGen.single reads)
  · exact wellFormed.acyclic index (Relation.TransGen.head reads path)

theorem node_ok {index : Nat} {node : Node} :
    graph.node index = .ok node ↔ graph.nodes[index]? = some node := by
  rw [Graph.node]
  cases graph.nodes[index]? <;> simp

theorem bind_ok_iff {failure before result : Type} {first : Except failure before}
    {next : before → Except failure result} {value : result} :
    first >>= next = .ok value ↔ ∃ middle, first = .ok middle ∧ next middle = .ok value := by
  cases first with
  | error error => simp [bind, Except.bind]
  | ok middle => simp [bind, Except.bind]

theorem checkTy_ok {index : Nat} {params : Params} {slots : List (Option Nat)} {ty : Ty} :
    graph.checkTy index params slots = .ok ty ↔ graph.infer index params slots = .ok ty := by
  rw [checkTy]
  cases graph.infer index params slots <;> simp [Except.mapError]

theorem modify_congr {index : Nat} {node : Node} {left right : Node → Node}
    (found : graph.nodes[index]? = some node) (agree : left node = right node) :
    graph.modify index left = graph.modify index right := by
  have nodes : graph.nodes.modify index left = graph.nodes.modify index right := by
    apply List.ext_getElem?
    intro other
    simp only [List.getElem?_modify]
    by_cases same : index = other
    · subst same
      simp [found, agree]
    · simp [same]
  rw [modify, modify, nodes]

theorem addNode_ok {params : Params} {index : Nat} {edited : Graph}
    (accepted : graph.addNode params = .ok (index, edited)) :
    ∃ ty, checkParams params = .ok () ∧ graph.infer graph.count params [] = .ok ty ∧
      index = graph.count ∧ edited = graph.appended params ty := by
  rw [addNode] at accepted
  obtain ⟨_, named, accepted⟩ := bind_ok_iff.mp accepted
  obtain ⟨ty, typed, accepted⟩ := bind_ok_iff.mp accepted
  cases accepted
  exact ⟨ty, named, checkTy_ok.mp typed, rfl, rfl⟩

theorem setLabel_ok {index : Nat} {label : Option String} {edited : Graph}
    (accepted : graph.setLabel index label = .ok edited) :
    edited = graph.relabelled index label := by
  rw [setLabel] at accepted
  obtain ⟨_, _, accepted⟩ := bind_ok_iff.mp accepted
  cases accepted
  rfl

theorem removeNode_ok {index : Nat} {policy : RemovalPolicy} {node : Node} {edited : Graph}
    (accepted : graph.removeNode index policy = .ok (node, edited)) :
    graph.nodes[index]? = some node ∧ edited = graph.removed index := by
  rw [removeNode] at accepted
  obtain ⟨found, present, accepted⟩ := bind_ok_iff.mp accepted
  simp only at accepted
  split at accepted
  · cases accepted
  · cases accepted
    exact ⟨node_ok.mp present, rfl⟩

theorem cloneSubgraph_ok {root : Nat} {added : List Nat} {edited : Graph}
    (accepted : graph.cloneSubgraph root = .ok (added, edited)) :
    root < graph.count ∧ edited = graph.copied root := by
  rw [cloneSubgraph] at accepted
  obtain ⟨_, present, accepted⟩ := bind_ok_iff.mp accepted
  cases accepted
  exact ⟨bound_of_found (node_ok.mp present), rfl⟩

theorem setExpression_ok {index : Nat} {name : String} {expr : Expr} {edited : Graph}
    (accepted : graph.setExpression index name expr = .ok edited) :
    ∃ node ty, graph.nodes[index]? = some node ∧ Expr.inputSlot? name = none ∧
      graph.infer index (node.params.put name expr) node.slots = .ok ty ∧
      edited = (graph.rewritten index (node.params.put name expr) node.slots
        (.ok ty)).invalidate [index] := by
  rw [setExpression] at accepted
  obtain ⟨node, present, accepted⟩ := bind_ok_iff.mp accepted
  split at accepted
  · cases accepted
  · rename_i free
    obtain ⟨ty, typed, accepted⟩ := bind_ok_iff.mp accepted
    cases accepted
    have found := node_ok.mp present
    refine ⟨node, ty, found, by simpa using free, checkTy_ok.mp typed, ?_⟩
    rw [rewritten]
    exact congrArg (invalidate · [index]) (modify_congr found rfl)

theorem removeExpression_ok {index : Nat} {name : String} {expr : Expr} {edited : Graph}
    (accepted : graph.removeExpression index name = .ok (expr, edited)) :
    ∃ node ty, graph.nodes[index]? = some node ∧ name ≠ Expr.outputName ∧
      graph.infer index (node.params.erase name) node.slots = .ok ty ∧
      edited = (graph.rewritten index (node.params.erase name) node.slots
        (.ok ty)).invalidate [index] := by
  rw [removeExpression] at accepted
  obtain ⟨node, present, accepted⟩ := bind_ok_iff.mp accepted
  split at accepted
  · cases accepted
  · rename_i other
    split at accepted
    · cases accepted
    · obtain ⟨ty, typed, accepted⟩ := bind_ok_iff.mp accepted
      cases accepted
      have found := node_ok.mp present
      refine ⟨node, ty, found, other, checkTy_ok.mp typed, ?_⟩
      rw [rewritten]
      exact congrArg (invalidate · [index]) (modify_congr found rfl)

theorem addEdge_ok {reader slot target : Nat} {edited : Graph}
    (accepted : graph.addEdge reader slot target = .ok edited) :
    ∃ node slots ty, graph.nodes[reader]? = some node ∧ target < graph.count ∧
      ¬ (target = reader ∨ graph.Reaches target reader) ∧ slot ≤ node.slots.length ∧
      slots = (if slot = node.slots.length then node.slots ++ [some target]
        else node.slots.set slot (some target)) ∧
      graph.infer reader node.params slots = .ok ty ∧
      edited = (graph.rewritten reader node.params slots (.ok ty)).invalidate [reader] := by
  rw [addEdge] at accepted
  obtain ⟨node, present, accepted⟩ := bind_ok_iff.mp accepted
  obtain ⟨_, targetPresent, accepted⟩ := bind_ok_iff.mp accepted
  simp only at accepted
  split at accepted
  · cases accepted
  · rename_i inside
    split at accepted
    · cases accepted
    · rename_i apart
      obtain ⟨ty, typed, accepted⟩ := bind_ok_iff.mp accepted
      cases accepted
      rw [Topology.dependsOn_iff] at apart
      have found := node_ok.mp present
      refine ⟨node, _, ty, found, bound_of_found (node_ok.mp targetPresent), apart,
        Nat.le_of_not_lt inside, rfl, checkTy_ok.mp typed, ?_⟩
      rw [rewritten]
      exact congrArg (invalidate · [reader]) (modify_congr found rfl)

theorem disconnect_ok {reader slot : Nat} {left : Option Nat} {edited : Graph}
    (accepted : graph.disconnect reader slot = .ok (left, edited)) :
    ∃ node slots, graph.nodes[reader]? = some node ∧ slot < node.slots.length ∧
      left = node.input? slot ∧ slots = trimSlots (node.slots.set slot none) ∧
      edited = if left.isSome
        then (graph.rewritten reader node.params slots node.ty).invalidate [reader]
        else graph.rewritten reader node.params slots node.ty := by
  rw [disconnect] at accepted
  obtain ⟨node, present, accepted⟩ := bind_ok_iff.mp accepted
  split at accepted
  · cases accepted
  · rename_i inside
    cases accepted
    have found := node_ok.mp present
    refine ⟨node, _, found, Nat.lt_of_not_le inside, rfl, rfl, ?_⟩
    have same : graph.rewritten reader node.params (trimSlots (node.slots.set slot none)) node.ty =
        graph.modify reader fun node' =>
          { node' with slots := trimSlots (node.slots.set slot none) } := by
      rw [rewritten]
      exact modify_congr found rfl
    rw [same]

theorem connected_slots {slots : List (Option Nat)} (slot target : Nat)
    (trimmed : trimSlots slots = slots) :
    let connected := if slot = slots.length then slots ++ [some target]
      else slots.set slot (some target)
    trimSlots connected = connected ∧
      ∀ other, some other ∈ connected → other = target ∨ some other ∈ slots := by
  intro connected
  by_cases last : slot = slots.length
  · have shape : connected = slots ++ [some target] := if_pos last
    rw [shape]
    refine ⟨?_, ?_⟩
    · rw [trimSlots_eq_self, List.getLast?_concat]
      simp
    · intro other member
      simpa [or_comm] using member
  · have shape : connected = slots.set slot (some target) := if_neg last
    rw [shape]
    refine ⟨?_, ?_⟩
    · rw [trimSlots_eq_self] at trimmed ⊢
      rw [List.getLast?_eq_getElem?] at trimmed ⊢
      rw [List.length_set, List.getElem?_set]
      split
      · split <;> simp
      · exact trimmed
    · intro other member
      rcases List.mem_or_eq_of_mem_set member with old | new
      · exact Or.inr old
      · exact Or.inl (by simpa using new)

theorem emptied_slots {node : Node} {slot : Nat} (inside : slot < node.slots.length)
    (empty : node.input? slot = none) : node.slots.set slot none = node.slots := by
  have entry : node.slots[slot] = none := by
    simpa [Node.input?, List.getElem?_eq_getElem inside] using empty
  rw [← entry, List.set_getElem_self]

theorem rewritten_self {index : Nat} {node : Node} (found : graph.nodes[index]? = some node) :
    graph.rewritten index node.params node.slots node.ty = graph := by
  have same : graph.rewritten index node.params node.slots node.ty = graph.modify index id :=
    modify_congr found rfl
  rw [same, modify, List.modify_id]

theorem WellFormed.disconnect_change (wellFormed : graph.WellFormed) {reader slot : Nat}
    {left : Option Nat} {edited : Graph}
    (accepted : graph.disconnect reader slot = .ok (left, edited)) :
    Change graph id (Edit.Restamps graph edited (.disconnect reader slot)) edited := by
  obtain ⟨node, slots, found, inside, target, emptied, shape⟩ := disconnect_ok accepted
  have trimmed := (wellFormed.fits found).trimmed
  have connected : (graph.nodes[reader]?.bind (·.input? slot)).isSome = left.isSome := by
    rw [found, target]
    rfl
  cases left with
  | none =>
      have same : slots = node.slots := by
        rw [emptied, emptied_slots inside target.symm]
        exact trimmed
      rw [same, rewritten_self found] at shape
      have unchanged : edited = graph := by simpa using shape
      subst unchanged
      refine .keep fun position restamped => ?_
      simp [Edit.Restamps, connected] at restamped
  | some _ =>
      have rewriting : edited =
          (graph.rewritten reader node.params slots node.ty).invalidate [reader] := by
        simpa using shape
      subst rewriting
      refine .rewrite found ((wellFormed.fits found).named) ?_ ?_ fun position => ?_
      · rw [emptied, trimSlots_trimSlots]
      · intro other member
        rw [emptied, mem_trimSlots] at member
        rcases List.mem_or_eq_of_mem_set member with old | new
        · exact wellFormed.free found old
        · simp at new
      · simp only [Edit.Restamps, connected, Option.isSome_some, true_and]

theorem WellFormed.change (wellFormed : graph.WellFormed) {edit : Edit} {edited : Graph}
    (accepted : graph.edit edit = .ok edited) :
    Change graph edit.origin (edit.Restamps graph edited) edited := by
  cases edit with
  | addNode entries =>
      obtain ⟨⟨index, result⟩, added, equal⟩ := bind_ok_iff.mp accepted
      obtain ⟨ty, named, typed, _, shape⟩ := addNode_ok added
      cases equal
      rw [shape]
      exact .append named typed fun _ => Iff.rfl
  | addOutputNode output =>
      obtain ⟨⟨index, result⟩, added, equal⟩ := bind_ok_iff.mp accepted
      obtain ⟨ty, named, typed, _, shape⟩ := addNode_ok added
      cases equal
      rw [shape]
      exact .append named typed fun _ => Iff.rfl
  | setLabel index label =>
      have shape := setLabel_ok accepted
      rw [shape]
      exact .relabel fun _ => id
  | removeNode index policy =>
      obtain ⟨⟨node, result⟩, gone, equal⟩ := bind_ok_iff.mp accepted
      obtain ⟨found, shape⟩ := removeNode_ok gone
      cases equal
      have place : ∀ position, Edit.Restamps graph result (.removeNode index policy) position ↔
          ∃ root ∈ graph.detachedBy index,
            position = root ∨ (graph.removed index).Reaches position root := by
        intro position
        simp only [Edit.Restamps, detachedBy, List.mem_map, graph.mirrored.transposed, shape]
        constructor
        · rintro ⟨consumer, reads, place⟩
          exact ⟨_, ⟨consumer, reads, rfl⟩, place⟩
        · rintro ⟨_, ⟨consumer, reads, rfl⟩, place⟩
          exact ⟨consumer, reads, place⟩
      have change := Change.remove (bound_of_found found) place
      rw [← shape] at change
      exact change
  | cloneSubgraph root =>
      obtain ⟨⟨added, result⟩, cloned, equal⟩ := bind_ok_iff.mp accepted
      obtain ⟨bound, shape⟩ := cloneSubgraph_ok cloned
      cases equal
      have place : ∀ position, Edit.Restamps graph result (.cloneSubgraph root) position ↔
          graph.count ≤ position ∧ position < (graph.copied root).count := by
        intro position
        simp only [Edit.Restamps, shape]
      have change := Change.copy bound place
      rw [← shape] at change
      exact change
  | setExpression index name expr =>
      obtain ⟨node, ty, found, free, _, shape⟩ := setExpression_ok accepted
      rw [shape]
      exact .rewrite found (checkParams_put (wellFormed.fits found).named free)
        (wellFormed.fits found).trimmed (fun target mentioned => wellFormed.free found mentioned)
        fun _ => Iff.rfl
  | removeExpression index name =>
      obtain ⟨⟨expr, result⟩, gone, equal⟩ := bind_ok_iff.mp accepted
      obtain ⟨node, ty, found, other, _, shape⟩ := removeExpression_ok gone
      cases equal
      rw [shape]
      exact .rewrite found (checkParams_erase (wellFormed.fits found).named other)
        (wellFormed.fits found).trimmed (fun target mentioned => wellFormed.free found mentioned)
        fun _ => Iff.rfl
  | addEdge reader slot target =>
      obtain ⟨node, slots, ty, found, bound, apart, _, connected, _, shape⟩ := addEdge_ok accepted
      rw [shape]
      subst connected
      obtain ⟨trimmed, mentioned⟩ := connected_slots slot target (wellFormed.fits found).trimmed
      refine .rewrite found (wellFormed.fits found).named trimmed ?_ fun _ => Iff.rfl
      intro other member
      rcases mentioned other member with same | old
      · subst same
        exact ⟨bound, apart⟩
      · exact wellFormed.free found old
  | disconnect reader slot =>
      obtain ⟨⟨left, result⟩, parted, equal⟩ := bind_ok_iff.mp accepted
      cases equal
      exact wellFormed.disconnect_change parted
  | clear =>
      rw [edit, pure, Applicative.toPure] at accepted
      cases accepted
      exact .clear fun _ => id

end Graph

end NodeGraph
