import NodeGraph.Proofs.Graph.Revisions
import NodeGraph.Proofs.Typing.NodeRules

/-!
Edits that take inputs away. A node that reads less is typed from less, so it keeps a type, and the
type it had is an instance of the new one; the same then holds of all that reads it.
-/

namespace NodeGraph

/-- The node has a type, of which the type that it had before is an instance. -/
def Node.Generalizes (node before : Node) : Prop :=
  ∃ general ty, node.ty = .ok general ∧ before.ty = .ok ty ∧
    ∃ generics : Nat → Ty, ty = general.instanceBy generics

structure SlotsLoosened (origin : Nat → Nat) (before slots : List (Option Nat)) : Prop where
  length : slots.length ≤ before.length
  connected : ∀ slot target : Nat, slots[slot]? = some (some target) →
    before[slot]? = some (some (origin target))

theorem trimSlots_kept (slots : List (Option Nat)) : trimSlots slots <+: slots :=
  List.rdropWhile_prefix Option.isNone slots

theorem SlotsLoosened.trim {origin : Nat → Nat} {before slots : List (Option Nat)}
    (loosened : SlotsLoosened origin before slots) :
    SlotsLoosened origin before (trimSlots slots) where
  length := Nat.le_trans (trimSlots_kept slots).length_le loosened.length
  connected := by
    intro slot target found
    obtain ⟨dropped, whole⟩ := trimSlots_kept slots
    refine loosened.connected slot target ?_
    rw [← whole, List.getElem?_append_left (List.getElem?_eq_some_iff.mp found).1, found]

theorem slotsLoosened_set (slots : List (Option Nat)) (slot : Nat) :
    SlotsLoosened id slots (slots.set slot none) where
  length := by rw [List.length_set]
  connected := by
    intro other target found
    rw [List.getElem?_set] at found
    split at found
    · split at found <;> cases found
    · exact found

theorem slotsLoosened_shift (index : Nat) (slots : List (Option Nat)) :
    SlotsLoosened (Graph.placeBefore index) slots (slots.map (slotAfterRemoval index)) where
  length := by rw [List.length_map]
  connected := by
    intro slot target found
    rw [List.getElem?_map] at found
    obtain ⟨old, present, shifted⟩ := Option.map_eq_some_iff.mp found
    rw [present, (Graph.slotAfterRemoval_eq_some index old target).mp shifted]

namespace Graph

variable {graph edited : Graph} {origin : Nat → Nat}

/-- Every node stands for one of before and has its parameters, but its slots may be loosened. -/
structure Loosened (graph : Graph) (origin : Nat → Nat) (edited : Graph) : Prop where
  registry : edited.registry = graph.registry
  old : ∀ {position : Nat} {node : Node}, edited.nodes[position]? = some node →
    ∃ before, graph.nodes[origin position]? = some before ∧ before.id = node.id ∧
      before.params = node.params ∧ SlotsLoosened origin before.slots node.slots

theorem Loosened.of_outlines {later : Graph} (loosened : graph.Loosened origin edited)
    (outlines : later.outlines = edited.outlines) (registry : later.registry = edited.registry) :
    graph.Loosened origin later where
  registry := registry.trans loosened.registry
  old := by
    intro position node found
    obtain ⟨other, present, same⟩ := outline_of_outlines outlines found
    obtain ⟨before, there, id, params, slots⟩ := loosened.old present
    have sameSlots : other.slots = node.slots := congrArg Outline.slots same
    exact ⟨before, there, id.trans (congrArg Outline.id same),
      params.trans (congrArg Outline.params same), sameSlots ▸ slots⟩

theorem loosened_rewritten {index : Nat} {node : Node} {slots : List (Option Nat)}
    (found : graph.nodes[index]? = some node) (loosened : SlotsLoosened id node.slots slots) :
    graph.Loosened id (graph.rewritten index node.params slots node.ty) where
  registry := rfl
  old := by
    intro position other present
    rw [rewritten_nodes] at present
    obtain ⟨before, there, same⟩ := Option.map_eq_some_iff.mp present
    refine ⟨before, there, ?_⟩
    split at same
    · rename_i here
      subst here
      cases found.symm.trans there
      subst same
      exact ⟨rfl, rfl, loosened⟩
    · subst same
      exact ⟨rfl, rfl, Nat.le_refl _, fun _ _ connected => connected⟩

theorem loosened_without (index : Nat) :
    graph.Loosened (placeBefore index) (graph.without index) where
  registry := rfl
  old := by
    intro position node found
    rw [without_nodes] at found
    obtain ⟨before, present, rfl⟩ := Option.map_eq_some_iff.mp found
    exact ⟨before, present, rfl, rfl, (slotsLoosened_shift index before.slots).trim⟩

theorem disconnect_loosened {reader slot : Nat} {left : Option Nat}
    (accepted : graph.disconnect reader slot = .ok (left, edited)) :
    graph.Loosened id edited ∧ edited.count = graph.count := by
  obtain ⟨node, slots, found, _, _, emptied, shape⟩ := disconnect_ok accepted
  have bare : graph.Loosened id (graph.rewritten reader node.params slots node.ty) :=
    loosened_rewritten found (emptied ▸ (slotsLoosened_set node.slots slot).trim)
  rw [shape]
  split
  · refine ⟨bare.of_outlines (invalidate_outlines [reader]) ?_, ?_⟩
    · rw [invalidate_eq, foldl_restamp_registry, foldl_retype_registry]
    · rw [count_of_outlines (invalidate_outlines [reader]), rewritten_count]
  · exact ⟨bare, rewritten_count _ _ _ _⟩

theorem removed_loosened (index : Nat) :
    graph.Loosened (placeBefore index) (graph.removed index) := by
  refine (loosened_without index).of_outlines (removed_outlines index) ?_
  rw [removed, foldl_restamp_registry, retypeAll, foldl_retype_registry]

theorem removed_count {index : Nat} (bound : index < graph.count) :
    (graph.removed index).count + 1 = graph.count := by
  rw [count_of_outlines (removed_outlines index), without_count bound]

theorem inputTypes_loosened {before slots : List (Option Nat)}
    (kept : SlotsLoosened origin before slots) (narrow : before.length ≤ Expr.maxArguments)
    (inputs : ∀ target, some target ∈ slots → ∀ node, edited.nodes[target]? = some node →
      ∃ old, graph.nodes[origin target]? = some old ∧ node.Generalizes old) :
    Loosens (graph.inputTypes before) (edited.inputTypes slots) where
  readable := by
    intro slot readable
    rw [inputTypes_eq, List.length_map] at readable
    exact Or.inr (readable.elim (fun inside => Nat.lt_of_lt_of_le inside narrow) id)
  suits := by
    intro types suits slot input ty present known
    rw [inputTypes_eq, List.getElem?_map] at present
    obtain ⟨connection, connected, rfl⟩ := Option.map_eq_some_iff.mp present
    cases connection with
    | none => cases known
    | some target =>
        obtain ⟨outcome, stored, told⟩ := Option.bind_eq_some_iff.mp known
        obtain ⟨node, found, rfl⟩ := Option.map_eq_some_iff.mp stored
        obtain ⟨old, there, general, oldTy, nodeOk, oldOk, generics, rfl⟩ :=
          inputs target (List.mem_of_getElem? connected) node found
        rw [nodeOk] at told
        cases told
        have oldInput : (graph.inputTypes before)[slot]? =
            some ⟨some (origin target), some (ty.instanceBy generics)⟩ := by
          rw [inputTypes_eq, List.getElem?_map, kept.connected slot target connected]
          simp only [Option.map_some, ty?, there, oldOk]
          rfl
        obtain ⟨more, same⟩ := suits slot _ _ oldInput rfl
        exact ⟨_, same.trans (ty.instanceBy_instanceBy generics more)⟩

structure WellTyped (graph : Graph) : Prop where
  accepted : ∀ {index : Nat} {node : Node}, graph.nodes[index]? = some node → ∃ ty, node.ty = .ok ty
  narrow : ∀ {index : Nat} {node : Node}, graph.nodes[index]? = some node →
    node.slots.length ≤ Expr.maxArguments

/-- The node at a position stands at its place after an edit, with its identity and its parameters,
and generalizes what it was. -/
def Survives (graph edited : Graph) (position place : Nat) : Prop :=
  ∃ before node, graph.nodes[position]? = some before ∧ edited.nodes[place]? = some node ∧
    node.id = before.id ∧ node.params = before.params ∧ node.Generalizes before

/-- Where inputs are only taken away, every node survives; by induction along the dependencies, as
types depend on those of the inputs. -/
theorem Loosened.survives (loosened : graph.Loosened origin edited) (typed : graph.Typed)
    (editedTyped : edited.Typed) (wellFormed : edited.WellFormed)
    (closed : graph.registry.Closed) (fine : graph.WellTyped) (position : Nat) :
    position < edited.count → graph.Survives edited (origin position) position := by
  induction position using wellFormed.acyclic.induction edited.mirrored with
  | step position ih =>
      intro bound
      obtain ⟨node, found⟩ := found_of_bound bound
      obtain ⟨before, present, id, params, slots⟩ := loosened.old found
      obtain ⟨ty, had⟩ := fine.accepted present
      have inputs := inputTypes_loosened slots (fine.narrow present)
        fun target mentioned other there => by
          obtain ⟨old, _, placed, same, _, _, general⟩ :=
            ih target (wellFormed.reads found mentioned) (bound_of_found there)
          cases there.symm.trans same
          exact ⟨old, placed, general⟩
      have inferred := (typed _ before present).symm.trans had
      obtain ⟨general, again, generics, same⟩ := inputs.inferNode closed
        (typed.inputTypes_known _) (editedTyped.inputTypes_known _) inferred position
      refine ⟨before, node, present, found, id.symm, params.symm, general, ty, ?_, had, generics,
        same⟩
      rw [editedTyped position node found, infer, loosened.registry, ← params]
      exact again

/-- Disconnecting never breaks typing. Where every node has a type and no more slots than there may
be arguments, and a slot is emptied or a node leaves and empties the slots that read it, every
remaining node still has a type, and the type that it had is an instance of it. -/
theorem Reachable.disconnecting_keeps_types (reachable : graph.Reachable)
    (closed : graph.registry.Closed) (fine : graph.WellTyped) :
    (∀ reader slot left edited, graph.disconnect reader slot = .ok (left, edited) →
      edited.count = graph.count ∧
        ∀ position, position < graph.count → graph.Survives edited position position) ∧
    ∀ index gone edited, graph.removeNode index .detach = .ok (gone, edited) →
      edited.count + 1 = graph.count ∧
        ∀ position, position < graph.count → position ≠ index →
          graph.Survives edited position (placeAfter index position) := by
  have wellFormed := reachable.wellFormed
  have typed := reachable.typed
  constructor
  · intro reader slot left edited accepted
    have changed : graph.edit (.disconnect reader slot) = .ok edited :=
      bind_ok_iff.mpr ⟨_, accepted, rfl⟩
    have change := wellFormed.change changed
    obtain ⟨loosened, count⟩ := disconnect_loosened accepted
    refine ⟨count, fun position bound => ?_⟩
    exact loosened.survives typed (typed.changed wellFormed change) (wellFormed.changed change)
      closed fine position (count ▸ bound)
  · intro index gone edited accepted
    have changed : graph.edit (.removeNode index .detach) = .ok edited :=
      bind_ok_iff.mpr ⟨_, accepted, rfl⟩
    have change := wellFormed.change changed
    obtain ⟨found, shape⟩ := removeNode_ok accepted
    rw [shape] at change ⊢
    have count := removed_count (bound_of_found found)
    have inside := bound_of_found found
    refine ⟨count, fun position bound other => ?_⟩
    rw [← count] at inside bound
    have survives := (removed_loosened index).survives typed (typed.changed wellFormed change)
      (wellFormed.changed change) closed fine (placeAfter index position)
      (placeAfter_lt other bound inside)
    rwa [placeBefore_placeAfter other] at survives

/-- A constant, a node that passes it on, and a function that ignores its argument for that. -/
def forwarded : Graph :=
  (Graph.empty .empty).run
    [.addOutputNode (.constant (.integer 1)), .addOutputNode (.variable (Expr.inputName 0)),
      .addOutputNode (.lambda ["x"] (.variable (Expr.inputName 0))), .addEdge 1 0 0, .addEdge 2 0 1]

def shownTypes (graph : Graph) : List (Option String) :=
  graph.nodes.map fun node => node.ty.toOption.map Ty.display

theorem ok_of_toOption {failure result : Type} {outcome : Except failure result} {value : result}
    (present : outcome.toOption = some value) : outcome = .ok value := by
  cases outcome with
  | error _ => cases present
  | ok _ => exact congrArg Except.ok (Option.some.inj present)

theorem forwarded_keeps_types :
    forwarded.Reachable ∧ forwarded.registry.Closed ∧ forwarded.WellTyped ∧
      forwarded.shownTypes = [some "Number", some "Number", some "('a) -> Number"] ∧
      (∃ left edited, forwarded.disconnect 1 0 = .ok (left, edited) ∧
        edited.shownTypes = [some "Number", some "'a", some "('a) -> 'b"] ∧
        ∀ position, position < 3 → forwarded.Survives edited position position) ∧
      ∃ gone edited, forwarded.removeNode 0 .detach = .ok (gone, edited) ∧
        edited.shownTypes = [some "'a", some "('a) -> 'b"] ∧
        ∀ position, position < 2 → forwarded.Survives edited (position + 1) position := by
  have reachable : forwarded.Reachable := (Reachable.empty .empty none 0).run _
  have registry : forwarded.registry = .empty := by
    obtain ⟨place, persists⟩ := (Reachable.empty .empty none 0).persists _
    exact persists.registry
  have closed : forwarded.registry.Closed := by
    rw [registry]
    exact fun name signature found => nomatch found
  have checked : (forwarded.nodes.all fun node =>
      node.ty.toBool && decide (node.slots.length ≤ Expr.maxArguments)) = true := by
    decide +kernel
  have fine : forwarded.WellTyped := by
    refine ⟨fun {index node} found => ?_, fun {index node} found => ?_⟩
    all_goals
      have both := List.all_eq_true.mp checked node (List.mem_of_getElem? found)
      rw [Bool.and_eq_true] at both
    · cases stored : node.ty with
      | ok ty => exact ⟨ty, rfl⟩
      | error failure =>
          rw [stored] at both
          cases both.1
    · exact of_decide_eq_true both.2
  have count : forwarded.count = 3 := by decide +kernel
  obtain ⟨disconnects, removes⟩ := Reachable.disconnecting_keeps_types reachable closed fine
  rw [count] at disconnects removes
  have parted : (forwarded.disconnect 1 0).toOption.map (fun result => result.2.shownTypes) =
      some [some "Number", some "'a", some "('a) -> 'b"] := by decide +kernel
  have removal : (forwarded.removeNode 0 .detach).toOption.map (fun result => result.2.shownTypes) =
      some [some "'a", some "('a) -> 'b"] := by decide +kernel
  obtain ⟨⟨left, edited⟩, present, shown⟩ := Option.map_eq_some_iff.mp parted
  obtain ⟨⟨gone, shrunk⟩, rest, shrunkShown⟩ := Option.map_eq_some_iff.mp removal
  have disconnected := ok_of_toOption present
  have removed := ok_of_toOption rest
  refine ⟨reachable, closed, fine, by decide +kernel,
    ⟨left, edited, disconnected, shown, (disconnects 1 0 left edited disconnected).2⟩,
    ⟨gone, shrunk, removed, shrunkShown, fun position bound => ?_⟩⟩
  exact (removes 0 gone shrunk removed).2 (position + 1) (by omega) (Nat.succ_ne_zero position)

end Graph

end NodeGraph
