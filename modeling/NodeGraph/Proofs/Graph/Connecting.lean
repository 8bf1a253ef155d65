import NodeGraph.Proofs.Graph.Revisions

/-!
Connecting. An edge is refused as a cycle exactly when it would close one. The check is made on the
graph as it is, with the edge that may be replaced still in place: that edge leads away from the
reader, and a path to the reader ends where it comes to it first.
-/

namespace NodeGraph

open Relation

/-- Slots with one of them, or a new one right behind the last, reading a target. -/
def connect (slots : List (Option Nat)) (slot target : Nat) : List (Option Nat) :=
  if slot = slots.length then slots ++ [some target] else slots.set slot (some target)

theorem getElem?_connect {slots : List (Option Nat)} {slot : Nat} (inside : slot ≤ slots.length)
    (target other : Nat) :
    (connect slots slot target)[other]? =
      if other = slot then some (some target) else slots[other]? := by
  rw [connect]
  split
  · rename_i last
    subst last
    rw [List.getElem?_append]
    rcases Nat.lt_trichotomy other slots.length with less | same | more
    · rw [if_pos less, if_neg (Nat.ne_of_lt less)]
    · simp [same]
    · have beyond : other - slots.length ≠ 0 := by omega
      rw [if_neg (Nat.lt_asymm more), if_neg (Nat.ne_of_gt more), List.getElem?_eq_none,
        List.getElem?_eq_none (Nat.le_of_lt more)]
      rw [List.length_singleton]
      omega
  · have below : slot < slots.length := by omega
    rw [List.getElem?_set]
    by_cases same : other = slot
    · rw [if_pos same.symm, if_pos same, if_pos below]
    · rw [if_neg (Ne.symm same), if_neg same]

namespace Graph

variable {graph : Graph} {reader slot target : Nat} {node : Node}

def connected (graph : Graph) (reader slot target : Nat) : Graph :=
  graph.modify reader fun node => { node with slots := connect node.slots slot target }

theorem connected_eq (found : graph.nodes[reader]? = some node) (slot target : Nat) :
    graph.connected reader slot target =
      graph.rewritten reader node.params (connect node.slots slot target) node.ty :=
  modify_congr found rfl

theorem names_connected (found : graph.nodes[reader]? = some node)
    (inside : slot ≤ node.slots.length) :
    (graph.connected reader slot target).Names reader target := by
  have mentioned : some target ∈ connect node.slots slot target := by
    refine List.mem_of_getElem? (i := slot) ?_
    rw [getElem?_connect inside, if_pos rfl]
  exact ⟨{ node with slots := connect node.slots slot target },
    by simp [connected, modify, found], mentioned⟩

theorem Names.connected {source other : Nat} (names : graph.Names source other)
    (different : source ≠ reader) : (graph.connected reader slot target).Names source other := by
  obtain ⟨node, found, mentioned⟩ := names
  exact ⟨node, by simp [Graph.connected, modify, different.symm, found], mentioned⟩

/-- A path that leads to the reader stays when the reader is connected anew: only a cycle could take
it through the reader on its way. -/
theorem WellFormed.path_connected (wellFormed : graph.WellFormed) {source : Nat}
    (path : graph.Reaches source reader) :
    TransGen (graph.connected reader slot target).Names source reader := by
  induction path using TransGen.head_induction_on with
  | @single source reads =>
      have different : source ≠ reader := by
        rintro rfl
        exact wellFormed.acyclic source (.single reads)
      exact .single (((wellFormed.names_iff _ _).mpr reads).connected different)
  | @head source next reads rest ih =>
      have different : source ≠ reader := by
        rintro rfl
        exact wellFormed.acyclic source (.head reads rest)
      exact .head (((wellFormed.names_iff _ _).mpr reads).connected different) ih

theorem WellFormed.closes_cycle_iff (wellFormed : graph.WellFormed)
    (found : graph.nodes[reader]? = some node) (bound : target < graph.count)
    (inside : slot ≤ node.slots.length) :
    (∃ position, TransGen (graph.connected reader slot target).Names position position) ↔
      target = reader ∨ graph.Reaches target reader := by
  constructor
  · rintro ⟨position, cycle⟩
    by_contra free
    obtain ⟨trimmed, mentioned⟩ := connected_slots slot target (wellFormed.fits found).trimmed
    have after : (graph.connected reader slot target).WellFormed := by
      rw [connected_eq found]
      refine wellFormed.rewritten node.ty (wellFormed.fits found).named trimmed ?_
      intro other member
      rcases mentioned other member with rfl | old
      · exact ⟨bound, free⟩
      · exact wellFormed.free found old
    exact after.acyclic position (cycle.lift id fun _ _ => (after.names_iff _ _).mp)
  · have edge := @names_connected graph reader slot target node found inside
    rintro (rfl | path)
    · exact ⟨target, .single edge⟩
    · exact ⟨reader, .head edge (wellFormed.path_connected path)⟩

theorem addEdge_eq (found : graph.nodes[reader]? = some node) (bound : target < graph.count)
    (inside : slot ≤ node.slots.length) :
    graph.addEdge reader slot target =
      if graph.topology.dependsOn target reader then .error (.cycle reader target)
      else (graph.checkTy reader node.params (connect node.slots slot target)).map fun ty =>
        (graph.rewritten reader node.params (connect node.slots slot target)
          (.ok ty)).invalidate [reader] := by
  obtain ⟨other, present⟩ := found_of_bound bound
  rw [addEdge, node_ok.mpr found, node_ok.mpr present]
  simp only [bind, Except.bind]
  rw [if_neg (Nat.not_lt.mpr inside)]
  split
  · rfl
  · change Except.bind (graph.checkTy reader node.params (connect node.slots slot target)) _ = _
    cases graph.checkTy reader node.params (connect node.slots slot target) with
    | error failure => rfl
    | ok ty =>
        exact congrArg (fun graph => Except.ok (invalidate graph [reader])) (modify_congr found rfl)

def slotAt (graph : Graph) (position slot : Nat) : Option (Option Nat) :=
  graph.nodes[position]?.bind (·.slots[slot]?)

theorem slotAt_of_outlines {left right : Graph} (same : left.outlines = right.outlines)
    (position slot : Nat) : left.slotAt position slot = right.slotAt position slot := by
  have general : ∀ graph : Graph, graph.slotAt position slot =
      graph.outlines[position]?.bind (·.slots[slot]?) := by
    intro graph
    rw [slotAt, outlines, List.getElem?_map]
    cases graph.nodes[position]? <;> rfl
  rw [general, general, same]

theorem slotAt_rewritten (found : graph.nodes[reader]? = some node) (params : Params)
    (slots : List (Option Nat)) (ty : Except NodeTypeError Ty) (position other : Nat) :
    (graph.rewritten reader params slots ty).slotAt position other =
      if position = reader then slots[other]? else graph.slotAt position other := by
  rw [slotAt, slotAt, rewritten_nodes]
  by_cases same : position = reader
  · subst same
    simp [found]
  · simp only [if_neg same, if_neg (Ne.symm same), Option.map_id']

theorem addEdge_slots {edited : Graph} (found : graph.nodes[reader]? = some node)
    (inside : slot ≤ node.slots.length) (accepted : graph.addEdge reader slot target = .ok edited) :
    edited.count = graph.count ∧ ∀ position other, edited.slotAt position other =
      if position = reader ∧ other = slot then some (some target)
      else graph.slotAt position other := by
  obtain ⟨before, slots, ty, present, _, _, _, rfl, _, rfl⟩ := addEdge_ok accepted
  obtain rfl := Option.some.inj (found.symm.trans present)
  refine ⟨?_, fun position other => ?_⟩
  · rw [count_of_outlines (invalidate_outlines _), rewritten_count]
  · rw [slotAt_of_outlines (invalidate_outlines _), slotAt_rewritten found]
    by_cases same : position = reader
    · subst same
      have here : graph.slotAt position other = node.slots[other]? := by
        rw [slotAt, found]
        rfl
      change (if position = position then (connect node.slots slot target)[other]? else _) = _
      rw [if_pos rfl, getElem?_connect inside, here]
      simp
    · simp [same]

/-- Connecting is exact. For a slot of the reader or the one right behind them, the edge is refused
as a cycle exactly when the graph with the edge in place has one. Otherwise it is accepted exactly
when the reader has a type with its new slots, and then that slot is the only one that differs. -/
theorem Reachable.connecting_exact (reachable : graph.Reachable)
    (found : graph.nodes[reader]? = some node) (bound : target < graph.count)
    (inside : slot ≤ node.slots.length) :
    (∀ first second, graph.addEdge reader slot target = .error (.cycle first second) ↔
      (first = reader ∧ second = target) ∧
        ∃ position, TransGen (graph.connected reader slot target).Names position position) ∧
    ((¬ ∃ position, TransGen (graph.connected reader slot target).Names position position) →
      ((∃ edited, graph.addEdge reader slot target = .ok edited) ↔
        ∃ ty, inferNode graph.registry reader node.params
          (graph.inputTypes (connect node.slots slot target)) = .ok ty)) ∧
    ∀ edited, graph.addEdge reader slot target = .ok edited →
      edited.count = graph.count ∧ ∀ position other, edited.slotAt position other =
        if position = reader ∧ other = slot then some (some target)
        else graph.slotAt position other := by
  have cyclic : graph.topology.dependsOn target reader = true ↔
      ∃ position, TransGen (graph.connected reader slot target).Names position position := by
    rw [Topology.dependsOn_iff, reachable.wellFormed.closes_cycle_iff found bound inside]
  have typed : graph.infer reader node.params (connect node.slots slot target) =
      inferNode graph.registry reader node.params
        (graph.inputTypes (connect node.slots slot target)) := rfl
  refine ⟨fun first second => ?_, fun free => ?_, fun _ => addEdge_slots found inside⟩
  · rw [addEdge_eq found bound inside, checkTy, ← cyclic]
    by_cases closes : graph.topology.dependsOn target reader = true
    · simp [closes, eq_comm]
    · cases graph.infer reader node.params (connect node.slots slot target) <;>
        simp [closes, Except.mapError, Except.map]
  · rw [addEdge_eq found bound inside, checkTy, if_neg (mt cyclic.mp free), ← typed]
    cases graph.infer reader node.params (connect node.slots slot target) <;>
      simp [Except.mapError, Except.map]

/-- A constant, a node that reads it, and a node that reads that one. -/
def chained : Graph :=
  (Graph.empty .empty).run
    [.addOutputNode (.constant (.integer 1)), .addOutputNode (.variable (Expr.inputName 0)),
      .addOutputNode (.variable (Expr.inputName 0)), .addEdge 1 0 0, .addEdge 2 0 1]

/-- The middle node cannot read the last one in place of the first, but the last one can read the
first in place of the middle. -/
theorem chained_connecting_exact :
    chained.Reachable ∧ chained.addEdge 1 0 2 = .error (.cycle 1 2) ∧
      (∃ position, TransGen (chained.connected 1 0 2).Names position position) ∧
      ∃ edited, chained.addEdge 2 0 0 = .ok edited ∧ edited.slotAt 2 0 = some (some 0) ∧
        edited.slotAt 1 0 = some (some 0) := by
  have reachable : chained.Reachable := (Reachable.empty .empty none 0).run _
  obtain ⟨middle, middleFound⟩ := found_of_bound (by decide +kernel : 1 < chained.count)
  obtain ⟨last, lastFound⟩ := found_of_bound (by decide +kernel : 2 < chained.count)
  have refused := Reachable.connecting_exact reachable middleFound
    (by decide +kernel : 2 < chained.count) (Nat.zero_le _)
  have accepted := Reachable.connecting_exact reachable lastFound
    (by decide +kernel : 0 < chained.count) (Nat.zero_le _)
  have closed : chained.addEdge 1 0 2 = .error (.cycle 1 2) := by
    rw [addEdge_eq middleFound (by decide +kernel) (Nat.zero_le _)]
    exact if_pos (by decide +kernel)
  refine ⟨reachable, closed, ((refused.1 1 2).mp closed).2, ?_⟩
  have passes : (chained.addEdge 2 0 0).isOk = true := by decide +kernel
  cases result : chained.addEdge 2 0 0 with
  | error failure =>
      rw [result] at passes
      cases passes
  | ok edited =>
      obtain ⟨_, slots⟩ := accepted.2.2 edited result
      refine ⟨edited, rfl, slots 2 0, (slots 1 0).trans ?_⟩
      decide +kernel

end Graph

end NodeGraph
