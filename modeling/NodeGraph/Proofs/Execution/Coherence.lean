import NodeGraph.Proofs.Execution.Batches
import NodeGraph.Proofs.Primitive.Uniformity

/-!
Coherence of sessions. Through edits, evaluations and evictions in any order, the cache never has
another value for a node at its revision than the reference value, so evaluation always gives the
reference value. This holds of every node to whose value the identity of functions makes no
difference, whatever other nodes do.
-/

namespace NodeGraph

namespace Graph

variable {graph : Graph} {serials : Nat → Nat}

/-- The reference value of a node is this one, up to identity. -/
def HasValue (graph : Graph) (serials : Nat → Nat) (position : Nat) (value : Value) : Prop :=
  ∃ expected, graph.reference serials position = .ok expected ∧ value.Alike expected

/-- The same for a node to whose value identity makes no difference. -/
def Right (graph : Graph) (serials : Nat → Nat) (position : Nat) (value : Value) : Prop :=
  graph.IgnoresIdentity serials position → graph.HasValue serials position value

def Faulty (graph : Graph) (serials : Nat → Nat) (position : Nat) (fault : Fault) : Prop :=
  graph.IgnoresIdentity serials position → graph.reference serials position = .error fault

theorem hasValue_of_map {position : Nat} {outcome : Except Fault Value}
    (same : outcome.map Value.anonymous = (graph.reference serials position).map Value.anonymous) :
    (∀ value, outcome = .ok value → graph.HasValue serials position value) ∧
      ∀ fault, outcome = .error fault → graph.reference serials position = .error fault := by
  obtain ⟨value, expected, rfl, found, alike⟩ | ⟨fault, rfl, found⟩ := map_eq_map_cases same
  · refine ⟨?_, nofun⟩
    rintro _ ⟨⟩
    exact ⟨expected, found, alike⟩
  · refine ⟨nofun, ?_⟩
    rintro _ ⟨⟩
    exact found

/-- A node evaluated on right inputs has its reference value, or faults as it does. -/
theorem WellFormed.evaluate_reference (wellFormed : graph.WellFormed) {index : Nat} {node : Node}
    (found : graph.nodes[index]? = some node) {known : List (Nat × Value)}
    (inputs : ∀ target, some target ∈ node.slots → ∃ value, known.lookup target = some value ∧
      graph.Right serials target value) (serial : Nat)
    (ignores : graph.IgnoresIdentity serials index) :
    ((Snapshot.ofNode index node).evaluate graph.registry serial
      ((Snapshot.ofNode index node).inputValues known)).map Value.anonymous =
        (graph.reference serials index).map Value.anonymous := by
  rw [IgnoresIdentity, wellFormed.watch_eq found] at ignores
  obtain ⟨values, reading, alike⟩ := watchSlots_known (fun target mentioned => by
    obtain ⟨value, given, right⟩ := inputs target mentioned
    refine ⟨value, given, fun along => ?_⟩
    rw [watch_outcome]
    exact right along) ignores.first
  have evaluated := Snapshot.evaluate_alike _ serial alike (ignores.rest reading)
  rw [← watch_outcome, wellFormed.watch_eq found, Watched.outcome_bind, reading]
  exact evaluated.symm.trans (congrArg _ (Snapshot.watch_outcome _ _ _ _).symm)

theorem reference_cacheable (serials : Nat → Nat) :
    Cacheable (fun graph => graph.Right serials) fun graph => graph.Faulty serials where
  lasting := by
    intro graph later place kept reachable laterReachable position node value found old right
    have seen : later.watch serials position = graph.watch serials (place position) :=
      kept.watch reachable.wellFormed laterReachable.wellFormed found old
    rw [Right, IgnoresIdentity, HasValue, ← watch_outcome, seen, kept.registry, watch_outcome]
    exact right
  evaluates := fun reachable _ _ found serial =>
    { value := fun inputs outcome ignores => (hasValue_of_map
        (reachable.wellFormed.evaluate_reference found inputs serial ignores)).1 _ outcome
      fault := fun inputs outcome ignores => (hasValue_of_map
        (reachable.wellFormed.evaluate_reference found inputs serial ignores)).2 _ outcome }

theorem WellFormed.reference_fault (wellFormed : graph.WellFormed) {reader target : Nat}
    (path : reader = target ∨ graph.Reaches reader target) {fault : Fault}
    (faulty : graph.Faulty serials target fault)
    (ignores : graph.IgnoresIdentity serials reader) :
    ∃ fault, graph.reference serials reader = .error fault := by
  cases valued : graph.reference serials reader with
  | error other => exact ⟨other, rfl⟩
  | ok value =>
      have broken := faulty (wellFormed.ignoresIdentity_below path ignores valued)
      obtain ⟨other, impossible⟩ := wellFormed.valueUnder_fault path broken
      rw [reference, impossible] at valued
      cases valued

end Graph

namespace Engine

variable {graph : Graph} {engine : Engine}

theorem isCurrent_iff (index revision : Nat) :
    isCurrent graph index revision = true ↔
      ∃ node, graph.nodes[index]? = some node ∧ node.revision = revision := by
  rw [isCurrent]
  cases graph.nodes[index]? with
  | none => simp
  | some node => simp

theorem commit_faithful {right : Nat → Value → Prop} (stamped : graph.Stamped)
    (faithful : graph.Faithful right engine.cache) {outcome : Outcome}
    (valued : ∀ computed ∈ outcome.computed,
      isCurrent graph computed.index computed.revision = true →
        right computed.index computed.value) :
    graph.Faithful right (engine.commit graph outcome).2.cache := by
  rw [commit]
  refine List.foldlRecOn (motive := fun pair : Nat × Engine => graph.Faithful right pair.2.cache)
    outcome.computed _ faithful ?_
  intro (stored, engine) faithful computed member
  by_cases current : isCurrent graph computed.index computed.revision = true
  · obtain ⟨node, found, revision⟩ := (isCurrent_iff _ _).mp current
    simp only [current, if_true]
    refine remember_faithful faithful ?_ ?_
    · exact revision ▸ stamped.bound found
    · exact revision ▸ stamped.vouches found (valued computed member current)
  · simp only [current]
    exact faithful

variable {right : Graph → Nat → Value → Prop} {faulty : Graph → Nat → Fault → Prop}

theorem evaluate_right (cacheable : Graph.Cacheable right faulty) (reachable : graph.Reachable)
    (faithful : graph.Faithful (right graph) engine.cache) {index : Nat}
    (bound : index < graph.count) :
    (∃ value later, engine.evaluate graph index = .ok (.ok (value, later)) ∧
      right graph index value ∧ graph.Faithful (right graph) later.cache) ∨
    ∃ fault, engine.evaluate graph index = .error fault ∧
      ∃ target, (index = target ∨ graph.Reaches index target) ∧ faulty graph target fault := by
  obtain ⟨plan, planned, made, faithfulPlanned, target, plans⟩ :=
    plan_ok reachable.wellFormed faithful_answers faithful bound
  rcases evaluate_ends made (plans.run_cacheable cacheable reachable planned.serial) with
    ⟨outcome, ⟨same, achieves⟩, evaluated⟩ | ⟨fault, broken, evaluated⟩
  · refine Or.inl ⟨_, _, evaluated, ?_, ?_⟩
    · rw [← target, ← same]
      exact achieves.value
    · refine commit_faithful reachable.stamped ?_
        fun computed member _ => (achieves.computed computed member).1
      exact faithfulPlanned
  · exact Or.inr ⟨fault, evaluated, target ▸ broken⟩

theorem plan_outside {index : Nat} (outside : graph.count ≤ index) :
    engine.plan graph index = .error (.nodeOutOfRange index graph.count) := by
  have missing : graph.nodes[index]? = none := List.getElem?_eq_none outside
  rw [plan, Graph.revision, Graph.node, missing]
  rfl

theorem evaluate_outside {index : Nat} (outside : graph.count ≤ index) :
    engine.evaluate graph index = .ok (.error (.nodeOutOfRange index graph.count)) := by
  rw [evaluate, plan_outside outside]

end Engine

theorem Graph.ignoresIdentity_of_plain {graph : Graph} {serials : Nat → Nat}
    (builtin : graph.registry = .builtin)
    (plain : ∀ index < graph.count, ∀ application ∈ (graph.watch serials index).applied,
      application.name = "eq" → Value.plainList application.operands = true) (index : Nat) :
    graph.IgnoresIdentity serials index := by
  intro application member
  rw [builtin]
  by_cases bound : index < graph.count
  · exact Registry.builtin_respectsAt (plain index bound application member)
  · have missing : graph.nodes[index]? = none := List.getElem?_eq_none (Nat.not_lt.mp bound)
    rw [watch, watchUnder, watchWithin, missing] at member
    cases member

namespace Session

/-- The session after an edit that may be rejected. Clearing the graph clears the cache with it. -/
def after (session : Session) : Edit → Session
  | .clear => session.clear
  | edit => { session with graph := session.graph.after edit }

/-- What edits, evaluations, lookups and evictions make of a session that starts with nothing in the
cache. The batches of a whole evaluation may be run in any order of their nodes. -/
inductive Reachable : Session → Prop
  | opened {graph : Graph} (reachable : graph.Reachable) (engine : Engine)
      (nothing : engine.cache.entries = []) : Reachable ⟨graph, engine, .idle⟩
  | edited {session : Session} (before : Reachable session) (edit : Edit) :
      Reachable (session.after edit)
  | evaluated {session later : Session} {index : Nat} {value : Value} (before : Reachable session)
      (result : session.evaluate index = .ok (.ok (value, later))) : Reachable later
  | evaluatedAll {session : Session} {order : List (List Nat)} {values : List Value}
      {engine : Engine} (before : Reachable session)
      (schedules : session.graph.topology.Schedules order)
      (result : session.engine.evaluateAllIn session.graph order = .ok (values, engine)) :
      Reachable { session with engine }
  | lookedUp {session : Session} (before : Reachable session) (index : Nat) :
      Reachable (session.cached index).2
  | evicted {session : Session} {cache : Cache} (before : Reachable session)
      (fewer : cache.entries ⊆ session.engine.cache.entries) :
      Reachable { session with engine := { session.engine with cache } }

theorem ofGraph_graph (graph : Graph) (options : Options) (serial : Nat) :
    (ofGraph graph options serial).graph = graph := rfl

theorem ofGraph_reachable {graph : Graph} (reachable : graph.Reachable) (options : Options)
    (serial : Nat) : (ofGraph graph options serial).Reachable :=
  .opened reachable _ rfl

theorem after_graph (session : Session) (edit : Edit) :
    (session.after edit).graph = session.graph.after edit := by
  cases edit <;> rfl

theorem after_entries (session : Session) (edit : Edit) :
    (session.after edit).engine.cache.entries ⊆ session.engine.cache.entries := by
  cases edit with
  | clear => exact List.nil_subset _
  | _ => exact fun _ member => member

variable {session : Session}

theorem evaluate_eq {index : Nat} {value : Value} {later : Session}
    (result : session.evaluate index = .ok (.ok (value, later))) :
    ∃ engine, session.engine.evaluate session.graph index = .ok (.ok (value, engine)) ∧
      later = { session with engine } := by
  rw [evaluate] at result
  cases evaluated : session.engine.evaluate session.graph index with
  | error fault =>
      rw [evaluated] at result
      cases result
  | ok outcome =>
      rw [evaluated] at result
      cases outcome with
      | error error => cases result
      | ok pair =>
          obtain ⟨produced, engine⟩ := pair
          cases result
          exact ⟨engine, rfl, rfl⟩

theorem Reachable.graph (reachable : session.Reachable) : session.graph.Reachable := by
  induction reachable with
  | opened reachable engine nothing => exact reachable
  | edited before edit ih =>
      rw [after_graph]
      exact ih.edited edit
  | evaluated before result ih =>
      obtain ⟨engine, _, rfl⟩ := evaluate_eq result
      exact ih
  | evaluatedAll before schedules result ih => exact ih
  | lookedUp before index ih => exact ih
  | evicted before fewer ih => exact ih

section Cacheable

variable {right : Graph → Nat → Value → Prop} {faulty : Graph → Nat → Fault → Prop}
  (cacheable : Graph.Cacheable right faulty)

include cacheable

theorem faithful_after (reachable : session.graph.Reachable)
    (faithful : session.graph.Faithful (right session.graph) session.engine.cache) (edit : Edit) :
    (session.after edit).graph.Faithful (right (session.after edit).graph)
      (session.after edit).engine.cache := by
  obtain ⟨place, persists⟩ := reachable.persists [edit]
  have kept := faithful.persists cacheable.lasting persists reachable (reachable.edited edit)
  rw [after_graph]
  exact kept.of_entries (session.after_entries edit)

theorem faithful_evaluated (reachable : session.graph.Reachable)
    (faithful : session.graph.Faithful (right session.graph) session.engine.cache) {index : Nat}
    {value : Value} {engine : Engine}
    (evaluated : session.engine.evaluate session.graph index = .ok (.ok (value, engine))) :
    session.graph.Faithful (right session.graph) engine.cache := by
  by_cases bound : index < session.graph.count
  · rcases Engine.evaluate_right cacheable reachable faithful bound
      with ⟨_, _, given, _, kept⟩ | ⟨_, faulty, _⟩
    · rw [given] at evaluated
      cases evaluated
      exact kept
    · rw [faulty] at evaluated
      cases evaluated
  · rw [Engine.evaluate_outside (by omega)] at evaluated
    cases evaluated

theorem Reachable.faithful (reachable : session.Reachable) :
    session.graph.Faithful (right session.graph) session.engine.cache := by
  induction reachable with
  | opened reachable engine nothing =>
      refine ⟨?_, ?_⟩
      · intro entry member
        rw [nothing] at member
        cases member
      · intro entry member
        rw [nothing] at member
        cases member
  | edited before edit ih => exact faithful_after cacheable before.graph ih edit
  | evaluated before result ih =>
      obtain ⟨engine, evaluated, rfl⟩ := evaluate_eq result
      exact faithful_evaluated cacheable before.graph ih evaluated
  | evaluatedAll before schedules result ih =>
      exact ((Engine.evaluateAllIn_right cacheable before.graph ih schedules).value result).1
  | lookedUp before index ih => exact Engine.cached_faithful ih index
  | evicted before fewer ih => exact ih.of_entries fewer

theorem Reachable.evaluate_right (reachable : session.Reachable) {index : Nat}
    (bound : index < session.graph.count) :
    (∃ value later, session.evaluate index = .ok (.ok (value, later)) ∧
      right session.graph index value) ∨
    ∃ fault, session.evaluate index = .error fault ∧
      ∃ target, (index = target ∨ session.graph.Reaches index target) ∧
        faulty session.graph target fault := by
  rw [evaluate]
  rcases Engine.evaluate_right cacheable reachable.graph (reachable.faithful cacheable) bound with
    ⟨value, engine, given, valued, _⟩ | ⟨fault, broken, below⟩
  · rw [given]
    exact Or.inl ⟨value, _, rfl, valued⟩
  · rw [broken]
    exact Or.inr ⟨fault, rfl, below⟩

end Cacheable

/-- Cache coherence: after any session, an entry for a node at its current revision is the reference
value of the node. So evaluating a node, or all of them in any order of the batches, gives reference
values; it faults only where the reference value of a node does. All of this is about nodes in whose
evaluation no primitive that is applied tells functions apart that differ only in their identity;
what it makes of functions in the evaluation of other nodes does not matter. -/
theorem Reachable.coherent (reachable : session.Reachable) (serials : Nat → Nat) :
    (∀ entry ∈ session.engine.cache.entries, ∀ node,
      session.graph.nodes[entry.key.index]? = some node → node.revision = entry.key.revision →
        session.graph.IgnoresIdentity serials entry.key.index →
          session.graph.HasValue serials entry.key.index entry.value) ∧
    (∀ index, index < session.graph.count → session.graph.IgnoresIdentity serials index →
      (∃ value later, session.evaluate index = .ok (.ok (value, later)) ∧
        session.graph.HasValue serials index value) ∨
      ∃ fault, session.evaluate index = .error fault ∧
        ∃ fault, session.graph.reference serials index = .error fault) ∧
    (∀ order, session.graph.topology.Schedules order →
      (∃ values engine, session.engine.evaluateAllIn session.graph order = .ok (values, engine) ∧
        values.length = session.graph.count ∧
        ∀ index value, values[index]? = some value → session.graph.IgnoresIdentity serials index →
          session.graph.HasValue serials index value) ∨
      ∃ fault, session.engine.evaluateAllIn session.graph order = .error fault ∧
        ((∀ index < session.graph.count, session.graph.IgnoresIdentity serials index) →
          ∃ index < session.graph.count, session.graph.reference serials index = .error fault)) ∧
    ∃ order, session.graph.topology.Schedules order ∧ session.evaluateAll =
      (fun (values, engine) => .ok (values, { session with engine })) <$>
        session.engine.evaluateAllIn session.graph order := by
  have wellFormed := reachable.graph.wellFormed
  have cacheable := Graph.reference_cacheable serials
  have faithful := reachable.faithful cacheable
  refine ⟨?_, ?_, ?_, ?_⟩
  · intro entry member node found revision
    exact faithful.vouched entry member _ node found revision
  · intro index bound ignores
    rcases reachable.evaluate_right cacheable bound with
      ⟨value, later, given, right⟩ | ⟨fault, faulty, target, path, broken⟩
    · exact Or.inl ⟨value, later, given, right ignores⟩
    · exact Or.inr ⟨fault, faulty, wellFormed.reference_fault path broken ignores⟩
  · intro order schedules
    rcases (Engine.evaluateAllIn_right cacheable reachable.graph faithful schedules).ends with
      ⟨⟨values, engine⟩, evaluated, _, everything, right⟩ | ⟨fault, evaluated, index, bound, faulty⟩
    · exact Or.inl ⟨values, engine, evaluated, everything, right⟩
    · exact Or.inr ⟨fault, evaluated, fun ignore => ⟨index, bound, faulty (ignore index bound)⟩⟩
  · obtain ⟨_, _, found, _⟩ := wellFormed.acyclic.batches_ok session.graph.mirrored
    refine ⟨_, ⟨_, found, List.forall₂_same.mpr fun _ _ => List.Perm.refl _⟩, ?_⟩
    rw [evaluateAll, Engine.evaluateAll_eq found]
    cases session.engine.evaluateAllIn session.graph _ <;> rfl

/-- A function, a number, and whether the function leaves the number as it is. -/
def fixing : Graph :=
  (Graph.empty Registry.builtin).run
    [.addOutputNode (.lambda ["x"] (.variable "x")), .addOutputNode (.constant (.integer 3)),
      .addOutputNode (.primitive "eq"
        [.apply (.variable (Expr.inputName 0)) [.variable (Expr.inputName 1)],
          .variable (Expr.inputName 1)]),
      .addEdge 2 0 0, .addEdge 2 1 1]

def evaluating (session : Session) (index : Nat) : Session :=
  match session.evaluate index with
  | .ok (.ok (_, later)) => later
  | _ => session

theorem Reachable.evaluating (reachable : session.Reachable) (index : Nat) :
    (session.evaluating index).Reachable := by
  rw [Session.evaluating]
  split
  · exact reachable.evaluated ‹_›
  · exact reachable

theorem evaluating_graph (session : Session) (index : Nat) :
    (session.evaluating index).graph = session.graph := by
  rw [Session.evaluating]
  split
  · obtain ⟨engine, _, rfl⟩ := evaluate_eq ‹_›
    rfl
  · rfl

def renumbered : Edit := .setExpression 1 Expr.outputName (.constant (.integer 4))

/-- The comparison is evaluated for one number and then for another. -/
def fixedTwice : Session :=
  (((ofGraph fixing .default 0).evaluating 2).after renumbered).evaluating 2

/-- Numbers are compared, and never functions. So all that is in the cache for the nodes as they are
are their reference values, the function among them, and evaluation gives that of the comparison. -/
theorem fixedTwice_coherent :
    fixedTwice.Reachable ∧ fixedTwice.graph.registry = .builtin ∧
      (∀ index, fixedTwice.graph.IgnoresIdentity id index) ∧
      fixedTwice.engine.cache.entries.map CacheEntry.key =
        [⟨2, 7⟩, ⟨1, 6⟩, ⟨0, 1⟩, ⟨2, 5⟩, ⟨1, 2⟩] ∧
      (∀ entry ∈ fixedTwice.engine.cache.entries, ∀ node,
        fixedTwice.graph.nodes[entry.key.index]? = some node →
          node.revision = entry.key.revision →
            fixedTwice.graph.HasValue id entry.key.index entry.value) ∧
      ∃ value later, fixedTwice.evaluate 2 = .ok (.ok (value, later)) ∧
        fixedTwice.graph.HasValue id 2 value := by
  have empty := Graph.Reachable.empty Registry.builtin none 0
  have made : fixing.Reachable := empty.run _
  have opened := ofGraph_reachable made .default 0
  have reachable : fixedTwice.Reachable := ((opened.evaluating 2).edited renumbered).evaluating 2
  have registry : fixedTwice.graph.registry = .builtin :=
    calc
      fixedTwice.graph.registry = (fixing.run [renumbered]).registry := by
        rw [fixedTwice, evaluating_graph, after_graph, evaluating_graph, ofGraph_graph, Graph.run,
          List.foldl_cons, List.foldl_nil]
      _ = fixing.registry := (made.persists [renumbered]).elim fun _ kept => kept.registry
      _ = .builtin := (empty.persists _).elim fun _ kept => kept.registry
  have ignores : ∀ index, fixedTwice.graph.IgnoresIdentity id index :=
    Graph.ignoresIdentity_of_plain registry (by decide +kernel)
  have bound : 2 < fixedTwice.graph.count := by decide +kernel
  have yields : (fixedTwice.evaluate 2).toOption.isSome = true := by decide +kernel
  have keys : fixedTwice.engine.cache.entries.map CacheEntry.key =
      [⟨2, 7⟩, ⟨1, 6⟩, ⟨0, 1⟩, ⟨2, 5⟩, ⟨1, 2⟩] := by decide +kernel
  generalize fixedTwice = session at *
  obtain ⟨entries, evaluates, _⟩ := Reachable.coherent reachable id
  refine ⟨reachable, registry, ignores, keys,
    fun entry member node found same => entries entry member node found same (ignores _), ?_⟩
  rcases evaluates 2 bound (ignores 2) with given | ⟨fault, faulty, _⟩
  · exact given
  · rw [faulty] at yields
    cases yields

def negation : Primitive :=
  .unary (Logic.connective "not" 1 "Logical negation") Logic.negation

theorem negation_respects (view : View) (left right : List Value)
    (alike : left.map view.value = right.map view.value) :
    (negation.apply left).map view.value = (negation.apply right).map view.value := by
  have commutes : negation.Commutes view :=
    (Primitive.givesBase_unary rfl Logic.negation_gives).commutes
      (Primitive.overlooks_reading (fun _ _ => rfl) fun _ _ => rfl)
  exact commutes.congr alike

theorem negation_ignoresIdentity : negation.IgnoresIdentity := negation_respects .anonymous

def negated : Graph :=
  (Graph.empty (Registry.empty.register negation)).run
    [.addOutputNode (.constant (.boolean true)),
      .addOutputNode (.primitive "not" [.variable (Expr.inputName 0)]), .addEdge 1 0 0]

end Session

end NodeGraph
