import NodeGraph.Proofs.Execution.Coherence

/-!
What plans and outcomes are worth later. A plan is made on one graph and its outcome is committed to
another. What it computed is still right for the revisions it was computed at, and those that are
still there are found by the commit.
-/

namespace NodeGraph

namespace Graph

variable {graph : Graph} {right : Nat → Value → Prop}

/-- The values of an outcome are right for revisions that were given before. -/
structure Credits (graph : Graph) (right : Nat → Value → Prop) (outcome : Outcome) : Prop where
  issued : outcome.revision ≤ graph.lastRevision
  value : graph.Vouches right outcome.revision outcome.value
  computedIssued : ∀ computed ∈ outcome.computed, computed.revision ≤ graph.lastRevision
  computed : ∀ computed ∈ outcome.computed, graph.Vouches right computed.revision computed.value

/-- The plan has no other outcomes, however evaluations are numbered when it is run. -/
def Promises (graph : Graph) (right : Nat → Value → Prop) (plan : Plan) : Prop :=
  ∀ serial outcome, plan.run serial = .ok outcome → graph.Credits right outcome

theorem Achieves.credits {outcome : Outcome} (achieves : graph.Achieves right outcome)
    (stamped : graph.Stamped) : graph.Credits right outcome := by
  obtain ⟨node, found, same⟩ := achieves.revision
  refine ⟨?_, ?_, ?_, ?_⟩
  · exact same ▸ stamped.bound found
  · exact same ▸ stamped.vouches found achieves.value
  · intro computed member
    obtain ⟨_, node, found, same⟩ := achieves.computed computed member
    exact same ▸ stamped.bound found
  · intro computed member
    obtain ⟨valued, node, found, same⟩ := achieves.computed computed member
    exact same ▸ stamped.vouches found valued

theorem Credits.current {outcome : Outcome} (credits : graph.Credits right outcome)
    (current : Engine.isCurrent graph outcome.target outcome.revision = true) :
    right outcome.target outcome.value := by
  obtain ⟨node, found, same⟩ := (Engine.isCurrent_iff _ _).mp current
  exact credits.value outcome.target node found same

section Cacheable

variable {later : Graph} {place : Nat → Nat} {right : Graph → Nat → Value → Prop}
  {faulty : Graph → Nat → Fault → Prop} (cacheable : Cacheable right faulty)

include cacheable

theorem Plans.promises (reachable : graph.Reachable) {plan : Plan}
    (plans : graph.Plans (right graph) plan) : graph.Promises (right graph) plan :=
  fun serial _ ran =>
    ((plans.run_cacheable cacheable reachable serial).value ran).2.credits reachable.stamped

variable (kept : graph.Persists place later) (reachable : graph.Reachable)
  (laterReachable : later.Reachable)

include kept reachable laterReachable

theorem Credits.persists {outcome : Outcome} (credits : graph.Credits (right graph) outcome) :
    later.Credits (right later) outcome where
  issued := Nat.le_trans credits.issued kept.lastRevision
  value :=
    credits.value.persists cacheable.lasting kept reachable laterReachable credits.issued
  computedIssued := fun computed member =>
    Nat.le_trans (credits.computedIssued computed member) kept.lastRevision
  computed := fun computed member => (credits.computed computed member).persists cacheable.lasting
    kept reachable laterReachable (credits.computedIssued computed member)

theorem Promises.persists {plan : Plan} (promises : graph.Promises (right graph) plan) :
    later.Promises (right later) plan :=
  fun serial outcome ran =>
    (promises serial outcome ran).persists cacheable kept reachable laterReachable

end Cacheable

end Graph

namespace Engine

def stores (graph : Graph) (computed : List Computed) : List (CacheKey × Value) :=
  (computed.filter fun entry => isCurrent graph entry.index entry.revision).map fun entry =>
    (⟨entry.index, entry.revision⟩, entry.value)

theorem commit_eq (engine : Engine) (graph : Graph) (outcome : Outcome) :
    engine.commit graph outcome = ((stores graph outcome.computed).length,
      (stores graph outcome.computed).foldl
        (fun engine entry => engine.remember entry.1 entry.2) engine) := by
  -- From any count and engine, since the fold goes on with both.
  have general : ∀ (computed : List Computed) (count : Nat) (engine : Engine),
      computed.foldl (fun state entry =>
        if isCurrent graph entry.index entry.revision then
          (state.1 + 1, state.2.remember ⟨entry.index, entry.revision⟩ entry.value)
        else state) (count, engine) =
      (count + (stores graph computed).length, (stores graph computed).foldl
        (fun engine entry => engine.remember entry.1 entry.2) engine) := by
    intro computed
    induction computed with
    | nil => exact fun _ _ => rfl
    | cons first rest ih =>
        intro count engine
        rw [List.foldl_cons, ih, stores, stores, List.filter_cons]
        by_cases current : isCurrent graph first.index first.revision = true
        · simp only [current, if_true, List.map_cons, List.length_cons, List.foldl_cons]
          rw [Nat.add_right_comm, Nat.add_assoc]
        · simp only [current, if_false, Bool.false_eq_true]
  exact (general outcome.computed 0 engine).trans (by rw [Nat.zero_add])

end Engine

namespace Graph

variable {graph : Graph} {right : Nat → Value → Prop} {outcome : Outcome}

open Engine in
theorem Credits.stores (credits : graph.Credits right outcome) {key : CacheKey} {value : Value}
    (stored : (key, value) ∈ stores graph outcome.computed) :
    ∃ node, graph.nodes[key.index]? = some node ∧ node.revision = key.revision ∧
      right key.index value := by
  obtain ⟨computed, member, same⟩ := List.mem_map.mp stored
  obtain ⟨inside, current⟩ := List.mem_filter.mp member
  cases same
  obtain ⟨node, found, revision⟩ := (isCurrent_iff _ _).mp current
  exact ⟨node, found, revision, credits.computed computed inside _ node found revision⟩

theorem Credits.commit (credits : graph.Credits right outcome) (stamped : graph.Stamped)
    {engine : Engine} (faithful : graph.Faithful right engine.cache) :
    graph.Faithful right (engine.commit graph outcome).2.cache := by
  refine Engine.commit_faithful stamped faithful fun computed member current => ?_
  obtain ⟨node, found, revision⟩ := (Engine.isCurrent_iff _ _).mp current
  exact credits.computed computed member _ node found revision

end Graph

end NodeGraph
