import NodeGraph.Execution.Session
import NodeGraph.Proofs.Graph.Histories

/-!
What the cache holds. Operations on the cache drop entries, move them, or add the one they are
given, so a property of entries lasts. The properties that matter say that a value is right for
whichever node carries the revision; edits keep them, because a revision lasts only as long as the
cone behind it.
-/

namespace NodeGraph

namespace Cache

variable (cache : Cache) (key : CacheKey)

theorem get_entries : ∀ entry ∈ (cache.get key).2.entries, entry ∈ cache.entries := by
  rw [get]
  cases found : cache.find? key with
  | none => exact fun _ member => member
  | some hit =>
      intro entry member
      rcases List.mem_cons.mp member with same | other
      · exact same ▸ List.mem_of_find?_eq_some found
      · exact (List.mem_filter.mp other).1

theorem get_value {value : Value} (hit : (cache.get key).1 = some value) :
    ∃ entry ∈ cache.entries, entry.key = key ∧ entry.value = value := by
  rw [get] at hit
  cases found : cache.find? key with
  | none => simp [found] at hit
  | some entry =>
      refine ⟨entry, List.mem_of_find?_eq_some found, ?_, by simpa [found] using hit⟩
      simpa using List.find?_some found

theorem discard_entries (drops : CacheKey → Bool) :
    ∀ entry ∈ (cache.discard drops).entries, entry ∈ cache.entries := by
  intro entry member
  rw [discard, List.partition_eq_filter_filter] at member
  exact (List.mem_filter.mp member).1

theorem evictLast_entries : ∀ entry ∈ cache.evictLast.entries, entry ∈ cache.entries := by
  rw [evictLast]
  split
  · exact fun entry member => List.mem_of_mem_dropLast member
  · exact fun _ member => member

theorem makeRoom_entries (size fuel : Nat) :
    ∀ entry ∈ (makeRoom size fuel cache).entries, entry ∈ cache.entries := by
  induction fuel generalizing cache with
  | zero => exact fun _ member => member
  | succ fuel ih =>
      intro entry member
      rw [makeRoom] at member
      split at member
      · exact evictLast_entries cache entry (ih cache.evictLast entry member)
      · exact member

theorem put_entries (value : Value) (cost : Nat) :
    ∀ entry ∈ (cache.put key value cost).entries,
      (entry.key = key ∧ entry.value = value) ∨ entry ∈ cache.entries := by
  intro entry member
  rw [put] at member
  rcases List.mem_cons.mp member with same | old
  · rw [same]
    exact Or.inl ⟨rfl, rfl⟩
  · have roomy : entry ∈ (makeRoom value.size (cache.invalidate key).entries.length
        (cache.invalidate key)).entries := by
      split at old
      · exact evictLast_entries _ entry old
      · exact old
    exact Or.inr (discard_entries cache _ entry (makeRoom_entries _ _ _ entry roomy))

end Cache

namespace Graph

variable {graph : Graph} {right : Nat → Value → Prop}

def Vouches (graph : Graph) (right : Nat → Value → Prop) (revision : Nat) (value : Value) : Prop :=
  ∀ position node, graph.nodes[position]? = some node → node.revision = revision →
    right position value

/-- Every entry has a revision given before and a value that is right for the node that carries it.
-/
structure Faithful (graph : Graph) (right : Nat → Value → Prop) (cache : Cache) : Prop where
  issued : ∀ entry ∈ cache.entries, entry.key.revision ≤ graph.lastRevision
  vouched : ∀ entry ∈ cache.entries, graph.Vouches right entry.key.revision entry.value

theorem Faithful.of_entries {cache other : Cache} (faithful : graph.Faithful right cache)
    (entries : ∀ entry ∈ other.entries, entry ∈ cache.entries) : graph.Faithful right other where
  issued := fun entry member => faithful.issued entry (entries entry member)
  vouched := fun entry member => faithful.vouched entry (entries entry member)

theorem Faithful.put {cache : Cache} (faithful : graph.Faithful right cache) {key : CacheKey}
    {value : Value} (issued : key.revision ≤ graph.lastRevision)
    (vouched : graph.Vouches right key.revision value) (cost : Nat) :
    graph.Faithful right (cache.put key value cost) where
  issued := by
    intro entry member
    rcases cache.put_entries key value cost entry member with ⟨sameKey, _⟩ | old
    · rw [sameKey]
      exact issued
    · exact faithful.issued entry old
  vouched := by
    intro entry member
    rcases cache.put_entries key value cost entry member with ⟨sameKey, sameValue⟩ | old
    · rw [sameKey, sameValue]
      exact vouched
    · exact faithful.vouched entry old

theorem Stamped.vouches (stamped : graph.Stamped) {position : Nat} {node : Node}
    (found : graph.nodes[position]? = some node) {value : Value}
    (valued : right position value) : graph.Vouches right node.revision value := by
  intro other otherNode otherFound same
  rw [stamped.distinct otherFound found same]
  exact valued

/-- What is right for a node stays right as long as its revision persists. -/
def Lasting (right : Graph → Nat → Value → Prop) : Prop :=
  ∀ {graph later : Graph} {place : Nat → Nat}, graph.Persists place later → graph.Reachable →
    later.Reachable → ∀ {position : Nat} {node : Node} {value : Value},
      later.nodes[position]? = some node → node.revision ≤ graph.lastRevision →
        right graph (place position) value → right later position value

section Persists

variable {right : Graph → Nat → Value → Prop} {later : Graph} {place : Nat → Nat}
  (lasting : Lasting right) (kept : graph.Persists place later)
  (reachable : graph.Reachable) (laterReachable : later.Reachable)

include lasting kept reachable laterReachable

theorem Vouches.persists {revision : Nat} {value : Value}
    (vouches : graph.Vouches (right graph) revision value)
    (issued : revision ≤ graph.lastRevision) : later.Vouches (right later) revision value := by
  intro position node found same
  have small : node.revision ≤ graph.lastRevision := same ▸ issued
  obtain ⟨before, present, _, revision, _⟩ := kept.old found small
  exact lasting kept reachable laterReachable found small
    (vouches _ before present (revision.trans same))

theorem Faithful.persists {cache : Cache} (faithful : graph.Faithful (right graph) cache) :
    later.Faithful (right later) cache where
  issued := fun entry member =>
    Nat.le_trans (faithful.issued entry member) kept.lastRevision
  vouched := fun entry member => (faithful.vouched entry member).persists lasting kept reachable
    laterReachable (faithful.issued entry member)

end Persists

end Graph

namespace Engine

variable {graph : Graph} {right : Nat → Value → Prop} {engine : Engine}

theorem lookup_faithful (faithful : graph.Faithful right engine.cache) (key : CacheKey) :
    graph.Faithful right (engine.lookup key).2.cache := by
  rw [lookup]
  split
  · exact faithful.of_entries (engine.cache.get_entries key)
  · exact faithful

theorem lookup_value (faithful : graph.Faithful right engine.cache) {key : CacheKey} {value : Value}
    (hit : (engine.lookup key).1 = some value) : graph.Vouches right key.revision value := by
  rw [lookup] at hit
  split at hit
  · obtain ⟨entry, member, sameKey, sameValue⟩ := engine.cache.get_value key hit
    rw [← sameKey, ← sameValue]
    exact faithful.vouched entry member
  · cases hit

theorem remember_faithful (faithful : graph.Faithful right engine.cache) {key : CacheKey}
    {value : Value} (issued : key.revision ≤ graph.lastRevision)
    (vouched : graph.Vouches right key.revision value) :
    graph.Faithful right (engine.remember key value).cache := by
  rw [remember]
  split
  · exact faithful.put issued vouched 0
  · exact faithful

theorem cached_faithful (faithful : graph.Faithful right engine.cache) (index : Nat) :
    graph.Faithful right (engine.cached graph index).2.cache := by
  rw [cached]
  split
  · exact lookup_faithful faithful _
  · exact faithful

theorem cached_value (faithful : graph.Faithful right engine.cache) {index : Nat} {value : Value}
    (hit : (engine.cached graph index).1 = some value) : right index value := by
  rw [cached] at hit
  split at hit
  · rename_i node found
    exact lookup_value faithful hit index node found rfl
  · cases hit

end Engine

end NodeGraph
