import Mathlib.Order.Lattice.Nat
import NodeGraph.Proofs.Topology.Knots

/-!
Distances. The queries on a table of any kind tell exactly what a node leads to, closest first; what
a node depends on and what depends on it mirror each other.
-/

namespace NodeGraph.Topology

open Relation

/-- One node leads to another in so many steps. -/
inductive Walk (step : Nat → Nat → Prop) (start : Nat) : Nat → Nat → Prop where
  | start : Walk step start 0 start
  | onward {length before node : Nat} (walk : Walk step start length before)
      (last : step before node) : Walk step start (length + 1) node

noncomputable def distance (step : Nat → Nat → Prop) (start node : Nat) : Nat :=
  sInf { length | Walk step start length node }

section Walks

variable {step : Nat → Nat → Prop} {start : Nat}

theorem exists_walk {node : Nat} (path : ReflTransGen step start node) :
    ∃ length, Walk step start length node := by
  induction path with
  | refl => exact ⟨0, .start⟩
  | tail _ last ih =>
      obtain ⟨length, walk⟩ := ih
      exact ⟨length + 1, walk.onward last⟩

theorem walk_distance {node : Nat} (path : ReflTransGen step start node) :
    Walk step start (distance step start node) node :=
  Nat.sInf_mem (exists_walk path)

theorem Walk.distance_le {length node : Nat} (walk : Walk step start length node) :
    distance step start node ≤ length :=
  Nat.sInf_le walk

end Walks

section Search

variable (next : Nat → List Nat) (start : Nat)

theorem within_iff (steps node : Nat) :
    Within next start steps node ↔
      ∃ length ≤ steps, Walk (fun source target => target ∈ next source) start length node := by
  induction steps generalizing node with
  | zero =>
      constructor
      · rintro rfl
        exact ⟨0, Nat.le_refl 0, .start⟩
      · rintro ⟨length, few, walk⟩
        cases walk with
        | start => rfl
        | onward => omega
  | succ steps ih =>
      constructor
      · rintro (within | ⟨before, within, adjacent⟩)
        · obtain ⟨length, few, walk⟩ := (ih node).mp within
          exact ⟨length, by omega, walk⟩
        · obtain ⟨length, few, walk⟩ := (ih before).mp within
          exact ⟨length + 1, by omega, walk.onward adjacent⟩
      · rintro ⟨length, few, walk⟩
        cases walk with
        | start => exact Or.inl ((ih start).mpr ⟨0, by omega, .start⟩)
        | onward walk adjacent =>
            exact Or.inr ⟨_, (ih _).mpr ⟨_, by omega, walk⟩, adjacent⟩

theorem NoFurther.distance_le {next : Nat → List Nat} {start left right : Nat}
    (closer : NoFurther next start left right)
    (path : ReflTransGen (fun source target => target ∈ next source) start right) :
    distance (fun source target => target ∈ next source) start left ≤
      distance (fun source target => target ∈ next source) start right := by
  have within : Within next start
      (distance (fun source target => target ∈ next source) start right) right :=
    (within_iff next start _ _).mpr ⟨_, Nat.le_refl _, walk_distance path⟩
  obtain ⟨length, few, walk⟩ := (within_iff next start _ _).mp (closer _ within)
  exact walk.distance_le.trans few

end Search

/-- A list of all other nodes that a node leads to, each of them once and closest first. -/
structure Surveys (step : Nat → Nat → Prop) (start : Nat) (found : List Nat) : Prop where
  once : found.Nodup
  exact : ∀ node, node ∈ found ↔ node ≠ start ∧ TransGen step start node
  closest : (found.map (distance step start)).Pairwise (· ≤ ·)

theorem search_surveys (table : Array (List Nat)) (start : Nat) :
    Surveys (fun source target => target ∈ table.getD source []) start (search table start) where
  once := nodup_search table start
  exact := mem_search table start
  closest := by
    rw [List.pairwise_map]
    refine (pairwise_search table start).imp_of_mem fun _ member closer => ?_
    exact closer.distance_le ((mem_search table start _).mp member).2.to_reflTransGen

variable (targets : List (List Nat))

theorem consumers_eq_aimed :
    (fun target reader => reader ∈ (ofTargets targets).consumers.getD target []) =
      Function.swap (Aims targets) := by
  rw [← reads_eq_aims]
  funext target reader
  exact propext ((mirrored_ofTargets targets).transposed reader target)

/-- Queries are exact on any table, with cycles or without, whose targets may be repeated or out of
range. What a node depends on, and what depends on it, is told without repetition and closest first;
a node depends on itself and on its ancestors; and it has an ancestor exactly when it is among the
descendants of that one. -/
theorem queries_exact (node other : Nat) :
    Surveys (Aims targets) node ((ofTargets targets).ancestorsOf node) ∧
    Surveys (Function.swap (Aims targets)) node ((ofTargets targets).descendantsOf node) ∧
    ((ofTargets targets).dependsOn node other = true ↔
      node = other ∨ other ∈ (ofTargets targets).ancestorsOf node) ∧
    (other ∈ (ofTargets targets).ancestorsOf node ↔
      node ∈ (ofTargets targets).descendantsOf other) := by
  have ancestors : Surveys (Aims targets) node ((ofTargets targets).ancestorsOf node) := by
    rw [← reads_eq_aims]
    exact search_surveys (ofTargets targets).dependencies node
  have descendants : ∀ start,
      Surveys (Function.swap (Aims targets)) start ((ofTargets targets).descendantsOf start) := by
    intro start
    rw [← consumers_eq_aimed]
    exact search_surveys (ofTargets targets).consumers start
  refine ⟨ancestors, descendants node, by simp [dependsOn], ?_⟩
  rw [ancestors.exact, (descendants other).exact, transGen_swap, ne_comm]

/-- Two nodes that read each other, one of them twice, and a reader of one of them. -/
example : (ofTargets [[1, 1, 9], [0], [1]]).ancestorsOf 2 = [1, 0] ∧
    (ofTargets [[1, 1, 9], [0], [1]]).descendantsOf 0 = [1, 2] := by decide +kernel

end NodeGraph.Topology
