import Mathlib.Algebra.BigOperators.Fin
import Mathlib.Algebra.Order.BigOperators.Group.Finset
import NodeGraph.Proofs.Topology.Tables

/-!
Reachability. The breadth-first search finds exactly the nodes that lie behind the start: what it
finds is reached, and its fuel lasts until the queue is empty, when all neighbours of what it found
are found too.
-/

namespace NodeGraph.Topology

open Relation

def Reaches (topology : Topology) : Nat → Nat → Prop := TransGen topology.Reads

section Search

variable (next : Nat → List Nat) (start : Nat)

theorem nodup_searchFrom (fuel : Nat) (queue found : List Nat) (unique : found.Nodup)
    (fresh : start ∉ found) :
    (searchFrom next start fuel queue found).Nodup ∧
      start ∉ searchFrom next start fuel queue found := by
  induction fuel generalizing queue found with
  | zero => simp [searchFrom, unique, fresh]
  | succ fuel ih =>
      cases queue with
      | nil => simp [searchFrom, unique, fresh]
      | cons node queue =>
          rw [searchFrom]
          split
          · exact ih queue found unique fresh
          · rename_i new
            rw [not_or] at new
            exact ih _ _ (List.nodup_cons.mpr ⟨new.2, unique⟩)
              (by simp [fresh, Ne.symm new.1])

theorem subset_searchFrom (fuel : Nat) (queue found : List Nat) :
    ∀ node ∈ found, node ∈ searchFrom next start fuel queue found := by
  induction fuel generalizing queue found with
  | zero => simp [searchFrom]
  | succ fuel ih =>
      cases queue with
      | nil => simp [searchFrom]
      | cons first queue =>
          intro node member
          rw [searchFrom]
          split
          · exact ih queue found node member
          · exact ih _ _ node (List.mem_cons_of_mem _ member)

theorem searchFrom_sound (fuel : Nat) (queue found : List Nat) :
    ∀ node ∈ searchFrom next start fuel queue found, node ∈ found ∨
      ∃ entry ∈ queue,
        ReflTransGen (fun source target => target ∈ next source) entry node := by
  induction fuel generalizing queue found with
  | zero => intro node member; simpa [searchFrom] using Or.inl member
  | succ fuel ih =>
      cases queue with
      | nil => intro node member; simpa [searchFrom] using member
      | cons first queue =>
          intro node member
          rw [searchFrom] at member
          split at member
          · rcases ih _ _ node member with old | ⟨entry, queued, path⟩
            · exact Or.inl old
            · exact Or.inr ⟨entry, List.mem_cons_of_mem _ queued, path⟩
          · rcases ih _ _ node member with old | ⟨entry, queued, path⟩
            · rcases List.mem_cons.mp old with same | old
              · exact Or.inr ⟨first, by simp, by rw [same]⟩
              · exact Or.inl old
            · rcases List.mem_append.mp queued with queued | neighbour
              · exact Or.inr ⟨entry, List.mem_cons_of_mem _ queued, path⟩
              · exact Or.inr ⟨first, by simp, ReflTransGen.head neighbour path⟩

/-- How many neighbours the nodes that are not seen yet can still queue. -/
def pending (size : Nat) (seen : List Nat) : Nat :=
  ∑ node ∈ Finset.range size \ seen.toFinset, (next node).length

theorem pending_cons (size : Nat) (outside : ∀ node, size ≤ node → next node = [])
    (seen : List Nat) (node : Nat) (fresh : node ∉ seen) :
    pending next size (node :: seen) + (next node).length = pending next size seen := by
  by_cases bound : node < size
  · have member : node ∈ Finset.range size \ seen.toFinset := by
      simp [bound, fresh]
    have erased : Finset.range size \ (node :: seen).toFinset =
        (Finset.range size \ seen.toFinset).erase node := by
      ext other
      simp only [Finset.mem_sdiff, Finset.mem_range, List.mem_toFinset, List.mem_cons,
        Finset.mem_erase]
      tauto
    rw [pending, pending, erased, Finset.sum_erase_add _ _ member]
  · have none : next node = [] := outside node (Nat.not_lt.mp bound)
    have same : Finset.range size \ (node :: seen).toFinset =
        Finset.range size \ seen.toFinset := by
      ext other
      simp only [Finset.mem_sdiff, Finset.mem_range, List.mem_toFinset, List.mem_cons]
      constructor
      · tauto
      · rintro ⟨below, missing⟩
        refine ⟨below, ?_⟩
        have different : other ≠ node := by omega
        tauto
    rw [pending, pending, same, none]
    simp

theorem searchFrom_closed (size : Nat) (outside : ∀ node, size ≤ node → next node = [])
    (fuel : Nat) (queue found : List Nat)
    (enough : queue.length + pending next size (found ++ [start]) ≤ fuel) :
    (∀ node ∈ queue, node = start ∨ node ∈ searchFrom next start fuel queue found) ∧
    ∀ node ∈ searchFrom next start fuel queue found, node ∉ found →
      ∀ neighbour ∈ next node,
        neighbour = start ∨ neighbour ∈ searchFrom next start fuel queue found := by
  induction fuel generalizing queue found with
  | zero =>
      have empty : queue = [] := List.length_eq_zero_iff.mp (by omega)
      subst empty
      exact ⟨by simp, fun node member missing =>
        absurd (by simpa [searchFrom] using member) missing⟩
  | succ fuel ih =>
      cases queue with
      | nil => exact ⟨by simp, fun node member missing =>
        absurd (by simpa [searchFrom] using member) missing⟩
      | cons first queue =>
          simp only [List.length_cons] at enough
          rw [searchFrom]
          split
          · rename_i known
            have rest := ih queue found (by omega)
            refine ⟨?_, rest.2⟩
            intro node member
            rcases List.mem_cons.mp member with same | member
            · subst same
              exact known.imp_right fun old => subset_searchFrom next start fuel queue found _ old
            · exact rest.1 node member
          · rename_i new
            rw [not_or] at new
            have shrinks := pending_cons next size outside (found ++ [start]) first
              (by simp [new.1, new.2])
            have rest := ih (queue ++ next first) (first :: found)
              (by simp only [List.length_append, List.cons_append]; omega)
            refine ⟨?_, ?_⟩
            · intro node member
              rcases List.mem_cons.mp member with same | member
              · subst same
                exact Or.inr (subset_searchFrom next start _ _ _ _ (by simp))
              · exact rest.1 node (by simp [member])
            · intro node member missing
              by_cases same : node = first
              · subst same
                intro neighbour adjacent
                exact rest.1 neighbour (by simp [adjacent])
              · exact rest.2 node member (by simp [same, missing])

def Within : Nat → Nat → Prop
  | 0, node => node = start
  | steps + 1, node => Within steps node ∨ ∃ before, Within steps before ∧ node ∈ next before

def NoFurther (left right : Nat) : Prop :=
  ∀ steps, Within next start steps right → Within next start steps left

variable {next start}

theorem Within.mono {steps more node : Nat} (within : Within next start steps node)
    (fewer : steps ≤ more) : Within next start more node := by
  induction fewer with
  | refl => exact within
  | step _ ih => exact Or.inl ih

theorem noFurther_start (node : Nat) : NoFurther next start start node :=
  fun steps _ => Within.mono (show Within next start 0 start from rfl) (Nat.zero_le steps)

/-- The search goes by levels: the queue holds what is left of one level, then what is known of the
next one. -/
structure Sweeps (next : Nat → List Nat) (start level : Nat) (now soon found : List Nat) :
    Prop where
  current : ∀ node ∈ now, Within next start (level + 1) node
  upcoming : ∀ node ∈ soon, Within next start (level + 2) node
  reached : ∀ node ∈ found, Within next start (level + 1) node
  nearer : ∀ node, Within next start level node → node = start ∨ node ∈ found
  here : ∀ node, Within next start (level + 1) node → node = start ∨ node ∈ found ∨ node ∈ now
  spread : ∀ node ∈ found, ∀ neighbour ∈ next node,
    neighbour = start ∨ neighbour ∈ found ∨ neighbour ∈ now ∨ neighbour ∈ soon
  sorted : found.reverse.Pairwise (NoFurther next start)

theorem sweeps_start : Sweeps next start 0 (next start) [] [] where
  current := fun _ member => Or.inr ⟨start, rfl, member⟩
  upcoming := by simp
  reached := by simp
  nearer := fun _ same => Or.inl same
  here := by
    rintro node (same | ⟨before, rfl, adjacent⟩)
    · exact Or.inl same
    · exact Or.inr (Or.inr adjacent)
  spread := by simp
  sorted := by simp

namespace Sweeps

variable {level first : Nat} {now soon found : List Nat}

theorem skip (sweeps : Sweeps next start level (first :: now) soon found)
    (known : first = start ∨ first ∈ found) : Sweeps next start level now soon found where
  current := fun node member => sweeps.current node (List.mem_cons_of_mem _ member)
  upcoming := sweeps.upcoming
  reached := sweeps.reached
  nearer := sweeps.nearer
  here := by
    intro node within
    rcases sweeps.here node within with same | member | queued
    · exact Or.inl same
    · exact Or.inr (Or.inl member)
    · rcases List.mem_cons.mp queued with rfl | later
      · exact known.imp_right Or.inl
      · exact Or.inr (Or.inr later)
  spread := by
    intro node member neighbour adjacent
    rcases sweeps.spread node member neighbour adjacent with same | old | queued | later
    · exact Or.inl same
    · exact Or.inr (Or.inl old)
    · rcases List.mem_cons.mp queued with rfl | queued
      · exact known.imp_right Or.inl
      · exact Or.inr (Or.inr (Or.inl queued))
    · exact Or.inr (Or.inr (Or.inr later))
  sorted := sweeps.sorted

theorem visit (sweeps : Sweeps next start level (first :: now) soon found)
    (new : ¬ (first = start ∨ first ∈ found)) :
    Sweeps next start level now (soon ++ next first) (first :: found) where
  current := fun node member => sweeps.current node (List.mem_cons_of_mem _ member)
  upcoming := by
    intro node member
    rcases List.mem_append.mp member with old | adjacent
    · exact sweeps.upcoming node old
    · exact Or.inr ⟨first, sweeps.current first List.mem_cons_self, adjacent⟩
  reached := List.forall_mem_cons.mpr ⟨sweeps.current first List.mem_cons_self, sweeps.reached⟩
  nearer := fun node within => (sweeps.nearer node within).imp_right (List.mem_cons_of_mem _)
  here := by
    intro node within
    rcases sweeps.here node within with same | member | queued
    · exact Or.inl same
    · exact Or.inr (Or.inl (List.mem_cons_of_mem _ member))
    · rcases List.mem_cons.mp queued with rfl | later
      · exact Or.inr (Or.inl List.mem_cons_self)
      · exact Or.inr (Or.inr later)
  spread := by
    intro node member neighbour adjacent
    rcases List.mem_cons.mp member with rfl | old
    · exact Or.inr (Or.inr (Or.inr (List.mem_append_right _ adjacent)))
    · rcases sweeps.spread node old neighbour adjacent with same | known | queued | later
      · exact Or.inl same
      · exact Or.inr (Or.inl (List.mem_cons_of_mem _ known))
      · rcases List.mem_cons.mp queued with rfl | queued
        · exact Or.inr (Or.inl List.mem_cons_self)
        · exact Or.inr (Or.inr (Or.inl queued))
      · exact Or.inr (Or.inr (Or.inr (List.mem_append_left _ later)))
  sorted := by
    rw [List.reverse_cons, List.pairwise_append]
    refine ⟨sweeps.sorted, List.pairwise_singleton _ _, fun node member last same steps within => ?_⟩
    rw [List.mem_singleton.mp same] at within
    by_cases few : steps ≤ level
    · exact absurd (sweeps.nearer first (within.mono few)) new
    · exact (sweeps.reached node (List.mem_reverse.mp member)).mono (by omega)

theorem descend (sweeps : Sweeps next start level [] soon found) :
    Sweeps next start (level + 1) soon [] found where
  current := sweeps.upcoming
  upcoming := by simp
  reached := fun node member => Or.inl (sweeps.reached node member)
  nearer := by
    intro node within
    simpa using sweeps.here node within
  here := by
    rintro node (within | ⟨before, within, adjacent⟩)
    · exact (sweeps.here node within).imp_right fun known => Or.inl (by simpa using known)
    · rcases sweeps.here before within with rfl | member | queued
      · have close : Within next before (level + 1) node :=
          Within.mono (show Within next before 1 node from Or.inr ⟨before, rfl, adjacent⟩)
              (Nat.le_add_left 1 level)
        exact (sweeps.here node close).imp_right fun known => Or.inl (by simpa using known)
      · simpa using sweeps.spread before member node adjacent
      · cases queued
  spread := by
    intro node member neighbour adjacent
    simpa using sweeps.spread node member neighbour adjacent
  sorted := sweeps.sorted

theorem pairwise (sweeps : Sweeps next start level now soon found) (fuel : Nat) :
    (searchFrom next start fuel (now ++ soon) found).Pairwise (NoFurther next start) := by
  induction fuel generalizing level now soon found with
  | zero => exact sweeps.sorted
  | succ fuel ih =>
      have advance : ∀ {level first : Nat} {now soon : List Nat},
          Sweeps next start level (first :: now) soon found →
            (searchFrom next start (fuel + 1) (first :: (now ++ soon)) found).Pairwise
              (NoFurther next start) := by
        intro level first now soon sweeps
        rw [searchFrom]
        split
        · exact ih (sweeps.skip ‹_›)
        · rw [List.append_assoc]
          exact ih (sweeps.visit ‹_›)
      cases now with
      | cons first now => exact advance sweeps
      | nil =>
          cases soon with
          | nil => exact sweeps.sorted
          | cons first soon => simpa using advance sweeps.descend

end Sweeps

end Search

theorem foldl_add_eq_sum {Item : Type} (measure : Item → Nat) (items : Array Item)
    (absent : Item) :
    items.foldl (fun total item => total + measure item) 0 =
      ∑ place ∈ Finset.range items.size, measure (items.getD place absent) := by
  have general : ∀ (rest : List Item) (start : Nat),
      rest.foldl (fun total item => total + measure item) start =
        start + (rest.map measure).sum := by
    intro rest
    induction rest with
    | nil => simp
    | cons item rest ih => intro start; simp [ih, Nat.add_assoc]
  rw [← Array.foldl_toList, general, Nat.zero_add, Finset.sum_range, ← List.sum_ofFn]
  congr 1
  refine List.ext_getElem (by simp) ?_
  intro place left right
  simp

theorem edgeCount_eq (table : Array (List Nat)) :
    edgeCount table = ∑ node ∈ Finset.range table.size, (table.getD node []).length := by
  rw [edgeCount, foldl_add_eq_sum List.length table []]

section Table

variable (table : Array (List Nat)) (start : Nat)

theorem mem_search (node : Nat) :
    node ∈ search table start ↔
      node ≠ start ∧
        TransGen (fun source target => target ∈ table.getD source []) start node := by
  let next := fun node => table.getD node []
  have outside : ∀ node, table.size ≤ node → next node = [] := by
    intro node bound
    simp [next, bound]
  have enough : (next start).length + pending next table.size [start] ≤ edgeCount table + 1 := by
    rw [edgeCount_eq]
    by_cases bound : start < table.size
    · have whole := Finset.sum_erase_add (Finset.range table.size)
        (fun node => (next node).length) (Finset.mem_range.mpr bound)
      have erased : Finset.range table.size \ [start].toFinset =
          (Finset.range table.size).erase start := by
        simp [Finset.sdiff_singleton_eq_erase]
      rw [pending, erased]
      simp only [next] at whole ⊢
      omega
    · have smaller : pending next table.size [start] ≤
          ∑ node ∈ Finset.range table.size, (next node).length :=
        Finset.sum_le_sum_of_subset Finset.sdiff_subset
      rw [outside start (Nat.not_lt.mp bound)]
      simp only [next, List.length_nil] at smaller ⊢
      omega
  have closed := searchFrom_closed next start table.size outside _ (next start) [] enough
  have clean := (nodup_searchFrom next start (edgeCount table + 1) (next start) []
    List.nodup_nil (by simp)).2
  constructor
  · intro member
    refine ⟨fun same => clean (same ▸ member), ?_⟩
    rcases searchFrom_sound next start _ _ _ node member with impossible | ⟨entry, first, path⟩
    · simp at impossible
    · exact TransGen.head' first path
  · rintro ⟨different, path⟩
    have found : ∀ other, TransGen (fun source target => target ∈ next source) start other →
        other = start ∨ other ∈ search table start := by
      intro other path
      induction path with
      | single first => exact closed.1 _ first
      | tail _ last ih =>
          rcases ih with same | member
          · subst same
            exact closed.1 _ last
          · exact closed.2 _ member (by simp) _ last
    exact (found node path).resolve_left different

theorem nodup_search : (search table start).Nodup :=
  (nodup_searchFrom _ start _ _ [] List.nodup_nil (by simp)).1

theorem pairwise_search :
    (search table start).Pairwise (NoFurther (fun node => table.getD node []) start) := by
  have sweeps : Sweeps (fun node => table.getD node []) start 0 (table.getD start []) [] [] :=
    sweeps_start
  have swept := sweeps.pairwise (edgeCount table + 1)
  rwa [List.append_nil] at swept

end Table

variable {topology : Topology}

theorem mem_ancestorsOf (node ancestor : Nat) :
    ancestor ∈ topology.ancestorsOf node ↔
      ancestor ≠ node ∧ topology.Reaches node ancestor :=
  mem_search topology.dependencies node ancestor

theorem mem_descendantsOf (mirrored : topology.Mirrored) (node descendant : Nat) :
    descendant ∈ topology.descendantsOf node ↔
      descendant ≠ node ∧ topology.Reaches descendant node := by
  have swapped : (fun source target => target ∈ topology.consumers.getD source []) =
      Function.swap topology.Reads := by
    funext source target
    exact propext (mirrored.transposed target source)
  rw [descendantsOf, mem_search, swapped, transGen_swap, Reaches]

theorem dependsOn_iff (node target : Nat) :
    topology.dependsOn node target = true ↔ node = target ∨ topology.Reaches node target := by
  simp only [dependsOn, Bool.or_eq_true, beq_iff_eq, List.contains_iff_mem, mem_ancestorsOf]
  constructor
  · rintro (same | ⟨_, path⟩)
    · exact Or.inl same
    · exact Or.inr path
  · rintro (same | path)
    · exact Or.inl same
    · by_cases same : node = target
      · exact Or.inl same
      · exact Or.inr ⟨Ne.symm same, path⟩

theorem Reaches.bound (mirrored : topology.Mirrored) {node target : Nat}
    (path : topology.Reaches node target) : node < topology.count ∧ target < topology.count := by
  induction path with
  | single step => exact mirrored.bound step
  | tail _ step ih => exact ⟨ih.1, (mirrored.bound step).2⟩

end NodeGraph.Topology
