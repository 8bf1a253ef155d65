import NodeGraph.Proofs.Topology.Sorting

/-!
Layers. The batches of a table without cycles contain every node once, and everything that a node
depends on lies in an earlier batch.
-/

namespace NodeGraph.Topology

variable {topology : Topology}

theorem IsOrder.target_mem {order earlier later : List Nat} {node target : Nat}
    (ordered : topology.IsOrder order) (mirrored : topology.Mirrored)
    (parts : order = earlier ++ node :: later) (reads : topology.Reads node target) :
    target ∈ earlier := by
  have member : target ∈ earlier ++ node :: later := by
    rw [← parts]
    exact (ordered.mem_iff target).mpr (mirrored.bound reads).2
  have before := (List.pairwise_append.mp (parts ▸ ordered.before)).2.1
  rcases List.mem_append.mp member with early | late
  · exact early
  · rcases List.mem_cons.mp late with same | late
    · subst same
      exact absurd reads (ordered.irreflexive target)
    · exact absurd reads (List.rel_of_pairwise_cons before late)

theorem lt_foldl_max {item : Type} (measure : item → Nat) (items : List item)
    (start level : Nat) :
    level < items.foldl (fun best item => max best (measure item)) start ↔
      level < start ∨ ∃ item ∈ items, level < measure item := by
  induction items generalizing start with
  | nil => simp
  | cons first rest ih =>
      rw [List.foldl_cons, ih, lt_max_iff]
      simp only [List.mem_cons, exists_eq_or_imp, or_assoc]

theorem depthAbove_congr (left right : Array Nat) (dependencies : List Nat)
    (agree : ∀ node ∈ dependencies, left.getD node 0 = right.getD node 0) :
    depthAbove left dependencies = depthAbove right dependencies := by
  have general : ∀ start,
      dependencies.foldl (fun best node => max best (left.getD node 0 + 1)) start =
        dependencies.foldl (fun best node => max best (right.getD node 0 + 1)) start := by
    induction dependencies with
    | nil => simp
    | cons first rest ih =>
        intro start
        simp only [List.foldl_cons]
        rw [agree first (by simp)]
        exact ih (fun node member => agree node (by simp [member])) _
  exact general 0

theorem depths_step (depths : Array Nat) (node other depth : Nat) (bound : node < depths.size) :
    (depths.setIfInBounds node depth).getD other 0 =
      if other = node then depth else depths.getD other 0 := by
  by_cases same : other = node
  · subst same
    simp [bound]
  · simp [same, Ne.symm same]

theorem depths_settled {order : List Nat} (ordered : topology.IsOrder order)
    (mirrored : topology.Mirrored) (rest : List Nat) (settled : List Nat) (depths : Array Nat)
    (parts : order = settled ++ rest) (size : depths.size = topology.count)
    (done : ∀ node ∈ settled,
      depths.getD node 0 = depthAbove depths (topology.dependenciesOf node)) :
    ∀ node ∈ order,
      (rest.foldl (fun depths node => depths.setIfInBounds node
          (depthAbove depths (topology.dependenciesOf node))) depths).getD node 0 =
        depthAbove (rest.foldl (fun depths node => depths.setIfInBounds node
          (depthAbove depths (topology.dependenciesOf node))) depths)
          (topology.dependenciesOf node) := by
  induction rest generalizing settled depths with
  | nil =>
      intro node member
      exact done node (by simpa [parts] using member)
  | cons first rest ih =>
      have bound : first < depths.size := by
        rw [size]
        exact (ordered.mem_iff first).mp (by simp [parts])
      have fresh : first ∉ settled := by
        intro member
        have unique := ordered.nodup
        rw [parts, List.nodup_append] at unique
        exact unique.2.2 first member first (by simp) rfl
      -- What is settled, and all it depends on, keeps its depth.
      have untouched : ∀ node ∈ settled ++ [first],
          depthAbove (depths.setIfInBounds first
              (depthAbove depths (topology.dependenciesOf first)))
            (topology.dependenciesOf node) =
          depthAbove depths (topology.dependenciesOf node) := by
        intro node member
        apply depthAbove_congr
        intro target reads
        have early : target ∈ settled := by
          rcases List.mem_append.mp member with member | member
          · obtain ⟨before, after, split⟩ := List.append_of_mem member
            have inside : target ∈ before :=
              @ordered.target_mem _ _ before (after ++ first :: rest) node target mirrored
                (by rw [parts, split]; simp) reads
            rw [split]
            simp [inside]
          · have same : node = first := by simpa using member
            subst same
            exact ordered.target_mem mirrored parts reads
        rw [depths_step _ _ _ _ bound, if_neg]
        intro same
        exact fresh (same ▸ early)
      refine ih (settled ++ [first]) _ (by simp [parts]) (by simpa using size) ?_
      intro node member
      rw [untouched node member, depths_step _ _ _ _ bound]
      split
      · rename_i same
        rw [same]
      · rename_i different
        rcases List.mem_append.mp member with member | member
        · exact done node member
        · exact absurd (by simpa using member) different

@[simp] theorem depths_size (order : List Nat) :
    (topology.depths order).size = topology.count := by
  have keeps : ∀ (rest : List Nat) (table : Array Nat),
      (rest.foldl (fun depths node => depths.setIfInBounds node
        (depthAbove depths (topology.dependenciesOf node))) table).size = table.size := by
    intro rest
    induction rest with
    | nil => simp
    | cons first rest ih => intro table; simp [ih]
  simpa [depths] using keeps order (Array.replicate topology.count 0)

theorem dependenciesOf_outside {node : Nat} (outside : topology.count ≤ node) :
    topology.dependenciesOf node = [] := by
  have beyond : topology.dependencies.size ≤ node := outside
  simp [dependenciesOf, beyond]

/-- Every node stands one above the highest of those that it reads, and one that reads nothing
stands at the bottom. -/
def IsHeight (topology : Topology) (height : Nat → Nat) : Prop :=
  ∀ node, height node =
    (topology.dependenciesOf node).foldl (fun best target => max best (height target + 1)) 0

theorem IsHeight.lt_iff {height : Nat → Nat} (isHeight : topology.IsHeight height)
    (node level : Nat) :
    level < height node ↔ ∃ target, topology.Reads node target ∧ level ≤ height target := by
  rw [isHeight node, lt_foldl_max]
  simp only [Reads, Nat.not_lt_zero, false_or, Nat.lt_succ_iff]

theorem Acyclic.batches_levels (acyclic : topology.Acyclic) (mirrored : topology.Mirrored) :
    ∃ (height : Nat → Nat) (total : Nat), topology.IsHeight height ∧
      topology.batches = .ok ((List.range total).map fun level =>
        topology.nodes.filter fun node => height node = level) ∧
      ∀ level, level < total ↔ ∃ node, node < topology.count ∧ level ≤ height node := by
  obtain ⟨order, found, ordered⟩ := acyclic.sort_ok mirrored
  have settled := depths_settled ordered mirrored order [] (Array.replicate topology.count 0)
    rfl (by simp) (by simp)
  let depths := topology.depths order
  refine ⟨fun node => depths.getD node 0,
    depths.foldl (fun most depth => max most (depth + 1)) 0, ?_, ?_, ?_⟩
  · intro node
    by_cases bound : node < topology.count
    · exact settled node ((ordered.mem_iff node).mpr bound)
    · have outside := Nat.le_of_not_lt bound
      simp [depths, dependenciesOf_outside outside, outside]
  · rw [batches, found]
    rfl
  · intro level
    rw [← Array.foldl_toList, lt_foldl_max]
    simp only [Nat.not_lt_zero, false_or, Nat.lt_succ_iff]
    constructor
    · rintro ⟨depth, member, enough⟩
      obtain ⟨node, bound, same⟩ := List.mem_iff_getElem.mp member
      have inside : node < depths.size := by simpa using bound
      refine ⟨node, by simpa [depths] using inside, ?_⟩
      simpa [inside, ← same] using enough
    · rintro ⟨node, bound, enough⟩
      have inside : node < depths.size := by simpa [depths] using bound
      exact ⟨_, by simp [inside], enough⟩

theorem Acyclic.batches_ok (acyclic : topology.Acyclic) (mirrored : topology.Mirrored) :
    ∃ (depth : Nat → Nat) (total : Nat),
      topology.batches = .ok ((List.range total).map fun level =>
        topology.nodes.filter fun node => depth node = level) ∧
      (∀ node, node < topology.count → depth node < total) ∧
      ∀ reader target, topology.Reads reader target → depth target < depth reader := by
  obtain ⟨height, total, isHeight, levels, highest⟩ := acyclic.batches_levels mirrored
  refine ⟨height, total, levels, fun node bound => ?_, fun reader target reads => ?_⟩
  · exact (highest _).mpr ⟨node, bound, Nat.le_refl _⟩
  · exact (isHeight.lt_iff reader _).mpr ⟨target, reads, Nat.le_refl _⟩

end NodeGraph.Topology
