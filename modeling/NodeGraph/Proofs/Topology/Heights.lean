import NodeGraph.Proofs.Topology.Distances
import NodeGraph.Proofs.Topology.Layers

/-!
Heights. Without cycles the height of a node is the length of its longest chain of dependencies. The
batches list nodes by height, the depth of a node is its height, and doing in each round whatever is
ready takes the nodes of one height after those of another.
-/

namespace NodeGraph.Topology

open Relation

variable {topology : Topology} {height : Nat → Nat}

theorem Walk.bound (mirrored : topology.Mirrored) {node length source : Nat}
    (chain : Walk topology.Reads node length source) (inside : node < topology.count) :
    source < topology.count := by
  cases chain with
  | start => exact inside
  | onward _ reads => exact (mirrored.bound reads).2

namespace IsHeight

theorem drops (isHeight : topology.IsHeight height) {reader target : Nat}
    (reads : topology.Reads reader target) : height target < height reader :=
  (isHeight.lt_iff reader _).mpr ⟨target, reads, Nat.le_refl _⟩

theorem walk_le (isHeight : topology.IsHeight height) {node length source : Nat}
    (chain : Walk topology.Reads node length source) : length + height source ≤ height node := by
  induction chain with
  | start => simp
  | onward _ reads ih =>
      have less := isHeight.drops reads
      omega

theorem exists_chain (isHeight : topology.IsHeight height) (node length : Nat)
    (short : length ≤ height node) :
    ∃ source, Walk topology.Reads node length source ∧ length + height source = height node := by
  induction length with
  | zero => exact ⟨node, .start, Nat.zero_add _⟩
  | succ length ih =>
      obtain ⟨source, chain, total⟩ := ih (by omega)
      -- The source is not at the bottom yet, so it reads a node just below it.
      obtain ⟨target, reads, close⟩ := (isHeight.lt_iff source (height source - 1)).mp (by omega)
      have less := isHeight.drops reads
      exact ⟨target, chain.onward reads, by omega⟩

theorem isGreatest (isHeight : topology.IsHeight height) (node : Nat) :
    IsGreatest { length | ∃ source, Walk topology.Reads node length source } (height node) := by
  constructor
  · obtain ⟨source, chain, _⟩ := isHeight.exists_chain node (height node) (Nat.le_refl _)
    exact ⟨source, chain⟩
  · rintro length ⟨source, chain⟩
    have bound := isHeight.walk_le chain
    omega

theorem le_rank (isHeight : topology.IsHeight height) {rank : Nat → Nat}
    (lower : ∀ reader target, topology.Reads reader target → rank target < rank reader)
    (node : Nat) : height node ≤ rank node := by
  obtain ⟨source, chain, _⟩ := isHeight.exists_chain node (height node) (Nat.le_refl _)
  have descends : ∀ {length source : Nat}, Walk topology.Reads node length source →
      length + rank source ≤ rank node := by
    intro length source chain
    induction chain with
    | start => simp
    | onward _ reads ih =>
        have less := lower _ _ reads
        omega
  have bound := descends chain
  omega

/-- All depths that are known are heights. -/
def Knows (height : Nat → Nat) (known : Array (Option Nat)) : Prop :=
  ∀ node depth, known.getD node none = some depth → depth = height node

theorem Knows.set {known : Array (Option Nat)} (knows : Knows height known) (node : Nat) :
    Knows height (known.setIfInBounds node (some (height node))) := by
  intro other depth found
  by_cases same : node = other
  · subst same
    by_cases inside : node < known.size
    · simpa [inside, eq_comm] using found
    · simp [inside] at found
  · exact knows other depth (by simpa [same] using found)

theorem Knows.fold {visit : Array (Option Nat) → Nat → Nat × Array (Option Nat)} {rest : List Nat}
    (visits : ∀ target ∈ rest, ∀ known, Knows height known →
      (visit known target).1 = height target ∧ Knows height (visit known target).2)
    {known : Array (Option Nat)} (knows : Knows height known) (best : Nat) :
    (rest.foldl (fun found target =>
      (max found.1 ((visit found.2 target).1 + 1), (visit found.2 target).2)) (best, known)).1 =
        rest.foldl (fun best target => max best (height target + 1)) best ∧
    Knows height (rest.foldl (fun found target =>
      (max found.1 ((visit found.2 target).1 + 1), (visit found.2 target).2)) (best, known)).2 := by
  induction rest generalizing best known with
  | nil => exact ⟨rfl, knows⟩
  | cons target rest ih =>
      obtain ⟨depth, more⟩ := visits target List.mem_cons_self known knows
      have tail := ih (fun other member => visits other (List.mem_cons_of_mem _ member)) more
        (max best (height target + 1))
      simpa only [List.foldl_cons, depth] using tail

theorem depthFrom_eq (isHeight : topology.IsHeight height) (fuel : Nat)
    (known : Array (Option Nat)) (visiting : List Nat) (node : Nat) (knows : Knows height known)
    (above : ∀ other ∈ visiting, height node < height other) (enough : height node < fuel) :
    (topology.depthFrom fuel known visiting node).1 = height node ∧
      Knows height (topology.depthFrom fuel known visiting node).2 := by
  induction fuel generalizing known visiting node with
  | zero => omega
  | succ fuel ih =>
      rw [depthFrom]
      cases found : known.getD node none with
      | some depth => exact ⟨knows node depth found, knows⟩
      | none =>
          have fresh : visiting.contains node = false := by
            simpa using fun member => Nat.lt_irrefl _ (above node member)
          simp only [fresh, Bool.or_false, decide_eq_true_eq]
          split
          · rename_i outside
            refine ⟨?_, knows⟩
            rw [isHeight node, dependenciesOf_outside outside]
            rfl
          · have visits : ∀ target, topology.Reads node target → ∀ known, Knows height known →
                (topology.depthFrom fuel known (node :: visiting) target).1 = height target ∧
                  Knows height (topology.depthFrom fuel known (node :: visiting) target).2 := by
              intro target reads known knows
              have less := isHeight.drops reads
              have below : ∀ other ∈ node :: visiting, height target < height other :=
                List.forall_mem_cons.mpr ⟨less, fun other member => less.trans (above other member)⟩
              exact ih known (node :: visiting) target knows below (by omega)
            obtain ⟨best, more⟩ := knows.fold visits 0
            rw [← isHeight node] at best
            have stored := more.set node
            rw [← best] at stored
            exact ⟨best, stored⟩

theorem depth_eq (isHeight : topology.IsHeight height) (acyclic : topology.Acyclic)
    (mirrored : topology.Mirrored) (node : Nat) : topology.depth node = height node := by
  obtain ⟨rank, small, lower⟩ := acyclic.exists_rank mirrored
  have ranked := isHeight.le_rank lower node
  have bound := small node
  refine (isHeight.depthFrom_eq _ _ [] node ?_ (by simp) (by omega)).1
  intro other depth found
  by_cases inside : other < topology.count <;> simp [inside] at found

theorem ready_eq (isHeight : topology.IsHeight height) (mirrored : topology.Mirrored)
    {done : List Nat} {level : Nat}
    (lower : ∀ node, node ∈ done ↔ node < topology.count ∧ height node < level) :
    topology.ready done = topology.nodes.filter fun node => height node = level := by
  refine List.filter_congr fun node member => ?_
  have bound : node < topology.count := by simpa [nodes] using member
  have waits : (∀ target, topology.Reads node target → target ∈ done) ↔ height node ≤ level := by
    constructor
    · intro all
      refine Nat.le_of_not_lt fun higher => ?_
      obtain ⟨target, reads, high⟩ := (isHeight.lt_iff node level).mp higher
      exact Nat.not_lt.mpr high ((lower target).mp (all target reads)).2
    · intro low target reads
      have less := isHeight.drops reads
      exact (lower target).mpr ⟨(mirrored.bound reads).2, by omega⟩
  rw [Bool.eq_iff_iff]
  simp only [Bool.and_eq_true, Bool.not_eq_true', List.all_eq_true, List.contains_iff_mem,
    decide_eq_true_eq, ← Bool.not_eq_true, lower node, bound, true_and]
  change (¬ height node < level ∧ ∀ target, topology.Reads node target → target ∈ done) ↔ _
  rw [waits]
  omega

end IsHeight

/-- Rounds that each do all nodes that are ready, until every node is done. -/
inductive Rounds (topology : Topology) : List Nat → List (List Nat) → Prop where
  | finished {done : List Nat} (all : ∀ node, node < topology.count → node ∈ done) :
      Rounds topology done []
  | round {done : List Nat} {later : List (List Nat)}
      (waiting : ∃ node, node < topology.count ∧ node ∉ done)
      (rest : Rounds topology (done ++ topology.ready done) later) :
      Rounds topology done (topology.ready done :: later)

theorem IsHeight.rounds_iff (isHeight : topology.IsHeight height) (mirrored : topology.Mirrored)
    {total : Nat} (highest : ∀ level, level < total ↔
      ∃ node, node < topology.count ∧ level ≤ height node)
    (left level : Nat) (levels : level + left = total) (done : List Nat)
    (lower : ∀ node, node ∈ done ↔ node < topology.count ∧ height node < level)
    (rounds : List (List Nat)) :
    topology.Rounds done rounds ↔ rounds = (List.range' level left).map fun level =>
      topology.nodes.filter fun node => height node = level := by
  induction left generalizing level done rounds with
  | zero =>
      have all : ∀ node, node < topology.count → node ∈ done := by
        intro node bound
        have inside := (highest (height node)).mpr ⟨node, bound, Nat.le_refl _⟩
        exact (lower node).mpr ⟨bound, by omega⟩
      constructor
      · intro run
        cases run with
        | finished => rfl
        | round waiting =>
            obtain ⟨node, bound, missing⟩ := waiting
            exact absurd (all node bound) missing
      · rintro rfl
        exact .finished all
  | succ left ih =>
      obtain ⟨waiting, bound, high⟩ := (highest level).mp (by omega)
      have missing : waiting ∉ done := by
        rw [lower]
        omega
      have next : ∀ node, node ∈ done ++ topology.ready done ↔
          node < topology.count ∧ height node < level + 1 := by
        intro node
        rw [isHeight.ready_eq mirrored lower, List.mem_append, lower node]
        simp only [nodes, List.mem_filter, List.mem_range, decide_eq_true_eq]
        omega
      have later := fun rounds => ih (level + 1) (by omega) _ next rounds
      rw [List.range'_succ, List.map_cons, ← isHeight.ready_eq mirrored lower]
      constructor
      · intro run
        cases run with
        | finished all => exact absurd (all waiting bound) missing
        | round _ rest => rw [(later _).mp rest]
      · rintro rfl
        exact .round ⟨waiting, bound, missing⟩ ((later _).mpr rfl)

/-- Batches of all nodes of a table, each node in the batch that has the number of its depth. -/
structure Lays (targets : List (List Nat)) (batches : List (List Nat)) : Prop where
  nonempty : ∀ batch ∈ batches, batch ≠ []
  ascending : ∀ batch ∈ batches, batch.Pairwise (· < ·)
  once : batches.flatten.Perm (List.range targets.length)
  depth : ∀ node, node < targets.length →
    ∃ batch, batches[(ofTargets targets).depth node]? = some batch ∧ node ∈ batch
  longest : ∀ node, IsGreatest { length | ∃ source, Walk (Aims targets) node length source }
    ((ofTargets targets).depth node)
  earlier : ∀ {reader target : Nat} {number other : Nat} {batch before : List Nat},
    Aims targets reader target → batches[number]? = some batch → reader ∈ batch →
      batches[other]? = some before → target ∈ before → other < number

theorem flatten_levels (nodes : List Nat) (level : Nat → Nat) (total : Nat) (unique : nodes.Nodup)
    (bound : ∀ node ∈ nodes, level node < total) :
    ((List.range total).map fun number => nodes.filter fun node => level node = number).flatten.Perm
      nodes := by
  refine (List.perm_ext_iff_of_nodup ?_ unique).mpr fun node => ?_
  · rw [List.nodup_flatten]
    constructor
    · intro batch member
      obtain ⟨number, _, rfl⟩ := List.mem_map.mp member
      exact unique.filter _
    · rw [List.pairwise_map]
      refine List.pairwise_lt_range.imp fun {number other} less node here there => ?_
      have first := (List.mem_filter.mp here).2
      have second := (List.mem_filter.mp there).2
      simp only [decide_eq_true_eq] at first second
      omega
  · simp only [List.mem_flatten, List.mem_map, List.mem_range, exists_exists_and_eq_and,
      List.mem_filter, decide_eq_true_eq]
    constructor
    · rintro ⟨_, _, member, _⟩
      exact member
    · exact fun member => ⟨level node, bound node member, member, rfl⟩

theorem IsHeight.lays {targets : List (List Nat)} (isHeight : (ofTargets targets).IsHeight height)
    (depths : ∀ node, (ofTargets targets).depth node = height node) {total : Nat}
    (highest : ∀ level, level < total ↔
      ∃ node, node < (ofTargets targets).count ∧ level ≤ height node) :
    Lays targets ((List.range total).map fun level =>
      (ofTargets targets).nodes.filter fun node => height node = level) := by
  have numbered : ∀ (number : Nat) (batch : List Nat), ((List.range total).map fun level =>
      (ofTargets targets).nodes.filter fun node => height node = level)[number]? = some batch ↔
        number < total ∧
          (ofTargets targets).nodes.filter (fun node => height node = number) = batch := by
    intro number batch
    by_cases bound : number < total <;> simp [bound]
  have low : ∀ node, node < (ofTargets targets).count → height node < total :=
    fun node bound => (highest _).mpr ⟨node, bound, Nat.le_refl _⟩
  constructor
  · intro batch member
    obtain ⟨level, below, rfl⟩ := List.mem_map.mp member
    obtain ⟨node, inside, high⟩ := (highest level).mp (List.mem_range.mp below)
    -- The longest chain of a high node passes every level below it.
    obtain ⟨source, chain, passed⟩ := isHeight.exists_chain node (height node - level) (by omega)
    have bound := chain.bound (mirrored_ofTargets targets) inside
    have here : height source = level := by omega
    have listed : source ∈ (ofTargets targets).nodes := by simpa [nodes] using bound
    exact List.ne_nil_of_mem (List.mem_filter.mpr ⟨listed, by simpa using here⟩)
  · intro batch member
    obtain ⟨level, _, rfl⟩ := List.mem_map.mp member
    exact List.pairwise_lt_range.filter _
  · have flat := flatten_levels (ofTargets targets).nodes height total List.nodup_range
      fun node member => low node (by simpa [nodes] using member)
    rwa [nodes, count_ofTargets] at flat ⊢
  · intro node bound
    rw [← count_ofTargets targets] at bound
    refine ⟨_, (numbered _ _).mpr ⟨depths node ▸ low node bound, rfl⟩, ?_⟩
    simp [depths, nodes, bound]
  · intro node
    rw [depths, ← reads_eq_aims]
    exact isHeight.isGreatest node
  · intro reader target number other batch before aims here reading there read
    rw [← reads_eq_aims] at aims
    obtain ⟨_, rfl⟩ := (numbered number batch).mp here
    obtain ⟨_, rfl⟩ := (numbered other before).mp there
    have less := isHeight.drops aims
    simp only [List.mem_filter, decide_eq_true_eq] at reading read
    omega

/-- The three schedules of a table without cycles agree. Its batches take every node once, each in
the batch that has the number of its longest chain of dependencies, which is its depth; and the
rounds that do whatever is ready are these batches. -/
theorem schedules_agree (targets : List (List Nat))
    (acyclic : ∀ node, ¬ TransGen (Aims targets) node node) :
    ∃ batches, (ofTargets targets).batches = .ok batches ∧ Lays targets batches ∧
      ∀ rounds, (ofTargets targets).Rounds [] rounds ↔ rounds = batches := by
  have mirrored := mirrored_ofTargets targets
  have loose : (ofTargets targets).Acyclic := by
    rw [Acyclic, reads_eq_aims]
    exact acyclic
  obtain ⟨height, total, isHeight, levels, highest⟩ := loose.batches_levels mirrored
  refine ⟨_, levels, isHeight.lays (isHeight.depth_eq loose mirrored) highest, fun rounds => ?_⟩
  rw [List.range_eq_range']
  exact isHeight.rounds_iff mirrored highest total 0 (Nat.zero_add _) [] (by simp) rounds

/-- Two nodes that read the first one, once more than needed, a node that reads both and also the
first one itself, and a node apart. -/
def forked : List (List Nat) := [[], [0, 7, 0], [0], [0, 1, 2], []]

/-- The last reader waits for its longest chain, not for its shortest. -/
theorem forked_schedules_agree :
    (∀ node, ¬ TransGen (Aims forked) node node) ∧
      (ofTargets forked).batches = .ok [[0, 4], [1, 2], [3]] ∧
      Lays forked [[0, 4], [1, 2], [3]] ∧ (ofTargets forked).Rounds [] [[0, 4], [1, 2], [3]] := by
  have sorted : (ofTargets forked).sort = .ok [0, 4, 1, 2, 3] := by decide +kernel
  have acyclic : ∀ node, ¬ TransGen (Aims forked) node node := by
    rw [← reads_eq_aims]
    exact (sort_ok_iff (mirrored_ofTargets forked)).mp ⟨_, sorted⟩
  have batched : (ofTargets forked).batches = .ok [[0, 4], [1, 2], [3]] := by decide +kernel
  obtain ⟨batches, found, lays, rounds⟩ := schedules_agree forked acyclic
  obtain rfl := Except.ok.inj (batched.symm.trans found)
  exact ⟨acyclic, batched, lays, (rounds _).mpr rfl⟩

end NodeGraph.Topology
