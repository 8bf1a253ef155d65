/-!
Dependency tables. A topology lists, for every node, the distinct nodes it reads from and the
distinct nodes that read from it. Everything here also works on tables with cycles.
-/

namespace NodeGraph

structure Topology where
  /-- The nodes that each node reads from, in the order of its slots. -/
  dependencies : Array (List Nat)
  /-- The nodes that read from each node, ascending. -/
  consumers : Array (List Nat)

namespace Topology

/-- The table of the targets that each node names. Repeated targets and those out of range are
ignored. -/
def ofTargets (targets : List (List Nat)) : Topology :=
  let count := targets.length
  let dependencies := targets.map fun row => (row.filter (· < count)).eraseDups
  let table := dependencies.toArray
  let readers := fun node =>
    (List.range count).filter fun reader => (table.getD reader []).contains node
  ⟨table, ((List.range count).map readers).toArray⟩

def count (topology : Topology) : Nat := topology.dependencies.size

def nodes (topology : Topology) : List Nat := List.range topology.count

def dependenciesOf (topology : Topology) (node : Nat) : List Nat :=
  topology.dependencies.getD node []

def consumersOf (topology : Topology) (node : Nat) : List Nat :=
  topology.consumers.getD node []

/-! ### Sorting -/

/-- Takes one dependency from each consumer; those left without any join the queue. -/
def release (degrees : Array Nat) (queue : List Nat) : List Nat → Array Nat × List Nat
  | [] => (degrees, queue)
  | consumer :: rest =>
      let degree := degrees.getD consumer 0 - 1
      let degrees := degrees.setIfInBounds consumer degree
      release degrees (if degree = 0 then queue ++ [consumer] else queue) rest

/-- Takes nodes from the queue until it is empty; `sorted` is in reverse. Each step takes one node,
and every node is queued once at most. -/
def sortFrom (topology : Topology) : Nat → Array Nat → List Nat → List Nat →
    List Nat × Array Nat
  | fuel + 1, degrees, node :: queue, sorted =>
      let (degrees, queue) := release degrees queue (topology.consumersOf node)
      topology.sortFrom fuel degrees queue (node :: sorted)
  | _, degrees, _, sorted => (sorted.reverse, degrees)

/-- The nodes with dependencies before consumers, ties by position; or the nodes that are never
free of dependencies, because they lie on a cycle or depend on one. -/
def sort (topology : Topology) : Except (List Nat) (List Nat) :=
  let degrees := topology.dependencies.map List.length
  let free := topology.nodes.filter fun node => degrees.getD node 0 = 0
  let (sorted, degrees) := topology.sortFrom (topology.count + 1) degrees free []
  if sorted.length = topology.count then .ok sorted
  else .error (topology.nodes.filter fun node => degrees.getD node 0 > 0)

def hasCycle (topology : Topology) : Bool :=
  match topology.sort with
  | .ok _ => false
  | .error _ => true

/-- One more than the greatest depth among the dependencies. -/
def depthAbove (depths : Array Nat) (dependencies : List Nat) : Nat :=
  dependencies.foldl (fun best node => max best (depths.getD node 0 + 1)) 0

/-- The longest dependency chain below each node, computed in sorted order. -/
def depths (topology : Topology) (sorted : List Nat) : Array Nat :=
  sorted.foldl
    (fun depths node =>
      depths.setIfInBounds node (depthAbove depths (topology.dependenciesOf node)))
    (Array.replicate topology.count 0)

/-- Nodes grouped by the length of their longest dependency chain, ascending in each group. -/
def batches (topology : Topology) : Except (List Nat) (List (List Nat)) := do
  let depths := topology.depths (← topology.sort)
  let total := depths.foldl (fun most depth => max most (depth + 1)) 0
  return (List.range total).map fun depth =>
    topology.nodes.filter fun node => depths.getD node 0 = depth

/-! ### Reachability -/

/-- Takes nodes from the queue in order and queues the neighbours of each new one. `found` is in
reverse and leaves out the start. -/
def searchFrom (next : Nat → List Nat) (start : Nat) : Nat → List Nat → List Nat → List Nat
  | fuel + 1, node :: queue, found =>
      if node = start ∨ node ∈ found then searchFrom next start fuel queue found
      else searchFrom next start fuel (queue ++ next node) (node :: found)
  | _, _, found => found.reverse

def edgeCount (table : Array (List Nat)) : Nat :=
  table.foldl (fun total row => total + row.length) 0

/-- The nodes other than `start` that lead on from it, closest first. Every step takes one entry
of the queue, and each node's neighbours are queued once. -/
def search (table : Array (List Nat)) (start : Nat) : List Nat :=
  let next := fun node => table.getD node []
  searchFrom next start (edgeCount table + 1) (next start) []

/-- Everything that a node depends on, closest first. -/
def ancestorsOf (topology : Topology) (node : Nat) : List Nat :=
  search topology.dependencies node

/-- Everything that depends on a node, closest first. -/
def descendantsOf (topology : Topology) (node : Nat) : List Nat :=
  search topology.consumers node

/-- Whether `target` is `node` itself or one of its ancestors. -/
def dependsOn (topology : Topology) (node target : Nat) : Bool :=
  node == target || (topology.ancestorsOf node).contains target

def lineageOf (topology : Topology) (root : Nat) : List Nat :=
  if root < topology.count then root :: topology.ancestorsOf root else []

/-! ### Depth, readiness and components -/

/-- The depth of a node, with the depths known so far. A node that is being visited counts as a
source, so cycles end. -/
def depthFrom (topology : Topology) : Nat → Array (Option Nat) → List Nat → Nat →
    Nat × Array (Option Nat)
  | 0, known, _, _ => (0, known)
  | fuel + 1, known, visiting, node =>
      match known.getD node none with
      | some depth => (depth, known)
      | none =>
          if node ≥ topology.count || visiting.contains node then (0, known)
          else
            let (best, known) := (topology.dependenciesOf node).foldl
              (fun (best, known) dependency =>
                let (depth, known) := topology.depthFrom fuel known (node :: visiting) dependency
                (max best (depth + 1), known))
              (0, known)
            (best, known.setIfInBounds node (some best))

/-- The longest dependency chain below a node. A chain visits each node once, so its length bounds
the recursion. -/
def depth (topology : Topology) (node : Nat) : Nat :=
  (topology.depthFrom (topology.count + 1) (Array.replicate topology.count none) [] node).1

/-- The nodes that are not done but whose dependencies all are. -/
def ready (topology : Topology) (done : List Nat) : List Nat :=
  topology.nodes.filter fun node =>
    !done.contains node && (topology.dependenciesOf node).all done.contains

def sources (topology : Topology) : List Nat :=
  topology.nodes.filter fun node => (topology.dependenciesOf node).isEmpty

def sinks (topology : Topology) : List Nat :=
  topology.nodes.filter fun node => (topology.consumersOf node).isEmpty

/-- The nodes that were not seen yet and that an edge joins to a node, in either direction. -/
def unseenAround (topology : Topology) (seen : List Nat) (node : Nat) : List Nat :=
  (topology.dependenciesOf node ++ topology.consumersOf node).eraseDups.filter
    fun next => !seen.contains next

/-- Collects what is joined to the queue by edges in either direction. `seen` holds all nodes that
were ever queued. -/
def collect (topology : Topology) : Nat → List Nat → List Nat → List Nat
  | fuel + 1, node :: queue, seen =>
      let fresh := topology.unseenAround seen node
      topology.collect fuel (queue ++ fresh) (seen ++ fresh)
  | _, _, seen => seen

/-- Opens a component at every start that was not visited before. All components share what was
visited, and each has what its own search adds, ascending. -/
def componentsFrom (topology : Topology) : List Nat → List Nat → List (List Nat)
  | [], _ => []
  | start :: starts, visited =>
      if visited.contains start then topology.componentsFrom starts visited
      else
        let seen := topology.collect topology.count [start] (visited ++ [start])
        (seen.drop visited.length).mergeSort (fun left right => left ≤ right) ::
          topology.componentsFrom starts seen

/-- The components, each at its least node. -/
def components (topology : Topology) : List (List Nat) :=
  topology.componentsFrom topology.nodes []

end Topology

end NodeGraph
