import NodeGraph.Graph.Basic

/-!
Cursors: places in a graph named by the identity of a node, so that edits elsewhere do not move
them.
-/

namespace NodeGraph

inductive Address where
  | node (id : Nat)
  /-- An input slot of a node. -/
  | edge (id slot : Nat)
  deriving DecidableEq, Repr

/-- Where an address is now. -/
inductive Place where
  | node (index : Nat)
  | edge (index slot target : Nat)
  deriving DecidableEq, Repr

/-- Both ends of a selection; a selection of one address has it at both ends. -/
structure Cursor where
  primary : Address
  secondary : Address
  deriving DecidableEq, Repr

namespace Address

def id : Address → Nat
  | .node id | .edge id _ => id

/-- An edge exists as long as its slot is connected. -/
def resolve? (address : Address) (graph : Graph) : Option Place := do
  let index ← graph.index? address.id
  match address with
  | .node _ => return .node index
  | .edge _ slot =>
      let node ← graph.nodes[index]?
      return .edge index slot (← node.input? slot)

def isValid (address : Address) (graph : Graph) : Bool := (address.resolve? graph).isSome

end Address

namespace Cursor

def single (address : Address) : Cursor := ⟨address, address⟩

def isSingle (cursor : Cursor) : Bool := cursor.primary == cursor.secondary

def swapped (cursor : Cursor) : Cursor := ⟨cursor.secondary, cursor.primary⟩

def resolve? (cursor : Cursor) (graph : Graph) : Option (Place × Place) := do
  return (← cursor.primary.resolve? graph, ← cursor.secondary.resolve? graph)

def isValid (cursor : Cursor) (graph : Graph) : Bool :=
  cursor.primary.isValid graph && cursor.secondary.isValid graph

end Cursor

end NodeGraph
