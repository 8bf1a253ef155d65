import NodeGraph.Primitive.Chromatic
import NodeGraph.Primitive.Collection
import NodeGraph.Primitive.Geometric
import NodeGraph.Primitive.Logic
import NodeGraph.Primitive.Math
import NodeGraph.Primitive.Registry

/-!
The registry that every session starts with.
-/

namespace NodeGraph.Registry

def builtin : Registry :=
  empty.registerAll (Math.primitives ++ Logic.primitives ++ Geometric.primitives ++
    Chromatic.primitives ++ Collection.primitives)

end NodeGraph.Registry
