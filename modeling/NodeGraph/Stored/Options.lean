import NodeGraph.Execution.Engine
import NodeGraph.Stored.Graph
import NodeGraph.Toml.Reader

/-!
Options as they are stored: a TOML document whose keys may all be missing. Keys that are no option
are ignored.
-/

namespace NodeGraph

namespace Stored

def readFlag (table : Toml.Table) (key : String) (default : Bool) : Option Bool :=
  match table.find? key with
  | none => some default
  | some (.boolean truth) => some truth
  | some _ => none

def readCount (table : Toml.Table) (key : String) (default : Nat) : Option Nat :=
  match table.find? key with
  | none => some default
  | some (.integer number) => if 0 ≤ number then some number.toNat else none
  | some _ => none

def readOptions (table : Toml.Table) : Option Options := do
  let default := Options.default
  return ⟨← readFlag table "parallel" default.parallel,
    ← readFlag table "use_cache" default.useCache,
    ← readCount table "cache_capacity" default.cacheCapacity,
    ← readFlag table "background_worker" default.backgroundWorker⟩

end Stored

namespace Options

def load (document : String) : Except StoreError Options :=
  match (Toml.parse? document).bind Stored.readOptions with
  | some options => .ok options
  | none => .error .options

end Options

end NodeGraph
