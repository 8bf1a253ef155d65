import NodeGraph.Value.Basic

/-!
The value cache. Entries are kept in the order of their last use; a new entry pushes out the least
recently used ones as far as capacity and memory limit demand.
-/

namespace NodeGraph

/-- A node's position and the revision that a value belongs to. -/
structure CacheKey where
  index : Nat
  revision : Nat
  deriving DecidableEq, Repr

structure CacheEntry where
  key : CacheKey
  value : Value
  /-- What computing the value took, in milliseconds. -/
  cost : Nat
  /-- The estimated size in bytes. -/
  size : Nat

structure CacheStats where
  hits : Nat
  misses : Nat
  evictions : Nat
  /-- The cost of all values that were found, in milliseconds. -/
  saved : Nat
  deriving DecidableEq, Repr

namespace CacheStats

def zero : CacheStats := ⟨0, 0, 0, 0⟩

/-- The share of hits among all lookups, `0` before the first one. -/
def hitRatio (stats : CacheStats) : Float :=
  let lookups := stats.hits + stats.misses
  if lookups = 0 then 0 else stats.hits.toFloat / lookups.toFloat

end CacheStats

structure Cache where
  capacity : Nat
  memoryLimit : Nat
  /-- Most recently used first. -/
  entries : List CacheEntry
  /-- The sizes of all entries together. -/
  memory : Nat
  stats : CacheStats

/-- The size of a value without what it points to. -/
def Value.baseSize : Nat := 64

mutual

/-- The estimated size of a value, added to `total`. -/
def Value.addSize (total : Nat) : Value → Nat
  | .text string | .error string => total + Value.baseSize + string.utf8ByteSize
  | .array items => Value.addSizes (total + Value.baseSize) items
  | _ => total + Value.baseSize

def Value.addSizes (total : Nat) : List Value → Nat
  | [] => total
  | item :: rest => Value.addSizes (Value.addSize total item) rest

end

def Value.size (value : Value) : Nat := value.addSize 0

namespace Cache

def defaultCapacity : Nat := 256

def mebibyte : Nat := 1024 * 1024

def withMemoryLimit (capacity megabytes : Nat) : Cache :=
  ⟨if capacity = 0 then defaultCapacity else capacity, megabytes * mebibyte, [], 0, .zero⟩

def ofCapacity (capacity : Nat) : Cache := withMemoryLimit capacity 64

def size (cache : Cache) : Nat := cache.entries.length

def isEmpty (cache : Cache) : Bool := cache.entries.isEmpty

def find? (cache : Cache) (key : CacheKey) : Option CacheEntry :=
  cache.entries.find? fun entry => entry.key == key

/-- Looks a value up, counts the hit or miss, and makes a found entry the most recent. -/
def get (cache : Cache) (key : CacheKey) : Option Value × Cache :=
  let stats := cache.stats
  match cache.find? key with
  | some entry =>
      let others := cache.entries.filter fun other => other.key != key
      (some entry.value,
        { cache with
          entries := entry :: others
          stats := { stats with hits := stats.hits + 1, saved := stats.saved + entry.cost } })
  | none => (none, { cache with stats := { stats with misses := stats.misses + 1 } })

def peek (cache : Cache) (key : CacheKey) : Option Value := (cache.find? key).map (·.value)

def contains (cache : Cache) (key : CacheKey) : Bool := (cache.find? key).isSome

/-- Takes the entries of some keys out, without counting evictions. -/
def discard (cache : Cache) (drops : CacheKey → Bool) : Cache :=
  let (dropped, kept) := cache.entries.partition fun entry => drops entry.key
  { cache with
    entries := kept
    memory := cache.memory - dropped.foldl (fun total entry => total + entry.size) 0 }

def invalidate (cache : Cache) (key : CacheKey) : Cache := cache.discard (· == key)

def invalidateNode (cache : Cache) (index : Nat) : Cache := cache.discard (·.index == index)

def evictLast (cache : Cache) : Cache :=
  match cache.entries.getLast? with
  | some entry =>
      { cache with
        entries := cache.entries.dropLast
        memory := cache.memory - entry.size
        stats := { cache.stats with evictions := cache.stats.evictions + 1 } }
  | none => cache

/-- Evicts until so many more bytes fit, or nothing is left; `fuel` bounds the entries. -/
def makeRoom (size : Nat) : Nat → Cache → Cache
  | fuel + 1, cache =>
      if cache.memoryLimit < cache.memory + size ∧ cache.entries ≠ [] then
        makeRoom size fuel cache.evictLast
      else cache
  | 0, cache => cache

/-- Stores a value as the most recent one in place of what its key had before. -/
def put (cache : Cache) (key : CacheKey) (value : Value) (cost : Nat) : Cache :=
  let size := value.size
  let cleared := cache.invalidate key
  let roomy := makeRoom size cleared.entries.length cleared
  let free := if roomy.capacity ≤ roomy.entries.length then roomy.evictLast else roomy
  { free with entries := ⟨key, value, cost, size⟩ :: free.entries, memory := free.memory + size }

def clear (cache : Cache) : Cache := { cache with entries := [], memory := 0 }

end Cache

end NodeGraph
