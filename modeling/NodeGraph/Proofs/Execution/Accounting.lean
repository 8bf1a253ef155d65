import Mathlib.Algebra.Ring.Nat
import Mathlib.Data.List.Nodup
import NodeGraph.Execution.Cache

/-!
The accounts of a cache. Its counters are kept beside its entries and adjusted at every way in and
out; that they agree with the entries is an invariant of every operation. As the memory counter is
what the entries take, no subtraction from it is cut off at zero: the operations with subtractions
that fail there never fail.
-/

namespace NodeGraph.Cache

inductive Operation where
  | put (key : CacheKey) (value : Value) (cost : Nat)
  | get (key : CacheKey)
  | peek (key : CacheKey)
  | contains (key : CacheKey)
  | invalidate (key : CacheKey)
  | invalidateNode (index : Nat)
  | clear

def after (cache : Cache) : Operation → Cache
  | .put key value cost => cache.put key value cost
  | .get key => (cache.get key).2
  | .peek _ | .contains _ => cache
  | .invalidate key => cache.invalidate key
  | .invalidateNode index => cache.invalidateNode index
  | .clear => cache.clear

def run (cache : Cache) (operations : List Operation) : Cache := operations.foldl after cache

/-! ### Exact subtraction -/

/-- A difference that is not cut off at zero. -/
def lessened? (total amount : Nat) : Option Nat :=
  if amount ≤ total then some (total - amount) else none

def footprint (entries : List CacheEntry) : Nat := (entries.map (·.size)).sum

def discardExactly (cache : Cache) (drops : CacheKey → Bool) : Option Cache := do
  let (dropped, kept) := cache.entries.partition fun entry => drops entry.key
  return { cache with
    entries := kept
    memory := ← lessened? cache.memory (footprint dropped) }

def evictLastExactly (cache : Cache) : Option Cache :=
  match cache.entries.getLast? with
  | some entry => do
      return { cache with
        entries := cache.entries.dropLast
        memory := ← lessened? cache.memory entry.size
        stats := { cache.stats with evictions := cache.stats.evictions + 1 } }
  | none => some cache

def makeRoomExactly (size : Nat) : Nat → Cache → Option Cache
  | fuel + 1, cache =>
      if cache.memoryLimit < cache.memory + size ∧ cache.entries ≠ [] then do
        makeRoomExactly size fuel (← cache.evictLastExactly)
      else some cache
  | 0, cache => some cache

def putExactly (cache : Cache) (key : CacheKey) (value : Value) (cost : Nat) : Option Cache := do
  let size := value.size
  let cleared ← cache.discardExactly (· == key)
  let roomy ← makeRoomExactly size cleared.entries.length cleared
  let free ← if roomy.capacity ≤ roomy.entries.length then roomy.evictLastExactly else some roomy
  return { free with
    entries := ⟨key, value, cost, size⟩ :: free.entries
    memory := free.memory + size }

/-- The cache after an operation, unless a subtraction would be cut off. -/
def afterExactly (cache : Cache) : Operation → Option Cache
  | .put key value cost => cache.putExactly key value cost
  | .invalidate key => cache.discardExactly (· == key)
  | .invalidateNode index => cache.discardExactly (·.index == index)
  | operation => some (cache.after operation)

def runExactly (cache : Cache) (operations : List Operation) : Option Cache :=
  operations.foldlM afterExactly cache

/-! ### What is counted apart from the cache -/

/-- What operations come to, as someone counts who sees the cache before each of them. -/
structure Ledger where
  gets : Nat
  puts : Nat
  /-- Entries that gave way to a put of their own key. -/
  overwritten : Nat
  /-- Entries taken out by invalidating or clearing. -/
  withdrawn : Nat
  deriving DecidableEq, Repr

def held (cache : Cache) (keys : CacheKey → Bool) : Nat :=
  cache.entries.countP fun entry => keys entry.key

def Ledger.after (ledger : Ledger) (cache : Cache) : Operation → Ledger
  | .put key _ _ =>
      { ledger with
        puts := ledger.puts + 1
        overwritten := ledger.overwritten + cache.held (· == key) }
  | .get _ => { ledger with gets := ledger.gets + 1 }
  | .peek _ | .contains _ => ledger
  | .invalidate key => { ledger with withdrawn := ledger.withdrawn + cache.held (· == key) }
  | .invalidateNode index =>
      { ledger with withdrawn := ledger.withdrawn + cache.held (·.index == index) }
  | .clear => { ledger with withdrawn := ledger.withdrawn + cache.size }

def Ledger.run (ledger : Ledger) (cache : Cache) : List Operation → Ledger
  | [] => ledger
  | operation :: rest => (ledger.after cache operation).run (cache.after operation) rest

/-! ### Entries and their memory -/

theorem footprint_partition (keys : CacheEntry → Bool) (entries : List CacheEntry) :
    footprint (entries.filter keys) + footprint (entries.filter fun entry => !keys entry) =
      footprint entries := by
  simp only [footprint]
  induction entries with
  | nil => rfl
  | cons entry rest ih =>
      cases chosen : keys entry <;> simp [chosen] <;> omega

theorem foldl_size (entries : List CacheEntry) :
    entries.foldl (fun total entry => total + entry.size) 0 = footprint entries := by
  rw [footprint, List.sum_eq_foldl, List.foldl_map]

/-- What holds of a cache at every moment. -/
structure Intact (cache : Cache) : Prop where
  distinct : (cache.entries.map (·.key)).Nodup
  sized : ∀ entry ∈ cache.entries, entry.size = entry.value.size
  memory : cache.memory = footprint cache.entries

section Steps

variable {cache : Cache}

theorem Intact.of_sublist (intact : cache.Intact) {fewer : Cache}
    (entries : fewer.entries.Sublist cache.entries)
    (memory : fewer.memory = footprint fewer.entries) : fewer.Intact where
  distinct := intact.distinct.sublist (entries.map _)
  sized := fun entry member => intact.sized entry (entries.subset member)
  memory := memory

theorem discard_eq (drops : CacheKey → Bool) :
    cache.discard drops =
      { cache with
        entries := cache.entries.filter fun entry => !drops entry.key
        memory := cache.memory - footprint (cache.entries.filter fun entry => drops entry.key) } := by
  rw [discard, List.partition_eq_filter_filter]
  simp only [foldl_size]
  rfl

theorem Intact.discardExactly (intact : cache.Intact) (drops : CacheKey → Bool) :
    cache.discardExactly drops = some (cache.discard drops) := by
  have parts := footprint_partition (fun entry => drops entry.key) cache.entries
  have total := intact.memory
  have enough : footprint (cache.entries.filter fun entry => drops entry.key) ≤ cache.memory := by
    omega
  rw [discard_eq, Cache.discardExactly, List.partition_eq_filter_filter]
  simp only [lessened?, if_pos enough]
  rfl

theorem Intact.discard (intact : cache.Intact) (drops : CacheKey → Bool) :
    (cache.discard drops).Intact := by
  have parts := footprint_partition (fun entry => drops entry.key) cache.entries
  have total := intact.memory
  rw [discard_eq]
  exact intact.of_sublist List.filter_sublist (by simp only; omega)

theorem discard_held (drops : CacheKey → Bool) :
    (cache.discard drops).size + cache.held drops = cache.size := by
  rw [discard_eq, size, size, held, List.countP_eq_length_filter]
  have both := cache.entries.length_eq_length_filter_add fun entry => drops entry.key
  simp only
  omega

theorem discard_absent (drops : CacheKey → Bool) {entry : CacheEntry}
    (member : entry ∈ (cache.discard drops).entries) : drops entry.key = false := by
  rw [discard_eq] at member
  simpa using (List.mem_filter.mp member).2

theorem footprint_dropLast {entries : List CacheEntry} {last : CacheEntry}
    (found : entries.getLast? = some last) :
    footprint entries.dropLast + last.size = footprint entries := by
  have whole := List.dropLast_append_getLast? last found
  rw [← whole]
  simp [footprint]

theorem Intact.evictLastExactly (intact : cache.Intact) :
    cache.evictLastExactly = some cache.evictLast := by
  rw [Cache.evictLastExactly, evictLast]
  cases found : cache.entries.getLast? with
  | none => rfl
  | some last =>
      have parts := footprint_dropLast found
      have total := intact.memory
      have enough : last.size ≤ cache.memory := by omega
      simp only [lessened?, if_pos enough]
      rfl

theorem Intact.evictLast (intact : cache.Intact) : cache.evictLast.Intact := by
  rw [Cache.evictLast]
  cases found : cache.entries.getLast? with
  | none => exact intact
  | some last =>
      have parts := footprint_dropLast found
      have total := intact.memory
      exact intact.of_sublist (List.dropLast_sublist _) (by simp only; omega)

theorem evictLast_tally :
    cache.evictLast.size + cache.evictLast.stats.evictions =
      cache.size + cache.stats.evictions := by
  rw [evictLast]
  cases found : cache.entries.getLast? with
  | none => rfl
  | some last =>
      have nonempty : cache.entries ≠ [] := fun none => by simp [none] at found
      have some_left := List.length_pos_iff.mpr nonempty
      simp only [size, List.length_dropLast]
      omega

structure Kept (before later : Cache) : Prop where
  capacity : later.capacity = before.capacity
  memoryLimit : later.memoryLimit = before.memoryLimit
  hits : later.stats.hits = before.stats.hits
  misses : later.stats.misses = before.stats.misses

theorem Kept.refl (cache : Cache) : Kept cache cache := ⟨rfl, rfl, rfl, rfl⟩

theorem Kept.trans {middle later : Cache} (first : Kept cache middle) (second : Kept middle later) :
    Kept cache later :=
  ⟨second.capacity.trans first.capacity, second.memoryLimit.trans first.memoryLimit,
    second.hits.trans first.hits, second.misses.trans first.misses⟩

theorem discard_kept (drops : CacheKey → Bool) : Kept cache (cache.discard drops) := by
  rw [discard_eq]
  exact ⟨rfl, rfl, rfl, rfl⟩

theorem evictLast_kept : Kept cache cache.evictLast := by
  rw [evictLast]
  split <;> exact ⟨rfl, rfl, rfl, rfl⟩

theorem evictLast_length : cache.evictLast.entries.length = cache.entries.length - 1 := by
  rw [evictLast]
  cases found : cache.entries.getLast? with
  | none => simp [List.getLast?_eq_none_iff.mp found]
  | some last => exact List.length_dropLast

theorem evictLast_sublist : cache.evictLast.entries.Sublist cache.entries := by
  rw [evictLast]
  split
  · exact List.dropLast_sublist _
  · exact .refl _

theorem evictLast_memory : cache.evictLast.memory ≤ cache.memory := by
  rw [evictLast]
  split
  · exact Nat.sub_le _ _
  · exact Nat.le_refl _

/-! ### Making room -/

theorem Intact.makeRoom (intact : cache.Intact) (size fuel : Nat) :
    makeRoomExactly size fuel cache = some (Cache.makeRoom size fuel cache) ∧
      (Cache.makeRoom size fuel cache).Intact := by
  induction fuel generalizing cache with
  | zero => exact ⟨rfl, intact⟩
  | succ fuel ih =>
      rw [makeRoomExactly, Cache.makeRoom, intact.evictLastExactly]
      split
      · exact ih intact.evictLast
      · exact ⟨rfl, intact⟩

theorem makeRoom_tally (size fuel : Nat) :
    (makeRoom size fuel cache).size + (makeRoom size fuel cache).stats.evictions =
      cache.size + cache.stats.evictions := by
  induction fuel generalizing cache with
  | zero => rfl
  | succ fuel ih =>
      rw [makeRoom]
      split
      · exact ih.trans evictLast_tally
      · rfl

theorem makeRoom_kept (size fuel : Nat) : Kept cache (makeRoom size fuel cache) := by
  induction fuel generalizing cache with
  | zero => exact .refl cache
  | succ fuel ih =>
      rw [makeRoom]
      split
      · exact evictLast_kept.trans ih
      · exact .refl cache

theorem makeRoom_sublist (size fuel : Nat) :
    (makeRoom size fuel cache).entries.Sublist cache.entries := by
  induction fuel generalizing cache with
  | zero => exact .refl _
  | succ fuel ih =>
      rw [makeRoom]
      split
      · exact ih.trans evictLast_sublist
      · exact .refl _

theorem makeRoom_fits (size : Nat) {fuel : Nat} (enough : cache.entries.length ≤ fuel) :
    (makeRoom size fuel cache).memory + size ≤ cache.memoryLimit ∨
      (makeRoom size fuel cache).entries = [] := by
  induction fuel generalizing cache with
  | zero => exact Or.inr (List.length_eq_zero_iff.mp (Nat.le_zero.mp enough))
  | succ fuel ih =>
      rw [makeRoom]
      split
      · have shorter := cache.evictLast_length
        rw [← evictLast_kept.memoryLimit]
        exact ih (by omega)
      · rename_i fits
        by_cases none : cache.entries = []
        · exact Or.inr none
        · exact Or.inl (Nat.le_of_not_lt fun exceeds => fits ⟨exceeds, none⟩)

/-! ### Storing and finding -/

def roomFor (cache : Cache) (size : Nat) : Cache :=
  let roomy := makeRoom size cache.entries.length cache
  if roomy.capacity ≤ roomy.entries.length then roomy.evictLast else roomy

theorem put_eq (key : CacheKey) (value : Value) (cost : Nat) :
    cache.put key value cost =
      let free := (cache.invalidate key).roomFor value.size
      { free with
        entries := ⟨key, value, cost, value.size⟩ :: free.entries
        memory := free.memory + value.size } := rfl

theorem roomFor_kept (size : Nat) : Kept cache (cache.roomFor size) := by
  rw [roomFor]
  split
  · exact (makeRoom_kept _ _).trans evictLast_kept
  · exact makeRoom_kept _ _

theorem roomFor_tally (size : Nat) :
    (cache.roomFor size).size + (cache.roomFor size).stats.evictions =
      cache.size + cache.stats.evictions := by
  rw [roomFor]
  split
  · exact evictLast_tally.trans (makeRoom_tally _ _)
  · exact makeRoom_tally _ _

theorem roomFor_length (positive : 0 < cache.capacity) (size : Nat)
    (bounded : cache.entries.length ≤ cache.capacity) :
    (cache.roomFor size).entries.length < cache.capacity := by
  have shorter := (cache.makeRoom_sublist size cache.entries.length).length_le
  have same := (cache.makeRoom_kept size cache.entries.length).capacity
  rw [roomFor]
  split
  · rw [evictLast_length]
    omega
  · omega

theorem roomFor_fits (size : Nat) :
    (cache.roomFor size).memory + size ≤ cache.memoryLimit ∨ (cache.roomFor size).entries = [] := by
  have room := cache.makeRoom_fits size (Nat.le_refl cache.entries.length)
  rw [roomFor]
  split
  · rcases room with fits | none
    · have less := (makeRoom size cache.entries.length cache).evictLast_memory
      exact Or.inl (by omega)
    · refine Or.inr (List.length_eq_zero_iff.mp ?_)
      rw [evictLast_length, none]
      rfl
  · exact room

theorem Intact.roomFor (intact : cache.Intact) (size : Nat) : (cache.roomFor size).Intact := by
  have roomy := (intact.makeRoom size cache.entries.length).2
  rw [Cache.roomFor]
  split
  · exact roomy.evictLast
  · exact roomy

theorem Intact.putExactly (intact : cache.Intact) (key : CacheKey) (value : Value) (cost : Nat) :
    cache.putExactly key value cost = some (cache.put key value cost) := by
  have cleared := intact.discard (· == key)
  have roomy := cleared.makeRoom value.size (cache.discard (· == key)).entries.length
  rw [Cache.putExactly, intact.discardExactly]
  simp only [Option.bind_eq_bind, Option.bind_some, roomy.1, roomy.2.evictLastExactly]
  rw [put_eq, Cache.roomFor, invalidate]
  split <;> rfl

theorem roomFor_sublist (size : Nat) : (cache.roomFor size).entries.Sublist cache.entries := by
  rw [roomFor]
  split
  · exact evictLast_sublist.trans (makeRoom_sublist _ _)
  · exact makeRoom_sublist _ _

theorem Intact.put (intact : cache.Intact) (key : CacheKey) (value : Value) (cost : Nat) :
    (cache.put key value cost).Intact := by
  have free := (intact.discard (· == key)).roomFor value.size
  rw [put_eq]
  refine ⟨?_, ?_, ?_⟩
  · rw [List.map_cons, List.nodup_cons]
    refine ⟨fun present => ?_, free.distinct⟩
    obtain ⟨entry, member, same⟩ := List.mem_map.mp present
    have other := discard_absent (· == key) ((roomFor_sublist _).subset member)
    simp [same] at other
  · intro entry member
    rcases List.mem_cons.mp member with new | old
    · rw [new]
    · exact free.sized entry old
  · have total := free.memory
    simp only [footprint, List.map_cons, List.sum_cons] at total ⊢
    rw [invalidate, total, Nat.add_comm]

theorem get_perm (distinct : (cache.entries.map (·.key)).Nodup) (key : CacheKey) :
    (cache.get key).2.entries.Perm cache.entries := by
  rw [get]
  cases found : cache.find? key with
  | none => exact .refl _
  | some entry =>
      simp only
      rw [find?] at found
      generalize cache.entries = entries at distinct found
      induction entries with
      | nil => cases found
      | cons first rest ih =>
          rw [List.map_cons, List.nodup_cons] at distinct
          rw [List.find?_cons] at found
          split at found
          · rename_i same
            have others : rest.filter (fun other => other.key != key) = rest := by
              refine List.filter_eq_self.mpr fun other member => ?_
              rw [bne_iff_ne]
              intro again
              refine distinct.1 (List.mem_map.mpr ⟨other, member, ?_⟩)
              rw [again, beq_iff_eq.mp same]
            cases found
            rw [List.filter_cons_of_neg (by simpa using same), others]
          · rename_i different
            rw [List.filter_cons_of_pos (by simpa using different)]
            exact (List.Perm.swap _ _ _).trans ((ih distinct.2 found).cons first)

theorem get_counters (key : CacheKey) :
    (cache.get key).2.capacity = cache.capacity ∧
      (cache.get key).2.memoryLimit = cache.memoryLimit ∧
      (cache.get key).2.memory = cache.memory ∧
      (cache.get key).2.stats.evictions = cache.stats.evictions ∧
      (cache.get key).2.stats.hits + (cache.get key).2.stats.misses =
        cache.stats.hits + cache.stats.misses + 1 := by
  rw [get]
  cases cache.find? key with
  | none => exact ⟨rfl, rfl, rfl, rfl, rfl⟩
  | some entry => exact ⟨rfl, rfl, rfl, rfl, Nat.add_right_comm _ _ _⟩

theorem Intact.get (intact : cache.Intact) (key : CacheKey) : (cache.get key).2.Intact := by
  have perm := get_perm intact.distinct key
  obtain ⟨_, _, memory, _⟩ := cache.get_counters key
  refine ⟨(perm.map _).nodup_iff.mpr intact.distinct,
    fun entry member => intact.sized entry (perm.subset member), ?_⟩
  rw [memory, intact.memory, footprint, footprint, (perm.map _).sum_nat]

end Steps

/-! ### Every history of a cache -/

structure Accounted (cache : Cache) (ledger : Ledger) : Prop where
  intact : cache.Intact
  positive : 0 < cache.capacity
  bounded : cache.size ≤ cache.capacity
  limited : cache.memory ≤ cache.memoryLimit ∨ cache.size = 1
  lookups : cache.stats.hits + cache.stats.misses = ledger.gets
  puts : ledger.puts =
    cache.size + cache.stats.evictions + ledger.overwritten + ledger.withdrawn

section Histories

variable {cache : Cache} {ledger : Ledger}

theorem Intact.afterExactly (intact : cache.Intact) (operation : Operation) :
    cache.afterExactly operation = some (cache.after operation) := by
  cases operation with
  | put key value cost => exact intact.putExactly key value cost
  | invalidate key => exact intact.discardExactly (· == key)
  | invalidateNode index => exact intact.discardExactly (·.index == index)
  | get key => rfl
  | peek key => rfl
  | contains key => rfl
  | clear => rfl

theorem accounted_new (capacity megabytes : Nat) :
    (withMemoryLimit capacity megabytes).Accounted ⟨0, 0, 0, 0⟩ where
  intact := ⟨List.nodup_nil, fun _ member => (List.not_mem_nil member).elim, rfl⟩
  positive := by
    simp only [withMemoryLimit, defaultCapacity]
    split <;> omega
  bounded := Nat.zero_le _
  limited := Or.inl (Nat.zero_le _)
  lookups := rfl
  puts := rfl

theorem Accounted.put (accounted : cache.Accounted ledger) (key : CacheKey) (value : Value)
    (cost : Nat) :
    (cache.put key value cost).Accounted (ledger.after cache (.put key value cost)) := by
  have cleared := cache.discard_kept (· == key)
  have kept := cleared.trans (roomFor_kept value.size)
  have shorter := cache.discard_held (· == key)
  have bounded := accounted.bounded
  refine ⟨accounted.intact.put key value cost, ?_, ?_, ?_, ?_, ?_⟩
  · rw [put_eq]
    exact kept.capacity ▸ accounted.positive
  · have room := (cache.discard (· == key)).roomFor_length
      (cleared.capacity ▸ accounted.positive) value.size
      (by rw [cleared.capacity]; simp only [size] at shorter bounded; omega)
    rw [cleared.capacity] at room
    rw [put_eq]
    simp only [size, List.length_cons, invalidate, kept.capacity]
    exact room
  · rw [put_eq]
    simp only [size, List.length_cons, invalidate, kept.memoryLimit]
    rcases (cache.discard (· == key)).roomFor_fits value.size with fits | none
    · exact Or.inl (cleared.memoryLimit ▸ fits)
    · exact Or.inr (by rw [none]; rfl)
  · rw [put_eq]
    simp only [invalidate, kept.hits, kept.misses]
    exact accounted.lookups
  · have tally := (cache.discard (· == key)).roomFor_tally value.size
    have same : (cache.discard (· == key)).stats = cache.stats := by rw [discard_eq]
    have puts := accounted.puts
    rw [put_eq]
    simp only [size, List.length_cons, invalidate, Ledger.after] at tally shorter puts ⊢
    rw [same] at tally
    omega

theorem Accounted.withdraw (accounted : cache.Accounted ledger) (drops : CacheKey → Bool) :
    (cache.discard drops).Accounted
      { ledger with withdrawn := ledger.withdrawn + cache.held drops } := by
  have kept := cache.discard_kept drops
  have shorter := cache.discard_held drops
  have bounded := accounted.bounded
  have intact := accounted.intact.discard drops
  refine ⟨intact, kept.capacity ▸ accounted.positive, ?_, ?_, ?_, ?_⟩
  · rw [kept.capacity]
    omega
  · have less : (cache.discard drops).memory ≤ cache.memory := by
      rw [discard_eq]
      exact Nat.sub_le _ _
    rw [kept.memoryLimit]
    rcases accounted.limited with fits | single
    · exact Or.inl (Nat.le_trans less fits)
    · -- The one entry is kept, or it goes and takes its memory with it.
      by_cases gone : (cache.discard drops).size = 0
      · have nothing : (cache.discard drops).entries = [] := List.length_eq_zero_iff.mp gone
        refine Or.inl ?_
        rw [intact.memory, nothing]
        exact Nat.zero_le _
      · exact Or.inr (by omega)
  · rw [kept.hits, kept.misses]
    exact accounted.lookups
  · have same : (cache.discard drops).stats = cache.stats := by rw [discard_eq]
    have puts := accounted.puts
    rw [same]
    simp only
    omega

theorem Accounted.clear (accounted : cache.Accounted ledger) :
    cache.clear.Accounted (ledger.after cache .clear) where
  intact := ⟨List.nodup_nil, fun _ member => (List.not_mem_nil member).elim, rfl⟩
  positive := accounted.positive
  bounded := Nat.zero_le _
  limited := Or.inl (Nat.zero_le _)
  lookups := accounted.lookups
  puts := by
    have puts := accounted.puts
    simp only [Cache.clear, Ledger.after, size, List.length_nil] at puts ⊢
    omega

theorem Accounted.get (accounted : cache.Accounted ledger) (key : CacheKey) :
    (cache.get key).2.Accounted (ledger.after cache (.get key)) := by
  have length : (cache.get key).2.size = cache.size :=
    (get_perm accounted.intact.distinct key).length_eq
  obtain ⟨capacity, memoryLimit, memory, evictions, lookups⟩ := cache.get_counters key
  refine ⟨accounted.intact.get key, ?_, ?_, ?_, ?_, ?_⟩
  · rw [capacity]
    exact accounted.positive
  · rw [length, capacity]
    exact accounted.bounded
  · rw [memory, memoryLimit, length]
    exact accounted.limited
  · rw [lookups, accounted.lookups]
    rfl
  · rw [length, evictions]
    exact accounted.puts

theorem Accounted.after (accounted : cache.Accounted ledger) (operation : Operation) :
    (cache.after operation).Accounted (ledger.after cache operation) := by
  cases operation with
  | put key value cost => exact accounted.put key value cost
  | get key => exact accounted.get key
  | peek key => exact accounted
  | contains key => exact accounted
  | invalidate key => exact accounted.withdraw (· == key)
  | invalidateNode index => exact accounted.withdraw (·.index == index)
  | clear => exact accounted.clear

theorem Accounted.run (accounted : cache.Accounted ledger) (operations : List Operation) :
    (cache.run operations).Accounted (ledger.run cache operations) ∧
      cache.runExactly operations = some (cache.run operations) := by
  induction operations generalizing cache ledger with
  | nil => exact ⟨accounted, rfl⟩
  | cons operation rest ih =>
      have later := ih (accounted.after operation)
      refine ⟨later.1, ?_⟩
      rw [runExactly, List.foldlM_cons, accounted.intact.afterExactly]
      exact later.2

theorem after_limits (operation : Operation) :
    (cache.after operation).capacity = cache.capacity ∧
      (cache.after operation).memoryLimit = cache.memoryLimit := by
  cases operation with
  | put key value cost =>
      have kept := (cache.discard_kept (· == key)).trans (roomFor_kept value.size)
      exact ⟨kept.capacity, kept.memoryLimit⟩
  | get key =>
      obtain ⟨capacity, memoryLimit, _⟩ := cache.get_counters key
      exact ⟨capacity, memoryLimit⟩
  | peek key => exact ⟨rfl, rfl⟩
  | contains key => exact ⟨rfl, rfl⟩
  | invalidate key => exact ⟨(discard_kept _).capacity, (discard_kept _).memoryLimit⟩
  | invalidateNode index => exact ⟨(discard_kept _).capacity, (discard_kept _).memoryLimit⟩
  | clear => exact ⟨rfl, rfl⟩

theorem run_limits (operations : List Operation) :
    (cache.run operations).capacity = cache.capacity ∧
      (cache.run operations).memoryLimit = cache.memoryLimit := by
  induction operations generalizing cache with
  | nil => exact ⟨rfl, rfl⟩
  | cons operation rest ih =>
      obtain ⟨capacity, memoryLimit⟩ := cache.after_limits operation
      obtain ⟨restCapacity, restLimit⟩ := @ih (cache.after operation)
      exact ⟨restCapacity.trans capacity, restLimit.trans memoryLimit⟩

theorem Intact.memory_values (intact : cache.Intact) :
    cache.memory = (cache.entries.map (·.value.size)).sum := by
  rw [intact.memory, footprint, List.map_congr_left intact.sized]

end Histories

/-- The accounts of a cache. Whatever was asked of it since it was made, its memory counter is what
the values in it take, and no subtraction from it was ever cut off; it holds no more entries than
its capacity and no more bytes than its limit, a single larger value apart; every lookup was a hit
or a miss; and every value that was put in is there or has left in one of the counted ways. -/
theorem run_accounted (capacity megabytes : Nat) (operations : List Operation) :
    let start := withMemoryLimit capacity megabytes
    let cache := start.run operations
    let ledger := Ledger.run ⟨0, 0, 0, 0⟩ start operations
    start.runExactly operations = some cache ∧
      cache.memory = (cache.entries.map (·.value.size)).sum ∧
      cache.entries.length ≤ (if capacity = 0 then defaultCapacity else capacity) ∧
      (cache.memory ≤ megabytes * mebibyte ∨ cache.entries.length = 1) ∧
      cache.stats.hits + cache.stats.misses = ledger.gets ∧
      ledger.puts = cache.entries.length + cache.stats.evictions + ledger.overwritten +
        ledger.withdrawn := by
  intro start cache ledger
  obtain ⟨accounted, exactly⟩ := (accounted_new capacity megabytes).run operations
  obtain ⟨sameCapacity, sameLimit⟩ := start.run_limits operations
  refine ⟨exactly, accounted.intact.memory_values, ?_, ?_, accounted.lookups, accounted.puts⟩
  · exact Nat.le_trans accounted.bounded (Nat.le_of_eq sameCapacity)
  · rcases accounted.limited with fits | single
    · exact Or.inl (Nat.le_trans fits (Nat.le_of_eq sameLimit))
    · exact Or.inr single

/-- Two entries of one node are invalidated after a third has been evicted and one overwritten. -/
example :
    let key := fun index revision : Nat => CacheKey.mk index revision
    let start := withMemoryLimit 2 1
    let operations : List Operation :=
      [.put (key 0 1) (.boolean true) 0, .put (key 1 2) (.boolean true) 0, .get (key 1 2),
        .put (key 1 3) (.text "ab") 0, .put (key 1 3) (.text "abc") 0, .get (key 0 1),
        .invalidateNode 1]
    Ledger.run ⟨0, 0, 0, 0⟩ start operations = ⟨2, 4, 1, 2⟩ ∧
      (start.run operations).stats = ⟨1, 1, 1, 0⟩ ∧ (start.run operations).memory = 0 := by
  decide +kernel

end NodeGraph.Cache
