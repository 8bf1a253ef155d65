import Mathlib.Data.List.Induction
import NodeGraph.Proofs.Execution.Accounting

/-!
The cache as a store of what was used last. What it answers and the order of its entries are told
by the history of operations alone: an entry stands for the last put of its key, as long as nothing
took it out, and stands before the entries that were last used earlier. A put keeps the longest
part of that order for which there is room.
-/

namespace NodeGraph.Cache

/-! ### What operations do to a key -/

def others (cache : Cache) (key : CacheKey) : List CacheEntry :=
  cache.entries.filter fun entry => entry.key != key

/-- How the other entries are parted when a value of some size is put in: those that are kept are
the longest part from the most recent one on that leaves a free place and enough bytes. -/
structure Parts (cache : Cache) (key : CacheKey) (size : Nat) (kept dropped : List CacheEntry) :
    Prop where
  whole : kept ++ dropped = cache.others key
  places : kept.length ≤ cache.capacity - 1
  bytes : size ≤ cache.memoryLimit → footprint kept ≤ cache.memoryLimit - size
  oversized : cache.memoryLimit < size → kept = []
  longest : ∀ front, front <+: cache.others key → front.length ≤ cache.capacity - 1 →
    size ≤ cache.memoryLimit → footprint front ≤ cache.memoryLimit - size →
      front.length ≤ kept.length

inductive Operation.Uses (cache : Cache) (key : CacheKey) : Operation → Prop
  | put (value : Value) (cost : Nat) : Uses cache key (.put key value cost)
  | get (held : cache.contains key = true) : Uses cache key (.get key)

inductive Operation.Ends (cache : Cache) (key : CacheKey) : Operation → Prop
  | overwrite (value : Value) (cost : Nat) : Ends cache key (.put key value cost)
  | evict {other : CacheKey} {value : Value} {kept dropped : List CacheEntry} {entry : CacheEntry}
      (cost : Nat) (parts : cache.Parts other value.size kept dropped)
      (member : entry ∈ dropped) (same : entry.key = key) : Ends cache key (.put other value cost)
  | invalidate : Ends cache key (.invalidate key)
  | invalidateNode : Ends cache key (.invalidateNode key.index)
  | clear : Ends cache key .clear

/-! ### What a history says of a key -/

def UsedAt (start : Cache) (history : List Operation) (time : Nat) (key : CacheKey) : Prop :=
  ∃ operation, history[time]? = some operation ∧
    Operation.Uses (start.run (history.take time)) key operation

/-- The one key was used after every use of the other one. -/
def MoreRecent (start : Cache) (history : List Operation) (newer older : CacheKey) : Prop :=
  ∃ last, start.UsedAt history last newer ∧
    ∀ time, start.UsedAt history time older → time < last

/-- The value was put in under the key, and no later operation ended that. -/
def Holds (start : Cache) (history : List Operation) (key : CacheKey) (value : Value) : Prop :=
  ∃ time cost, history[time]? = some (Operation.put key value cost) ∧
    ∀ later operation, time < later → history[later]? = some operation →
      ¬Operation.Ends (start.run (history.take later)) key operation

/-! ### What a put keeps -/

section Parting

variable {cache : Cache}

theorem Parts.front {key : CacheKey} {size : Nat} {kept dropped : List CacheEntry}
    (parts : cache.Parts key size kept dropped) : kept <+: cache.others key :=
  ⟨dropped, parts.whole⟩

theorem Parts.unique {key : CacheKey} {size : Nat} {kept dropped kept' dropped' : List CacheEntry}
    (parts : cache.Parts key size kept dropped) (parts' : cache.Parts key size kept' dropped') :
    kept = kept' ∧ dropped = dropped' := by
  have same : kept.length = kept'.length := by
    by_cases large : cache.memoryLimit < size
    · rw [parts.oversized large, parts'.oversized large]
    · have small := Nat.le_of_not_lt large
      exact Nat.le_antisymm
        (parts'.longest kept parts.front parts.places small (parts.bytes small))
        (parts.longest kept' parts'.front parts'.places small (parts'.bytes small))
  exact List.append_inj (parts.whole.trans parts'.whole.symm) same

theorem others_absent {key : CacheKey} {entry : CacheEntry} (member : entry ∈ cache.others key) :
    entry.key ≠ key := by
  simpa using (List.mem_filter.mp member).2

theorem invalidate_others (key : CacheKey) : (cache.invalidate key).entries = cache.others key := by
  rw [invalidate, discard_eq]
  rfl

theorem evictLast_dropLast : cache.evictLast.entries = cache.entries.dropLast := by
  rw [evictLast]
  cases found : cache.entries.getLast? with
  | none => simp [List.getLast?_eq_none_iff.mp found]
  | some last => rfl

theorem evictLast_front : cache.evictLast.entries <+: cache.entries := by
  rw [evictLast_dropLast]
  exact List.dropLast_prefix _

theorem makeRoom_front (size fuel : Nat) : (makeRoom size fuel cache).entries <+: cache.entries := by
  induction fuel generalizing cache with
  | zero => exact List.prefix_refl _
  | succ fuel ih =>
      rw [makeRoom]
      split
      · exact ih.trans evictLast_front
      · exact List.prefix_refl _

theorem Intact.makeRoom_longest (intact : cache.Intact) (size fuel : Nat) {front : List CacheEntry}
    (start : front <+: cache.entries) (fits : footprint front + size ≤ cache.memoryLimit) :
    front.length ≤ (Cache.makeRoom size fuel cache).entries.length := by
  induction fuel generalizing cache with
  | zero => exact start.length_le
  | succ fuel ih =>
      rw [Cache.makeRoom]
      split
      · rename_i exceeds
        -- All entries together take too much, so the part that fits lacks the last one.
        have shorter : front.length ≤ cache.evictLast.entries.length := by
          have proper : front ≠ cache.entries := by
            intro whole
            have total := intact.memory
            rw [whole] at fits
            omega
          have less := start.length_le
          have different : front.length ≠ cache.entries.length :=
            fun same => proper (start.eq_of_length same)
          rw [evictLast_length]
          omega
        have start' : front <+: cache.evictLast.entries :=
          List.prefix_of_prefix_length_le start evictLast_front shorter
        exact ih intact.evictLast start' (by rw [evictLast_kept.memoryLimit]; exact fits)
      · exact start.length_le

theorem roomFor_front (size : Nat) : (cache.roomFor size).entries <+: cache.entries := by
  rw [roomFor]
  split
  · exact evictLast_front.trans (makeRoom_front _ _)
  · exact makeRoom_front _ _

theorem Intact.roomFor_longest (intact : cache.Intact) (size : Nat) {front : List CacheEntry}
    (start : front <+: cache.entries) (places : front.length < cache.capacity)
    (fits : footprint front + size ≤ cache.memoryLimit) :
    front.length ≤ (cache.roomFor size).entries.length := by
  have roomy := intact.makeRoom_longest size cache.entries.length start fits
  have same := (cache.makeRoom_kept size cache.entries.length).capacity
  rw [Cache.roomFor]
  split
  · rw [evictLast_length]
    omega
  · exact roomy

theorem Accounted.put_parts {ledger : Ledger} (accounted : cache.Accounted ledger) (key : CacheKey)
    (value : Value) (cost : Nat) :
    ∃ kept dropped, cache.Parts key value.size kept dropped ∧
      (cache.put key value cost).entries = ⟨key, value, cost, value.size⟩ :: kept ∧
      (cache.put key value cost).stats.evictions = cache.stats.evictions + dropped.length := by
  have cleared := cache.discard_kept (· == key)
  have capacity : (cache.invalidate key).capacity = cache.capacity := cleared.capacity
  have limit : (cache.invalidate key).memoryLimit = cache.memoryLimit := cleared.memoryLimit
  have intact : (cache.invalidate key).Intact := accounted.intact.discard (· == key)
  have positive := accounted.positive
  have front := (cache.invalidate key).roomFor_front value.size
  have entries := cache.invalidate_others key
  obtain ⟨dropped, whole⟩ := front
  refine ⟨((cache.invalidate key).roomFor value.size).entries, dropped, ⟨?_, ?_, ?_, ?_, ?_⟩,
    rfl, ?_⟩
  · rw [whole, entries]
  · have held : (cache.invalidate key).entries.length ≤ cache.capacity :=
      Nat.le_trans (entries ▸ List.length_filter_le _ _) accounted.bounded
    have room := (cache.invalidate key).roomFor_length (capacity ▸ positive) value.size
      (capacity ▸ held)
    rw [capacity] at room
    omega
  · intro small
    have memory := (intact.roomFor value.size).memory
    rcases (cache.invalidate key).roomFor_fits value.size with fits | none
    · rw [memory, limit] at fits
      omega
    · rw [none]
      exact Nat.zero_le _
  · intro large
    rcases (cache.invalidate key).roomFor_fits value.size with fits | none
    · rw [limit] at fits
      omega
    · exact none
  · intro front start places small fits
    refine intact.roomFor_longest value.size (entries ▸ start) ?_ ?_
    · rw [capacity]
      omega
    · rw [limit]
      omega
  · have tally := (cache.invalidate key).roomFor_tally value.size
    have length := congrArg List.length whole
    have stats : (cache.invalidate key).stats = cache.stats := by rw [invalidate, discard_eq]
    rw [put_eq]
    simp only [size, stats, List.length_append] at tally length ⊢
    omega

end Parting

/-! ### One more operation in a history -/

section Histories

variable {start : Cache} {history : List Operation} {operation : Operation}

theorem run_nil : start.run [] = start := rfl

theorem run_snoc : start.run (history ++ [operation]) = (start.run history).after operation := by
  rw [run, List.foldl_append]
  rfl

theorem at_snoc {time : Nat} {found : Operation} :
    (history ++ [operation])[time]? = some found ↔
      history[time]? = some found ∨ time = history.length ∧ operation = found := by
  rcases Nat.lt_trichotomy time history.length with before | same | beyond
  · have other : time ≠ history.length := Nat.ne_of_lt before
    simp [List.getElem?_append_left before, other]
  · subst same
    simp
  · have missing : history[time]? = none := List.getElem?_eq_none (Nat.le_of_lt beyond)
    have past : (history ++ [operation])[time]? = none :=
      List.getElem?_eq_none (by rw [List.length_append]; exact beyond)
    have other : time ≠ history.length := Nat.ne_of_gt beyond
    simp [missing, past, other]

theorem take_snoc {time : Nat} (within : time ≤ history.length) :
    (history ++ [operation]).take time = history.take time :=
  List.take_append_of_le_length within

theorem take_whole : (history ++ [operation]).take history.length = history := List.take_left

theorem usedAt_snoc {time : Nat} {key : CacheKey} :
    start.UsedAt (history ++ [operation]) time key ↔
      start.UsedAt history time key ∨
        time = history.length ∧ operation.Uses (start.run history) key := by
  constructor
  · rintro ⟨found, present, uses⟩
    rcases at_snoc.mp present with old | ⟨now, same⟩
    · rw [take_snoc (Nat.le_of_lt (List.getElem?_eq_some_iff.mp old).1)] at uses
      exact Or.inl ⟨found, old, uses⟩
    · rw [now, take_whole, ← same] at uses
      exact Or.inr ⟨now, uses⟩
  · rintro (⟨found, old, uses⟩ | ⟨now, uses⟩)
    · refine ⟨found, at_snoc.mpr (Or.inl old), ?_⟩
      rw [take_snoc (Nat.le_of_lt (List.getElem?_eq_some_iff.mp old).1)]
      exact uses
    · refine ⟨operation, at_snoc.mpr (Or.inr ⟨now, rfl⟩), ?_⟩
      rw [now, take_whole]
      exact uses

theorem UsedAt.within {time : Nat} {key : CacheKey} (used : start.UsedAt history time key) :
    time < history.length := by
  obtain ⟨found, present, _⟩ := used
  exact (List.getElem?_eq_some_iff.mp present).1

theorem MoreRecent.snoc {newer older : CacheKey} (recent : start.MoreRecent history newer older)
    (unused : ¬operation.Uses (start.run history) older) :
    start.MoreRecent (history ++ [operation]) newer older := by
  obtain ⟨last, used, before⟩ := recent
  refine ⟨last, usedAt_snoc.mpr (Or.inl used), fun time again => ?_⟩
  rcases usedAt_snoc.mp again with old | ⟨_, uses⟩
  · exact before time old
  · exact absurd uses unused

theorem moreRecent_now {newer older : CacheKey} (uses : operation.Uses (start.run history) newer)
    (unused : ¬operation.Uses (start.run history) older) :
    start.MoreRecent (history ++ [operation]) newer older := by
  refine ⟨history.length, usedAt_snoc.mpr (Or.inr ⟨rfl, uses⟩), fun time again => ?_⟩
  rcases usedAt_snoc.mp again with old | ⟨_, uses⟩
  · exact old.within
  · exact absurd uses unused

theorem holds_snoc {key : CacheKey} {value : Value} :
    start.Holds (history ++ [operation]) key value ↔
      (∃ cost, operation = .put key value cost) ∨
        start.Holds history key value ∧ ¬operation.Ends (start.run history) key := by
  constructor
  · rintro ⟨time, cost, present, lasting⟩
    rcases at_snoc.mp present with old | ⟨_, same⟩
    · have within := (List.getElem?_eq_some_iff.mp old).1
      refine Or.inr ⟨⟨time, cost, old, fun later found after there => ?_⟩, ?_⟩
      · have kept := lasting later found after (at_snoc.mpr (Or.inl there))
        rwa [take_snoc (Nat.le_of_lt (List.getElem?_eq_some_iff.mp there).1)] at kept
      · have kept := lasting _ operation within (at_snoc.mpr (Or.inr ⟨rfl, rfl⟩))
        rwa [take_whole] at kept
    · exact Or.inl ⟨cost, same⟩
  · rintro (⟨cost, same⟩ | ⟨⟨time, cost, old, lasting⟩, kept⟩)
    · refine ⟨history.length, cost, at_snoc.mpr (Or.inr ⟨rfl, same⟩), ?_⟩
      intro later found after there
      rcases at_snoc.mp there with before | ⟨now, _⟩
      · have within := (List.getElem?_eq_some_iff.mp before).1
        omega
      · omega
    · refine ⟨time, cost, at_snoc.mpr (Or.inl old), fun later found after there => ?_⟩
      rcases at_snoc.mp there with before | ⟨now, same⟩
      · rw [take_snoc (Nat.le_of_lt (List.getElem?_eq_some_iff.mp before).1)]
        exact lasting later found after before
      · rw [now, take_whole, ← same]
        exact kept

end Histories

/-! ### What one operation does -/

section Steps

variable {cache : Cache} {ledger : Ledger} {key : CacheKey} {value : Value}

theorem Intact.peek (intact : cache.Intact) :
    cache.peek key = some value ↔
      ∃ entry ∈ cache.entries, entry.key = key ∧ entry.value = value := by
  rw [Cache.peek, find?, Option.map_eq_some_iff]
  constructor
  · rintro ⟨entry, found, same⟩
    exact ⟨entry, List.mem_of_find?_eq_some found, by simpa using List.find?_some found, same⟩
  · rintro ⟨entry, member, sameKey, sameValue⟩
    have present : (cache.entries.find? fun entry => entry.key == key).isSome := by
      rw [List.find?_isSome]
      exact ⟨entry, member, by simpa using sameKey⟩
    obtain ⟨first, found⟩ := Option.isSome_iff_exists.mp present
    have firstKey : first.key = key := by simpa using List.find?_some found
    have same : first = entry := List.inj_on_of_nodup_map intact.distinct
      (List.mem_of_find?_eq_some found) member (firstKey.trans sameKey.symm)
    exact ⟨first, found, same ▸ sameValue⟩

theorem get_answers : (cache.get key).1 = cache.peek key := by
  rw [get, peek]
  cases cache.find? key <;> rfl

theorem contains_answers : cache.contains key = (cache.peek key).isSome := by
  rw [contains, peek, Option.isSome_map]

theorem Intact.peek_discard (intact : cache.Intact) (drops : CacheKey → Bool) :
    (cache.discard drops).peek key = some value ↔
      cache.peek key = some value ∧ drops key = false := by
  rw [(intact.discard drops).peek, intact.peek, discard_eq]
  simp only [List.mem_filter, Bool.not_eq_true']
  constructor
  · rintro ⟨entry, ⟨member, stays⟩, sameKey, sameValue⟩
    exact ⟨⟨entry, member, sameKey, sameValue⟩, sameKey ▸ stays⟩
  · rintro ⟨⟨entry, member, sameKey, sameValue⟩, stays⟩
    exact ⟨entry, ⟨member, sameKey ▸ stays⟩, sameKey, sameValue⟩

theorem Accounted.peek_put (accounted : cache.Accounted ledger) (other : CacheKey) (new : Value)
    (cost : Nat) :
    (cache.put other new cost).peek key = some value ↔
      (∃ paid, Operation.put other new cost = .put key value paid) ∨
        cache.peek key = some value ∧ ¬Operation.Ends cache key (.put other new cost) := by
  obtain ⟨kept, dropped, parts, entries, _⟩ := accounted.put_parts other new cost
  have intact := accounted.intact
  have distinct : ((kept ++ dropped).map (·.key)).Nodup := by
    rw [parts.whole]
    exact intact.distinct.sublist (List.filter_sublist.map _)
  have apart := (List.nodup_append.mp (List.map_append ▸ distinct)).2.2
  rw [(intact.put other new cost).peek, entries]
  constructor
  · rintro ⟨entry, member, sameKey, sameValue⟩
    rcases List.mem_cons.mp member with first | old
    · subst first
      exact Or.inl ⟨cost, by rw [← sameKey, ← sameValue]⟩
    · have there : entry ∈ cache.others other := parts.front.subset old
      refine Or.inr ⟨intact.peek.mpr
        ⟨entry, (List.mem_filter.mp there).1, sameKey, sameValue⟩, fun ends => ?_⟩
      cases ends with
      | overwrite => exact others_absent there sameKey
      | evict _ parts' member' same' =>
          -- The entry of the key would be both kept and dropped.
          rw [← (parts.unique parts').2] at member'
          exact apart _ (List.mem_map_of_mem old) _ (List.mem_map_of_mem member')
            (sameKey.trans same'.symm)
  · rintro (⟨paid, same⟩ | ⟨found, lasting⟩)
    · injection same with sameKey sameValue _
      exact ⟨_, List.mem_cons_self, sameKey, sameValue⟩
    · obtain ⟨entry, member, sameKey, sameValue⟩ := intact.peek.mp found
      have different : entry.key ≠ other := by
        rintro rfl
        exact lasting (sameKey ▸ .overwrite new cost)
      have there : entry ∈ kept ++ dropped := by
        rw [parts.whole]
        exact List.mem_filter.mpr ⟨member, by simpa using different⟩
      rcases List.mem_append.mp there with stays | leaves
      · exact ⟨entry, List.mem_cons_of_mem _ stays, sameKey, sameValue⟩
      · exact absurd (.evict cost parts leaves sameKey) lasting

theorem Accounted.peek_after (accounted : cache.Accounted ledger) (operation : Operation) :
    (cache.after operation).peek key = some value ↔
      (∃ cost, operation = .put key value cost) ∨
        cache.peek key = some value ∧ ¬operation.Ends cache key := by
  have intact := accounted.intact
  cases operation with
  | put other new cost => exact accounted.peek_put other new cost
  | get other =>
      have same := get_perm intact.distinct other
      have kept : ¬Operation.Ends cache key (.get other) := fun ends => by cases ends
      rw [Cache.after, (intact.get other).peek, intact.peek]
      simp [same.mem_iff, kept]
  | peek other =>
      have kept : ¬Operation.Ends cache key (.peek other) := fun ends => by cases ends
      simp [Cache.after, kept]
  | contains other =>
      have kept : ¬Operation.Ends cache key (.contains other) := fun ends => by cases ends
      simp [Cache.after, kept]
  | invalidate other =>
      have ends : Operation.Ends cache key (.invalidate other) ↔ key = other :=
        ⟨fun ends => by cases ends; rfl, fun same => same ▸ .invalidate⟩
      rw [Cache.after, invalidate, intact.peek_discard, ends]
      simp only [reduceCtorEq, exists_false, false_or, beq_eq_false_iff_ne, ne_eq]
  | invalidateNode index =>
      have ends : Operation.Ends cache key (.invalidateNode index) ↔ key.index = index :=
        ⟨fun ends => by cases ends; rfl, fun same => same ▸ .invalidateNode⟩
      rw [Cache.after, invalidateNode, intact.peek_discard, ends]
      simp only [reduceCtorEq, exists_false, false_or, beq_eq_false_iff_ne, ne_eq]
  | clear =>
      have ends : Operation.Ends cache key .clear := .clear
      simp [Cache.after, Cache.clear, Cache.peek, find?, ends]

theorem Operation.Uses.unique {operation : Operation} {other : CacheKey}
    (uses : operation.Uses cache key) (uses' : operation.Uses cache other) : other = key := by
  cases uses <;> cases uses' <;> rfl

theorem Accounted.after_order (accounted : cache.Accounted ledger) (operation : Operation) :
    (∃ entry rest, (cache.after operation).entries = entry :: rest ∧
      operation.Uses cache entry.key ∧ rest.Sublist (cache.others entry.key)) ∨
    (cache.after operation).entries.Sublist cache.entries ∧ ∀ key, ¬operation.Uses cache key := by
  cases operation with
  | put key value cost =>
      obtain ⟨kept, dropped, parts, entries, _⟩ := accounted.put_parts key value cost
      exact Or.inl ⟨_, kept, entries, .put value cost, parts.front.sublist⟩
  | get key =>
      simp only [Cache.after, Cache.get]
      cases found : cache.find? key with
      | none =>
          refine Or.inr ⟨.refl _, fun other uses => ?_⟩
          cases uses with
          | get held => simp [contains, found] at held
      | some entry =>
          have same : entry.key = key := by simpa using List.find?_some found
          refine Or.inl ⟨entry, _, rfl, ?_, same ▸ .refl _⟩
          rw [same]
          exact .get (by rw [contains, found]; rfl)
  | peek key => exact Or.inr ⟨.refl _, fun _ uses => by cases uses⟩
  | contains key => exact Or.inr ⟨.refl _, fun _ uses => by cases uses⟩
  | invalidate key =>
      refine Or.inr ⟨?_, fun _ uses => by cases uses⟩
      rw [Cache.after, invalidate, discard_eq]
      exact List.filter_sublist
  | invalidateNode index =>
      refine Or.inr ⟨?_, fun _ uses => by cases uses⟩
      rw [Cache.after, invalidateNode, discard_eq]
      exact List.filter_sublist
  | clear => exact Or.inr ⟨List.nil_sublist _, fun _ uses => by cases uses⟩

end Steps

/-! ### Every history -/

section Runs

variable {start : Cache} {ledger : Ledger}

theorem Accounted.run_order (accounted : start.Accounted ledger) (empty : start.entries = [])
    (history : List Operation) :
    (start.run history).entries.Pairwise fun newer older =>
      start.MoreRecent history newer.key older.key := by
  induction history using List.reverseRecOn with
  | nil =>
      rw [run_nil, empty]
      exact .nil
  | append_singleton history operation ih =>
      rw [run_snoc]
      rcases (accounted.run history).1.after_order operation with
        ⟨entry, rest, entries, uses, others⟩ | ⟨entries, unused⟩
      · have unused : ∀ other ∈ rest, ¬operation.Uses (start.run history) other.key :=
          fun other member again => others_absent (others.subset member) (uses.unique again)
        rw [entries]
        refine .cons (fun other member => moreRecent_now uses (unused other member)) ?_
        refine (ih.sublist (others.trans List.filter_sublist)).imp_of_mem ?_
        exact fun _ member recent => recent.snoc (unused _ member)
      · exact (ih.sublist entries).imp fun recent => recent.snoc (unused _)

theorem Accounted.run_holds (accounted : start.Accounted ledger) (empty : start.entries = [])
    (history : List Operation) (key : CacheKey) (value : Value) :
    (start.run history).peek key = some value ↔ start.Holds history key value := by
  induction history using List.reverseRecOn with
  | nil =>
      have none : (start.run []).peek key = none := by
        rw [run_nil, Cache.peek, find?, empty]
        rfl
      simp [none, Holds]
  | append_singleton history operation ih =>
      rw [run_snoc, (accounted.run history).1.peek_after, holds_snoc, ih]

end Runs

/-- The cache is a store of what was used last. Whatever was asked of it since it was made, a key
answers with the value of its last put unless that was invalidated, cleared or evicted since; the
entries stand in the order of their last use, the most recent one first; and a put keeps the longest
part of that order that leaves one of the places free and leaves enough of the bytes, and counts an
eviction for each entry that it drops. -/
theorem run_leastRecentlyUsed (capacity megabytes : Nat) (history : List Operation) :
    let start := withMemoryLimit capacity megabytes
    let cache := start.run history
    (cache.capacity = (if capacity = 0 then defaultCapacity else capacity) ∧
      cache.memoryLimit = megabytes * mebibyte ∧
      ∀ entry ∈ cache.entries, entry.size = entry.value.size) ∧
    (∀ key, (∀ value, cache.peek key = some value ↔ start.Holds history key value) ∧
      (cache.get key).1 = cache.peek key ∧ cache.contains key = (cache.peek key).isSome) ∧
    (cache.entries.Pairwise fun newer older => start.MoreRecent history newer.key older.key) ∧
    ∀ key value cost, ∃ kept dropped, cache.Parts key value.size kept dropped ∧
      (cache.put key value cost).entries = ⟨key, value, cost, value.size⟩ :: kept ∧
      (cache.put key value cost).stats.evictions = cache.stats.evictions + dropped.length := by
  intro start cache
  have new := accounted_new capacity megabytes
  have accounted := (new.run history).1
  obtain ⟨sameCapacity, sameLimit⟩ := start.run_limits history
  exact ⟨⟨sameCapacity, sameLimit, accounted.intact.sized⟩,
    fun key => ⟨new.run_holds rfl history key, get_answers, contains_answers⟩,
    new.run_order rfl history, accounted.put_parts⟩

/-- A lookup saves the older of two entries from the third. -/
example :
    let key := fun index : Nat => CacheKey.mk index 0
    let history : List Operation := [.put (key 0) (.boolean true) 0,
      .put (key 1) (.boolean true) 0, .get (key 0), .peek (key 1), .put (key 2) (.boolean true) 0]
    ((withMemoryLimit 2 1).run history).entries.map (·.key) = [key 2, key 0] := by
  decide +kernel

end NodeGraph.Cache
