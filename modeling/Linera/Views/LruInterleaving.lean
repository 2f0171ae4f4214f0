import Linera.Views.LruCaching

set_option autoImplicit false

/-! Clones of `LruCachingKeyValueClient` (`linera-views/src/lru_caching.rs`) called
concurrently.

The clones share the inner store and, behind a mutex, the cache. Each call runs from one
await point to the next without interruption: taking the lock and working on the cache
is one step, and a call to the inner store is one step. `read_key_bytes` looks the key up
and releases the lock, reads the inner store on a miss, and takes the lock again to
insert what it read; `read_multi_key_bytes` does the same for all its misses at once;
`write_batch` applies the batch to the cache, releases the lock, then writes the inner
store. A schedule says which call takes the next step.

A call that runs alone answers as the sequential client (`run_alone`), and every schedule
keeps the cache well formed (`run_wellFormed`). A write that runs while a read is between
its inner read and its insertion is undone in the cache by the read's older value, and a
read that starts after the write has completed answers that older value. -/

namespace Linera.Views.LruCachingKeyValueClient

/-- Where a call stands: at its start, at one of its await points with what it carries
across it, or returned. -/
inductive CallState (E : Type) where
  | readKeyBytes (key : Bytes)
  | readKeyBytesMissed (key : Bytes)
  | readKeyBytesRead (key : Bytes) (value : Option Bytes)
  | readMultiKeyBytes (keys : List Bytes)
  | readMultiKeyBytesMissed (result : List (Option Bytes)) (misses : List (Bytes × Nat))
  | readMultiKeyBytesRead (result : List (Option Bytes)) (misses : List (Bytes × Nat))
      (values : List (Option Bytes))
  | findKeysByPrefix (keyPrefix : Bytes)
  | findKeyValuesByPrefix (keyPrefix : Bytes)
  | writeBatch (batch : Batch)
  | writeBatchCached (batch : Batch)
  | returned (response : Except E Response)
  deriving DecidableEq

/-- What the clones share: the inner store and the cache. -/
structure Shared (S : Type) where
  client : S
  cache : LruPrefixCache

/-- The calls on the clones, and what they share. -/
structure World (S E : Type) where
  shared : Shared S
  calls : List (CallState E)

variable {S E : Type} (inner : KeyValueStoreClient S E)

/-- A call before its first step. -/
def CallState.start : Request → CallState E
  | .readKeyBytes key => .readKeyBytes key
  | .readMultiKeyBytes keys => .readMultiKeyBytes keys
  | .findKeysByPrefix keyPrefix => .findKeysByPrefix keyPrefix
  | .findKeyValuesByPrefix keyPrefix => .findKeyValuesByPrefix keyPrefix
  | .writeBatch batch => .writeBatch batch

/-- One call runs to its next await point. -/
def CallState.advance (shared : Shared S) : CallState E → Shared S × CallState E
  | .readKeyBytes key =>
      match shared.cache.query key with
      | some value => (shared, .returned (.ok (.value value)))
      | none => (shared, .readKeyBytesMissed key)
  | .readKeyBytesMissed key =>
      match inner.readKeyBytes shared.client key with
      | .ok value => (shared, .readKeyBytesRead key value)
      | .error error => (shared, .returned (.error error))
  | .readKeyBytesRead key value =>
      ({ shared with cache := shared.cache.insert key value }, .returned (.ok (.value value)))
  | .readMultiKeyBytes keys =>
      let result := keys.map fun key => (shared.cache.query key).getD none
      let misses := keys.zipIdx.filter fun entry => (shared.cache.query entry.1).isNone
      (shared, .readMultiKeyBytesMissed result misses)
  | .readMultiKeyBytesMissed result misses =>
      match inner.readMultiKeyBytes shared.client (misses.map (·.1)) with
      | .ok values => (shared, .readMultiKeyBytesRead result misses values)
      | .error error => (shared, .returned (.error error))
  | .readMultiKeyBytesRead result misses values =>
      let filled := fillMisses shared.cache result (misses.zip values)
      ({ shared with cache := filled.1 }, .returned (.ok (.values filled.2)))
  | .findKeysByPrefix keyPrefix =>
      (shared, .returned (Response.keys <$> inner.findKeysByPrefix shared.client keyPrefix))
  | .findKeyValuesByPrefix keyPrefix =>
      (shared, .returned (Response.keyValues <$> inner.findKeyValuesByPrefix shared.client keyPrefix))
  | .writeBatch batch =>
      ({ shared with cache := shared.cache.writeBatch batch }, .writeBatchCached batch)
  | .writeBatchCached batch =>
      match inner.writeBatch shared.client batch with
      | .ok client => ({ shared with client }, .returned (.ok .written))
      | .error error => (shared, .returned (.error error))
  | .returned response => (shared, .returned response)

/-- The scheduler lets one call take its next step; a call that does not exist takes
none. -/
def World.advance (world : World S E) (call : Nat) : World S E :=
  match world.calls[call]? with
  | none => world
  | some state =>
      let stepped := state.advance inner world.shared
      ⟨stepped.1, world.calls.set call stepped.2⟩

def World.run (world : World S E) (schedule : List Nat) : World S E :=
  schedule.foldl (World.advance inner) world

theorem World.advance_single (shared : Shared S) (state : CallState E) :
    World.advance inner ⟨shared, [state]⟩ 0 =
      ⟨(state.advance inner shared).1, [(state.advance inner shared).2]⟩ := rfl

/-- A call that runs alone answers, within three steps, what the sequential client answers,
and leaves the shared state as the client leaves itself. -/
theorem run_alone (shared : Shared S) (request : Request) :
    (World.run inner ⟨shared, [CallState.start request]⟩ [0, 0, 0]).calls =
        [.returned (handle inner ⟨shared.client, some shared.cache⟩ request).2] ∧
      (handle inner ⟨shared.client, some shared.cache⟩ request).1 =
        ⟨(World.run inner ⟨shared, [CallState.start request]⟩ [0, 0, 0]).shared.client,
          some (World.run inner ⟨shared, [CallState.start request]⟩ [0, 0, 0]).shared.cache⟩ := by
  simp only [World.run, List.foldl_cons, List.foldl_nil, World.advance_single]
  cases request with
  | readKeyBytes key =>
      rcases hit : shared.cache.query key with _ | value
      · rcases read : inner.readKeyBytes shared.client key with error | value <;>
          simp [CallState.start, CallState.advance, handle, readKeyBytes, hit, read]
      · simp [CallState.start, CallState.advance, handle, readKeyBytes, hit]
  | readMultiKeyBytes keys =>
      rcases read : inner.readMultiKeyBytes shared.client
          ((keys.zipIdx.filter fun entry => (shared.cache.query entry.1).isNone).map (·.1))
        with error | values <;>
        simp [CallState.start, CallState.advance, handle, readMultiKeyBytes, read]
  | findKeysByPrefix keyPrefix =>
      simp [CallState.start, CallState.advance, handle, findKeysByPrefix]
  | findKeyValuesByPrefix keyPrefix =>
      simp [CallState.start, CallState.advance, handle, findKeyValuesByPrefix]
  | writeBatch batch =>
      rcases written : inner.writeBatch (shared.client) batch with error | client <;>
        simp [CallState.start, CallState.advance, handle, writeBatch_eq, written]

theorem CallState.advance_wellFormed {shared : Shared S} (wellFormed : shared.cache.WellFormed)
    (state : CallState E) : (state.advance inner shared).1.cache.WellFormed := by
  cases state with
  | readKeyBytes key =>
      rcases hit : shared.cache.query key with _ | value <;>
        simpa only [CallState.advance, hit] using wellFormed
  | readKeyBytesMissed key =>
      rcases read : inner.readKeyBytes shared.client key with error | value <;>
        simpa only [CallState.advance, read] using wellFormed
  | readKeyBytesRead key value => exact wellFormed.insert key value
  | readMultiKeyBytes keys => exact wellFormed
  | readMultiKeyBytesMissed result misses =>
      rcases read : inner.readMultiKeyBytes shared.client (misses.map (·.1)) with error | values <;>
        simpa only [CallState.advance, read] using wellFormed
  | readMultiKeyBytesRead result misses values => exact fillMisses_wellFormed wellFormed _ _
  | findKeysByPrefix keyPrefix => exact wellFormed
  | findKeyValuesByPrefix keyPrefix => exact wellFormed
  | writeBatch batch => exact wellFormed.writeBatch batch
  | writeBatchCached batch =>
      rcases written : inner.writeBatch shared.client batch with error | client <;>
        simpa only [CallState.advance, written] using wellFormed
  | returned response => exact wellFormed

/-- Under every schedule of every calls, the cache keeps the same keys in its map and its
queue, at most `max_cache_size` of them. -/
theorem run_wellFormed {world : World S E} (wellFormed : world.shared.cache.WellFormed)
    (schedule : List Nat) : (World.run inner world schedule).shared.cache.WellFormed := by
  induction schedule generalizing world with
  | nil => exact wellFormed
  | cons call rest ih =>
      apply ih
      unfold World.advance
      split
      · exact wellFormed
      · exact CallState.advance_wellFormed inner wellFormed _

/-- Over the memory store, a read of key `[0]` misses and reads nothing from the store; a
write of `[1]` under the key then runs to completion; the first read inserts the nothing
it read, and a read that starts only now answers nothing, while the store holds `[1]`. -/
theorem stale_read_after_completed_write :
    let world : World MemoryStoreMap MemoryContextError :=
      ⟨⟨OrdMap.empty, LruPrefixCache.new 10⟩,
        [.readKeyBytes [0], .writeBatch ⟨[.put [0] [1]]⟩, .readKeyBytes [0]]⟩
    let written := World.run (memoryClient MemoryContextError) world [0, 0, 1, 1]
    let final := World.run (memoryClient MemoryContextError) written [0, 2]
    written.calls[1]? = some (.returned (.ok .written)) ∧
      written.calls[2]? = some (.readKeyBytes [0]) ∧
      final.calls[2]? = some (.returned (.ok (.value none))) ∧
      MemoryClient.readKeyBytes final.shared.client [0] = some [1] := by
  decide

end Linera.Views.LruCachingKeyValueClient
