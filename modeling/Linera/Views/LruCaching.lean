import Linera.Lib.Except
import Linera.Lib.Handler
import Linera.Views.Client

set_option autoImplicit false

/-! The read cache in front of a key-value store (`linera-views/src/lru_caching.rs`).

`LruPrefixCache` maps keys to the value last seen for them, `None` for an absent key, and
queues its keys from the least to the most recently used. `insert` evicts the least
recently used key when the queue grows past `max_cache_size`, and `delete_prefix` marks
the cached keys under a prefix as absent without creating entries. Its map and its queue
always hold the same keys, and at most `max_cache_size` of them (`WellFormed`).

`LruCachingKeyValueClient` answers reads from the cache and fills it on a miss, and
applies a batch to the cache before handing it to the inner store. While every cached
value is the inner store's (`Coherent`), a read answers what the inner store answers,
and a batch the inner store writes keeps the cache coherent. A batch the inner store
rejects is still in the cache: a later read answers the rejected value.

Clones of the client share the cache and the inner store, and a read releases the lock
on the cache between its miss and the inner read, and takes it again to insert what it
read. The clones are modelled as calls that stop at these points, advanced one at a time
by a scheduler: a write that runs between a read's inner read and its insertion is
overwritten in the cache by the older value. -/

namespace Linera.Views

/-- `LruPrefixCache`: the cached values by key, the queue of keys from the least to the
most recently used (the `LinkedHashMap`), and the capacity. -/
structure LruPrefixCache where
  map : OrdMap Bytes (Option Bytes)
  queue : List Bytes
  maxCacheSize : Nat

namespace LruPrefixCache

def new (maxCacheSize : Nat) : LruPrefixCache := ⟨OrdMap.empty, [], maxCacheSize⟩

def insert (cache : LruPrefixCache) (key : Bytes) (value : Option Bytes) : LruPrefixCache :=
  match cache.map.get key with
  | some _ =>
      -- Put it on first position for LRU.
      { cache with map := cache.map.insert key value, queue := cache.queue.erase key ++ [key] }
  | none =>
      let queue := cache.queue ++ [key]
      if queue.length > cache.maxCacheSize then
        -- `pop_front` on a queue that holds at least the new key.
        { cache with map := (cache.map.insert key value).erase (queue.headD key), queue := queue.tail }
      else { cache with map := cache.map.insert key value, queue }

/-- `LruPrefixCache::delete_prefix`: the cached keys under the prefix are marked absent. -/
def deletePrefix (cache : LruPrefixCache) (keyPrefix : Bytes) : LruPrefixCache :=
  { cache with
    map := (scanMap cache.map keyPrefix).foldl (fun map entry => map.insert entry.1 none) cache.map }

def query (cache : LruPrefixCache) (key : Bytes) : Option (Option Bytes) :=
  cache.map.get key

/-- The loop of `LruCachingKeyValueClient::write_batch` over the cache. -/
def writeBatch (cache : LruPrefixCache) (batch : Batch) : LruPrefixCache :=
  batch.operations.foldl (fun cache operation =>
    match operation with
    | .put key value => cache.insert key (some value)
    | .delete key => cache.insert key none
    | .deletePrefix keyPrefix => cache.deletePrefix keyPrefix) cache

/-- The map and the queue hold the same keys, each once, and at most `max_cache_size`. -/
structure WellFormed (cache : LruPrefixCache) : Prop where
  keys : ∀ key, (cache.map.get key).isSome ↔ key ∈ cache.queue
  nodup : cache.queue.Nodup
  size : cache.queue.length ≤ cache.maxCacheSize

theorem wellFormed_new (maxCacheSize : Nat) : (new maxCacheSize).WellFormed where
  keys := by simp [new]
  nodup := List.nodup_nil
  size := Nat.zero_le _

theorem get_foldl_insert_none (map : OrdMap Bytes (Option Bytes))
    (entries : List ((_ : Bytes) × Option Bytes)) (key : Bytes) :
    (entries.foldl (fun map entry => map.insert entry.1 none) map).get key =
      if key ∈ entries.map (·.1) then some none else map.get key := by
  induction entries generalizing map with
  | nil => simp
  | cons entry rest ih =>
      rw [List.foldl_cons, ih]
      by_cases later : key ∈ rest.map (·.1) <;> by_cases hit : key = entry.1 <;> simp [later, hit]

theorem query_deletePrefix (cache : LruPrefixCache) (keyPrefix key : Bytes) :
    (cache.deletePrefix keyPrefix).query key =
      if keyPrefix <+: key then (cache.query key).map fun _ => none else cache.query key := by
  simp only [query, deletePrefix, get_foldl_insert_none, mem_scanMap_keys]
  by_cases inside : keyPrefix <+: key
  · cases cache.map.get key <;> simp [inside]
  · simp [inside]

/-- The key that an insertion evicts: the oldest one, when the key is new and the queue
grows past the capacity. -/
def Evicts (cache : LruPrefixCache) (key other : Bytes) : Prop :=
  cache.map.get key = none ∧ cache.maxCacheSize < cache.queue.length + 1 ∧
    other = (cache.queue ++ [key]).headD key

instance (cache : LruPrefixCache) (key other : Bytes) : Decidable (cache.Evicts key other) :=
  inferInstanceAs (Decidable (_ ∧ _ ∧ _))

theorem get_insert_map (cache : LruPrefixCache) (key other : Bytes) (value : Option Bytes) :
    (cache.insert key value).map.get other =
      if cache.Evicts key other then none
      else if other = key then some value else cache.map.get other := by
  unfold insert Evicts
  split
  · rename_i found
    simp [found]
  · rename_i found
    dsimp only
    by_cases full : cache.maxCacheSize < cache.queue.length + 1
    · have grows : (cache.queue ++ [key]).length > cache.maxCacheSize := by
        simpa using full
      rw [if_pos grows]
      -- The head of the grown queue, as simp writes it.
      by_cases evicted : other = cache.queue.head?.getD key
      · simp [evicted, found, full]
      · simp [evicted, found]
    · have fits : ¬ (cache.queue ++ [key]).length > cache.maxCacheSize := by
        simpa using full
      rw [if_neg fits]
      simp [full]

theorem queue_insert (cache : LruPrefixCache) (key : Bytes) (value : Option Bytes) :
    (cache.insert key value).queue =
      if (cache.map.get key).isSome then cache.queue.erase key ++ [key]
      else if cache.maxCacheSize < cache.queue.length + 1 then (cache.queue ++ [key]).tail
      else cache.queue ++ [key] := by
  unfold insert
  split
  · rename_i found
    simp [found]
  · rename_i found
    dsimp only
    by_cases full : cache.maxCacheSize < cache.queue.length + 1
    · have grows : (cache.queue ++ [key]).length > cache.maxCacheSize := by
        simpa using full
      rw [if_pos grows]
      simp [found, full]
    · have fits : ¬ (cache.queue ++ [key]).length > cache.maxCacheSize := by
        simpa using full
      rw [if_neg fits]
      simp [found, full]

@[simp]
theorem maxCacheSize_insert (cache : LruPrefixCache) (key : Bytes) (value : Option Bytes) :
    (cache.insert key value).maxCacheSize = cache.maxCacheSize := by
  unfold insert
  split
  · rfl
  · dsimp only
    split_ifs <;> rfl

@[simp]
theorem queue_deletePrefix (cache : LruPrefixCache) (keyPrefix : Bytes) :
    (cache.deletePrefix keyPrefix).queue = cache.queue := rfl

theorem query_insert_eq_some {cache : LruPrefixCache} {key other : Bytes}
    {value : Option Bytes} {found : Option Bytes}
    (cached : (cache.insert key value).query other = some found) :
    (other = key ∧ found = value) ∨ (other ≠ key ∧ cache.query other = some found) := by
  rw [query, get_insert_map] at cached
  split_ifs at cached with evicted hit
  · exact Or.inl ⟨hit, (Option.some.inj cached).symm⟩
  · exact Or.inr ⟨hit, cached⟩

/-- In a well-formed cache of positive capacity, the inserted key stays cached: the key
an insertion evicts is an older one. -/
theorem query_insert_self {cache : LruPrefixCache} (wellFormed : cache.WellFormed)
    (positive : 0 < cache.maxCacheSize) (key : Bytes) (value : Option Bytes) :
    (cache.insert key value).query key = some value := by
  rw [query, get_insert_map, if_neg, if_pos rfl]
  rintro ⟨absent, full, oldest⟩
  have notQueued : key ∉ cache.queue := by
    rw [← wellFormed.keys]
    simp [absent]
  rcases queueEq : cache.queue with _ | ⟨first, rest⟩
  · rw [queueEq] at full
    simp at full
    omega
  · rw [queueEq] at oldest notQueued
    simp only [List.cons_append, List.headD_cons] at oldest
    exact notQueued (oldest ▸ List.mem_cons_self)

theorem WellFormed.insert {cache : LruPrefixCache} (wellFormed : cache.WellFormed) (key : Bytes)
    (value : Option Bytes) : (cache.insert key value).WellFormed := by
  rcases found : cache.map.get key with _ | old
  · have notQueued : key ∉ cache.queue := by
      rw [← wellFormed.keys]
      simp [found]
    have distinct : (cache.queue ++ [key]).Nodup :=
      List.nodup_append.mpr ⟨wellFormed.nodup, List.nodup_singleton key,
        fun a mem b same => by
          rw [List.mem_singleton] at same
          subst same
          exact fun equal => notQueued (equal ▸ mem)⟩
    obtain ⟨oldest, rest, listEq⟩ : ∃ oldest rest, cache.queue ++ [key] = oldest :: rest := by
      rcases listEq : cache.queue ++ [key] with _ | ⟨oldest, rest⟩
      · simp at listEq
      · exact ⟨oldest, rest, rfl⟩
    rw [listEq] at distinct
    have oldestFresh : oldest ∉ rest := (List.nodup_cons.mp distinct).1
    by_cases full : cache.maxCacheSize < cache.queue.length + 1
    · -- The oldest key leaves both the map and the queue.
      have queueEq : (cache.insert key value).queue = rest := by
        simp [queue_insert, found, full, listEq]
      refine ⟨?_, ?_, ?_⟩
      · intro other
        rw [get_insert_map, queueEq]
        have listed : other ∈ oldest :: rest ↔ other ∈ cache.queue ∨ other = key := by
          rw [← listEq]
          simp
        by_cases evicted : other = oldest
        · subst evicted
          simp [Evicts, found, full, listEq, oldestFresh]
        · have kept : ¬ cache.Evicts key other := by
            simp [Evicts, listEq, evicted]
          rw [if_neg kept]
          have inRest : other ∈ rest ↔ other ∈ cache.queue ∨ other = key := by
            rw [← listed]
            simp [evicted]
          by_cases hit : other = key
          · simp [hit] at inRest ⊢
            exact inRest
          · simp [hit, inRest, wellFormed.keys]
      · rw [queueEq]
        exact (List.nodup_cons.mp distinct).2
      · have lengthEq := congrArg List.length listEq
        simp only [List.length_append, List.length_cons, List.length_nil] at lengthEq
        rw [queueEq, maxCacheSize_insert]
        have := wellFormed.size
        omega
    · have queueEq : (cache.insert key value).queue = cache.queue ++ [key] := by
        simp [queue_insert, found, full]
      have kept : ∀ other, ¬ cache.Evicts key other := fun other evicted => full evicted.2.1
      refine ⟨?_, ?_, ?_⟩
      · intro other
        rw [get_insert_map, if_neg (kept other), queueEq]
        by_cases hit : other = key <;> simp [hit, wellFormed.keys]
      · rw [queueEq, listEq]
        exact distinct
      · rw [queueEq, maxCacheSize_insert]
        simp only [List.length_append, List.length_singleton]
        omega
  · have present : key ∈ cache.queue := by
      rw [← wellFormed.keys]
      simp [found]
    have queueEq : (cache.insert key value).queue = cache.queue.erase key ++ [key] := by
      simp [queue_insert, found]
    have kept : ∀ other, ¬ cache.Evicts key other := fun other evicted => by
      simp [Evicts, found] at evicted
    refine ⟨?_, ?_, ?_⟩
    · intro other
      rw [get_insert_map, if_neg (kept other), queueEq]
      by_cases hit : other = key
      · simp [hit]
      · simp [hit, wellFormed.keys, List.Nodup.mem_erase_iff wellFormed.nodup]
    · rw [queueEq]
      exact List.nodup_append.mpr ⟨wellFormed.nodup.erase key, List.nodup_singleton key,
        fun a mem b same => by
          rw [List.mem_singleton] at same
          subst same
          exact fun equal => (List.Nodup.not_mem_erase wellFormed.nodup) (equal ▸ mem)⟩
    · rw [queueEq, maxCacheSize_insert]
      simp only [List.length_append, List.length_singleton, List.length_erase_of_mem present]
      have := wellFormed.size
      have := List.length_pos_of_mem present
      omega

theorem WellFormed.deletePrefix {cache : LruPrefixCache} (wellFormed : cache.WellFormed)
    (keyPrefix : Bytes) : (cache.deletePrefix keyPrefix).WellFormed where
  keys key := by
    have queried := congrArg Option.isSome (cache.query_deletePrefix keyPrefix key)
    simp only [query] at queried
    rw [queried, queue_deletePrefix, ← wellFormed.keys]
    split_ifs <;> simp
  nodup := wellFormed.nodup
  size := wellFormed.size

theorem WellFormed.writeBatch {cache : LruPrefixCache} (wellFormed : cache.WellFormed)
    (batch : Batch) : (cache.writeBatch batch).WellFormed := by
  obtain ⟨operations⟩ := batch
  induction operations generalizing cache with
  | nil => exact wellFormed
  | cons operation rest ih =>
      simp only [LruPrefixCache.writeBatch, List.foldl_cons] at ih ⊢
      apply ih
      cases operation with
      | put key value => exact wellFormed.insert key (some value)
      | delete key => exact wellFormed.insert key none
      | deletePrefix keyPrefix => exact wellFormed.deletePrefix keyPrefix

/-- Every cached value is the value of its key in the contents. -/
def Agrees (cache : LruPrefixCache) (contents : Bytes → Option Bytes) : Prop :=
  ∀ key value, cache.query key = some value → value = contents key

theorem agrees_new (maxCacheSize : Nat) (contents : Bytes → Option Bytes) :
    (new maxCacheSize).Agrees contents := by
  intro key value cached
  simp [new, query] at cached

theorem Agrees.insert {cache : LruPrefixCache} {contents : Bytes → Option Bytes}
    (agrees : cache.Agrees contents) {key : Bytes} {value : Option Bytes}
    (read : value = contents key) : (cache.insert key value).Agrees contents := by
  intro other found cached
  rcases query_insert_eq_some cached with ⟨rfl, rfl⟩ | ⟨-, before⟩
  · exact read
  · exact agrees other found before

theorem Agrees.writeOperation {cache : LruPrefixCache} {contents : Bytes → Option Bytes}
    (agrees : cache.Agrees contents) (operation : WriteOperation) :
    (match operation with
      | .put key value => cache.insert key (some value)
      | .delete key => cache.insert key none
      | .deletePrefix keyPrefix => cache.deletePrefix keyPrefix).Agrees
      (operation.apply contents) := by
  intro key found cached
  cases operation with
  | put written value =>
      rcases query_insert_eq_some cached with ⟨rfl, rfl⟩ | ⟨different, before⟩
      · simp [WriteOperation.apply]
      · simp [WriteOperation.apply, different, agrees key found before]
  | delete deleted =>
      rcases query_insert_eq_some cached with ⟨rfl, rfl⟩ | ⟨different, before⟩
      · simp [WriteOperation.apply]
      · simp [WriteOperation.apply, different, agrees key found before]
  | deletePrefix keyPrefix =>
      rw [query_deletePrefix] at cached
      by_cases inside : keyPrefix <+: key
      · rw [if_pos inside] at cached
        obtain ⟨-, -, rfl⟩ := Option.map_eq_some_iff.mp cached
        simp [WriteOperation.apply, inside]
      · rw [if_neg inside] at cached
        simp [WriteOperation.apply, inside, agrees key found cached]

theorem Agrees.writeBatch {cache : LruPrefixCache} {contents : Bytes → Option Bytes}
    (agrees : cache.Agrees contents) (batch : Batch) :
    (cache.writeBatch batch).Agrees (applyOperations contents batch.operations) := by
  obtain ⟨operations⟩ := batch
  induction operations generalizing cache contents with
  | nil => exact agrees
  | cons operation rest ih =>
      simp only [LruPrefixCache.writeBatch, List.foldl_cons, applyOperations_cons] at ih ⊢
      exact ih (agrees.writeOperation operation)

end LruPrefixCache

/-- `LruCachingKeyValueClient`: the contents of the inner store, and the cache when the
client has one. -/
structure LruCachingKeyValueClient (S : Type) where
  client : S
  lruReadKeys : Option LruPrefixCache

namespace LruCachingKeyValueClient

variable {S E : Type} (inner : KeyValueStoreClient S E)

/-- `LruCachingKeyValueClient::new`: no cache for a size of zero. -/
def new (client : S) (maxSize : Nat) : LruCachingKeyValueClient S :=
  if maxSize = 0 then ⟨client, none⟩ else ⟨client, some (LruPrefixCache.new maxSize)⟩

def readKeyBytes (self : LruCachingKeyValueClient S) (key : Bytes) :
    Except E (LruCachingKeyValueClient S × Option Bytes) :=
  match self.lruReadKeys with
  | none => do
      let value ← inner.readKeyBytes self.client key
      pure (self, value)
  | some cache =>
      match cache.query key with
      | some value => pure (self, value)
      | none => do
          let value ← inner.readKeyBytes self.client key
          pure ({ self with lruReadKeys := some (cache.insert key value) }, value)

/-- The second loop of `read_multi_key_bytes`: each miss, with its position, is cached and
put in the result. -/
def fillMisses (cache : LruPrefixCache) (result : List (Option Bytes))
    (misses : List ((Bytes × Nat) × Option Bytes)) : LruPrefixCache × List (Option Bytes) :=
  misses.foldl (fun state miss => (state.1.insert miss.1.1 miss.2, state.2.set miss.1.2 miss.2))
    (cache, result)

def readMultiKeyBytes (self : LruCachingKeyValueClient S) (keys : List Bytes) :
    Except E (LruCachingKeyValueClient S × List (Option Bytes)) :=
  match self.lruReadKeys with
  | none => do
      let values ← inner.readMultiKeyBytes self.client keys
      pure (self, values)
  | some cache => do
      let result := keys.map fun key => (cache.query key).getD none
      let misses := keys.zipIdx.filter fun entry => (cache.query entry.1).isNone
      let values ← inner.readMultiKeyBytes self.client (misses.map (·.1))
      let filled := fillMisses cache result (misses.zip values)
      pure ({ self with lruReadKeys := some filled.1 }, filled.2)

/-- `write_batch`: the cache first, then the inner store. The client keeps the updated
cache whatever the inner store answers. -/
def writeBatch (self : LruCachingKeyValueClient S) (batch : Batch) :
    LruCachingKeyValueClient S × Except E Unit :=
  let self := match self.lruReadKeys with
    | none => self
    | some cache => { self with lruReadKeys := some (cache.writeBatch batch) }
  match inner.writeBatch self.client batch with
  | .ok client => ({ self with client }, .ok ())
  | .error error => (self, .error error)

/-- `find_keys_by_prefix`, which the inner store answers. -/
def findKeysByPrefix (self : LruCachingKeyValueClient S) (keyPrefix : Bytes) :
    Except E (List Bytes) :=
  inner.findKeysByPrefix self.client keyPrefix

/-- `find_key_values_by_prefix`, which the inner store answers. -/
def findKeyValuesByPrefix (self : LruCachingKeyValueClient S) (keyPrefix : Bytes) :
    Except E (List (Bytes × Bytes)) :=
  inner.findKeyValuesByPrefix self.client keyPrefix

/-- The client answering a call; a read that fails leaves the client as it was. -/
def handle (self : LruCachingKeyValueClient S) :
    Request → LruCachingKeyValueClient S × Except E Response
  | .readKeyBytes key =>
      match readKeyBytes inner self key with
      | .ok (next, value) => (next, .ok (.value value))
      | .error error => (self, .error error)
  | .readMultiKeyBytes keys =>
      match readMultiKeyBytes inner self keys with
      | .ok (next, values) => (next, .ok (.values values))
      | .error error => (self, .error error)
  | .findKeysByPrefix keyPrefix => (self, Response.keys <$> findKeysByPrefix inner self keyPrefix)
  | .findKeyValuesByPrefix keyPrefix =>
      (self, Response.keyValues <$> findKeyValuesByPrefix inner self keyPrefix)
  | .writeBatch batch =>
      let written := writeBatch inner self batch
      (written.1, (fun _ => Response.written) <$> written.2)

theorem writeBatch_eq (self : LruCachingKeyValueClient S) (batch : Batch) :
    writeBatch inner self batch =
      match inner.writeBatch self.client batch with
      | .ok client => (⟨client, self.lruReadKeys.map (·.writeBatch batch)⟩, .ok ())
      | .error error => (⟨self.client, self.lruReadKeys.map (·.writeBatch batch)⟩, .error error) := by
  obtain ⟨client, _ | cache⟩ := self <;> rfl

@[simp] theorem fillMisses_cons (cache : LruPrefixCache) (result : List (Option Bytes))
    (miss : (Bytes × Nat) × Option Bytes) (rest : List ((Bytes × Nat) × Option Bytes)) :
    fillMisses cache result (miss :: rest) =
      fillMisses (cache.insert miss.1.1 miss.2) (result.set miss.1.2 miss.2) rest := rfl

theorem fillMisses_wellFormed {cache : LruPrefixCache} (wellFormed : cache.WellFormed)
    (result : List (Option Bytes)) (misses : List ((Bytes × Nat) × Option Bytes)) :
    (fillMisses cache result misses).1.WellFormed := by
  induction misses generalizing cache result with
  | nil => exact wellFormed
  | cons miss rest ih => exact ih (wellFormed.insert _ _) _

@[simp] theorem client_new (client : S) (maxSize : Nat) : (new client maxSize).client = client := by
  unfold new
  split_ifs <;> rfl

theorem readKeyBytes_lruReadKeys {self next : LruCachingKeyValueClient S} {key : Bytes}
    {value : Option Bytes} (read : readKeyBytes inner self key = .ok (next, value)) :
    next.client = self.client ∧ (next.lruReadKeys = self.lruReadKeys ∨
      ∃ cache, self.lruReadKeys = some cache ∧ next.lruReadKeys = some (cache.insert key value)) := by
  rcases cachedEq : self.lruReadKeys with _ | cache
  · simp only [readKeyBytes, cachedEq] at read
    obtain ⟨stored, -, answered⟩ := (Except.bind_eq_ok_iff _ _ _).mp read
    obtain ⟨rfl, rfl⟩ := Prod.mk.inj (Except.ok.inj answered)
    exact ⟨rfl, Or.inl cachedEq⟩
  · rcases hit : cache.query key with _ | found
    · simp only [readKeyBytes, cachedEq, hit] at read
      obtain ⟨stored, -, answered⟩ := (Except.bind_eq_ok_iff _ _ _).mp read
      obtain ⟨rfl, rfl⟩ := Prod.mk.inj (Except.ok.inj answered)
      exact ⟨rfl, Or.inr ⟨cache, rfl, rfl⟩⟩
    · simp only [readKeyBytes, cachedEq, hit] at read
      obtain ⟨rfl, rfl⟩ := Prod.mk.inj (Except.ok.inj read)
      exact ⟨rfl, Or.inl cachedEq⟩

theorem readMultiKeyBytes_lruReadKeys {self next : LruCachingKeyValueClient S}
    {keys : List Bytes} {values : List (Option Bytes)}
    (read : readMultiKeyBytes inner self keys = .ok (next, values)) :
    next.client = self.client ∧ (next.lruReadKeys = self.lruReadKeys ∨
      ∃ cache result misses, self.lruReadKeys = some cache ∧
        next.lruReadKeys = some (fillMisses cache result misses).1) := by
  rcases cachedEq : self.lruReadKeys with _ | cache
  · simp only [readMultiKeyBytes, cachedEq] at read
    obtain ⟨stored, -, answered⟩ := (Except.bind_eq_ok_iff _ _ _).mp read
    obtain ⟨rfl, rfl⟩ := Prod.mk.inj (Except.ok.inj answered)
    exact ⟨rfl, Or.inl cachedEq⟩
  · simp only [readMultiKeyBytes, cachedEq] at read
    obtain ⟨stored, -, answered⟩ := (Except.bind_eq_ok_iff _ _ _).mp read
    obtain ⟨rfl, rfl⟩ := Prod.mk.inj (Except.ok.inj answered)
    exact ⟨rfl, Or.inr ⟨cache, _, _, rfl, rfl⟩⟩

/-- The cache, when there is one, is well formed. -/
def CacheWellFormed (self : LruCachingKeyValueClient S) : Prop :=
  ∀ cache, self.lruReadKeys = some cache → cache.WellFormed

theorem cacheWellFormed_new (client : S) (maxSize : Nat) : (new client maxSize).CacheWellFormed := by
  intro cache cached
  unfold new at cached
  split_ifs at cached with zero
  obtain rfl := Option.some.inj cached
  exact LruPrefixCache.wellFormed_new maxSize

/-- Every call keeps the cache well formed, whatever the inner store answers. -/
theorem handle_cacheWellFormed {self : LruCachingKeyValueClient S} (wellFormed : self.CacheWellFormed)
    (request : Request) : (handle inner self request).1.CacheWellFormed := by
  intro cache cached
  cases request with
  | readKeyBytes key =>
      rcases read : readKeyBytes inner self key with error | ⟨next, value⟩ <;>
        simp only [handle, read] at cached
      · exact wellFormed cache cached
      · rcases (readKeyBytes_lruReadKeys inner read).2 with same | ⟨before, beforeEq, nextEq⟩
        · exact wellFormed cache (same ▸ cached)
        · rw [nextEq, Option.some.injEq] at cached
          exact cached ▸ (wellFormed before beforeEq).insert key value
  | readMultiKeyBytes keys =>
      rcases read : readMultiKeyBytes inner self keys with error | ⟨next, values⟩ <;>
        simp only [handle, read] at cached
      · exact wellFormed cache cached
      · rcases (readMultiKeyBytes_lruReadKeys inner read).2 with
          same | ⟨before, result, misses, beforeEq, nextEq⟩
        · exact wellFormed cache (same ▸ cached)
        · rw [nextEq, Option.some.injEq] at cached
          exact cached ▸ fillMisses_wellFormed (wellFormed before beforeEq) result misses
  | findKeysByPrefix keyPrefix => exact wellFormed cache cached
  | findKeyValuesByPrefix keyPrefix => exact wellFormed cache cached
  | writeBatch batch =>
      -- The cache takes the batch whether or not the inner store does.
      have written : (handle inner self (.writeBatch batch)).1.lruReadKeys =
          self.lruReadKeys.map (·.writeBatch batch) := by
        simp only [handle, writeBatch_eq]
        split <;> rfl
      rw [written] at cached
      obtain ⟨before, beforeEq, rfl⟩ := Option.map_eq_some_iff.mp cached
      exact (wellFormed before beforeEq).writeBatch batch

/-- Over any calls, and whatever the inner store answers, the cache keeps the same keys in
its map and its queue, at most `max_cache_size` of them. -/
theorem run_cacheWellFormed (client : S) (maxSize : Nat) (requests : List Request) :
    (Handler.run (handle inner) (new client maxSize) requests).1.CacheWellFormed :=
  Handler.run_invariant CacheWellFormed (fun _ request wellFormed => handle_cacheWellFormed inner wellFormed request)
    (cacheWellFormed_new client maxSize) requests

section Coherence

variable (contents : S → Bytes → Option Bytes)

/-- An inner store whose reads answer its contents and whose writes, when they succeed,
apply the batch to them. -/
structure Lawful : Prop where
  readKeyBytes : ∀ state key, inner.readKeyBytes state key = .ok (contents state key)
  readMultiKeyBytes : ∀ state keys,
    inner.readMultiKeyBytes state keys = .ok (keys.map (contents state))
  writeBatch : ∀ state batch next, inner.writeBatch state batch = .ok next →
    contents next = applyOperations (contents state) batch.operations

variable {inner}

/-- The cache, when there is one, is well formed and holds the inner store's values. -/
def Coherent (self : LruCachingKeyValueClient S) : Prop :=
  ∀ cache, self.lruReadKeys = some cache →
    cache.WellFormed ∧ cache.Agrees (contents self.client)

theorem coherent_new (client : S) (maxSize : Nat) : (new client maxSize).Coherent contents := by
  intro cache cached
  unfold new at cached
  split_ifs at cached with zero
  obtain rfl := Option.some.inj cached
  exact ⟨LruPrefixCache.wellFormed_new maxSize, LruPrefixCache.agrees_new maxSize _⟩

theorem fillMisses_agrees {content : Bytes → Option Bytes} {cache : LruPrefixCache}
    (agrees : cache.Agrees content) (result : List (Option Bytes))
    {misses : List ((Bytes × Nat) × Option Bytes)} (read : ∀ miss ∈ misses, miss.2 = content miss.1.1) :
    (fillMisses cache result misses).1.Agrees content := by
  induction misses generalizing cache result with
  | nil => exact agrees
  | cons miss rest ih =>
      rw [fillMisses_cons]
      apply ih (agrees.insert (read miss List.mem_cons_self))
      exact fun other mem => read other (List.mem_cons_of_mem miss mem)

theorem fillMisses_snd (cache : LruPrefixCache) (result : List (Option Bytes))
    (misses : List ((Bytes × Nat) × Option Bytes)) :
    (fillMisses cache result misses).2 = misses.foldl (fun result miss => result.set miss.1.2 miss.2) result := by
  induction misses generalizing cache result with
  | nil => rfl
  | cons miss rest ih => rw [fillMisses_cons, ih, List.foldl_cons]

theorem foldl_set_eq_map {α β : Type} (f : α → β) (keys : List α) (result : List β)
    (misses : List ((α × Nat) × β)) (length : result.length = keys.length)
    (placed : ∀ miss ∈ misses, keys[miss.1.2]? = some miss.1.1 ∧ miss.2 = f miss.1.1)
    (covered : ∀ i (below : i < keys.length),
      result[i]? = some (f keys[i]) ∨ (keys[i], i) ∈ misses.map (·.1)) :
    misses.foldl (fun result miss => result.set miss.1.2 miss.2) result = keys.map f := by
  induction misses generalizing result with
  | nil =>
      rw [List.foldl_nil]
      apply List.ext_getElem?
      intro i
      by_cases below : i < keys.length
      · rcases covered i below with right | missed
        · simp [right, below]
        · simp at missed
      · rw [List.getElem?_eq_none (by omega), List.getElem?_eq_none (by simp; omega)]
  | cons miss rest ih =>
      rw [List.foldl_cons]
      apply ih _ (by simp [length]) (fun other mem => placed other (List.mem_cons_of_mem miss mem))
      intro i below
      obtain ⟨position, value⟩ := placed miss List.mem_cons_self
      by_cases same : miss.1.2 = i
      · -- The miss just set is the one at this position.
        subst same
        left
        have key : keys[miss.1.2] = miss.1.1 := by simpa [below] using position
        rw [List.getElem?_set_self (by omega), value, key]
      · rw [List.getElem?_set_ne same]
        rcases covered i below with right | missed
        · exact Or.inl right
        · rw [List.map_cons, List.mem_cons] at missed
          rcases missed with first | later
          · exact absurd (congrArg Prod.snd first).symm same
          · exact Or.inr later

variable {contents}

theorem readKeyBytes_eq (lawful : Lawful inner contents) {self : LruCachingKeyValueClient S}
    (coherent : self.Coherent contents) (key : Bytes) :
    ∃ next, readKeyBytes inner self key = .ok (next, contents self.client key) ∧
      next.client = self.client ∧ next.Coherent contents := by
  rcases cachedEq : self.lruReadKeys with _ | cache
  · refine ⟨self, ?_, rfl, coherent⟩
    simp only [readKeyBytes, cachedEq, lawful.readKeyBytes]
    rfl
  · obtain ⟨wellFormed, agrees⟩ := coherent cache cachedEq
    rcases hit : cache.query key with _ | value
    · -- A miss reads the inner store and caches what it read.
      refine ⟨{ self with lruReadKeys := some (cache.insert key (contents self.client key)) },
        ?_, rfl, ?_⟩
      · simp only [readKeyBytes, cachedEq, hit, lawful.readKeyBytes]
        rfl
      · intro updated updatedEq
        obtain rfl := Option.some.inj updatedEq
        exact ⟨wellFormed.insert _ _, agrees.insert rfl⟩
    · refine ⟨self, ?_, rfl, coherent⟩
      simp only [readKeyBytes, cachedEq, hit, agrees key value hit]
      rfl

/-- A multi-key read answers the contents at every key: the hits from the cache, which
agrees with the contents, and the misses from the inner store, which are cached. -/
theorem readMultiKeyBytes_eq (lawful : Lawful inner contents) {self : LruCachingKeyValueClient S}
    (coherent : self.Coherent contents) (keys : List Bytes) :
    ∃ next, readMultiKeyBytes inner self keys = .ok (next, keys.map (contents self.client)) ∧
      next.client = self.client ∧ next.Coherent contents := by
  rcases cachedEq : self.lruReadKeys with _ | cache
  · refine ⟨self, ?_, rfl, coherent⟩
    simp only [readMultiKeyBytes, cachedEq, lawful.readMultiKeyBytes]
    rfl
  · obtain ⟨wellFormed, agrees⟩ := coherent cache cachedEq
    let misses := keys.zipIdx.filter fun entry => (cache.query entry.1).isNone
    let read := misses.map fun miss => (miss, contents self.client miss.1)
    let filled := fillMisses cache (keys.map fun key => (cache.query key).getD none) read
    have readValues : ∀ miss ∈ read, miss.2 = contents self.client miss.1.1 := by
      intro miss mem
      obtain ⟨entry, -, rfl⟩ := List.mem_map.mp mem
      rfl
    have answered : readMultiKeyBytes inner self keys =
        .ok ({ self with lruReadKeys := some filled.1 }, filled.2) := by
      -- The inner store's values, zipped with the misses they answer.
      have zipped : ∀ entries : List (Bytes × Nat),
          entries.zip ((entries.map (·.1)).map (contents self.client)) =
            entries.map fun miss => (miss, contents self.client miss.1) := by
        intro entries
        rw [List.map_map, List.zip_map_right, List.zip_eq_zipWith, List.zipWith_self, List.map_map]
        rfl
      simp only [readMultiKeyBytes, cachedEq, lawful.readMultiKeyBytes]
      simp only [bind, Except.bind, pure, Except.pure, zipped]
      rfl
    have values : filled.2 = keys.map (contents self.client) := by
      rw [fillMisses_snd]
      apply foldl_set_eq_map _ _ _ _ (by simp)
      · -- Each miss sits at its position among the keys.
        intro miss mem
        obtain ⟨entry, missed, rfl⟩ := List.mem_map.mp mem
        exact ⟨List.mem_zipIdx_iff_getElem?.mp (List.mem_filter.mp missed).1, rfl⟩
      · intro i below
        rcases hit : cache.query keys[i] with _ | value
        · right
          have listed : (keys[i], i) ∈ misses :=
            List.mem_filter.mpr ⟨List.mem_zipIdx_iff_getElem?.mpr (by simp), by simp [hit]⟩
          simpa [read, List.map_map] using listed
        · left
          rw [List.getElem?_map, List.getElem?_eq_getElem below, Option.map_some, hit,
            agrees _ value hit]
          rfl
    refine ⟨{ self with lruReadKeys := some filled.1 }, by rw [answered, values], rfl, ?_⟩
    intro updated updatedEq
    obtain rfl := Option.some.inj updatedEq
    exact ⟨fillMisses_wellFormed wellFormed _ _, fillMisses_agrees agrees _ readValues⟩

theorem writeBatch_coherent (lawful : Lawful inner contents) {self : LruCachingKeyValueClient S}
    (coherent : self.Coherent contents) {batch : Batch} {next : S}
    (accepted : inner.writeBatch self.client batch = .ok next) :
    writeBatch inner self batch = (⟨next, self.lruReadKeys.map (·.writeBatch batch)⟩, .ok ()) ∧
      (⟨next, self.lruReadKeys.map (·.writeBatch batch)⟩ : LruCachingKeyValueClient S).Coherent
        contents := by
  refine ⟨by rw [writeBatch_eq, accepted], ?_⟩
  intro cache cached
  obtain ⟨before, beforeEq, rfl⟩ := Option.map_eq_some_iff.mp cached
  obtain ⟨wellFormed, agrees⟩ := coherent before beforeEq
  refine ⟨wellFormed.writeBatch batch, ?_⟩
  rw [lawful.writeBatch _ _ _ accepted]
  exact agrees.writeBatch batch

/-- While the cache is coherent and the inner store accepts every write, the cached client
and the inner store answer every call alike. -/
theorem handle_simulates (lawful : Lawful inner contents)
    (accepts : ∀ state batch, ∃ next, inner.writeBatch state batch = .ok next) :
    Handler.Simulates (fun self state => self.client = state ∧ self.Coherent contents)
      (handle inner) inner.handle := by
  rintro self state request ⟨rfl, coherent⟩
  cases request with
  | readKeyBytes key =>
      obtain ⟨next, read, same, nextCoherent⟩ := readKeyBytes_eq lawful coherent key
      simp only [handle, KeyValueStoreClient.handle, read, lawful.readKeyBytes]
      exact ⟨⟨same, nextCoherent⟩, rfl⟩
  | readMultiKeyBytes keys =>
      obtain ⟨next, read, same, nextCoherent⟩ := readMultiKeyBytes_eq lawful coherent keys
      simp only [handle, KeyValueStoreClient.handle, read, lawful.readMultiKeyBytes]
      exact ⟨⟨same, nextCoherent⟩, rfl⟩
  | findKeysByPrefix keyPrefix => exact ⟨⟨rfl, coherent⟩, rfl⟩
  | findKeyValuesByPrefix keyPrefix => exact ⟨⟨rfl, coherent⟩, rfl⟩
  | writeBatch batch =>
      obtain ⟨next, accepted⟩ := accepts self.client batch
      obtain ⟨written, nextCoherent⟩ := writeBatch_coherent lawful coherent accepted
      have answered : handle inner self (.writeBatch batch) =
          (⟨next, self.lruReadKeys.map (·.writeBatch batch)⟩, .ok .written) := by
        simp only [handle, written]
        rfl
      have stored : inner.handle self.client (.writeBatch batch) = (next, .ok .written) := by
        simp only [KeyValueStoreClient.handle, accepted]
      rw [answered, stored]
      exact ⟨⟨rfl, nextCoherent⟩, rfl⟩

/-- Over any calls, a coherent cached client answers as its inner store and leaves it as
the inner store alone would, when the inner store accepts every write. -/
theorem run_eq_inner (lawful : Lawful inner contents)
    (accepts : ∀ state batch, ∃ next, inner.writeBatch state batch = .ok next)
    {self : LruCachingKeyValueClient S} (coherent : self.Coherent contents)
    (requests : List Request) :
    (Handler.run (handle inner) self requests).2 = (Handler.run inner.handle self.client requests).2 ∧
      (Handler.run (handle inner) self requests).1.client =
        (Handler.run inner.handle self.client requests).1 := by
  have ran := (handle_simulates lawful accepts).run ⟨rfl, coherent⟩ requests
  exact ⟨ran.2, ran.1.1⟩

theorem lawful_memoryClient (E : Type) : Lawful (memoryClient E) (fun map => map.get) where
  readKeyBytes _ _ := rfl
  readMultiKeyBytes _ _ := rfl
  writeBatch map batch next written := by
    obtain rfl := Except.ok.inj written
    exact writeBatch_get map batch

/-- Over the memory store, which accepts every write, the cached client answers every run
of calls as the memory store does. -/
theorem run_memoryClient (map : MemoryStoreMap) (maxSize : Nat) (requests : List Request) :
    (Handler.run (handle (memoryClient E)) (new map maxSize) requests).2 =
      (Handler.run (memoryClient E).handle map requests).2 := by
  have ran := run_eq_inner (lawful_memoryClient E) (fun _ _ => ⟨_, rfl⟩)
    (coherent_new _ map maxSize) requests
  rw [client_new] at ran
  exact ran.1

end Coherence

/-- A batch that the inner store rejects is still in the cache: the cache takes the batch
before the inner store answers, and a read of the rejected key then answers the rejected
value from the cache, with the inner store as it was. -/
theorem readKeyBytes_after_rejected_writeBatch {self : LruCachingKeyValueClient S}
    {cache : LruPrefixCache} (cached : self.lruReadKeys = some cache)
    (wellFormed : cache.WellFormed) (positive : 0 < cache.maxCacheSize) {key value : Bytes}
    {error : E} (rejected : inner.writeBatch self.client ⟨[.put key value]⟩ = .error error) :
    (writeBatch inner self ⟨[.put key value]⟩).2 = .error error ∧
      (writeBatch inner self ⟨[.put key value]⟩).1.client = self.client ∧
      readKeyBytes inner (writeBatch inner self ⟨[.put key value]⟩).1 key =
        .ok ((writeBatch inner self ⟨[.put key value]⟩).1, some value) := by
  have written : writeBatch inner self ⟨[.put key value]⟩ =
      (⟨self.client, some (cache.insert key (some value))⟩, .error error) := by
    rw [writeBatch_eq, rejected, cached]
    rfl
  have hit := LruPrefixCache.query_insert_self wellFormed positive key (some value)
  rw [written]
  refine ⟨rfl, rfl, ?_⟩
  simp only [readKeyBytes, hit]
  rfl

/-- Over the memory store that rejects values longer than 100 bytes, a rejected value of
101 bytes is read back from a cache of 10 entries, while the store holds nothing. -/
theorem readKeyBytes_after_rejected_oversized_value :
    (testMemoryClientInternal 100).readKeyBytes (new OrdMap.empty 10).client [0] = .ok none ∧
      readKeyBytes (testMemoryClientInternal 100)
        (writeBatch (testMemoryClientInternal 100) (new OrdMap.empty 10)
          ⟨[.put [0] (List.replicate 101 0)]⟩).1 [0] =
        .ok ((writeBatch (testMemoryClientInternal 100) (new OrdMap.empty 10)
          ⟨[.put [0] (List.replicate 101 0)]⟩).1, some (List.replicate 101 0)) :=
  ⟨rfl, (readKeyBytes_after_rejected_writeBatch (testMemoryClientInternal 100) rfl
    (LruPrefixCache.wellFormed_new 10) (by decide) rfl).2.2⟩

end LruCachingKeyValueClient

end Linera.Views
