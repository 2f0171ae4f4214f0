import Linera.Views.Lowering

set_option autoImplicit false

/-! The write paths of two storage backends (`rocks_db.rs`, `scylla_db.rs`).

RocksDB cannot delete a range without an upper end, so `write_batch` turns a prefix
deletion into `delete_range [prefix, upper)` and, for a prefix of `0xFF` bytes only,
appends deletions of the keys stored under it before the batch. Those deletions run
after every other operation of the batch, which is not the order of the batch: a key
put after such a prefix deletion is deleted again, and a key put before it survives.

ScyllaDB writes a logged batch whose statements share one timestamp, where a deleted
cell wins over a written one. It first lowers the batch with `simplify` and removes
every prefix deletion that covers an inserted key, and then its result is the memory
store's. -/

namespace Linera.Views

/-- An operation of a RocksDB `WriteBatch`. -/
inductive WriteBatchOperation where
  | put (key value : Bytes)
  | delete (key : Bytes)
  | deleteRange (low high : Bytes)
  deriving DecidableEq, Repr

namespace RocksDbClientInternal

/-- `find_keys_by_prefix`: seek to the prefix, then read keys as long as they start
with it. -/
def findKeysByPrefix (map : MemoryStoreMap) (keyPrefix : Bytes) : List Bytes :=
  ((map.entries.dropWhile (fun entry => decide (entry.1 < keyPrefix))).takeWhile
      (fun entry => keyPrefix.isPrefixOf entry.1)).map
    (fun entry => entry.1.drop keyPrefix.length)

/-- The keys that `write_batch` deletes one by one for the prefix deletions without an
upper bound, read from the store before the batch. -/
def unboundedPrefixKeys (map : MemoryStoreMap) (operations : List WriteOperation) :
    List Bytes :=
  operations.flatMap fun operation =>
    match operation with
    | .deletePrefix keyPrefix =>
        if getUpperBound keyPrefix = .unbounded then
          (findKeysByPrefix map keyPrefix).map (keyPrefix ++ ·)
        else []
    | _ => []

/-- The `WriteBatch` operations that one operation of the batch becomes. -/
def innerOperations : WriteOperation → List WriteBatchOperation
  | .delete key => [.delete key]
  | .put key value => [.put key value]
  | .deletePrefix keyPrefix =>
      match getUpperBound keyPrefix with
      | .excluded upperBound => [.deleteRange keyPrefix upperBound]
      | _ => []

/-- One operation of a `WriteBatch`; `delete_range` removes the keys of `[low, high)`. -/
def applyInnerOperation (map : MemoryStoreMap) : WriteBatchOperation → MemoryStoreMap
  | .put key value => map.insert key value
  | .delete key => map.erase key
  | .deleteRange low high =>
      map.eraseAll ((map.range (.included low) (.excluded high)).map (·.1))

def writeBatch (map : MemoryStoreMap) (batch : Batch) : MemoryStoreMap :=
  let operations := batch.operations ++ (unboundedPrefixKeys map batch.operations).map .delete
  (operations.flatMap innerOperations).foldl applyInnerOperation map

end RocksDbClientInternal

/-- A prefix deletion with an upper bound is the `delete_range` that RocksDB receives. -/
theorem applyInnerOperations_get (map : MemoryStoreMap) (operation : WriteOperation)
    (bounded : ∀ keyPrefix, operation = .deletePrefix keyPrefix →
      getUpperBoundOption keyPrefix ≠ none) :
    ((RocksDbClientInternal.innerOperations operation).foldl
        RocksDbClientInternal.applyInnerOperation map).get =
      operation.apply map.get := by
  cases operation with
  | delete key => exact applyOperation_get map (.delete key)
  | put key value => exact applyOperation_get map (.put key value)
  | deletePrefix keyPrefix =>
      cases found : getUpperBoundOption keyPrefix with
      | none => exact absurd found (bounded keyPrefix rfl)
      | some upperBound =>
          have interval : getInterval keyPrefix = (.included keyPrefix, .excluded upperBound) := by
            simp [getInterval, getUpperBound, found]
          have scan : map.range (.included keyPrefix) (.excluded upperBound) =
              scanMap map keyPrefix := by
            rw [scanMap, interval]
          simp only [RocksDbClientInternal.innerOperations, getUpperBound, found, List.foldl_cons,
            List.foldl_nil, RocksDbClientInternal.applyInnerOperation, scan]
          exact applyOperation_get map (.deletePrefix keyPrefix)

theorem foldl_innerOperations_get (map : MemoryStoreMap) (operations : List WriteOperation)
    (bounded : ∀ keyPrefix, .deletePrefix keyPrefix ∈ operations →
      getUpperBoundOption keyPrefix ≠ none) :
    ((operations.flatMap RocksDbClientInternal.innerOperations).foldl
        RocksDbClientInternal.applyInnerOperation map).get =
      applyOperations map.get operations := by
  induction operations generalizing map with
  | nil => rfl
  | cons operation rest ih =>
      rw [List.flatMap_cons, List.foldl_append, ih _ (fun keyPrefix mem =>
          bounded keyPrefix (List.mem_cons_of_mem _ mem)),
        applyInnerOperations_get map operation (fun keyPrefix equal =>
          bounded keyPrefix (equal ▸ List.mem_cons_self)),
        applyOperations_cons]

/-- Without a prefix deletion of `0xFF` bytes only, RocksDB applies the batch in order,
as the memory store does. -/
theorem rocksDb_writeBatch_of_bounded (map : MemoryStoreMap) (batch : Batch)
    (bounded : ∀ keyPrefix, .deletePrefix keyPrefix ∈ batch.operations →
      getUpperBoundOption keyPrefix ≠ none) :
    RocksDbClientInternal.writeBatch map batch = MemoryClient.writeBatch map batch := by
  have no_keys : RocksDbClientInternal.unboundedPrefixKeys map batch.operations = [] := by
    simp only [RocksDbClientInternal.unboundedPrefixKeys, List.flatMap_eq_nil_iff]
    intro operation mem
    cases operation with
    | deletePrefix keyPrefix =>
        cases found : getUpperBoundOption keyPrefix with
        | none => exact absurd found (bounded keyPrefix mem)
        | some upperBound => simp [getUpperBound, found]
    | delete key => rfl
    | put key value => rfl
  apply OrdMap.ext_get
  intro key
  rw [writeBatch_get, RocksDbClientInternal.writeBatch, no_keys, List.map_nil, List.append_nil,
    foldl_innerOperations_get map batch.operations bounded]

/-- A prefix deletion that has an upper bound, then a put under the prefix. -/
theorem rocksDb_writeBatch_of_bounded_at_zero :
    let map : MemoryStoreMap := OrdMap.empty.insert [0, 5] [1]
    let batch : Batch := ⟨[.deletePrefix [0], .put [0, 1] [2]]⟩
    (∀ keyPrefix, .deletePrefix keyPrefix ∈ batch.operations →
        getUpperBoundOption keyPrefix ≠ none) ∧
      RocksDbClientInternal.writeBatch map batch = MemoryClient.writeBatch map batch := by
  intro map batch
  have bounded : ∀ keyPrefix, .deletePrefix keyPrefix ∈ batch.operations →
      getUpperBoundOption keyPrefix ≠ none := by
    intro keyPrefix mem
    simp only [batch, List.mem_cons, WriteOperation.deletePrefix.injEq, reduceCtorEq,
      List.not_mem_nil, or_false] at mem
    subst mem
    decide
  exact ⟨bounded, rocksDb_writeBatch_of_bounded map batch bounded⟩

/-- A key stored before the batch under a prefix of `0xFF` bytes only, deleted by prefix
and then put again, is absent after RocksDB writes the batch and present after the memory
store does. -/
theorem rocksDb_writeBatch_deletes_put_after_unbounded_prefix :
    (RocksDbClientInternal.writeBatch (OrdMap.empty.insert [255] [0])
        ⟨[.deletePrefix [255], .put [255] [1]]⟩).get [255] = none ∧
      (MemoryClient.writeBatch (OrdMap.empty.insert [255] [0])
        ⟨[.deletePrefix [255], .put [255] [1]]⟩).get [255] = some [1] := by
  decide

/-- A statement of the logged batch of `write_batch_internal`. -/
inductive ScyllaStatement where
  /-- `DELETE ... WHERE dummy = 0 AND k >= ?` -/
  | deleteFrom (low : Bytes)
  /-- `DELETE ... WHERE dummy = 0 AND k >= ? AND k < ?` -/
  | deleteRange (low high : Bytes)
  /-- `DELETE ... WHERE dummy = 0 AND k = ?` -/
  | deleteKey (key : Bytes)
  /-- `INSERT INTO ... (dummy, k, v) VALUES (0, ?, ?)` -/
  | insert (key value : Bytes)
  deriving DecidableEq, Repr

namespace ScyllaStatement

/-- The statement writes a tombstone for the key. -/
def deletes : ScyllaStatement → Bytes → Bool
  | deleteFrom low, key => decide (low ≤ key)
  | deleteRange low high, key => decide (low ≤ key) && decide (key < high)
  | deleteKey deleted, key => decide (deleted = key)
  | insert _ _, _ => false

/-- The value the statement writes for the key. -/
def writes : ScyllaStatement → Bytes → Option Bytes
  | insert inserted value, key => if inserted = key then some value else none
  | _, _ => none

end ScyllaStatement

/-- A logged batch on the table contents: every statement has the same timestamp, so a
tombstone wins over a written cell, and of two written cells the greater value wins. -/
def applyLoggedBatch (contents : Bytes → Option Bytes) (statements : List ScyllaStatement) :
    Bytes → Option Bytes := fun key =>
  if statements.any (·.deletes key) then none
  else
    match (statements.filterMap (·.writes key)).max? with
    | some value => some value
    | none => contents key

namespace ScyllaDbClientInternal

def findKeysByPrefixInternal (map : MemoryStoreMap) (keyPrefix : Bytes) : List Bytes :=
  let rows :=
    match getUpperBoundOption keyPrefix with
    | none => map.range (.included keyPrefix) .unbounded
    | some upperBound => map.range (.included keyPrefix) (.excluded upperBound)
  rows.map (fun row => row.1.drop keyPrefix.length)

def expandDeletePrefix {ε : Type} (map : MemoryStoreMap) (keyPrefix : Bytes) :
    Except ε (List Bytes) :=
  .ok (findKeysByPrefixInternal map keyPrefix)

/-- The statement for a prefix deletion. -/
def prefixStatement (keyPrefix : Bytes) : ScyllaStatement :=
  match getUpperBoundOption keyPrefix with
  | none => .deleteFrom keyPrefix
  | some upperBound => .deleteRange keyPrefix upperBound

/-- The statements of the logged batch, in the order `write_batch_internal` appends them. -/
def batchStatements (batch : UnorderedBatch) : List ScyllaStatement :=
  batch.keyPrefixDeletions.map prefixStatement ++
    batch.simpleUnorderedBatch.deletions.map .deleteKey ++
    batch.simpleUnorderedBatch.insertions.map (fun entry => .insert entry.1 entry.2)

/-- `ScyllaDbClientInternal::write_batch_internal`: the table contents after the batch. -/
def writeBatchInternal {ε : Type} (map : MemoryStoreMap) (batch : Batch) :
    Except ε (Bytes → Option Bytes) := do
  let unorderedBatch ← batch.simplify.expandCollidingPrefixDeletions (expandDeletePrefix map)
  pure (applyLoggedBatch map.get (batchStatements unorderedBatch))

end ScyllaDbClientInternal

theorem scyllaDb_expandDeletePrefix_eq {ε : Type} (map : MemoryStoreMap) :
    (ScyllaDbClientInternal.expandDeletePrefix map : Bytes → Except ε (List Bytes)) =
      MemoryClient.expandDeletePrefix map := by
  funext keyPrefix
  simp only [ScyllaDbClientInternal.expandDeletePrefix, MemoryClient.expandDeletePrefix,
    ScyllaDbClientInternal.findKeysByPrefixInternal, MemoryClient.findKeysByPrefix, scanMap,
    getInterval, getUpperBound]
  cases getUpperBoundOption keyPrefix <;> rfl

theorem deletes_prefixStatement (keyPrefix key : Bytes) :
    (ScyllaDbClientInternal.prefixStatement keyPrefix).deletes key = true ↔ keyPrefix <+: key := by
  rw [← inRange_getInterval_iff]
  simp only [ScyllaDbClientInternal.prefixStatement, inRange, getInterval, getUpperBound]
  cases getUpperBoundOption keyPrefix <;>
    simp [ScyllaStatement.deletes, Bound.admitsFrom, Bound.admitsUpTo]

theorem any_deletes_batchStatements (batch : UnorderedBatch) (key : Bytes) :
    (ScyllaDbClientInternal.batchStatements batch).any (·.deletes key) = true ↔
      Covered batch.keyPrefixDeletions key ∨ key ∈ batch.simpleUnorderedBatch.deletions := by
  simp only [ScyllaDbClientInternal.batchStatements, List.any_append, List.any_map,
    Bool.or_eq_true, List.any_eq_true, Function.comp_apply, deletes_prefixStatement]
  simp [ScyllaStatement.deletes, Covered]

theorem filterMap_writes_batchStatements (batch : UnorderedBatch) (key : Bytes) :
    (ScyllaDbClientInternal.batchStatements batch).filterMap (·.writes key) =
      batch.simpleUnorderedBatch.insertions.filterMap
        (fun entry => if entry.1 = key then some entry.2 else none) := by
  simp only [ScyllaDbClientInternal.batchStatements, List.filterMap_append, List.filterMap_map]
  have none_from_prefixes : batch.keyPrefixDeletions.filterMap
      ((·.writes key) ∘ ScyllaDbClientInternal.prefixStatement) = [] := by
    rw [List.filterMap_eq_nil_iff]
    intro keyPrefix _
    simp only [Function.comp, ScyllaDbClientInternal.prefixStatement]
    cases getUpperBoundOption keyPrefix <;> rfl
  have no_deletion : batch.simpleUnorderedBatch.deletions.filterMap
      ((·.writes key) ∘ ScyllaStatement.deleteKey) = [] :=
    List.filterMap_eq_nil_iff.mpr (fun _ _ => rfl)
  rw [none_from_prefixes, no_deletion, List.nil_append, List.nil_append]
  rfl

theorem filterMap_value_of_mem (insertions : List (Bytes × Bytes))
    (nodup : (insertions.map (·.1)).Nodup) {key value : Bytes} (mem : (key, value) ∈ insertions) :
    insertions.filterMap (fun entry => if entry.1 = key then some entry.2 else none) = [value] := by
  induction insertions with
  | nil => exact absurd mem List.not_mem_nil
  | cons entry rest ih =>
      simp only [List.map_cons, List.nodup_cons] at nodup
      rcases List.mem_cons.mp mem with rfl | later
      · have none_later : rest.filterMap
            (fun entry => if entry.1 = key then some entry.2 else none) = [] := by
          rw [List.filterMap_eq_nil_iff]
          intro other other_mem
          have apart : other.1 ≠ key := fun same =>
            nodup.1 (List.mem_map.mpr ⟨other, other_mem, same⟩)
          simp [apart]
        simp [none_later]
      · have apart : entry.1 ≠ key := fun same =>
          nodup.1 (same ▸ List.mem_map.mpr ⟨(key, value), later, rfl⟩)
        simp [apart, ih nodup.2 later]

theorem filterMap_value_of_not_mem (insertions : List (Bytes × Bytes)) {key : Bytes}
    (absent : key ∉ insertions.map (·.1)) :
    insertions.filterMap (fun entry => if entry.1 = key then some entry.2 else none) = [] := by
  rw [List.filterMap_eq_nil_iff]
  intro entry mem
  have apart : entry.1 ≠ key := fun same => absent (List.mem_map.mpr ⟨entry, mem, same⟩)
  simp [apart]

/-- On a lowering whose prefix deletions cover no inserted key, the logged batch means
what the lowering does when applied in order. -/
theorem applyLoggedBatch_batchStatements (contents : Bytes → Option Bytes)
    (lowered : UnorderedBatch)
    (disjoint : ∀ key ∈ lowered.simpleUnorderedBatch.deletions,
      key ∉ lowered.simpleUnorderedBatch.insertions.map (·.1))
    (nodup : (lowered.simpleUnorderedBatch.insertions.map (·.1)).Nodup)
    (apart : ∀ keyPrefix ∈ lowered.keyPrefixDeletions,
      ∀ key ∈ lowered.simpleUnorderedBatch.insertions.map (·.1), ¬ keyPrefix <+: key) :
    applyLoggedBatch contents (ScyllaDbClientInternal.batchStatements lowered) =
      applyOperations contents (lowered.keyPrefixDeletions.map .deletePrefix ++
        pointOperations lowered.simpleUnorderedBatch) := by
  funext key
  by_cases inserted : key ∈ lowered.simpleUnorderedBatch.insertions.map (·.1)
  · obtain ⟨⟨key, value⟩, mem, rfl⟩ := List.mem_map.mp inserted
    -- No tombstone reaches an inserted key, so its written cell is live.
    have live : ¬ (ScyllaDbClientInternal.batchStatements lowered).any (·.deletes key) = true := by
      rw [any_deletes_batchStatements]
      rintro (⟨keyPrefix, covering, inside⟩ | deleted)
      · exact apart keyPrefix covering key inserted inside
      · exact disjoint key deleted inserted
    rw [applyOperations_lowered_of_inserted _ _ nodup mem, applyLoggedBatch, if_neg live,
      filterMap_writes_batchStatements, filterMap_value_of_mem _ nodup mem]
    rfl
  · rw [applyOperations_lowered_of_not_inserted _ _ inserted, applyLoggedBatch,
      filterMap_writes_batchStatements, filterMap_value_of_not_mem _ inserted]
    by_cases deleted : key ∈ lowered.simpleUnorderedBatch.deletions
    · have dead : (ScyllaDbClientInternal.batchStatements lowered).any (·.deletes key) = true :=
        (any_deletes_batchStatements lowered key).mpr (Or.inr deleted)
      simp [dead, deleted]
    · by_cases covered : Covered lowered.keyPrefixDeletions key
      · have dead : (ScyllaDbClientInternal.batchStatements lowered).any (·.deletes key) = true :=
          (any_deletes_batchStatements lowered key).mpr (Or.inl covered)
        simp [dead, covered]
      · have live : ¬ (ScyllaDbClientInternal.batchStatements lowered).any (·.deletes key) = true :=
          fun dead => ((any_deletes_batchStatements lowered key).mp dead).elim covered deleted
        simp [live, deleted, covered]

/-- ScyllaDB's `write_batch_internal` leaves the table as the memory store's
`write_batch` leaves the map. -/
theorem scyllaDb_writeBatchInternal_eq {ε : Type} (map : MemoryStoreMap) (batch : Batch) :
    (ScyllaDbClientInternal.writeBatchInternal map batch : Except ε (Bytes → Option Bytes)) =
      .ok (MemoryClient.writeBatch map batch).get := by
  obtain ⟨reduced, computed, lowering, apart⟩ :=
    @expandCollidingPrefixDeletions_lowering ε map batch _ (simplify_lowering map batch)
  simp only [ScyllaDbClientInternal.writeBatchInternal, scyllaDb_expandDeletePrefix_eq, computed]
  rw [writeBatch_get, ← lowering.applyOperations_eq,
    ← applyLoggedBatch_batchStatements _ _ lowering.disjoint lowering.nodup apart]
  rfl

end Linera.Views
