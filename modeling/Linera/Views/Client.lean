import Linera.Views.Memory

set_option autoImplicit false

/-! The interface of a key-value store (`KeyValueStoreClient` in
`linera-views/src/common.rs`) as functions of the store's contents, and the memory
stores that implement it: `MemoryClient` (`memory.rs`), and `TestMemoryClientInternal`
(`value_splitting.rs`), a memory store whose `write_batch` rejects a batch with a value
longer than its `MAX_VALUE_SIZE`.

The streams that `find_keys_by_prefix` and `find_key_values_by_prefix` return are
lists. `clear_journal` and `max_stream_queries` do nothing for these stores and are left
out. -/

namespace Linera.Views

inductive DatabaseConsistencyError where
  | tooShortKey
  | missingSegment
  | noCountAvailable
  deriving DecidableEq, Repr

/-- `MemoryContextError`, without the serialization errors, which the modelled encodings
of `u32` do not raise. -/
inductive MemoryContextError where
  | tooLargeValue
  | databaseConsistencyError (error : DatabaseConsistencyError)
  deriving DecidableEq, Repr

/-- `KeyValueStoreClient`, over the contents `S` of a store, with errors `E`. -/
structure KeyValueStoreClient (S E : Type) where
  readKeyBytes : S → Bytes → Except E (Option Bytes)
  readMultiKeyBytes : S → List Bytes → Except E (List (Option Bytes))
  findKeysByPrefix : S → Bytes → Except E (List Bytes)
  findKeyValuesByPrefix : S → Bytes → Except E (List (Bytes × Bytes))
  writeBatch : S → Batch → Except E S

/-- `Batch::check_value_size`: no value of the batch is longer than the bound. -/
def Batch.checkValueSize (batch : Batch) (maxValueSize : Nat) : Bool :=
  batch.operations.all fun operation =>
    match operation with
    | .put _ value => decide (value.length ≤ maxValueSize)
    | _ => true

/-- `MemoryClient`, which never fails. -/
def memoryClient (E : Type) : KeyValueStoreClient MemoryStoreMap E where
  readKeyBytes map key := .ok (MemoryClient.readKeyBytes map key)
  readMultiKeyBytes map keys := .ok (MemoryClient.readMultiKeyBytes map keys)
  findKeysByPrefix map keyPrefix := .ok (MemoryClient.findKeysByPrefix map keyPrefix)
  findKeyValuesByPrefix map keyPrefix := .ok (MemoryClient.findKeyValuesByPrefix map keyPrefix)
  writeBatch map batch := .ok (MemoryClient.writeBatch map batch)

/-- `TestMemoryClientInternal`: a memory store whose `write_batch` rejects values longer
than `maxValueSize`, its `MAX_VALUE_SIZE` (100 in the source). -/
def testMemoryClientInternal (maxValueSize : Nat) :
    KeyValueStoreClient MemoryStoreMap MemoryContextError :=
  { memoryClient MemoryContextError with
    writeBatch := fun map batch =>
      if !batch.checkValueSize maxValueSize then .error .tooLargeValue
      else .ok (MemoryClient.writeBatch map batch) }

theorem checkValueSize_iff (batch : Batch) (maxValueSize : Nat) :
    batch.checkValueSize maxValueSize = true ↔
      ∀ key value, .put key value ∈ batch.operations → value.length ≤ maxValueSize := by
  unfold Batch.checkValueSize
  rw [List.all_eq_true]
  constructor
  · intro checked key value mem
    simpa using checked _ mem
  · intro bounded operation mem
    cases operation with
    | put key value => simpa using bounded key value mem
    | delete => rfl
    | deletePrefix => rfl

theorem testMemoryClientInternal_writeBatch_eq_ok (maxValueSize : Nat) (map : MemoryStoreMap)
    (batch : Batch) (next : MemoryStoreMap) :
    (testMemoryClientInternal maxValueSize).writeBatch map batch = .ok next ↔
      batch.checkValueSize maxValueSize = true ∧ next = MemoryClient.writeBatch map batch := by
  unfold testMemoryClientInternal
  by_cases fits : batch.checkValueSize maxValueSize = true
  · simp only [fits, Bool.not_true, Bool.false_eq_true, if_false, Except.ok.injEq, true_and]
    exact eq_comm
  · simp [fits]

/-- The calls of `KeyValueStoreClient` that a store answers one after the other. -/
inductive Request where
  | readKeyBytes (key : Bytes)
  | readMultiKeyBytes (keys : List Bytes)
  | findKeysByPrefix (keyPrefix : Bytes)
  | findKeyValuesByPrefix (keyPrefix : Bytes)
  | writeBatch (batch : Batch)

/-- What the calls return. -/
inductive Response where
  | value (value : Option Bytes)
  | values (values : List (Option Bytes))
  | keys (keys : List Bytes)
  | keyValues (keyValues : List (Bytes × Bytes))
  | written
  deriving DecidableEq, Repr

/-- A store answering a call: reads leave the contents, and a write that fails leaves
them too. -/
def KeyValueStoreClient.handle {S E : Type} (client : KeyValueStoreClient S E) (state : S) :
    Request → S × Except E Response
  | .readKeyBytes key => (state, Response.value <$> client.readKeyBytes state key)
  | .readMultiKeyBytes keys => (state, Response.values <$> client.readMultiKeyBytes state keys)
  | .findKeysByPrefix keyPrefix => (state, Response.keys <$> client.findKeysByPrefix state keyPrefix)
  | .findKeyValuesByPrefix keyPrefix =>
      (state, Response.keyValues <$> client.findKeyValuesByPrefix state keyPrefix)
  | .writeBatch batch =>
      match client.writeBatch state batch with
      | .ok next => (next, .ok .written)
      | .error error => (state, .error error)

end Linera.Views
