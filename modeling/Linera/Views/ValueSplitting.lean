import Linera.Lib.Except
import Linera.Views.Client

set_option autoImplicit false

/-! The store without a size limit for values (`linera-views/src/value_splitting.rs`).

`ValueSplittingKeyValueStoreClient` wraps a store whose values are at most
`MAX_VALUE_SIZE` bytes long. A value is stored under its key followed by four bytes,
the big-endian `u32` index of the segment: segment 0 holds the number of segments as a
big-endian `u32` and the first `MAX_VALUE_SIZE - 4` bytes, segments 1, 2, ... hold the
rest in pieces of `MAX_VALUE_SIZE` bytes. A deletion deletes segment 0 only; a
prefix deletion is handed to the inner store as it is.

Calls fail with the inner store's errors, with the `DatabaseConsistencyError`s of the
wrapper, or with a panic of an `unwrap` in `read_multi_key_bytes`. -/

namespace Linera.Views

/-- How a call of the wrapper fails: with an error, or with a panic. -/
inductive Failure (E : Type) where
  | error (error : E)
  | panic
  deriving DecidableEq, Repr

namespace ValueSplittingKeyValueStoreClient

/-- `bcs::to_bytes` of a `u32`, reversed: the number modulo `2 ^ 32` in four bytes, the
most significant first. -/
def u32Bytes (n : Nat) : Bytes :=
  [Fin.ofNat 256 (n / 16777216), Fin.ofNat 256 (n / 65536), Fin.ofNat 256 (n / 256),
    Fin.ofNat 256 n]

/-- `bcs::from_bytes::<u32>` of four bytes, reversed: the bytes read most significant
first. -/
def u32OfBytes (bytes : Bytes) : Nat :=
  bytes.foldl (fun value byte => 256 * value + byte.val) 0

def readCountFromValue (value : Bytes) : Except DatabaseConsistencyError Nat :=
  if value.length < 4 then .error .noCountAvailable else .ok (u32OfBytes (value.take 4))

def getSegmentKey (key : Bytes) (index : Nat) : Bytes :=
  key ++ u32Bytes index

def readIndexFromKey (key : Bytes) : Except DatabaseConsistencyError Nat :=
  if key.length < 4 then .error .tooShortKey else .ok (u32OfBytes (key.drop (key.length - 4)))

def getInitialCountFirstChunk (count : Nat) (firstChunk : Bytes) : Bytes :=
  u32Bytes count ++ firstChunk

/-- `<[u8]>::chunks` with a positive size, by recursion on a bound of the number of
chunks. -/
def chunksAux (size : Nat) : Nat → Bytes → List Bytes
  | 0, _ => []
  | fuel + 1, bytes =>
      if bytes.isEmpty then [] else bytes.take size :: chunksAux size fuel (bytes.drop size)

/-- `<[u8]>::chunks`: pieces of `size` bytes, the last one possibly shorter. With a
positive size there are at most as many chunks as bytes. -/
def chunks (size : Nat) (bytes : Bytes) : List Bytes :=
  chunksAux size bytes.length bytes

@[simp] theorem length_u32Bytes (n : Nat) : (u32Bytes n).length = 4 := rfl

theorem u32Bytes_zero : u32Bytes 0 = [0, 0, 0, 0] := rfl

theorem u32OfBytes_u32Bytes (n : Nat) : u32OfBytes (u32Bytes n) = n % 2 ^ 32 := by
  simp only [u32OfBytes, u32Bytes, List.foldl_cons, List.foldl_nil, Fin.val_ofNat]
  omega

theorem u32Bytes_inj {n m : Nat} (small : n < 2 ^ 32) (smallOther : m < 2 ^ 32)
    (same : u32Bytes n = u32Bytes m) : n = m := by
  have decoded := congrArg u32OfBytes same
  rw [u32OfBytes_u32Bytes, u32OfBytes_u32Bytes, Nat.mod_eq_of_lt small,
    Nat.mod_eq_of_lt smallOther] at decoded
  exact decoded

theorem getSegmentKey_inj {key : Bytes} {n m : Nat} (small : n < 2 ^ 32) (smallOther : m < 2 ^ 32)
    (same : getSegmentKey key n = getSegmentKey key m) : n = m :=
  u32Bytes_inj small smallOther (List.append_cancel_left same)

theorem flatten_chunksAux {size : Nat} (positive : 0 < size) (fuel : Nat) (bytes : Bytes)
    (enough : bytes.length ≤ fuel) : (chunksAux size fuel bytes).flatten = bytes := by
  induction fuel generalizing bytes with
  | zero =>
      rw [List.eq_nil_of_length_eq_zero (show bytes.length = 0 by omega)]
      rfl
  | succ fuel ih =>
      by_cases empty : bytes = []
      · subst empty
        rfl
      · have rest : (bytes.drop size).length ≤ fuel := by
          have := List.length_pos_of_ne_nil empty
          simp only [List.length_drop]
          omega
        simp only [chunksAux, List.isEmpty_iff, empty, if_false, List.flatten_cons, ih _ rest,
          List.take_append_drop]

theorem flatten_chunks {size : Nat} (positive : 0 < size) (bytes : Bytes) :
    (chunks size bytes).flatten = bytes :=
  flatten_chunksAux positive _ bytes le_rfl

theorem length_le_of_mem_chunksAux {size fuel : Nat} {bytes chunk : Bytes}
    (mem : chunk ∈ chunksAux size fuel bytes) : chunk.length ≤ size := by
  induction fuel generalizing bytes with
  | zero => simp [chunksAux] at mem
  | succ fuel ih =>
      simp only [chunksAux] at mem
      split_ifs at mem
      · simp at mem
      · rcases List.mem_cons.mp mem with first | later
        · rw [first, List.length_take]
          omega
        · exact ih later

@[simp] theorem chunksAux_nil (size fuel : Nat) : chunksAux size fuel [] = [] := by
  cases fuel <;> rfl

theorem length_chunksAux_mul_lt {size : Nat} (positive : 0 < size) (fuel : Nat) (bytes : Bytes) :
    (chunksAux size fuel bytes).length * size < bytes.length + size := by
  induction fuel generalizing bytes with
  | zero =>
      simp only [chunksAux, List.length_nil, Nat.zero_mul]
      omega
  | succ fuel ih =>
      by_cases empty : bytes = []
      · subst empty
        simp only [chunksAux_nil, List.length_nil, Nat.zero_mul]
        omega
      · have nonempty := List.length_pos_of_ne_nil empty
        simp only [chunksAux, List.isEmpty_iff, empty, if_false, List.length_cons]
        rw [Nat.succ_mul]
        by_cases short : bytes.length ≤ size
        · -- The one chunk takes all the bytes.
          rw [List.drop_eq_nil_of_le short, chunksAux_nil, List.length_nil, Nat.zero_mul]
          omega
        · have rest := ih (bytes.drop size)
          rw [List.length_drop] at rest
          omega

section Client

variable {S E : Type} (inner : KeyValueStoreClient S E)
  (fromError : DatabaseConsistencyError → E)

def readKeyBytes (state : S) (key : Bytes) : Except (Failure E) (Option Bytes) := do
  let value ← (inner.readKeyBytes state (key ++ [0, 0, 0, 0])).mapError .error
  match value with
  | none => pure none
  | some value =>
      let count ← (readCountFromValue value).mapError (.error ∘ fromError)
      let bigValue := value.drop 4
      if count = 1 then pure (some bigValue)
      else
        let bigKeys := (List.range' 1 (count - 1)).map (getSegmentKey key)
        let segments ← (inner.readMultiKeyBytes state bigKeys).mapError .error
        let chunks ← segments.mapM fun segment =>
          match segment with
          | none => .error (.error (fromError .missingSegment))
          | some segment => .ok segment
        pure (some (bigValue ++ chunks.flatten))

/-- The first loop of `read_multi_key_bytes`: the first chunk of each value, the keys of
the other segments, and the count of each value, zero for a missing one. -/
def collectFirstChunks (entries : List (Bytes × Option Bytes)) :
    Except DatabaseConsistencyError (List (Option Bytes) × List Bytes × List Nat) :=
  entries.foldlM (fun collected entry =>
    match entry.2 with
    | none => pure (collected.1 ++ [none], collected.2.1, collected.2.2 ++ [0])
    | some value => do
        let count ← readCountFromValue value
        pure (collected.1 ++ [some (value.drop 4)],
          collected.2.1 ++ (List.range' 1 (count - 1)).map (getSegmentKey entry.1),
          collected.2.2 ++ [count])) ([], [], [])

/-- The second loop of `read_multi_key_bytes`: a value of more than one segment takes the
next segments of the list; `unwrap` panics on a missing one. -/
def appendSegments : List (Option Bytes × Nat) → List (Option Bytes) → Option (List (Option Bytes))
  | [], _ => some []
  | (value, count) :: rest, segments =>
      match value with
      | some bigValue =>
          if 1 < count then
            let taken := segments.take (count - 1)
            if taken.length < count - 1 then none
            else
              match taken.mapM id with
              | none => none
              | some more =>
                  (appendSegments rest (segments.drop (count - 1))).map
                    (some (bigValue ++ more.flatten) :: ·)
          else (appendSegments rest segments).map (some bigValue :: ·)
      | none => (appendSegments rest segments).map (none :: ·)

def readMultiKeyBytes (state : S) (keys : List Bytes) :
    Except (Failure E) (List (Option Bytes)) := do
  let values ← (inner.readMultiKeyBytes state (keys.map (· ++ [0, 0, 0, 0]))).mapError .error
  let collected ← (collectFirstChunks (keys.zip values)).mapError (.error ∘ fromError)
  if collected.2.1.isEmpty then pure collected.1
  else
    let segments ← (inner.readMultiKeyBytes state collected.2.1).mapError .error
    match appendSegments (collected.1.zip collected.2.2) segments with
    | none => .error .panic
    | some bigValues => pure bigValues

/-- `find_keys_by_prefix`: the keys of segment 0, without their index. -/
def findKeysByPrefix (state : S) (keyPrefix : Bytes) : Except (Failure E) (List Bytes) := do
  let bigKeys ← (inner.findKeysByPrefix state keyPrefix).mapError .error
  bigKeys.foldlM (fun keys bigKey => do
    let index ← (readIndexFromKey bigKey).mapError (.error ∘ fromError)
    if index = 0 then pure (keys ++ [bigKey.take (bigKey.length - 4)]) else pure keys) []

/-- Where the loop of `find_key_values_by_prefix` stands: between values, or collecting
the segments of a value, with the index of the next one and the count. -/
inductive Collecting where
  | idle
  | segments (key value : Bytes) (index count : Nat)

/-- One entry of the loop of `find_key_values_by_prefix`. The inner loop, which takes
the next `count - 1` entries as the segments of a value, is the `segments` state. -/
def collectKeyValue (collected : List (Bytes × Bytes) × Collecting) (entry : Bytes × Bytes) :
    Except DatabaseConsistencyError (List (Bytes × Bytes) × Collecting) := do
  match collected.2 with
  | .idle =>
      let index ← readIndexFromKey entry.1
      -- Leftover segment from an earlier value.
      if index ≠ 0 then pure collected
      else
        let key := entry.1.take (entry.1.length - 4)
        let count ← readCountFromValue entry.2
        if 1 < count then pure (collected.1, .segments key (entry.2.drop 4) 1 count)
        else pure (collected.1 ++ [(key, entry.2.drop 4)], .idle)
  | .segments key value index count =>
      let found ← readIndexFromKey entry.1
      if found = index ∧ key <+: entry.1 ∧ entry.1.length = key.length + 4 then
        if index + 1 < count then pure (collected.1, .segments key (value ++ entry.2) (index + 1) count)
        else pure (collected.1 ++ [(key, value ++ entry.2)], .idle)
      else .error .missingSegment

/-- `find_key_values_by_prefix`; entries that run out in the middle of a value are a
missing segment. -/
def findKeyValuesByPrefix (state : S) (keyPrefix : Bytes) :
    Except (Failure E) (List (Bytes × Bytes)) := do
  let smallKeyValues ← (inner.findKeyValuesByPrefix state keyPrefix).mapError .error
  let collected ← (smallKeyValues.foldlM collectKeyValue ([], .idle)).mapError (.error ∘ fromError)
  match collected.2 with
  | .idle => pure collected.1
  | .segments .. => .error (.error (fromError .missingSegment))

/-- One operation of `write_batch`, translated into the operations of the inner store. -/
def translateOperation (maxValueSize : Nat) (batch : Batch) : WriteOperation → Batch
  | .delete key => batch.deleteKey (key ++ [0, 0, 0, 0])
  | .put key value =>
      if value.length ≤ maxValueSize - 4 then
        batch.putKeyValueBytes (getSegmentKey key 0) (getInitialCountFirstChunk 1 value)
      else
        let written := (chunks maxValueSize (value.drop (maxValueSize - 4))).foldl
          (fun (written : Batch × Nat) chunk =>
            (written.1.putKeyValueBytes (getSegmentKey key written.2) chunk, written.2 + 1))
          (batch, 1)
        written.1.putKeyValueBytes (getSegmentKey key 0)
          (getInitialCountFirstChunk written.2 (value.take (maxValueSize - 4)))
  | .deletePrefix keyPrefix => batch.deleteKeyPrefix keyPrefix

/-- The batch that `write_batch` hands to the inner store. -/
def translateBatch (maxValueSize : Nat) (batch : Batch) : Batch :=
  batch.operations.foldl (translateOperation maxValueSize) ⟨[]⟩

def writeBatch (maxValueSize : Nat) (state : S) (batch : Batch) : Except (Failure E) S :=
  (inner.writeBatch state (translateBatch maxValueSize batch)).mapError .error

end Client

/-- The puts of the segments after the first, numbered from `index`. -/
def segmentPuts (key : Bytes) : List Bytes → Nat → List WriteOperation
  | [], _ => []
  | chunk :: rest, index => .put (getSegmentKey key index) chunk :: segmentPuts key rest (index + 1)

theorem foldl_segmentPuts (key : Bytes) (pieces : List Bytes) (batch : Batch) (index : Nat) :
    pieces.foldl (fun (written : Batch × Nat) chunk =>
        (written.1.putKeyValueBytes (getSegmentKey key written.2) chunk, written.2 + 1))
      (batch, index) =
      (⟨batch.operations ++ segmentPuts key pieces index⟩, index + pieces.length) := by
  induction pieces generalizing batch index with
  | nil => simp [segmentPuts]
  | cons chunk rest ih =>
      rw [List.foldl_cons, ih]
      simp only [Batch.putKeyValueBytes, segmentPuts, List.append_assoc, List.singleton_append,
        List.length_cons]
      congr 1
      omega

/-- A put of a value that fits is one segment; a longer one is its later segments, then
segment 0 with their count. -/
theorem translateOperation_put (maxValueSize : Nat) (batch : Batch) (key value : Bytes) :
    translateOperation maxValueSize batch (.put key value) =
      if value.length ≤ maxValueSize - 4 then
        ⟨batch.operations ++ [.put (getSegmentKey key 0) (getInitialCountFirstChunk 1 value)]⟩
      else
        ⟨batch.operations ++ segmentPuts key (chunks maxValueSize (value.drop (maxValueSize - 4))) 1 ++
          [.put (getSegmentKey key 0) (getInitialCountFirstChunk
            (1 + (chunks maxValueSize (value.drop (maxValueSize - 4))).length)
            (value.take (maxValueSize - 4)))]⟩ := by
  simp only [translateOperation]
  split_ifs
  · rfl
  · simp only [foldl_segmentPuts]
    rfl

theorem mem_segmentPuts {key : Bytes} {pieces : List Bytes} {index : Nat} {written value : Bytes}
    (mem : .put written value ∈ segmentPuts key pieces index) : value ∈ pieces := by
  induction pieces generalizing index with
  | nil => simp [segmentPuts] at mem
  | cons chunk rest ih =>
      rcases List.mem_cons.mp mem with first | later
      · cases first
        exact List.mem_cons_self
      · exact List.mem_cons_of_mem chunk (ih later)

/-- Every value handed to the inner store fits in `MAX_VALUE_SIZE` bytes. -/
theorem translateOperation_fits {maxValueSize : Nat} (large : 4 ≤ maxValueSize) {batch : Batch}
    (fits : ∀ key value, .put key value ∈ batch.operations → value.length ≤ maxValueSize)
    (operation : WriteOperation) :
    ∀ key value, .put key value ∈ (translateOperation maxValueSize batch operation).operations →
      value.length ≤ maxValueSize := by
  intro written value mem
  cases operation with
  | delete key =>
      simp only [translateOperation, Batch.deleteKey, List.mem_append, List.mem_singleton,
        reduceCtorEq, or_false] at mem
      exact fits written value mem
  | deletePrefix keyPrefix =>
      simp only [translateOperation, Batch.deleteKeyPrefix, List.mem_append, List.mem_singleton,
        reduceCtorEq, or_false] at mem
      exact fits written value mem
  | put key stored =>
      rw [translateOperation_put] at mem
      split_ifs at mem with short
      · simp only [List.mem_append, List.mem_singleton, WriteOperation.put.injEq] at mem
        rcases mem with before | ⟨-, rfl⟩
        · exact fits written value before
        · simp only [getInitialCountFirstChunk, List.length_append, length_u32Bytes]
          omega
      · simp only [List.mem_append, List.mem_singleton, WriteOperation.put.injEq] at mem
        rcases mem with (before | segment) | ⟨-, rfl⟩
        · exact fits written value before
        · exact length_le_of_mem_chunksAux (mem_segmentPuts segment)
        · simp only [getInitialCountFirstChunk, List.length_append, length_u32Bytes,
            List.length_take]
          omega

theorem checkValueSize_translateBatch {maxValueSize : Nat} (large : 4 ≤ maxValueSize)
    (batch : Batch) : (translateBatch maxValueSize batch).checkValueSize maxValueSize = true := by
  rw [checkValueSize_iff]
  unfold translateBatch
  -- The translated operations fit, one operation of the batch after the other.
  have kept : ∀ (operations : List WriteOperation) (start : Batch),
      (∀ key value, .put key value ∈ start.operations → value.length ≤ maxValueSize) →
      ∀ key value, .put key value ∈ (operations.foldl (translateOperation maxValueSize) start).operations →
        value.length ≤ maxValueSize := by
    intro operations
    induction operations with
    | nil => exact fun start fits => fits
    | cons operation rest ih =>
        intro start fits
        exact ih _ (translateOperation_fits large fits operation)
  exact kept batch.operations ⟨[]⟩ (fun _ _ mem => by simp at mem)

theorem applyOperations_segmentPuts (contents : Bytes → Option Bytes) (key : Bytes)
    (pieces : List Bytes) {index i : Nat} (small : i < 2 ^ 32) (bound : index + pieces.length ≤ 2 ^ 32) :
    applyOperations contents (segmentPuts key pieces index) (getSegmentKey key i) =
      if index ≤ i then pieces[i - index]?.or (contents (getSegmentKey key i))
      else contents (getSegmentKey key i) := by
  induction pieces generalizing index contents with
  | nil => simp [segmentPuts]
  | cons piece rest ih =>
      simp only [List.length_cons] at bound
      simp only [segmentPuts, applyOperations_cons]
      rw [ih _ (by omega)]
      by_cases here : i = index
      · subst here
        simp [WriteOperation.apply]
      · have other : getSegmentKey key i ≠ getSegmentKey key index :=
          fun same => here (getSegmentKey_inj small (by omega) same)
        by_cases after : index + 1 ≤ i
        · have shifted : i - index = i - (index + 1) + 1 := by omega
          simp [WriteOperation.apply, other, after, show index ≤ i by omega, shifted]
        · simp [WriteOperation.apply, other, after, show ¬ index ≤ i by omega]

theorem map_getElem?_range' {α : Type} (pieces : List α) (start : Nat) :
    (List.range' start pieces.length).map (fun i => pieces[i - start]?) = pieces.map some := by
  induction pieces generalizing start with
  | nil => rfl
  | cons piece rest ih =>
      rw [List.length_cons, List.range'_succ, List.map_cons, List.map_cons, Nat.sub_self,
        ← ih (start + 1)]
      congr 1
      apply List.map_congr_left
      intro i mem
      have later : start + 1 ≤ i := (List.mem_range'_1.mp mem).1
      have shifted : i - start = i - (start + 1) + 1 := by omega
      simp [shifted]

theorem mapM_map_some {ε : Type} (missing : ε) (pieces : List Bytes) :
    (pieces.map some).mapM (fun segment : Option Bytes =>
      match segment with
      | none => (Except.error missing : Except ε Bytes)
      | some segment => .ok segment) = .ok pieces := by
  induction pieces with
  | nil => rfl
  | cons piece rest ih =>
      simp only [List.map_cons, List.mapM_cons, ih]
      rfl

end ValueSplittingKeyValueStoreClient

open ValueSplittingKeyValueStoreClient in
/-- `ValueSplittingKeyValueStoreClient` over an inner store whose values are at most
`maxValueSize` bytes long, its `MAX_VALUE_SIZE`. -/
def valueSplittingClient {S E : Type} (inner : KeyValueStoreClient S E) (maxValueSize : Nat)
    (fromError : DatabaseConsistencyError → E) : KeyValueStoreClient S (Failure E) where
  readKeyBytes := readKeyBytes inner fromError
  readMultiKeyBytes := readMultiKeyBytes inner fromError
  findKeysByPrefix := findKeysByPrefix inner fromError
  findKeyValuesByPrefix := findKeyValuesByPrefix inner fromError
  writeBatch := writeBatch inner maxValueSize

/-- `TestMemoryClient`: the value splitting store over `TestMemoryClientInternal`. -/
def testMemoryClient (maxValueSize : Nat) :
    KeyValueStoreClient MemoryStoreMap (Failure MemoryContextError) :=
  valueSplittingClient (testMemoryClientInternal maxValueSize) maxValueSize
    MemoryContextError.databaseConsistencyError

namespace ValueSplittingKeyValueStoreClient

variable {maxValueSize : Nat}

theorem testMemoryClient_writeBatch (large : 4 ≤ maxValueSize) (map : MemoryStoreMap)
    (batch : Batch) :
    (testMemoryClient maxValueSize).writeBatch map batch =
      .ok (MemoryClient.writeBatch map (translateBatch maxValueSize batch)) := by
  have accepted := (testMemoryClientInternal_writeBatch_eq_ok maxValueSize map
    (translateBatch maxValueSize batch) _).mpr ⟨checkValueSize_translateBatch large batch, rfl⟩
  simp only [testMemoryClient, valueSplittingClient, writeBatch, accepted]
  rfl

/-- A value stored as segment 0 with its count and first chunk, and the later segments
with the other chunks, reads back as the chunks put together; segments past the count
are ignored. -/
theorem readKeyBytes_of_segments {state : MemoryStoreMap} {key first : Bytes}
    {pieces : List Bytes} (small : pieces.length + 1 < 2 ^ 32)
    (header : state.get (getSegmentKey key 0) =
      some (getInitialCountFirstChunk (pieces.length + 1) first))
    (segments : ∀ i, 1 ≤ i → i ≤ pieces.length → state.get (getSegmentKey key i) = pieces[i - 1]?) :
    (testMemoryClient maxValueSize).readKeyBytes state key = .ok (some (first ++ pieces.flatten)) := by
  have counted : readCountFromValue (getInitialCountFirstChunk (pieces.length + 1) first) =
      .ok (pieces.length + 1) := by
    simp only [readCountFromValue, getInitialCountFirstChunk, List.length_append,
      length_u32Bytes, List.take_left' (length_u32Bytes _), u32OfBytes_u32Bytes,
      Nat.mod_eq_of_lt small]
    simp
  rw [getSegmentKey, u32Bytes_zero] at header
  have dropped : (getInitialCountFirstChunk (pieces.length + 1) first).drop 4 = first :=
    List.drop_left' (length_u32Bytes _)
  simp only [testMemoryClient, valueSplittingClient, readKeyBytes, testMemoryClientInternal,
    memoryClient, MemoryClient.readKeyBytes, header, Except.mapError, bind, Except.bind, counted,
    dropped, Nat.add_sub_cancel]
  rcases pieces with _ | ⟨piece, rest⟩
  · simp [pure, Except.pure]
  · -- More than one segment: the later ones are read at once and appended in order.
    have read : MemoryClient.readMultiKeyBytes state
        ((List.range' 1 (piece :: rest).length).map (getSegmentKey key)) = (piece :: rest).map some := by
      rw [MemoryClient.readMultiKeyBytes, List.map_map, ← map_getElem?_range' (piece :: rest) 1]
      apply List.map_congr_left
      intro i mem
      obtain ⟨lo, hi⟩ := List.mem_range'_1.mp mem
      exact segments i lo (by omega)
    have several : (piece :: rest).length + 1 ≠ 1 := by simp
    rw [if_neg several, read, mapM_map_some]
    rfl

/-- A value written through the value splitting store reads back, however long, while
its number of segments fits in a `u32`. -/
theorem readKeyBytes_writeBatch_put (large : 4 ≤ maxValueSize) (map : MemoryStoreMap)
    (key value : Bytes) (fits : value.length < maxValueSize * (2 ^ 32 - 2)) :
    ∃ next, (testMemoryClient maxValueSize).writeBatch map ⟨[.put key value]⟩ = .ok next ∧
      (testMemoryClient maxValueSize).readKeyBytes next key = .ok (some value) := by
  refine ⟨_, testMemoryClient_writeBatch large map _, ?_⟩
  have stored : (MemoryClient.writeBatch map (translateBatch maxValueSize ⟨[.put key value]⟩)).get =
      applyOperations map.get (translateOperation maxValueSize ⟨[]⟩ (.put key value)).operations :=
    writeBatch_get map _
  rw [translateOperation_put] at stored
  by_cases short : value.length ≤ maxValueSize - 4
  · -- The value fits in segment 0.
    rw [if_pos short] at stored
    have header := congrFun stored (getSegmentKey key 0)
    simp only [List.nil_append, applyOperations_cons, applyOperations_nil, WriteOperation.apply,
      Function.update_self] at header
    have read := @readKeyBytes_of_segments maxValueSize _ key value [] (by decide) header
      (fun i lo hi => absurd hi (by simp; omega))
    simpa using read
  · -- Segment 0 holds the first chunk and the count; the chunks of the rest follow.
    rw [if_neg short] at stored
    have bound : (chunks maxValueSize (value.drop (maxValueSize - 4))).length * maxValueSize <
        (value.drop (maxValueSize - 4)).length + maxValueSize :=
      length_chunksAux_mul_lt (by omega) _ _
    rw [List.length_drop] at bound
    have flattened := flatten_chunks (show 0 < maxValueSize by omega) (value.drop (maxValueSize - 4))
    generalize chunks maxValueSize (value.drop (maxValueSize - 4)) = pieces at stored bound flattened
    have counted : pieces.length + 1 < 2 ^ 32 := by
      by_contra tooMany
      have many := Nat.mul_le_mul_right maxValueSize (show 2 ^ 32 - 1 ≤ pieces.length by omega)
      omega
    have header := congrFun stored (getSegmentKey key 0)
    simp only [List.nil_append, applyOperations_append, applyOperations_cons, applyOperations_nil,
      WriteOperation.apply, Function.update_self, Nat.add_comm 1] at header
    have segments : ∀ i, 1 ≤ i → i ≤ pieces.length →
        (MemoryClient.writeBatch map (translateBatch maxValueSize ⟨[.put key value]⟩)).get
          (getSegmentKey key i) = pieces[i - 1]? := by
      intro i lo hi
      have other : getSegmentKey key i ≠ getSegmentKey key 0 :=
        fun same => by have := getSegmentKey_inj (by omega) (by decide) same; omega
      rw [stored]
      simp only [List.nil_append, applyOperations_append, applyOperations_cons,
        applyOperations_nil, WriteOperation.apply, Function.update_of_ne other]
      rw [applyOperations_segmentPuts _ _ _ (by omega) (by omega), if_pos lo,
        List.getElem?_eq_getElem (by omega)]
      rfl
    have read := @readKeyBytes_of_segments maxValueSize _ _ _ _ counted header segments
    rw [flattened, List.take_append_drop] at read
    exact read

/-- Five bytes, split over two segments of four. -/
theorem readKeyBytes_writeBatch_put_of_two_segments :
    4 ≤ 4 ∧ [1, 2, 3, 4, 5].length < 4 * (2 ^ 32 - 2) ∧
      ∃ next, (testMemoryClient 4).writeBatch OrdMap.empty ⟨[.put [0] [1, 2, 3, 4, 5]]⟩ = .ok next ∧
        (testMemoryClient 4).readKeyBytes next [0] = .ok (some [1, 2, 3, 4, 5]) := by
  have large : 4 ≤ 4 := le_refl 4
  have fits : [1, 2, 3, 4, 5].length < 4 * (2 ^ 32 - 2) := by decide
  exact ⟨large, fits, readKeyBytes_writeBatch_put large OrdMap.empty [0] [1, 2, 3, 4, 5] fits⟩

theorem readKeyBytes_of_header_none {state : MemoryStoreMap} {key : Bytes}
    (missing : state.get (key ++ [0, 0, 0, 0]) = none) :
    (testMemoryClient maxValueSize).readKeyBytes state key = .ok none := by
  simp only [testMemoryClient, valueSplittingClient, readKeyBytes, testMemoryClientInternal,
    memoryClient, MemoryClient.readKeyBytes, missing, Except.mapError, bind, Except.bind]
  rfl

/-- A prefix deletion whose prefix extends a key into the four bytes of its segment index
deletes the key's segment 0: the key then reads as absent, while a store that does not
split values keeps it, since the key does not extend the prefix. -/
theorem readKeyBytes_after_deletePrefix_inside_index (large : 4 ≤ maxValueSize)
    (map : MemoryStoreMap) {key keyPrefix : Bytes} (inside : keyPrefix <+: key ++ [0, 0, 0, 0])
    (longer : key.length < keyPrefix.length) :
    (testMemoryClient maxValueSize).writeBatch map ⟨[.deletePrefix keyPrefix]⟩ =
        .ok (MemoryClient.writeBatch map ⟨[.deletePrefix keyPrefix]⟩) ∧
      (testMemoryClient maxValueSize).readKeyBytes
        (MemoryClient.writeBatch map ⟨[.deletePrefix keyPrefix]⟩) key = .ok none ∧
      ∀ contents : Bytes → Option Bytes,
        applyOperations contents [.deletePrefix keyPrefix] key = contents key := by
  have outside : ¬ keyPrefix <+: key := fun cut => by
    have := cut.length_le
    omega
  refine ⟨testMemoryClient_writeBatch large map _, ?_, ?_⟩
  · apply readKeyBytes_of_header_none
    rw [writeBatch_get]
    simp [WriteOperation.apply, inside]
  · intro contents
    simp [WriteOperation.apply, outside]

theorem foldlM_readIndexFromKey_error (bigKeys : List Bytes) (keys : List Bytes)
    (short : ∃ bigKey ∈ bigKeys, bigKey.length < 4) :
    bigKeys.foldlM (fun keys bigKey => do
      let index ← (readIndexFromKey bigKey).mapError
        (Failure.error ∘ MemoryContextError.databaseConsistencyError)
      if index = 0 then pure (keys ++ [bigKey.take (bigKey.length - 4)]) else pure keys) keys =
      .error (.error (.databaseConsistencyError .tooShortKey)) := by
  induction bigKeys generalizing keys with
  | nil => simp at short
  | cons bigKey rest ih =>
      rw [List.foldlM_cons]
      by_cases tooShort : bigKey.length < 4
      · simp [readIndexFromKey, tooShort, Except.mapError, bind, Except.bind]
      · obtain ⟨other, mem, otherShort⟩ := short
        have later : other ∈ rest := by
          rcases List.mem_cons.mp mem with same | later
          · exact absurd (same ▸ otherShort) tooShort
          · exact later
        simp only [readIndexFromKey, tooShort, if_false, Except.mapError, bind, Except.bind]
        split_ifs <;> exact ih _ ⟨other, later, otherShort⟩

/-- Listing the keys under a prefix that extends a stored key into its index fails: the
inner store lists that key's segments cut after the prefix, shorter than an index. -/
theorem findKeysByPrefix_inside_index (state : MemoryStoreMap) (keyPrefix : Bytes)
    (short : ∃ bigKey ∈ MemoryClient.findKeysByPrefix state keyPrefix, bigKey.length < 4) :
    (testMemoryClient maxValueSize).findKeysByPrefix state keyPrefix =
      .error (.error (.databaseConsistencyError .tooShortKey)) := by
  simp only [testMemoryClient, valueSplittingClient, findKeysByPrefix, testMemoryClientInternal,
    memoryClient, Except.mapError, bind, Except.bind]
  exact foldlM_readIndexFromKey_error _ [] short

/-- Key `[1]` holds `[5]`; a deletion of prefix `[1, 0]` then loses it in the value
splitting store and keeps it in the memory store. -/
theorem readKeyBytes_after_deletePrefix_extending_key :
    (testMemoryClient 100).readKeyBytes
        (MemoryClient.writeBatch OrdMap.empty (translateBatch 100 ⟨[.put [1] [5]]⟩)) [1] =
        .ok (some [5]) ∧
      (testMemoryClient 100).readKeyBytes
        (MemoryClient.writeBatch (MemoryClient.writeBatch OrdMap.empty
          (translateBatch 100 ⟨[.put [1] [5]]⟩)) ⟨[.deletePrefix [1, 0]]⟩) [1] = .ok none ∧
      MemoryClient.readKeyBytes (MemoryClient.writeBatch
        (MemoryClient.writeBatch OrdMap.empty ⟨[.put [1] [5]]⟩) ⟨[.deletePrefix [1, 0]]⟩) [1] =
        some [5] :=
  ⟨by decide, (@readKeyBytes_after_deletePrefix_inside_index 100 (by decide) _ [1] [1, 0]
    (by decide) (by decide)).2.1, by decide⟩

end ValueSplittingKeyValueStoreClient

end Linera.Views
