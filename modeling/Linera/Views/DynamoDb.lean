import Linera.Lib.Bcs
import Linera.Lib.Session
import Linera.Views.MapViewOrder
import Linera.Views.ValueSplitting

set_option autoImplicit false

/-! The DynamoDB store (`linera-views/src/dynamo_db.rs`) and its journal.

DynamoDB carries out a transaction of at most `MAX_TRANSACT_WRITE_ITEM_SIZE` puts and
deletions at once. `write_batch` writes a batch that fits in one transaction directly (the
fast path), and any other one through a journal kept under `base_key ++ [JOURNAL_TAG]`:
`write_journal` packs the deletions, then the insertions, into blocks of at most
`MAX_TRANSACT_WRITE_ITEM_SIZE - 2` operations, writes each block serialized by BCS as the
entry at its position, and then a header with the number of blocks.
`coherently_resolve_journal` applies the blocks from the last to the first, each in one
transaction that also deletes the block's entry and lowers the header's count, or deletes
the header with the first block. `clear_journal` resolves a journal that a crash left.

Each call is a `Program` on a session of the table. An error ends it with the transactions
carried out so far, and so does a crash or a failure of the service, so the service's own
errors are not modelled apart; reads do not fail. -/

namespace Linera.Views

/-- `DynamoDbContextError`, without the errors of the service itself. -/
inductive DynamoDbContextError where
  | transactUpperLimitSize
  | zeroLengthKey
  | keyTooLong
  | keyPrefixTooLong
  | zeroLengthKeyPrefix
  | databaseRecoveryFailed
  | valueLengthTooLarge
  | bcsError
  deriving DecidableEq, Repr

/-- A `TransactWriteItem`: a put or a deletion of one key. -/
inductive TransactWriteItem where
  | put (key value : Bytes)
  | delete (key : Bytes)
  deriving DecidableEq, Repr

/-- What an item does, as an operation of a batch. -/
def TransactWriteItem.operation : TransactWriteItem → WriteOperation
  | .put key value => .put key value
  | .delete key => .delete key

/-- DynamoDB carries out the items of one transaction on its table. -/
def applyTransaction (table : MemoryStoreMap) (transacts : List TransactWriteItem) :
    MemoryStoreMap :=
  MemoryClient.writeBatch table ⟨transacts.map TransactWriteItem.operation⟩

/-- A call of the DynamoDB client on a session of the table. -/
abbrev DynamoDbM (α : Type) : Type :=
  Program MemoryStoreMap (List TransactWriteItem) (Failure DynamoDbContextError) α

/-- The `?` on a call that returns a `DynamoDbContextError`. -/
def DynamoDbM.ofResult {α : Type} (result : Except DynamoDbContextError α) : DynamoDbM α :=
  Program.ofExcept (result.mapError .error)

namespace DynamoDb

def rawMaxValueBytes : Nat := 409600

def visibleMaxValueBytes : Nat := 408569

def maxKeyBytes : Nat := 1024

def maxTransactWriteItemBytes : Nat := 4194304

def maxTransactWriteItemSize : Nat := 100

def journalTag : Fin 256 := 0

inductive KeyTag where
  | journal
  | entry
  deriving DecidableEq, Repr

def KeyTag.byte : KeyTag → Fin 256
  | .journal => 1
  | .entry => 2

/-- The loop of `get_uleb128_size`, for at most `fuel` turns. -/
def getUleb128SizeLoop : Nat → Nat → Nat → Nat → Nat
  | 0, _, _, expo => expo
  | fuel + 1, len, power, expo =>
      if len ≥ power then getUleb128SizeLoop fuel len (power * 128) (expo + 1) else expo

/-- `get_uleb128_size`; its loop turns fewer than `len` times. -/
def getUleb128Size (len : Nat) : Nat :=
  getUleb128SizeLoop len len 128 1

/-- `bcs::serialized_size` of a byte string. -/
def serializedSize (bytes : Bytes) : Nat :=
  (Bcs.Codec.bytes.encode bytes).length

/-- `get_journaling_key`: the base key, the journal tag, the key tag and the BCS `u32`
position. -/
def getJournalingKey (baseKey : Bytes) (tag : Fin 256) (pos : Nat) : Bytes :=
  baseKey ++ [journalTag] ++ [tag] ++ bcsBytes 4 pos

end DynamoDb

open DynamoDb

structure JournalHeader where
  blockCount : Nat
  deriving DecidableEq, Repr

namespace JournalHeader

/-- `bcs::to_bytes` of a header: its `u32` in four little-endian bytes. -/
def toBytes (header : JournalHeader) : Bytes :=
  bcsBytes 4 header.blockCount

/-- `bcs::from_bytes` of a header. -/
def fromBytes (bytes : Bytes) : Option JournalHeader :=
  if bytes.length = 4 then some ⟨bytes.foldr (fun byte value => byte.val + 256 * value) 0⟩
  else none

end JournalHeader

namespace DynamoDbClientInternal

def buildDeleteTransact (key : Bytes) : Except DynamoDbContextError TransactWriteItem :=
  if key.isEmpty then .error .zeroLengthKey
  else if key.length > maxKeyBytes then .error .keyTooLong
  else .ok (.delete key)

/-- `DynamoDbClientInternal::build_put_transact`: the checks of a deletion, and one on the
value. -/
def buildPutTransact (key value : Bytes) : Except DynamoDbContextError TransactWriteItem :=
  if key.isEmpty then .error .zeroLengthKey
  else if key.length > maxKeyBytes then .error .keyTooLong
  else if value.length > rawMaxValueBytes then .error .valueLengthTooLarge
  else .ok (.put key value)

/-- `DynamoDbClientInternal::submit_transactions`: one transaction, carried out at once. -/
def submitTransactions (transacts : List TransactWriteItem) : DynamoDbM Unit := do
  if transacts.length > maxTransactWriteItemSize then
    Program.fail (.error .transactUpperLimitSize)
  if !transacts.isEmpty then Program.send applyTransaction transacts

/-- `read_key`: the value at `key`, read back by `fromBytes`; a value that does not read
back is a BCS error. -/
def readKey {α : Type} (fromBytes : Bytes → Option α) (key : Bytes) : DynamoDbM (Option α) := do
  match (← Program.read).get key with
  | none => pure none
  | some bytes =>
      match fromBytes bytes with
      | some value => pure (some value)
      | none => Program.fail (.error .bcsError)

/-- `DynamoDbClientInternal::find_keys_by_prefix`: the keys under a prefix, with the prefix
cut, as the memory store finds them. -/
def findKeysByPrefix (table : MemoryStoreMap) (keyPrefix : Bytes) :
    Except DynamoDbContextError (List Bytes) :=
  if keyPrefix.isEmpty then .error .zeroLengthKeyPrefix
  else if keyPrefix.length > maxKeyBytes then .error .keyPrefixTooLong
  else .ok (MemoryClient.findKeysByPrefix table keyPrefix)

def expandDeletePrefix (table : MemoryStoreMap) (keyPrefix : Bytes) :
    Except DynamoDbContextError (List Bytes) :=
  findKeysByPrefix table keyPrefix

end DynamoDbClientInternal

structure TransactionBuilder where
  transacts : List TransactWriteItem
  deriving DecidableEq, Repr

namespace TransactionBuilder

def insertDeleteRequest (builder : TransactionBuilder) (key : Bytes) :
    Except DynamoDbContextError TransactionBuilder := do
  let transact ← DynamoDbClientInternal.buildDeleteTransact key
  pure ⟨builder.transacts ++ [transact]⟩

def insertPutRequest (builder : TransactionBuilder) (key value : Bytes) :
    Except DynamoDbContextError TransactionBuilder := do
  let transact ← DynamoDbClientInternal.buildPutTransact key value
  pure ⟨builder.transacts ++ [transact]⟩

def submit (builder : TransactionBuilder) : DynamoDbM Unit :=
  DynamoDbClientInternal.submitTransactions builder.transacts

/-- The two loops that add a batch's deletions, then its insertions, to a builder. -/
def insertBatch (builder : TransactionBuilder) (batch : SimpleUnorderedBatch) :
    Except DynamoDbContextError TransactionBuilder := do
  let builder ← batch.deletions.foldlM insertDeleteRequest builder
  batch.insertions.foldlM (fun builder keyValue => builder.insertPutRequest keyValue.1 keyValue.2)
    builder

end TransactionBuilder

def DynamoDbClientInternal.writeSingleKeyValue (key value : Bytes) : DynamoDbM Unit := do
  let builder ← DynamoDbM.ofResult (TransactionBuilder.insertPutRequest ⟨[]⟩ key value)
  builder.submit

namespace DynamoDbBatch

/-- BCS of a `DynamoDbBatch`: the deletions as a sequence of byte strings, then the
insertions as a sequence of pairs of them. -/
def codec : Bcs.Codec SimpleUnorderedBatch :=
  (Bcs.Codec.pair (Bcs.Codec.seq Bcs.Codec.bytes)
      (Bcs.Codec.seq (Bcs.Codec.pair Bcs.Codec.bytes Bcs.Codec.bytes))).map
    (fun parts => ⟨parts.1, parts.2⟩) (fun batch => (batch.deletions, batch.insertions))
    (fun _ => rfl)

def len (batch : SimpleUnorderedBatch) : Nat :=
  batch.deletions.length + batch.insertions.length

def isFastpathFeasible (batch : SimpleUnorderedBatch) : Bool :=
  if len batch > maxTransactWriteItemSize then false
  else
    let totalSize := (batch.insertions.map fun keyValue => keyValue.1.length + keyValue.2.length).sum +
      (batch.deletions.map List.length).sum
    totalSize ≤ maxTransactWriteItemBytes

def addJournalHeaderOperations (builder : TransactionBuilder) (header : JournalHeader)
    (baseKey : Bytes) : Except DynamoDbContextError TransactionBuilder :=
  let key := getJournalingKey baseKey KeyTag.journal.byte 0
  if header.blockCount > 0 then builder.insertPutRequest key header.toBytes
  else builder.insertDeleteRequest key

/-- An item of the batch that `write_journal` draws: a deletion, all of which come first,
or an insertion. -/
abbrev JournalItem := Bytes ⊕ (Bytes × Bytes)

/-- `serialized_size` of what an item adds to its block. -/
def itemSize : JournalItem → Nat
  | .inl key => serializedSize key
  | .inr (key, value) => serializedSize key + serializedSize value

/-- The variables of the loop of `write_journal`, but its two iterators. -/
structure JournalLoop where
  valueSize : Nat
  transactSize : Nat
  deletions : List Bytes
  insertions : List (Bytes × Bytes)
  blockCount : Nat
  transacts : List TransactWriteItem
  deriving DecidableEq, Repr

namespace JournalLoop

/-- The start of a turn: the next item joins the block. -/
def push (state : JournalLoop) : JournalItem → JournalLoop
  | .inl delete =>
      { state with valueSize := state.valueSize + itemSize (.inl delete),
                   deletions := state.deletions ++ [delete] }
  | .inr (key, value) =>
      { state with valueSize := state.valueSize + itemSize (.inr (key, value)),
                   insertions := state.insertions ++ [(key, value)] }

/-- `(value_flush, transact_flush)`, once the item is in and `rest` is left to draw. -/
def flushes (state : JournalLoop) (rest : List JournalItem) : Bool × Bool :=
  match rest with
  | [] => (true, true)
  | next :: _ =>
      if state.deletions.length + state.insertions.length = maxTransactWriteItemSize - 2 then
        (true, true)
      else
        let nextValueSize := state.valueSize + itemSize next +
          getUleb128Size (state.deletions.length + 1) + getUleb128Size (state.insertions.length + 1)
        let nextTransactSize := state.transactSize + nextValueSize
        let valueFlush :=
          if nextTransactSize > maxTransactWriteItemBytes then true
          else nextValueSize > rawMaxValueBytes
        let transactFlush := nextTransactSize > maxTransactWriteItemBytes
        (valueFlush, transactFlush)

/-- The value flush: the block is serialized, checked against the size counted for it by
the `assert_eq!`, and put as the entry at the next position. -/
def flushValue (baseKey : Bytes) (state : JournalLoop) :
    Except (Failure DynamoDbContextError) JournalLoop := do
  let valueSize := state.valueSize + getUleb128Size state.deletions.length +
    getUleb128Size state.insertions.length
  let value := codec.encode ⟨state.deletions, state.insertions⟩
  if value.length ≠ valueSize then throw .panic
  let key := getJournalingKey baseKey KeyTag.entry.byte state.blockCount
  let transact ← (DynamoDbClientInternal.buildPutTransact key value).mapError .error
  pure ⟨0, state.transactSize + valueSize, [], [], state.blockCount + 1, state.transacts ++ [transact]⟩

end JournalLoop

/-- The loop of `write_journal` over the items left to draw; it returns `block_count`. -/
def writeJournalLoop (baseKey : Bytes) : List JournalItem → JournalLoop → DynamoDbM Nat
  | [], state => pure state.blockCount
  | item :: rest, state => do
      let state := state.push item
      let (valueFlush, transactFlush) := state.flushes rest
      let state ← if valueFlush then Program.ofExcept (state.flushValue baseKey) else pure state
      if transactFlush then
        DynamoDbClientInternal.submitTransactions state.transacts
        writeJournalLoop baseKey rest { state with transacts := [], transactSize := 0 }
      else writeJournalLoop baseKey rest state

def writeJournal (batch : SimpleUnorderedBatch) (baseKey : Bytes) : DynamoDbM JournalHeader := do
  let blockCount ← writeJournalLoop baseKey (batch.deletions.map .inl ++ batch.insertions.map .inr)
    ⟨0, 0, [], [], 0, []⟩
  let header : JournalHeader := ⟨blockCount⟩
  if blockCount > 0 then
    DynamoDbClientInternal.writeSingleKeyValue (getJournalingKey baseKey KeyTag.journal.byte 0)
      header.toBytes
  pure header

def writeFastpathFailsafe (batch : SimpleUnorderedBatch) : DynamoDbM Unit := do
  let builder ← DynamoDbM.ofResult (TransactionBuilder.insertBatch ⟨[]⟩ batch)
  builder.submit

/-- `DynamoDbBatch::from_batch`: `simplify`, then the prefix deletions expanded into the
keys stored under them. -/
def fromBatch (batch : Batch) : DynamoDbM SimpleUnorderedBatch := do
  let table ← Program.read
  DynamoDbM.ofResult
    (batch.simplify.expandDeletePrefixes (DynamoDbClientInternal.expandDeletePrefix table))

end DynamoDbBatch

/-- The loop of `JournalHeader::coherently_resolve_journal`, with `blockCount` blocks left:
the last one is read back, applied, and its entry deleted, in one transaction. -/
def JournalHeader.coherentlyResolveJournalLoop (baseKey : Bytes) : Nat → DynamoDbM Unit
  | 0 => pure ()
  | blockCount + 1 => do
      let key := getJournalingKey baseKey KeyTag.entry.byte blockCount
      match ← DynamoDbClientInternal.readKey DynamoDbBatch.codec.fromBytes key with
      | some value =>
          let builder ← DynamoDbM.ofResult do
            let builder ← TransactionBuilder.insertDeleteRequest ⟨[]⟩ key
            let builder ← builder.insertBatch value
            DynamoDbBatch.addJournalHeaderOperations builder ⟨blockCount⟩ baseKey
          builder.submit
          coherentlyResolveJournalLoop baseKey blockCount
      | none => Program.fail (.error .databaseRecoveryFailed)

def JournalHeader.coherentlyResolveJournal (header : JournalHeader) (baseKey : Bytes) :
    DynamoDbM Unit :=
  coherentlyResolveJournalLoop baseKey header.blockCount

namespace DynamoDbClientInternal

def writeBatch (batch : Batch) (baseKey : Bytes) : DynamoDbM Unit := do
  let blockOperations ← DynamoDbBatch.fromBatch batch
  if DynamoDbBatch.isFastpathFeasible blockOperations then
    DynamoDbBatch.writeFastpathFailsafe blockOperations
  else
    let header ← DynamoDbBatch.writeJournal blockOperations baseKey
    header.coherentlyResolveJournal baseKey

def clearJournal (baseKey : Bytes) : DynamoDbM Unit := do
  let key := getJournalingKey baseKey KeyTag.journal.byte 0
  match ← readKey JournalHeader.fromBytes key with
  | some header => header.coherentlyResolveJournal baseKey
  | none => pure ()

end DynamoDbClientInternal

namespace DynamoDb

/-- The loop of `get_uleb128_size` from `power = 128 ^ expo` stops at the first exponent from
`expo` on whose power exceeds `len`, which is the length of the encoding or `expo`. -/
theorem getUleb128SizeLoop_eq (len : Nat) (fuel expo : Nat) (positive : 0 < expo)
    (enough : len < 128 ^ (expo + fuel)) :
    getUleb128SizeLoop fuel len (128 ^ expo) expo = max expo (Bcs.uleb128 len).length := by
  induction fuel generalizing expo with
  | zero =>
      have fits := (Bcs.length_uleb128_le_iff len positive).mpr enough
      simp only [getUleb128SizeLoop]
      omega
  | succ fuel ih =>
      by_cases above : 128 ^ expo ≤ len
      · have longer : ¬ (Bcs.uleb128 len).length ≤ expo := by
          rw [Bcs.length_uleb128_le_iff len positive]
          omega
        have next := ih (expo + 1) (by omega)
          (by rw [show expo + 1 + fuel = expo + (fuel + 1) by omega]; exact enough)
        rw [getUleb128SizeLoop, if_pos above, ← pow_succ, next]
        omega
      · have fits := (Bcs.length_uleb128_le_iff len positive).mpr (by omega)
        rw [getUleb128SizeLoop, if_neg above]
        omega

/-- `get_uleb128_size` is the length of the ULEB128 encoding, as its comment says. -/
theorem getUleb128Size_eq (len : Nat) : getUleb128Size len = (Bcs.uleb128 len).length := by
  have enough : len < 128 ^ (1 + len) :=
    lt_of_lt_of_le (Nat.lt_pow_self (by norm_num)) (Nat.pow_le_pow_right (by norm_num) (by omega))
  have nonempty := Bcs.length_uleb128_pos len
  rw [getUleb128Size, show (128 : Nat) = 128 ^ 1 from rfl,
    getUleb128SizeLoop_eq len len 1 (by omega) enough]
  omega

theorem serializedSize_eq (bytes : Bytes) :
    serializedSize bytes = getUleb128Size bytes.length + bytes.length := by
  simp [serializedSize, getUleb128Size_eq]

end DynamoDb

theorem DynamoDbBatch.length_encode_codec (batch : SimpleUnorderedBatch) :
    (DynamoDbBatch.codec.encode batch).length =
      getUleb128Size batch.deletions.length + (batch.deletions.map serializedSize).sum +
        (getUleb128Size batch.insertions.length +
          (batch.insertions.map fun keyValue => serializedSize keyValue.1 + serializedSize keyValue.2).sum) := by
  have size : serializedSize = fun bytes => (Bcs.uleb128 bytes.length).length + bytes.length :=
    funext fun bytes => by rw [serializedSize_eq, getUleb128Size_eq]
  simp [DynamoDbBatch.codec, size, getUleb128Size_eq, List.sum_map_add]

theorem DynamoDbBatch.fromBytes_encode (batch : SimpleUnorderedBatch) :
    DynamoDbBatch.codec.fromBytes (DynamoDbBatch.codec.encode batch) = some batch :=
  DynamoDbBatch.codec.fromBytes_encode batch

theorem foldr_bcsBytes (width n : Nat) :
    (bcsBytes width n).foldr (fun byte value => byte.val + 256 * value) 0 = n % 256 ^ width := by
  induction width generalizing n with
  | zero => simp [bcsBytes, Nat.mod_one]
  | succ width ih =>
      simp only [bcsBytes, List.foldr_cons, ih, pow_succ, mul_comm (256 ^ width) 256, Nat.mod_mul]

theorem bcsBytes_inj {width n m : Nat} (small : n < 256 ^ width) (smallOther : m < 256 ^ width)
    (same : bcsBytes width n = bcsBytes width m) : n = m := by
  have read := congrArg (List.foldr (fun (byte : Fin 256) value => byte.val + 256 * value) 0) same
  rwa [foldr_bcsBytes, foldr_bcsBytes, Nat.mod_eq_of_lt small, Nat.mod_eq_of_lt smallOther] at read

theorem JournalHeader.fromBytes_toBytes (header : JournalHeader) (small : header.blockCount < 2 ^ 32) :
    JournalHeader.fromBytes header.toBytes = some header := by
  simp only [JournalHeader.fromBytes, JournalHeader.toBytes, length_bcsBytes, foldr_bcsBytes, if_true]
  rw [Nat.mod_eq_of_lt (by simpa using small)]

namespace DynamoDb

@[simp] theorem length_getJournalingKey (baseKey : Bytes) (tag : Fin 256) (pos : Nat) :
    (getJournalingKey baseKey tag pos).length = baseKey.length + 6 := by
  simp [getJournalingKey]

theorem getJournalingKey_isPrefix (baseKey : Bytes) (tag : Fin 256) (pos : Nat) :
    baseKey ++ [journalTag] <+: getJournalingKey baseKey tag pos :=
  ⟨[tag] ++ bcsBytes 4 pos, by simp [getJournalingKey]⟩

theorem getJournalingKey_inj {baseKey : Bytes} {tag tag' : Fin 256} {pos pos' : Nat}
    (small : pos < 2 ^ 32) (small' : pos' < 2 ^ 32)
    (same : getJournalingKey baseKey tag pos = getJournalingKey baseKey tag' pos') :
    tag = tag' ∧ pos = pos' := by
  simp only [getJournalingKey, List.append_assoc, List.append_cancel_left_eq, List.cons_append,
    List.nil_append, List.cons.injEq, true_and] at same
  exact ⟨same.1, bcsBytes_inj (by simpa using small) (by simpa using small') same.2⟩

end DynamoDb

namespace DynamoDbClientInternal

/-- A key that DynamoDB takes: not empty, and at most `MAX_KEY_BYTES` long. -/
def ValidKey (key : Bytes) : Prop :=
  0 < key.length ∧ key.length ≤ maxKeyBytes

instance (key : Bytes) : Decidable (ValidKey key) :=
  inferInstanceAs (Decidable (0 < key.length ∧ key.length ≤ maxKeyBytes))

theorem buildDeleteTransact_of_valid {key : Bytes} (valid : ValidKey key) :
    buildDeleteTransact key = .ok (.delete key) := by
  have nonempty : key.isEmpty = false := by
    simpa [List.isEmpty_iff, ← List.length_eq_zero_iff] using Nat.pos_iff_ne_zero.mp valid.1
  simp [buildDeleteTransact, nonempty, Nat.not_lt.mpr valid.2]

theorem buildPutTransact_of_valid {key value : Bytes} (valid : ValidKey key)
    (small : value.length ≤ rawMaxValueBytes) :
    buildPutTransact key value = .ok (.put key value) := by
  have nonempty : key.isEmpty = false := by
    simpa [List.isEmpty_iff, ← List.length_eq_zero_iff] using Nat.pos_iff_ne_zero.mp valid.1
  simp [buildPutTransact, nonempty, valid.2, Nat.not_lt.mpr small]

theorem eq_of_buildPutTransact {key value : Bytes} {item : TransactWriteItem}
    (built : buildPutTransact key value = .ok item) : item = .put key value := by
  unfold buildPutTransact at built
  split at built
  · cases built
  · split at built
    · cases built
    · split at built <;> cases built
      rfl

/-- `submit_transactions` refuses more than `MAX_TRANSACT_WRITE_ITEM_SIZE` items, sends
nothing for none, and otherwise has the service carry them out at once. -/
theorem submitTransactions_run (transacts : List TransactWriteItem)
    (session : Session MemoryStoreMap (List TransactWriteItem)) :
    submitTransactions transacts session =
      if maxTransactWriteItemSize < transacts.length then
        (.error (.error .transactUpperLimitSize), session)
      else (.ok (), if transacts = [] then session else session.send applyTransaction transacts) := by
  unfold submitTransactions
  by_cases many : maxTransactWriteItemSize < transacts.length
  · simp [many]
  · simp only [gt_iff_lt, many, if_false]
    cases transacts <;> simp

theorem readKey_of_none {α : Type} (fromBytes : Bytes → Option α) {key : Bytes}
    {session : Session MemoryStoreMap (List TransactWriteItem)} (absent : session.state.get key = none) :
    readKey fromBytes key session = (.ok none, session) := by
  simp [readKey, absent]

theorem readKey_of_some {α : Type} {fromBytes : Bytes → Option α} {key bytes : Bytes} {value : α}
    {session : Session MemoryStoreMap (List TransactWriteItem)}
    (present : session.state.get key = some bytes) (read : fromBytes bytes = some value) :
    readKey fromBytes key session = (.ok (some value), session) := by
  simp [readKey, present, read]

theorem writeSingleKeyValue_run (key value : Bytes)
    (session : Session MemoryStoreMap (List TransactWriteItem)) :
    writeSingleKeyValue key value session =
      match buildPutTransact key value with
      | .ok transact => (.ok (), session.send applyTransaction [transact])
      | .error error => (.error (.error error), session) := by
  unfold writeSingleKeyValue TransactionBuilder.insertPutRequest DynamoDbM.ofResult
  cases built : buildPutTransact key value with
  | error error => simp [Except.mapError]
  | ok transact =>
      simp [Except.mapError, TransactionBuilder.submit, submitTransactions_run,
        maxTransactWriteItemSize]

end DynamoDbClientInternal

end Linera.Views
