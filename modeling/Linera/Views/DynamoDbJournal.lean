import Linera.Views.DynamoDb
import Linera.Views.Lowering

set_option autoImplicit false

/-! The DynamoDB journal leaves a batch written whole or not at all.

A run of `write_batch` on the journal path carries out three kinds of transactions: puts of
entries, the put of the header, and the transactions of `coherently_resolve_journal`, each
of which applies one block. A crash, or an error, stops the run after any of them.
`Consistent` holds of every table that leaves: either no header and the table outside the
journal as it was, or a header with `count` blocks left, whose entries hold the first
`count` blocks, and the table outside the journal with the other blocks applied
(`Journaled`). From a consistent table `clear_journal` applies the blocks left and deletes
the header, and a crash inside it leaves a consistent table again. Since the blocks of a
batch touch distinct keys, the last block first gives what the batch gives, and the table
outside the journal ends as it was or as the batch makes it.

`write_journal` is proved against `LoopInvariant`: the blocks written so far and the block
being filled hold the items drawn, each block has at most `MAX_TRANSACT_WRITE_ITEM_SIZE - 2`
of them, the size counted for the block is its serialized size, and the puts sent and
pending are the entries of the blocks, at positions from 0 on. -/

namespace Linera.Views

open DynamoDb DynamoDbClientInternal DynamoDbBatch

namespace DynamoDb

def headerKey (baseKey : Bytes) : Bytes :=
  getJournalingKey baseKey KeyTag.journal.byte 0

def entryKey (baseKey : Bytes) (pos : Nat) : Bytes :=
  getJournalingKey baseKey KeyTag.entry.byte pos

/-- A key of the journal's part of the table. -/
def InJournal (baseKey key : Bytes) : Prop :=
  baseKey ++ [journalTag] <+: key

instance (baseKey key : Bytes) : Decidable (InJournal baseKey key) :=
  inferInstanceAs (Decidable (baseKey ++ [journalTag] <+: key))

/-- Two tables that agree outside the journal. -/
def UserEq (baseKey : Bytes) (table other : MemoryStoreMap) : Prop :=
  ∀ key, ¬ InJournal baseKey key → table.get key = other.get key

theorem headerKey_inJournal (baseKey : Bytes) : InJournal baseKey (headerKey baseKey) :=
  getJournalingKey_isPrefix _ _ _

theorem entryKey_inJournal (baseKey : Bytes) (pos : Nat) : InJournal baseKey (entryKey baseKey pos) :=
  getJournalingKey_isPrefix _ _ _

theorem headerKey_ne_entryKey (baseKey : Bytes) (pos : Nat) : headerKey baseKey ≠ entryKey baseKey pos := by
  simp [headerKey, entryKey, getJournalingKey, KeyTag.byte]

theorem entryKey_inj {baseKey : Bytes} {pos pos' : Nat} (small : pos < 2 ^ 32) (small' : pos' < 2 ^ 32)
    (same : entryKey baseKey pos = entryKey baseKey pos') : pos = pos' :=
  (getJournalingKey_inj small small' same).2

theorem ne_of_inJournal {baseKey key other : Bytes} (inside : InJournal baseKey other)
    (outside : ¬ InJournal baseKey key) : key ≠ other := by
  rintro rfl
  exact outside inside

theorem UserEq.trans {baseKey : Bytes} {first second third : MemoryStoreMap}
    (one : UserEq baseKey first second) (two : UserEq baseKey second third) :
    UserEq baseKey first third :=
  fun key outside => (one key outside).trans (two key outside)

end DynamoDb

theorem applyOperations_congr_at (first second : Bytes → Option Bytes)
    (operations : List WriteOperation) {key : Bytes} (same : first key = second key) :
    applyOperations first operations key = applyOperations second operations key := by
  induction operations generalizing first second with
  | nil => exact same
  | cons operation rest ih =>
      apply ih
      cases operation with
      | put written value =>
          by_cases hit : key = written <;> simp [WriteOperation.apply, hit, same]
      | delete deleted =>
          by_cases hit : key = deleted <;> simp [WriteOperation.apply, hit, same]
      | deletePrefix keyPrefix => simp [WriteOperation.apply, same]

def TransactWriteItem.key : TransactWriteItem → Bytes
  | .put key _ => key
  | .delete key => key

@[simp] theorem TransactWriteItem.key_put (key value : Bytes) : (TransactWriteItem.put key value).key = key :=
  rfl

@[simp] theorem TransactWriteItem.key_delete (key : Bytes) : (TransactWriteItem.delete key).key = key :=
  rfl

theorem applyTransaction_get (table : MemoryStoreMap) (transacts : List TransactWriteItem) :
    (applyTransaction table transacts).get =
      applyOperations table.get (transacts.map TransactWriteItem.operation) :=
  writeBatch_get _ _

theorem applyTransaction_append (table : MemoryStoreMap) (first second : List TransactWriteItem) :
    applyTransaction table (first ++ second) = applyTransaction (applyTransaction table first) second := by
  simp [applyTransaction, MemoryClient.writeBatch, List.foldl_append]

theorem foldl_applyTransaction (table : MemoryStoreMap) (requests : List (List TransactWriteItem)) :
    requests.foldl applyTransaction table = applyTransaction table requests.flatten := by
  induction requests generalizing table with
  | nil => rfl
  | cons request rest ih => rw [List.foldl_cons, ih, List.flatten_cons, applyTransaction_append]

theorem get_applyTransaction_of_not_mem (table : MemoryStoreMap) (transacts : List TransactWriteItem)
    {key : Bytes} (untouched : key ∉ transacts.map TransactWriteItem.key) :
    (applyTransaction table transacts).get key = table.get key := by
  induction transacts generalizing table with
  | nil => rfl
  | cons item rest ih =>
      simp only [List.map_cons, List.mem_cons, not_or] at untouched
      rw [← List.singleton_append, applyTransaction_append, ih _ untouched.2, applyTransaction_get]
      cases item with
      | put written value =>
          simp [TransactWriteItem.operation, WriteOperation.apply,
            show key ≠ written from untouched.1]
      | delete deleted =>
          simp [TransactWriteItem.operation, WriteOperation.apply,
            show key ≠ deleted from untouched.1]

theorem get_applyTransaction_congr {table other : MemoryStoreMap} (transacts : List TransactWriteItem)
    {key : Bytes} (same : table.get key = other.get key) :
    (applyTransaction table transacts).get key = (applyTransaction other transacts).get key := by
  rw [applyTransaction_get, applyTransaction_get]
  exact applyOperations_congr_at _ _ _ same

@[simp] theorem get_applyTransaction_put_self (table : MemoryStoreMap) (key value : Bytes) :
    (applyTransaction table [.put key value]).get key = some value := by
  simp [applyTransaction_get, TransactWriteItem.operation, WriteOperation.apply]

@[simp] theorem get_applyTransaction_delete_self (table : MemoryStoreMap) (key : Bytes) :
    (applyTransaction table [.delete key]).get key = none := by
  simp [applyTransaction_get, TransactWriteItem.operation, WriteOperation.apply]

/-- The items of a block as a transaction: its deletions, then its insertions. -/
def blockTransacts (block : SimpleUnorderedBatch) : List TransactWriteItem :=
  block.deletions.map .delete ++ block.insertions.map fun keyValue => .put keyValue.1 keyValue.2

theorem map_operation_blockTransacts (block : SimpleUnorderedBatch) :
    (blockTransacts block).map TransactWriteItem.operation = pointOperations block := by
  simp [blockTransacts, pointOperations, TransactWriteItem.operation, Function.comp_def]

theorem map_key_blockTransacts (block : SimpleUnorderedBatch) :
    (blockTransacts block).map TransactWriteItem.key =
      block.deletions ++ block.insertions.map (·.1) := by
  simp [blockTransacts, TransactWriteItem.key, Function.comp_def]

theorem applyTransaction_blockTransacts (table : MemoryStoreMap) (block : SimpleUnorderedBatch) :
    applyTransaction table (blockTransacts block) = MemoryClient.writeBatch table ⟨pointOperations block⟩ := by
  rw [applyTransaction, map_operation_blockTransacts]

namespace DynamoDbBatch

def blockItems (block : SimpleUnorderedBatch) : List JournalItem :=
  block.deletions.map .inl ++ block.insertions.map .inr

/-- The block that the loop is filling. -/
def JournalLoop.block (state : JournalLoop) : SimpleUnorderedBatch :=
  ⟨state.deletions, state.insertions⟩

/-- The entries that `write_journal` writes for `blocks`: each serialized at its position. -/
def journalEntries (baseKey : Bytes) (blocks : List SimpleUnorderedBatch) : List (Bytes × Bytes) :=
  blocks.mapIdx fun pos block => (entryKey baseKey pos, codec.encode block)

def entryPuts (baseKey : Bytes) (blocks : List SimpleUnorderedBatch) : List TransactWriteItem :=
  (journalEntries baseKey blocks).map fun entry => .put entry.1 entry.2

def EntryWrite (baseKey : Bytes) (item : TransactWriteItem) : Prop :=
  ∃ pos value, item = .put (entryKey baseKey pos) value

theorem entryPuts_concat (baseKey : Bytes) (blocks : List SimpleUnorderedBatch)
    (block : SimpleUnorderedBatch) :
    entryPuts baseKey (blocks ++ [block]) =
      entryPuts baseKey blocks ++ [.put (entryKey baseKey blocks.length) (codec.encode block)] := by
  simp [entryPuts, journalEntries, List.mapIdx_concat]

theorem entryWrite_of_mem_entryPuts {baseKey : Bytes} {blocks : List SimpleUnorderedBatch}
    {item : TransactWriteItem} (mem : item ∈ entryPuts baseKey blocks) : EntryWrite baseKey item := by
  simp only [entryPuts, journalEntries, List.mem_map, List.mem_mapIdx] at mem
  obtain ⟨entry, ⟨pos, _, rfl⟩, rfl⟩ := mem
  exact ⟨pos, _, rfl⟩

@[simp] theorem length_blockItems (block : SimpleUnorderedBatch) :
    (blockItems block).length = len block := by
  simp [blockItems, len]

theorem length_encode_eq (block : SimpleUnorderedBatch) :
    (codec.encode block).length = ((blockItems block).map itemSize).sum +
      getUleb128Size block.deletions.length + getUleb128Size block.insertions.length := by
  have items : ((blockItems block).map itemSize).sum = (block.deletions.map serializedSize).sum +
      (block.insertions.map fun keyValue => serializedSize keyValue.1 + serializedSize keyValue.2).sum := by
    simp only [blockItems, List.map_append, List.map_map, List.sum_append]
    rfl
  rw [length_encode_codec, items]
  omega

namespace JournalLoop

@[simp] theorem push_blockCount (state : JournalLoop) (item : JournalItem) :
    (state.push item).blockCount = state.blockCount := by
  cases item <;> rfl

@[simp] theorem push_transacts (state : JournalLoop) (item : JournalItem) :
    (state.push item).transacts = state.transacts := by
  cases item <;> rfl

theorem push_valueSize (state : JournalLoop) (item : JournalItem) :
    (state.push item).valueSize = state.valueSize + itemSize item := by
  cases item <;> rfl

theorem blockItems_push (state : JournalLoop) (item : JournalItem) :
    (blockItems (state.push item).block).Perm (blockItems state.block ++ [item]) := by
  cases item with
  | inl delete =>
      simp only [push, block, blockItems, List.map_append, List.map_singleton, List.append_assoc]
      exact List.Perm.append_left _ List.perm_append_comm
  | inr keyValue =>
      simp [push, block, blockItems]

theorem len_push (state : JournalLoop) (item : JournalItem) :
    len (state.push item).block = len state.block + 1 := by
  rw [← length_blockItems, (blockItems_push state item).length_eq]
  simp

theorem flushes_nil (state : JournalLoop) : state.flushes [] = (true, true) := rfl

theorem flushes_fst_of_snd (state : JournalLoop) (rest : List JournalItem)
    (transact : (state.flushes rest).2 = true) : (state.flushes rest).1 = true := by
  cases rest with
  | nil => rfl
  | cons next tail =>
      by_cases full : state.deletions.length + state.insertions.length = maxTransactWriteItemSize - 2
      · simp [flushes, full]
      · simp only [flushes, full, if_false, decide_eq_true_eq] at transact ⊢
        simp [transact]

theorem flushes_fst_of_full (state : JournalLoop) (rest : List JournalItem)
    (full : len state.block = maxTransactWriteItemSize - 2) : (state.flushes rest).1 = true := by
  have full' : state.deletions.length + state.insertions.length = maxTransactWriteItemSize - 2 := full
  cases rest with
  | nil => rfl
  | cons next tail => simp [flushes, full']

/-- With the size counted right, the `assert_eq!` holds, and the flush fails only as
`build_put_transact` does. -/
theorem flushValue_eq (baseKey : Bytes) (state : JournalLoop)
    (counted : state.valueSize = ((blockItems state.block).map itemSize).sum) :
    state.flushValue baseKey =
      match buildPutTransact (entryKey baseKey state.blockCount) (codec.encode state.block) with
      | .ok transact =>
          .ok ⟨0, state.transactSize + (codec.encode state.block).length, [], [],
            state.blockCount + 1, state.transacts ++ [transact]⟩
      | .error error => .error (.error error) := by
  have sized : (codec.encode state.block).length = state.valueSize +
      getUleb128Size state.deletions.length + getUleb128Size state.insertions.length := by
    rw [length_encode_eq, counted]
    rfl
  unfold flushValue
  simp only [block] at sized ⊢
  rw [← sized]
  cases built : buildPutTransact (entryKey baseKey state.blockCount) (codec.encode ⟨state.deletions, state.insertions⟩) <;>
    simp [entryKey, built, Except.mapError] at *

end JournalLoop

/-- What holds at the top of the loop of `write_journal`, with `drawn` the items drawn so far,
`sent` the puts submitted and `blocks` the blocks flushed. -/
structure LoopInvariant (baseKey : Bytes) (drawn : List JournalItem) (sent : List TransactWriteItem)
    (blocks : List SimpleUnorderedBatch) (state : JournalLoop) : Prop where
  blockCount : state.blockCount = blocks.length
  perm : (blocks.flatMap blockItems ++ blockItems state.block).Perm drawn
  blocksFit : ∀ block ∈ blocks, 0 < len block ∧ len block ≤ maxTransactWriteItemSize - 2
  blockFits : len state.block < maxTransactWriteItemSize - 2
  counted : state.valueSize = ((blockItems state.block).map itemSize).sum
  puts : sent ++ state.transacts = entryPuts baseKey blocks

namespace LoopInvariant

variable {baseKey : Bytes} {drawn : List JournalItem} {sent : List TransactWriteItem}
  {blocks : List SimpleUnorderedBatch} {state : JournalLoop}

theorem start (baseKey : Bytes) : LoopInvariant baseKey [] [] [] ⟨0, 0, [], [], 0, []⟩ where
  blockCount := rfl
  perm := by simp [JournalLoop.block, blockItems]
  blocksFit := by simp
  blockFits := by decide
  counted := rfl
  puts := rfl

theorem counted_push (inv : LoopInvariant baseKey drawn sent blocks state) (item : JournalItem) :
    (state.push item).valueSize = ((blockItems (state.push item).block).map itemSize).sum := by
  rw [JournalLoop.push_valueSize, inv.counted,
    ((JournalLoop.blockItems_push state item).map itemSize).sum_eq]
  simp

theorem keep (inv : LoopInvariant baseKey drawn sent blocks state) (item : JournalItem)
    (fits : len (state.push item).block < maxTransactWriteItemSize - 2) :
    LoopInvariant baseKey (drawn ++ [item]) sent blocks (state.push item) where
  blockCount := by rw [JournalLoop.push_blockCount, inv.blockCount]
  perm := by
    refine ((List.Perm.append_left _ (JournalLoop.blockItems_push state item)).trans ?_)
    rw [← List.append_assoc]
    exact inv.perm.append_right [item]
  blocksFit := inv.blocksFit
  blockFits := fits
  counted := inv.counted_push item
  puts := by rw [JournalLoop.push_transacts, inv.puts]

theorem flush (inv : LoopInvariant baseKey drawn sent blocks state) (item : JournalItem)
    {transact : TransactWriteItem}
    (built : buildPutTransact (entryKey baseKey state.blockCount)
      (codec.encode (state.push item).block) = .ok transact) (transactSize : Nat) :
    LoopInvariant baseKey (drawn ++ [item]) sent (blocks ++ [(state.push item).block])
      ⟨0, transactSize, [], [], state.blockCount + 1, state.transacts ++ [transact]⟩ where
  blockCount := by simp [inv.blockCount]
  perm := by
    simp only [List.flatMap_append, List.flatMap_singleton, JournalLoop.block, blockItems,
      List.map_nil, List.append_nil]
    refine (List.Perm.append_left _ (JournalLoop.blockItems_push state item)).trans ?_
    rw [← List.append_assoc]
    exact inv.perm.append_right [item]
  blocksFit := by
    intro block mem
    rcases List.mem_append.mp mem with old | new
    · exact inv.blocksFit block old
    · rw [List.mem_singleton.mp new, JournalLoop.len_push]
      have := inv.blockFits
      omega
  blockFits := by simp [JournalLoop.block, len, maxTransactWriteItemSize]
  counted := by simp [JournalLoop.block, blockItems]
  puts := by
    rw [eq_of_buildPutTransact built, ← List.append_assoc, inv.puts, entryPuts_concat,
      inv.blockCount]

theorem submit (inv : LoopInvariant baseKey drawn sent blocks state) :
    LoopInvariant baseKey drawn (sent ++ state.transacts) blocks
      { state with transacts := [], transactSize := 0 } where
  blockCount := inv.blockCount
  perm := inv.perm
  blocksFit := inv.blocksFit
  blockFits := inv.blockFits
  counted := inv.counted
  puts := by rw [List.append_nil, inv.puts]

theorem entryWrite (inv : LoopInvariant baseKey drawn sent blocks state) :
    ∀ item ∈ state.transacts, EntryWrite baseKey item := by
  intro item mem
  apply entryWrite_of_mem_entryPuts
  rw [← inv.puts]
  exact List.mem_append_right _ mem

end LoopInvariant

/-- What a run of the loop of `write_journal` from `before` to `after` did, with the puts
`sent` before it: it did not panic, every transaction it carried out puts entries, and if it
returned a count, it wrote that many blocks, which hold `items`. -/
structure LoopOutcome (baseKey : Bytes) (items : List JournalItem) (sent : List TransactWriteItem)
    (before after : Session MemoryStoreMap (List TransactWriteItem))
    (result : Except (Failure DynamoDbContextError) Nat) : Prop where
  notPanic : result ≠ .error .panic
  sends : ∃ requests, Session.Extends applyTransaction before after requests ∧
    (∀ request ∈ requests, ∀ item ∈ request, EntryWrite baseKey item) ∧
    ∀ count, result = .ok count → ∃ blocks, count = blocks.length ∧
      (blocks.flatMap blockItems).Perm items ∧
      (∀ block ∈ blocks, 0 < len block ∧ len block ≤ maxTransactWriteItemSize - 2) ∧
      sent ++ requests.flatten = entryPuts baseKey blocks

namespace LoopOutcome

variable {baseKey : Bytes} {items : List JournalItem} {sent : List TransactWriteItem}
  {before middle after : Session MemoryStoreMap (List TransactWriteItem)}
  {result : Except (Failure DynamoDbContextError) Nat}

theorem error (session : Session MemoryStoreMap (List TransactWriteItem)) (error : DynamoDbContextError) :
    LoopOutcome baseKey items sent session session (.error (.error error)) where
  notPanic := by simp
  sends := ⟨[], Session.extends_refl _ _, by simp, by simp⟩

theorem submit {transacts : List TransactWriteItem} (writes : ∀ item ∈ transacts, EntryWrite baseKey item)
    (sending : middle = if transacts = [] then before else before.send applyTransaction transacts)
    (rest : LoopOutcome baseKey items (sent ++ transacts) middle after result) :
    LoopOutcome baseKey items sent before after result := by
  obtain ⟨requests, extended, puts, finished⟩ := rest.sends
  by_cases empty : transacts = []
  · subst empty
    rw [if_pos rfl] at sending
    subst sending
    rw [List.append_nil] at finished
    exact ⟨rest.notPanic, requests, extended, puts, finished⟩
  · rw [if_neg empty] at sending
    subst sending
    refine ⟨rest.notPanic, transacts :: requests,
      Session.Extends.trans applyTransaction (Session.extends_send _ _ _) extended, ?_, ?_⟩
    · intro request mem
      rcases List.mem_cons.mp mem with rfl | later
      · exact writes
      · exact puts request later
    · intro count returned
      obtain ⟨blocks, counted, perm, fit, written⟩ := finished count returned
      refine ⟨blocks, counted, perm, fit, ?_⟩
      rw [List.flatten_cons, ← List.append_assoc, written]

end LoopOutcome

/-- The loop of `write_journal`, from a state that keeps the invariant, whose block and
pending puts are empty once nothing is left to draw. -/
theorem writeJournalLoop_run (baseKey : Bytes) (rest : List JournalItem) :
    ∀ {drawn : List JournalItem} {sent : List TransactWriteItem} {blocks : List SimpleUnorderedBatch}
      {state : JournalLoop} (session : Session MemoryStoreMap (List TransactWriteItem)),
      LoopInvariant baseKey drawn sent blocks state →
      (rest = [] → state.block = ⟨[], []⟩ ∧ state.transacts = []) →
      LoopOutcome baseKey (drawn ++ rest) sent session (writeJournalLoop baseKey rest state session).2
        (writeJournalLoop baseKey rest state session).1 := by
  induction rest with
  | nil =>
      intro drawn sent blocks state session inv drained
      obtain ⟨empty, pending⟩ := drained rfl
      refine ⟨by simp [writeJournalLoop], [], by simpa [writeJournalLoop] using Session.extends_refl _ session,
        by simp, ?_⟩
      intro count returned
      simp only [writeJournalLoop, Program.run_pure, Except.ok.injEq] at returned
      refine ⟨blocks, returned ▸ inv.blockCount, ?_, inv.blocksFit, ?_⟩
      · simpa [empty, blockItems] using inv.perm
      · simpa [pending] using inv.puts
  | cons item rest ih =>
      intro drawn sent blocks state session inv drained
      rw [show drawn ++ item :: rest = (drawn ++ [item]) ++ rest by simp]
      have fitsPushed : len (state.push item).block ≤ maxTransactWriteItemSize - 2 := by
        have := inv.blockFits
        rw [JournalLoop.len_push]
        omega
      simp only [writeJournalLoop]
      cases flags : (state.push item).flushes rest with
      | mk valueFlush transactFlush =>
      have withTransact : transactFlush = true → valueFlush = true := by
        intro transact
        have := JournalLoop.flushes_fst_of_snd _ rest (by rw [flags]; exact transact)
        rwa [flags] at this
      have whenFull : len (state.push item).block = maxTransactWriteItemSize - 2 → valueFlush = true := by
        intro full
        have := JournalLoop.flushes_fst_of_full _ rest full
        rwa [flags] at this
      have atEnd : rest = [] → valueFlush = true ∧ transactFlush = true := by
        rintro rfl
        rw [JournalLoop.flushes_nil] at flags
        cases flags
        exact ⟨rfl, rfl⟩
      simp only
      cases valueFlush with
      | false =>
          -- No flush: the item stays in the block, which is not full.
          have noTransact : transactFlush = false := by
            cases transactFlush
            · rfl
            · exact absurd (withTransact rfl) (by simp)
          subst noTransact
          have fits : len (state.push item).block < maxTransactWriteItemSize - 2 := by
            rcases Nat.lt_or_eq_of_le fitsPushed with below | full
            · exact below
            · exact absurd (whenFull full) (by simp)
          simpa using ih session (inv.keep item fits)
            (fun done => absurd (atEnd done).1 (by simp))
      | true =>
          -- The block is flushed into an entry, or the flush fails as `build_put_transact`.
          simp only [if_true, Program.run_bind, Program.run_ofExcept,
            JournalLoop.flushValue_eq baseKey _ (inv.counted_push item), JournalLoop.push_blockCount]
          cases built : buildPutTransact (entryKey baseKey state.blockCount)
              (codec.encode (state.push item).block) with
          | error error => exact LoopOutcome.error session error
          | ok transact =>
              have flushed := inv.flush item built
                ((state.push item).transactSize + (codec.encode (state.push item).block).length)
              simp only
              cases transactFlush with
              | false =>
                  simpa using ih session flushed (fun done => absurd (atEnd done).2 (by simp))
              | true =>
                  simp only [if_true, Program.run_bind, submitTransactions_run,
                    JournalLoop.push_transacts]
                  by_cases many : maxTransactWriteItemSize < (state.transacts ++ [transact]).length
                  · simp only [many, if_true]
                    exact LoopOutcome.error session _
                  · simp only [many, if_false]
                    exact LoopOutcome.submit flushed.entryWrite rfl
                      (ih _ flushed.submit (fun _ => ⟨rfl, rfl⟩))

end DynamoDbBatch

theorem writeBatch_append (table : MemoryStoreMap) (first second : List WriteOperation) :
    MemoryClient.writeBatch table ⟨first ++ second⟩ =
      MemoryClient.writeBatch (MemoryClient.writeBatch table ⟨first⟩) ⟨second⟩ := by
  simp [MemoryClient.writeBatch, List.foldl_append]

namespace TransactionBuilder

theorem insertDeleteRequest_of_valid (builder : TransactionBuilder) {key : Bytes} (valid : ValidKey key) :
    builder.insertDeleteRequest key = .ok ⟨builder.transacts ++ [.delete key]⟩ := by
  simp [insertDeleteRequest, buildDeleteTransact_of_valid valid]

theorem insertPutRequest_of_valid (builder : TransactionBuilder) {key value : Bytes} (valid : ValidKey key)
    (small : value.length ≤ rawMaxValueBytes) :
    builder.insertPutRequest key value = .ok ⟨builder.transacts ++ [.put key value]⟩ := by
  simp [insertPutRequest, buildPutTransact_of_valid valid small]

theorem foldl_append_transacts {α : Type} (builder : TransactionBuilder) (items : List α)
    (transact : α → TransactWriteItem) :
    items.foldl (fun builder item => (⟨builder.transacts ++ [transact item]⟩ : TransactionBuilder)) builder =
      ⟨builder.transacts ++ items.map transact⟩ := by
  induction items generalizing builder with
  | nil => simp
  | cons item rest ih => simp [ih]

theorem insertBatch_of_valid (builder : TransactionBuilder) (block : SimpleUnorderedBatch)
    (deletions : ∀ key ∈ block.deletions, ValidKey key)
    (insertions : ∀ keyValue ∈ block.insertions,
      ValidKey keyValue.1 ∧ keyValue.2.length ≤ rawMaxValueBytes) :
    builder.insertBatch block = .ok ⟨builder.transacts ++ blockTransacts block⟩ := by
  have deleted := Except.foldlM_eq_ok_foldl block.deletions builder
    (fun key mem acc => insertDeleteRequest_of_valid acc (deletions key mem))
  have inserted := Except.foldlM_eq_ok_foldl block.insertions
    ⟨builder.transacts ++ block.deletions.map .delete⟩
    (fun keyValue mem acc =>
      insertPutRequest_of_valid acc (insertions keyValue mem).1 (insertions keyValue mem).2)
  rw [foldl_append_transacts] at deleted inserted
  simp only [insertBatch, deleted]
  exact inserted.trans (by simp [blockTransacts])

end TransactionBuilder

namespace DynamoDb

/-- The header operation of the transaction that leaves `count` blocks: a put of the count,
or the deletion of the header once none is left. -/
def headerTransact (baseKey : Bytes) (count : Nat) : TransactWriteItem :=
  if 0 < count then .put (headerKey baseKey) (JournalHeader.toBytes ⟨count⟩)
  else .delete (headerKey baseKey)

@[simp] theorem key_headerTransact (baseKey : Bytes) (count : Nat) :
    (headerTransact baseKey count).key = headerKey baseKey := by
  unfold headerTransact
  split <;> rfl

/-- The transaction that applies `block`, the block at position `count`, and leaves `count`
blocks. -/
def resolveTransacts (baseKey : Bytes) (block : SimpleUnorderedBatch) (count : Nat) :
    List TransactWriteItem :=
  [.delete (entryKey baseKey count)] ++ blockTransacts block ++ [headerTransact baseKey count]

end DynamoDb

theorem DynamoDbBatch.addJournalHeaderOperations_of_short (builder : TransactionBuilder)
    (count : Nat) {baseKey : Bytes} (short : baseKey.length + 6 ≤ maxKeyBytes) :
    DynamoDbBatch.addJournalHeaderOperations builder ⟨count⟩ baseKey =
      .ok ⟨builder.transacts ++ [headerTransact baseKey count]⟩ := by
  have valid : ValidKey (headerKey baseKey) := by
    simp only [ValidKey, headerKey, length_getJournalingKey]
    omega
  unfold DynamoDbBatch.addJournalHeaderOperations headerTransact
  by_cases pending : 0 < count
  · simp only [if_pos pending]
    exact TransactionBuilder.insertPutRequest_of_valid _ valid (by simp [JournalHeader.toBytes, rawMaxValueBytes])
  · simp only [if_neg pending]
    exact TransactionBuilder.insertDeleteRequest_of_valid _ valid

/-- What resolving the journal of `blocks` needs: journaling keys that DynamoDB takes, fewer
than `2 ^ 32` blocks, blocks that fit in a transaction with the entry's deletion and the
header, and keys of the blocks that DynamoDB takes, outside the journal, and values that it
takes. -/
structure Resolvable (baseKey : Bytes) (blocks : List SimpleUnorderedBatch) : Prop where
  short : baseKey.length + 6 ≤ maxKeyBytes
  few : blocks.length < 2 ^ 32
  fit : ∀ block ∈ blocks, len block ≤ maxTransactWriteItemSize - 2
  deletions : ∀ block ∈ blocks, ∀ key ∈ block.deletions, ValidKey key ∧ ¬ InJournal baseKey key
  insertions : ∀ block ∈ blocks, ∀ keyValue ∈ block.insertions,
    ValidKey keyValue.1 ∧ ¬ InJournal baseKey keyValue.1 ∧ keyValue.2.length ≤ rawMaxValueBytes

/-- The table in the middle of the journaled write of `blocks` from `start`, with `count`
blocks left: the header holds the count, the entries the blocks left, and the table outside
the journal has the other blocks applied, the last one first. -/
structure Journaled (baseKey : Bytes) (blocks : List SimpleUnorderedBatch) (start : MemoryStoreMap)
    (count : Nat) (table : MemoryStoreMap) : Prop where
  le : count ≤ blocks.length
  header : table.get (headerKey baseKey) = if count = 0 then none else some (JournalHeader.toBytes ⟨count⟩)
  entries : ∀ pos < count, table.get (entryKey baseKey pos) = blocks[pos]?.map codec.encode
  user : UserEq baseKey table
    (MemoryClient.writeBatch start ⟨(blocks.drop count).reverse.flatMap pointOperations⟩)

namespace Journaled

variable {baseKey : Bytes} {blocks : List SimpleUnorderedBatch} {start : MemoryStoreMap}

theorem not_inJournal_of_mem_block (resolvable : Resolvable baseKey blocks) {block : SimpleUnorderedBatch}
    (member : block ∈ blocks) {key : Bytes} (named : key ∈ (blockTransacts block).map TransactWriteItem.key) :
    ¬ InJournal baseKey key := by
  rw [map_key_blockTransacts] at named
  rcases List.mem_append.mp named with deleted | inserted
  · exact (resolvable.deletions block member key deleted).2
  · obtain ⟨keyValue, mem, rfl⟩ := List.mem_map.mp inserted
    exact (resolvable.insertions block member keyValue mem).2.1

/-- One transaction of `coherently_resolve_journal` takes the journal from `count + 1` blocks
left to `count`. -/
theorem resolve {count : Nat} {table : MemoryStoreMap} (resolvable : Resolvable baseKey blocks)
    (journaled : Journaled baseKey blocks start (count + 1) table) {block : SimpleUnorderedBatch}
    (found : blocks[count]? = some block) :
    Journaled baseKey blocks start count (applyTransaction table (resolveTransacts baseKey block count)) := by
  obtain ⟨below, rfl⟩ := List.getElem?_eq_some_iff.mp found
  have member : blocks[count] ∈ blocks := List.getElem_mem below
  have journalKey : ∀ key, InJournal baseKey key → key ∉ (blockTransacts blocks[count]).map TransactWriteItem.key :=
    fun key inside named => not_inJournal_of_mem_block resolvable member named inside
  refine ⟨by omega, ?_, ?_, ?_⟩
  · -- The header operation comes last and no other item names the header.
    rw [resolveTransacts, applyTransaction_append]
    unfold headerTransact
    by_cases pending : 0 < count
    · simp [pending, Nat.pos_iff_ne_zero.mp pending]
    · simp [show count = 0 by omega]
  · intro pos earlier
    rw [get_applyTransaction_of_not_mem, journaled.entries pos (by omega)]
    simp only [resolveTransacts, List.map_append, List.map_cons, List.map_nil, List.mem_append,
      List.mem_cons, List.not_mem_nil, or_false, not_or]
    refine ⟨⟨fun same => ?_, journalKey _ (entryKey_inJournal baseKey pos)⟩, ?_⟩
    · have := entryKey_inj (by have := resolvable.few; omega) (by have := resolvable.few; omega) same
      omega
    · rw [key_headerTransact]
      exact fun same => headerKey_ne_entryKey baseKey pos same.symm
  · intro key outside
    have notHeader : key ≠ headerKey baseKey := ne_of_inJournal (headerKey_inJournal baseKey) outside
    rw [resolveTransacts, applyTransaction_append, get_applyTransaction_of_not_mem _ [_]
      (by simpa using notHeader), applyTransaction_append,
      get_applyTransaction_congr _ (get_applyTransaction_of_not_mem table _
        (by simpa using ne_of_inJournal (entryKey_inJournal baseKey count) outside)),
      get_applyTransaction_congr _ (journaled.user key outside), applyTransaction_blockTransacts,
      ← writeBatch_append, List.drop_eq_getElem_cons below, List.reverse_cons, List.flatMap_append,
      List.flatMap_singleton]

end Journaled

namespace JournalHeader

variable {baseKey : Bytes} {blocks : List SimpleUnorderedBatch} {start : MemoryStoreMap}

theorem validKey_entryKey (resolvable : Resolvable baseKey blocks) (pos : Nat) :
    ValidKey (entryKey baseKey pos) := by
  have := resolvable.short
  simp only [ValidKey, entryKey, length_getJournalingKey]
  omega

theorem length_resolveTransacts (baseKey : Bytes) (block : SimpleUnorderedBatch) (count : Nat) :
    (resolveTransacts baseKey block count).length = len block + 2 := by
  simp [resolveTransacts, blockTransacts, len]
  omega

theorem coherentlyResolveJournalLoop_succ (resolvable : Resolvable baseKey blocks) {count : Nat}
    {session : Session MemoryStoreMap (List TransactWriteItem)}
    (journaled : Journaled baseKey blocks start (count + 1) session.state)
    {block : SimpleUnorderedBatch} (found : blocks[count]? = some block) :
    coherentlyResolveJournalLoop baseKey (count + 1) session =
      coherentlyResolveJournalLoop baseKey count
        (session.send applyTransaction (resolveTransacts baseKey block count)) := by
  have member : block ∈ blocks := List.mem_of_getElem? found
  have stored : session.state.get (entryKey baseKey count) = some (codec.encode block) := by
    rw [journaled.entries count (by omega), found]
    rfl
  have built : (do
      let builder ← TransactionBuilder.insertDeleteRequest ⟨[]⟩ (entryKey baseKey count)
      let builder ← builder.insertBatch block
      DynamoDbBatch.addJournalHeaderOperations builder ⟨count⟩ baseKey) =
        Except.ok ⟨resolveTransacts baseKey block count⟩ := by
    rw [TransactionBuilder.insertDeleteRequest_of_valid _ (validKey_entryKey resolvable count),
      Except.ok_bind, TransactionBuilder.insertBatch_of_valid _ block
        (fun key mem => (resolvable.deletions block member key mem).1)
        (fun keyValue mem => ⟨(resolvable.insertions block member keyValue mem).1,
          (resolvable.insertions block member keyValue mem).2.2⟩),
      Except.ok_bind, DynamoDbBatch.addJournalHeaderOperations_of_short _ count resolvable.short]
    rfl
  have fits : ¬ maxTransactWriteItemSize < (resolveTransacts baseKey block count).length := by
    have := resolvable.fit block member
    rw [length_resolveTransacts]
    simp only [maxTransactWriteItemSize] at this ⊢
    omega
  have nonempty : resolveTransacts baseKey block count ≠ [] := by simp [resolveTransacts]
  simp only [entryKey] at stored built
  rw [coherentlyResolveJournalLoop]
  simp only [Program.run_bind, readKey_of_some stored (fromBytes_encode block), DynamoDbM.ofResult,
    built, Except.mapError, Program.run_ofExcept, TransactionBuilder.submit, submitTransactions_run,
    fits, nonempty, if_false]

/-- From a journal with `count` blocks left, the loop applies them all; a crash inside it
leaves the journal with fewer blocks left. -/
theorem coherentlyResolveJournalLoop_run (resolvable : Resolvable baseKey blocks) (count : Nat) :
    ∀ session : Session MemoryStoreMap (List TransactWriteItem),
      Journaled baseKey blocks start count session.state →
      ∃ requests after, coherentlyResolveJournalLoop baseKey count session = (.ok (), after) ∧
        Session.Extends applyTransaction session after requests ∧
        Journaled baseKey blocks start 0 after.state ∧
        ∀ state, Session.CrashState applyTransaction session.state requests state →
          ∃ left, Journaled baseKey blocks start left state := by
  induction count with
  | zero =>
      intro session journaled
      refine ⟨[], session, rfl, Session.extends_refl _ session, journaled, fun state crash => ?_⟩
      rw [Session.crashState_nil] at crash
      exact ⟨0, crash ▸ journaled⟩
  | succ count ih =>
      intro session journaled
      obtain ⟨block, found⟩ : ∃ block, blocks[count]? = some block :=
        Option.isSome_iff_exists.mp (by simpa using journaled.le)
      have resolved := journaled.resolve resolvable found
      obtain ⟨requests, after, run, extended, finished, crashes⟩ :=
        ih (session.send applyTransaction (resolveTransacts baseKey block count)) resolved
      refine ⟨resolveTransacts baseKey block count :: requests, after, ?_,
        Session.Extends.trans applyTransaction (Session.extends_send _ _ _) extended, finished, ?_⟩
      · rw [coherentlyResolveJournalLoop_succ resolvable journaled found, run]
      · intro state crash
        rcases (Session.crashState_cons applyTransaction).mp crash with rfl | later
        · exact ⟨count + 1, journaled⟩
        · exact crashes state later

end JournalHeader

namespace DynamoDb

/-- A table with no journal header, and outside the journal as it was before a write or as
the write leaves it. -/
def Settled (baseKey : Bytes) (start target table : MemoryStoreMap) : Prop :=
  table.get (headerKey baseKey) = none ∧ (UserEq baseKey table start ∨ UserEq baseKey table target)

/-- A table that a crash during the write of `blocks` from `start` to `target` can leave:
settled, or the journal with some blocks left. -/
def Consistent (baseKey : Bytes) (blocks : List SimpleUnorderedBatch) (start target table : MemoryStoreMap) :
    Prop :=
  Settled baseKey start target table ∨ ∃ count, 0 < count ∧ Journaled baseKey blocks start count table

/-- The tables that runs of `clear_journal` cut short by crashes leave, from `table` on. -/
inductive Retried (baseKey : Bytes) : MemoryStoreMap → MemoryStoreMap → Prop
  | refl (table : MemoryStoreMap) : Retried baseKey table table
  | crash {table middle after : MemoryStoreMap} : Retried baseKey table middle →
      Session.CrashState applyTransaction middle
        (DynamoDbClientInternal.clearJournal baseKey ⟨middle, []⟩).2.sent after →
      Retried baseKey table after

theorem Retried.induction {baseKey : Bytes} (holds : MemoryStoreMap → Prop)
    (keeps : ∀ table, holds table → ∀ state, Session.CrashState applyTransaction table
      (DynamoDbClientInternal.clearJournal baseKey ⟨table, []⟩).2.sent state → holds state)
    {first last : MemoryStoreMap} (retried : Retried baseKey first last) (initially : holds first) :
    holds last := by
  induction retried with
  | refl => exact initially
  | crash _ crash ih => exact keeps _ ih _ crash

end DynamoDb

namespace DynamoDbBatch

variable {baseKey : Bytes} {blocks : List SimpleUnorderedBatch}

theorem map_fst_journalEntries (baseKey : Bytes) (blocks : List SimpleUnorderedBatch) :
    (journalEntries baseKey blocks).map Prod.fst = (List.range blocks.length).map (entryKey baseKey) := by
  apply List.ext_getElem <;> simp [journalEntries]

theorem nodup_journalEntries (few : blocks.length < 2 ^ 32) :
    ((journalEntries baseKey blocks).map Prod.fst).Nodup := by
  rw [map_fst_journalEntries]
  refine List.nodup_range.map_on fun pos mem pos' mem' same => ?_
  rw [List.mem_range] at mem mem'
  exact entryKey_inj (by omega) (by omega) same

theorem get_entryPuts (table : MemoryStoreMap) (few : blocks.length < 2 ^ 32) {pos : Nat}
    (below : pos < blocks.length) :
    (applyTransaction table (entryPuts baseKey blocks)).get (entryKey baseKey pos) =
      blocks[pos]?.map codec.encode := by
  have mem : (entryKey baseKey pos, codec.encode blocks[pos]) ∈ journalEntries baseKey blocks :=
    List.mem_mapIdx.mpr ⟨pos, by simpa using below, by simp⟩
  have operations : (entryPuts baseKey blocks).map TransactWriteItem.operation =
      (journalEntries baseKey blocks).map fun entry => WriteOperation.put entry.1 entry.2 := by
    simp [entryPuts, TransactWriteItem.operation, Function.comp_def]
  rw [applyTransaction_get, operations,
    applyOperations_puts_of_mem _ _ (nodup_journalEntries few) mem, List.getElem?_eq_getElem below]
  rfl

theorem get_foldl_of_entryWrites {requests : List (List TransactWriteItem)}
    (writes : ∀ request ∈ requests, ∀ item ∈ request, EntryWrite baseKey item) (table : MemoryStoreMap)
    {key : Bytes} (notEntry : ∀ pos, key ≠ entryKey baseKey pos) :
    (requests.foldl applyTransaction table).get key = table.get key := by
  rw [foldl_applyTransaction, get_applyTransaction_of_not_mem]
  intro named
  obtain ⟨item, mem, same⟩ := List.mem_map.mp named
  obtain ⟨request, member, inside⟩ := List.mem_flatten.mp mem
  obtain ⟨pos, value, rfl⟩ := writes request member item inside
  exact notEntry pos same.symm

theorem notEntry_of_not_inJournal {key : Bytes} (outside : ¬ InJournal baseKey key) (pos : Nat) :
    key ≠ entryKey baseKey pos :=
  ne_of_inJournal (entryKey_inJournal baseKey pos) outside

theorem settled_of_entryWrites {requests : List (List TransactWriteItem)}
    (writes : ∀ request ∈ requests, ∀ item ∈ request, EntryWrite baseKey item)
    {start target state : MemoryStoreMap} (absent : start.get (headerKey baseKey) = none)
    (crash : Session.CrashState applyTransaction start requests state) :
    Settled baseKey start target state := by
  obtain ⟨count, rfl⟩ := crash
  have prefixWrites : ∀ request ∈ requests.take count, ∀ item ∈ request, EntryWrite baseKey item :=
    fun request member => writes request (List.mem_of_mem_take member)
  refine ⟨?_, .inl fun key outside => ?_⟩
  · rw [get_foldl_of_entryWrites prefixWrites _ (headerKey_ne_entryKey baseKey), absent]
  · exact get_foldl_of_entryWrites prefixWrites _ (notEntry_of_not_inJournal outside)

theorem length_le_len {batch : SimpleUnorderedBatch} (perm : (blocks.flatMap blockItems).Perm (blockItems batch))
    (fit : ∀ block ∈ blocks, 0 < len block ∧ len block ≤ maxTransactWriteItemSize - 2) :
    blocks.length ≤ len batch := by
  have sizes : (blocks.map len).sum = len batch := by
    rw [← length_blockItems, ← perm.length_eq, List.length_flatMap]
    simp
  have counted := List.length_le_sum_of_one_le (blocks.map len)
    (fun size mem => by
      obtain ⟨block, member, rfl⟩ := List.mem_map.mp mem
      exact (fit block member).1)
  rw [List.length_map] at counted
  omega

theorem journaled_of_entryPuts {start table : MemoryStoreMap} (few : blocks.length < 2 ^ 32)
    (header : table.get (headerKey baseKey) =
      if blocks.length = 0 then none else some (JournalHeader.toBytes ⟨blocks.length⟩))
    (rest : ∀ key, key ≠ headerKey baseKey →
      table.get key = (applyTransaction start (entryPuts baseKey blocks)).get key) :
    Journaled baseKey blocks start blocks.length table where
  le := le_rfl
  header := header
  entries pos below := by
    rw [rest _ (headerKey_ne_entryKey baseKey pos).symm, get_entryPuts start few below]
  user key outside := by
    have notPut : key ∉ (entryPuts baseKey blocks).map TransactWriteItem.key := by
      intro named
      obtain ⟨item, mem, same⟩ := List.mem_map.mp named
      obtain ⟨pos, value, rfl⟩ := entryWrite_of_mem_entryPuts mem
      exact notEntry_of_not_inJournal outside pos same.symm
    rw [rest key (ne_of_inJournal (headerKey_inJournal baseKey) outside),
      get_applyTransaction_of_not_mem _ _ notPut, List.drop_length]
    rfl

/-- `write_journal` from a table without a header: a crash leaves the table settled as it
was, or the complete journal of the blocks; an error leaves it settled as it was; if it
returns, it wrote the complete journal. -/
theorem writeJournal_run (batch : SimpleUnorderedBatch) (baseKey : Bytes)
    (session : Session MemoryStoreMap (List TransactWriteItem)) (few : len batch < 2 ^ 32)
    (absent : session.state.get (headerKey baseKey) = none) (target : MemoryStoreMap) :
    ∃ blocks requests,
      Session.Extends applyTransaction session (writeJournal batch baseKey session).2 requests ∧
      (∀ state, Session.CrashState applyTransaction session.state requests state →
        Consistent baseKey blocks session.state target state) ∧
      (∀ error, (writeJournal batch baseKey session).1 = .error error →
        ∀ state, Session.CrashState applyTransaction session.state requests state →
          Settled baseKey session.state target state) ∧
      ∀ header, (writeJournal batch baseKey session).1 = .ok header →
        header.blockCount = blocks.length ∧ (blocks.flatMap blockItems).Perm (blockItems batch) ∧
        (∀ block ∈ blocks, 0 < len block ∧ len block ≤ maxTransactWriteItemSize - 2) ∧
        Journaled baseKey blocks session.state blocks.length (writeJournal batch baseKey session).2.state := by
  have outcome := writeJournalLoop_run baseKey (blockItems batch) session (LoopInvariant.start baseKey)
    (fun _ => ⟨rfl, rfl⟩)
  rw [List.nil_append] at outcome
  obtain ⟨entries, extended, writes, finished⟩ := outcome.sends
  have settledEntries : ∀ state, Session.CrashState applyTransaction session.state entries state →
      Settled baseKey session.state target state :=
    fun state crash => settled_of_entryWrites writes absent crash
  have crashEntries : ∀ blocks state, Session.CrashState applyTransaction session.state entries state →
      Consistent baseKey blocks session.state target state :=
    fun _ state crash => .inl (settledEntries state crash)
  have items : batch.deletions.map Sum.inl ++ batch.insertions.map Sum.inr = blockItems batch := rfl
  unfold writeJournal
  simp only [Program.run_bind, items]
  revert extended finished
  cases writeJournalLoop baseKey (blockItems batch) ⟨0, 0, [], [], 0, []⟩ session with
  | mk result after =>
  intro extended finished
  cases result with
  | error error =>
      exact ⟨[], entries, extended, crashEntries [], fun _ _ => settledEntries,
        fun header returned => by cases returned⟩
  | ok count =>
  obtain ⟨blocks, counted, perm, fit, written⟩ := finished count rfl
  have fewBlocks : blocks.length < 2 ^ 32 := lt_of_le_of_lt (length_le_len perm fit) few
  have entriesPut : entries.foldl applyTransaction session.state =
      applyTransaction session.state (entryPuts baseKey blocks) := by
    rw [foldl_applyTransaction, ← written, List.nil_append]
  subst counted
  have afterEntries : after.state = applyTransaction session.state (entryPuts baseKey blocks) := by
    rw [extended.2, entriesPut]
  have rest : ∀ key, after.state.get key = (applyTransaction session.state (entryPuts baseKey blocks)).get key :=
    fun key => by rw [afterEntries]
  have headerKeyEq : getJournalingKey baseKey KeyTag.journal.byte 0 = headerKey baseKey := rfl
  simp only [gt_iff_lt, headerKeyEq]
  by_cases pending : 0 < blocks.length
  · -- The header is written last, in a request of its own.
    simp only [pending, if_true, Program.run_bind, writeSingleKeyValue_run]
    cases built : buildPutTransact (headerKey baseKey) (JournalHeader.toBytes ⟨blocks.length⟩) with
    | error error =>
        exact ⟨[], entries, extended, crashEntries [], fun _ _ => settledEntries,
          fun header returned => by cases returned⟩
    | ok transact =>
    obtain rfl := eq_of_buildPutTransact built
    have journaled : Journaled baseKey blocks session.state blocks.length
        (applyTransaction after.state [.put (headerKey baseKey) (JournalHeader.toBytes ⟨blocks.length⟩)]) :=
      journaled_of_entryPuts fewBlocks (by simp [Nat.pos_iff_ne_zero.mp pending])
        (fun key other => by rw [get_applyTransaction_of_not_mem _ _ (by simpa using other), rest])
    refine ⟨blocks, entries ++ [[.put (headerKey baseKey) (JournalHeader.toBytes ⟨blocks.length⟩)]],
      Session.Extends.trans _ extended (Session.extends_send _ _ _), fun state crash => ?_,
      fun error returned => by simp at returned, fun header returned => ?_⟩
    · rcases (Session.crashState_append _).mp crash with early | late
      · exact crashEntries blocks state early
      · rw [← extended.2, Session.crashState_cons, Session.crashState_nil] at late
        rcases late with rfl | rfl
        · rw [extended.2]
          exact crashEntries blocks _ (Session.crashState_all _ _ _)
        · exact .inr ⟨blocks.length, pending, journaled⟩
    · simp only [Program.run_pure, Except.ok.injEq] at returned
      subst returned
      exact ⟨rfl, perm, fit, journaled⟩
  · -- Without blocks, there is no header to write.
    have empty : blocks.length = 0 := by omega
    simp only [pending, if_false, Program.run_pure]
    refine ⟨blocks, entries, extended, crashEntries blocks, fun error returned => by simp at returned,
      fun header returned => ?_⟩
    simp only [Except.ok.injEq] at returned
    subst returned
    refine ⟨rfl, perm, fit, journaled_of_entryPuts fewBlocks ?_ (fun key _ => rest key)⟩
    rw [if_pos empty, extended.2, get_foldl_of_entryWrites writes _ (headerKey_ne_entryKey baseKey), absent]

end DynamoDbBatch

namespace Journaled

variable {baseKey : Bytes} {blocks : List SimpleUnorderedBatch} {start target : MemoryStoreMap}

theorem applied {table : MemoryStoreMap} (journaled : Journaled baseKey blocks start 0 table)
    (written : UserEq baseKey (MemoryClient.writeBatch start ⟨blocks.reverse.flatMap pointOperations⟩) target) :
    table.get (headerKey baseKey) = none ∧ UserEq baseKey table target :=
  ⟨by simpa using journaled.header, by simpa using journaled.user.trans written⟩

theorem settled {table : MemoryStoreMap} (journaled : Journaled baseKey blocks start 0 table)
    (written : UserEq baseKey (MemoryClient.writeBatch start ⟨blocks.reverse.flatMap pointOperations⟩) target) :
    Settled baseKey start target table :=
  ⟨(journaled.applied written).1, .inr (journaled.applied written).2⟩

theorem consistent {count : Nat} {table : MemoryStoreMap} (journaled : Journaled baseKey blocks start count table)
    (written : UserEq baseKey (MemoryClient.writeBatch start ⟨blocks.reverse.flatMap pointOperations⟩) target) :
    Consistent baseKey blocks start target table := by
  rcases Nat.eq_zero_or_pos count with rfl | pending
  · exact .inl (journaled.settled written)
  · exact .inr ⟨count, pending, journaled⟩

end Journaled

namespace DynamoDbClientInternal

variable {baseKey : Bytes} {blocks : List SimpleUnorderedBatch} {start target : MemoryStoreMap}

theorem clearJournal_of_absent {session : Session MemoryStoreMap (List TransactWriteItem)}
    (absent : session.state.get (headerKey baseKey) = none) :
    clearJournal baseKey session = (.ok (), session) := by
  simp only [headerKey] at absent
  simp [clearJournal, readKey_of_none _ absent]

/-- From a consistent table, `clear_journal` settles it, and a crash inside it leaves a
consistent table. -/
theorem clearJournal_run (resolvable : Resolvable baseKey blocks)
    (written : UserEq baseKey (MemoryClient.writeBatch start ⟨blocks.reverse.flatMap pointOperations⟩) target)
    (session : Session MemoryStoreMap (List TransactWriteItem))
    (consistent : Consistent baseKey blocks start target session.state) :
    ∃ requests after, clearJournal baseKey session = (.ok (), after) ∧
      Session.Extends applyTransaction session after requests ∧
      Settled baseKey start target after.state ∧
      ∀ state, Session.CrashState applyTransaction session.state requests state →
        Consistent baseKey blocks start target state := by
  rcases consistent with settled | ⟨count, pending, journaled⟩
  · refine ⟨[], session, clearJournal_of_absent settled.1, Session.extends_refl _ _, settled, ?_⟩
    intro state crash
    rw [Session.crashState_nil] at crash
    exact crash ▸ .inl settled
  · have small : count < 2 ^ 32 := lt_of_le_of_lt journaled.le resolvable.few
    have stored : session.state.get (getJournalingKey baseKey KeyTag.journal.byte 0) =
        some (JournalHeader.toBytes ⟨count⟩) := by
      simpa [headerKey, Nat.pos_iff_ne_zero.mp pending] using journaled.header
    obtain ⟨requests, after, run, extended, finished, crashes⟩ :=
      JournalHeader.coherentlyResolveJournalLoop_run resolvable count session journaled
    refine ⟨requests, after, ?_, extended, finished.settled written, fun state crash => ?_⟩
    · simp only [clearJournal, Program.run_bind,
        readKey_of_some stored (JournalHeader.fromBytes_toBytes ⟨count⟩ small)]
      exact run
    · obtain ⟨left, journaledLeft⟩ := crashes state crash
      exact journaledLeft.consistent written

end DynamoDbClientInternal

namespace DynamoDb

variable {baseKey : Bytes} {blocks : List SimpleUnorderedBatch} {start target : MemoryStoreMap}

theorem settled_start (absent : start.get (headerKey baseKey) = none) : Settled baseKey start target start :=
  ⟨absent, .inl fun _ _ => rfl⟩

theorem Retried.eq_of_settled {crashed recovered : MemoryStoreMap} (settled : Settled baseKey start target crashed)
    (retried : Retried baseKey crashed recovered) : recovered = crashed := by
  refine Retried.induction (fun table => table = crashed) (fun table same state crash => ?_) retried rfl
  subst same
  rw [clearJournal_of_absent settled.1, Session.crashState_nil] at crash
  exact crash

theorem Retried.consistent (resolvable : Resolvable baseKey blocks)
    (written : UserEq baseKey (MemoryClient.writeBatch start ⟨blocks.reverse.flatMap pointOperations⟩) target)
    {crashed recovered : MemoryStoreMap} (retried : Retried baseKey crashed recovered)
    (consistent : Consistent baseKey blocks start target crashed) :
    Consistent baseKey blocks start target recovered := by
  refine Retried.induction _ (fun table holds state crash => ?_) retried consistent
  obtain ⟨requests, after, run, extended, -, crashes⟩ :=
    clearJournal_run resolvable written ⟨table, []⟩ holds
  rw [run, extended.1, List.nil_append] at crash
  exact crashes state crash

end DynamoDb

theorem DynamoDbClientInternal.expandDeletePrefix_eq_memory {table : MemoryStoreMap} {keyPrefix : Bytes}
    {keys : List Bytes} (found : expandDeletePrefix table keyPrefix = .ok keys) :
    (MemoryClient.expandDeletePrefix table keyPrefix : Except DynamoDbContextError (List Bytes)) = .ok keys := by
  unfold expandDeletePrefix findKeysByPrefix at found
  split at found
  · cases found
  · split at found
    · cases found
    · exact found

namespace DynamoDbBatch

variable {baseKey : Bytes} {blocks : List SimpleUnorderedBatch}

theorem fromBatch_run (batch : Batch) (session : Session MemoryStoreMap (List TransactWriteItem)) :
    fromBatch batch session =
      ((batch.simplify.expandDeletePrefixes (expandDeletePrefix session.state)).mapError .error, session) :=
  rfl

theorem fromBatch_lowering {table : MemoryStoreMap} {batch : Batch} {lowered : SimpleUnorderedBatch}
    (expanded : batch.simplify.expandDeletePrefixes (expandDeletePrefix table) = .ok lowered) :
    Lowering table batch ⟨[], lowered⟩ := by
  obtain ⟨memoryExpanded, computed, lowering⟩ :=
    @expandDeletePrefixes_lowering DynamoDbContextError table batch batch.simplify (simplify_lowering table batch)
  -- The expansion by DynamoDB succeeds only where the memory store's does, with its keys.
  have same : batch.simplify.expandDeletePrefixes (@MemoryClient.expandDeletePrefix DynamoDbContextError table) =
      .ok lowered := by
    unfold UnorderedBatch.expandDeletePrefixes at expanded ⊢
    obtain ⟨deletions, folded, returned⟩ := (Except.bind_eq_ok_iff _ _ _).mp expanded
    refine (Except.bind_eq_ok_iff _ _ _).mpr ⟨deletions, ?_, returned⟩
    refine Except.foldlM_eq_ok_of_step (fun acc keyPrefix value stepped => ?_) _ _ folded
    obtain ⟨keys, found, pushed⟩ := (Except.bind_eq_ok_iff _ _ _).mp stepped
    rw [expandDeletePrefix_eq_memory found]
    exact pushed
  rw [same, Except.ok.injEq] at computed
  exact computed ▸ lowering

def itemOperation : JournalItem → WriteOperation
  | .inl key => .delete key
  | .inr (key, value) => .put key value

theorem map_itemOperation_blockItems (block : SimpleUnorderedBatch) :
    (blockItems block).map itemOperation = pointOperations block := by
  simp [blockItems, pointOperations, itemOperation, Function.comp_def]

theorem flatMap_pointOperations_perm {batch : SimpleUnorderedBatch}
    (perm : (blocks.flatMap blockItems).Perm (blockItems batch)) :
    (blocks.reverse.flatMap pointOperations).Perm (pointOperations batch) := by
  have reordered := ((List.reverse_perm blocks).flatMap_right blockItems).trans perm
  simpa only [List.map_flatMap, map_itemOperation_blockItems] using reordered.map itemOperation

end DynamoDbBatch

namespace DynamoDb

/-- A lowered batch that the journal can write: fewer than `2 ^ 32` operations, keys that
DynamoDB takes, outside the journal, and values that it takes. -/
structure Writable (baseKey : Bytes) (batch : SimpleUnorderedBatch) : Prop where
  few : len batch < 2 ^ 32
  deletions : ∀ key ∈ batch.deletions, ValidKey key ∧ ¬ InJournal baseKey key
  insertions : ∀ keyValue ∈ batch.insertions,
    ValidKey keyValue.1 ∧ ¬ InJournal baseKey keyValue.1 ∧ keyValue.2.length ≤ rawMaxValueBytes

instance (baseKey : Bytes) (batch : SimpleUnorderedBatch) : Decidable (Writable baseKey batch) :=
  decidable_of_iff (len batch < 2 ^ 32 ∧
      (∀ key ∈ batch.deletions, ValidKey key ∧ ¬ InJournal baseKey key) ∧
      ∀ keyValue ∈ batch.insertions,
        ValidKey keyValue.1 ∧ ¬ InJournal baseKey keyValue.1 ∧ keyValue.2.length ≤ rawMaxValueBytes)
    ⟨fun ⟨few, deletions, insertions⟩ => ⟨few, deletions, insertions⟩,
      fun writable => ⟨writable.few, writable.deletions, writable.insertions⟩⟩

namespace Writable

variable {baseKey : Bytes} {blocks : List SimpleUnorderedBatch} {batch : SimpleUnorderedBatch}

theorem not_inJournal (writable : Writable baseKey batch) {key : Bytes}
    (named : key ∈ (blockTransacts batch).map TransactWriteItem.key) : ¬ InJournal baseKey key := by
  rw [map_key_blockTransacts] at named
  rcases List.mem_append.mp named with deleted | inserted
  · exact (writable.deletions key deleted).2
  · obtain ⟨keyValue, mem, rfl⟩ := List.mem_map.mp inserted
    exact (writable.insertions keyValue mem).2.1

theorem resolvable (writable : Writable baseKey batch) (short : baseKey.length + 6 ≤ maxKeyBytes)
    (perm : (blocks.flatMap blockItems).Perm (blockItems batch))
    (fit : ∀ block ∈ blocks, 0 < len block ∧ len block ≤ maxTransactWriteItemSize - 2) :
    Resolvable baseKey blocks := by
  -- Each item of a block is an item of the batch.
  have drawn : ∀ block ∈ blocks, ∀ item ∈ blockItems block, item ∈ blockItems batch :=
    fun block member item mem => perm.subset (List.mem_flatMap.mpr ⟨block, member, mem⟩)
  refine ⟨short, lt_of_le_of_lt (length_le_len perm fit) writable.few, fun block member => (fit block member).2,
    fun block member key mem => writable.deletions key ?_,
    fun block member keyValue mem => writable.insertions keyValue ?_⟩
  · simpa [blockItems] using drawn block member (.inl key) (by simp [blockItems, mem])
  · simpa [blockItems] using drawn block member (.inr keyValue) (by simp [blockItems, mem])

end Writable

/-- What a run of `write_batch` from `start`, which carried out `requests` and returned
`result` in `final`, owes: success leaves no header and the batch written outside the
journal, and a crash or an error leaves a table that is settled, or consistent for blocks
that can be resolved and that write the batch. -/
structure WriteOutcome (baseKey : Bytes) (start target : MemoryStoreMap)
    (requests : List (List TransactWriteItem)) (result : Except (Failure DynamoDbContextError) Unit)
    (final : MemoryStoreMap) : Prop where
  applied : result = .ok () → final.get (headerKey baseKey) = none ∧ UserEq baseKey final target
  crashes : (∀ state, Session.CrashState applyTransaction start requests state → Settled baseKey start target state) ∨
    ∃ blocks, Resolvable baseKey blocks ∧
      UserEq baseKey (MemoryClient.writeBatch start ⟨blocks.reverse.flatMap pointOperations⟩) target ∧
      ∀ state, Session.CrashState applyTransaction start requests state → Consistent baseKey blocks start target state

theorem settled_of_unsent {baseKey : Bytes} {start target : MemoryStoreMap}
    (absent : start.get (headerKey baseKey) = none) :
    ∀ state, Session.CrashState applyTransaction start [] state → Settled baseKey start target state := by
  intro state crash
  rw [Session.crashState_nil] at crash
  subst crash
  exact settled_start absent

theorem WriteOutcome.unsent {baseKey : Bytes} {start target : MemoryStoreMap}
    (absent : start.get (headerKey baseKey) = none) (error : Failure DynamoDbContextError) :
    WriteOutcome baseKey start target [] (.error error) start where
  applied returned := by cases returned
  crashes := .inl (settled_of_unsent absent)

end DynamoDb

namespace DynamoDbBatch

variable {baseKey : Bytes}

/-- The fast path sends the batch as one transaction, or fails before it sends anything. -/
theorem writeFastpathFailsafe_run (batch : SimpleUnorderedBatch) (writable : Writable baseKey batch)
    (session : Session MemoryStoreMap (List TransactWriteItem)) (absent : session.state.get (headerKey baseKey) = none) :
    ∃ requests, Session.Extends applyTransaction session (writeFastpathFailsafe batch session).2 requests ∧
      WriteOutcome baseKey session.state (MemoryClient.writeBatch session.state ⟨pointOperations batch⟩) requests
        (writeFastpathFailsafe batch session).1 (writeFastpathFailsafe batch session).2.state := by
  have built := TransactionBuilder.insertBatch_of_valid ⟨[]⟩ batch
    (fun key mem => (writable.deletions key mem).1)
    (fun keyValue mem => ⟨(writable.insertions keyValue mem).1, (writable.insertions keyValue mem).2.2⟩)
  have written : applyTransaction session.state (blockTransacts batch) =
      MemoryClient.writeBatch session.state ⟨pointOperations batch⟩ :=
    applyTransaction_blockTransacts _ _
  have untouched : (applyTransaction session.state (blockTransacts batch)).get (headerKey baseKey) = none := by
    rw [get_applyTransaction_of_not_mem _ _ fun named => writable.not_inJournal named (headerKey_inJournal baseKey),
      absent]
  simp only [writeFastpathFailsafe, DynamoDbM.ofResult, Program.run_bind, Program.run_ofExcept, built,
    Except.mapError_ok, TransactionBuilder.submit, submitTransactions_run, List.nil_append]
  by_cases many : maxTransactWriteItemSize < (blockTransacts batch).length
  · simp only [if_pos many]
    exact ⟨[], Session.extends_refl _ _, WriteOutcome.unsent absent _⟩
  · simp only [if_neg many]
    by_cases empty : blockTransacts batch = []
    · -- An empty batch sends nothing and writes nothing.
      have unchanged : MemoryClient.writeBatch session.state ⟨pointOperations batch⟩ = session.state := by
        rw [← written, empty]
        rfl
      simp only [if_pos empty, unchanged]
      exact ⟨[], Session.extends_refl _ _, ⟨fun _ => ⟨absent, fun _ _ => rfl⟩, .inl (settled_of_unsent absent)⟩⟩
    · simp only [if_neg empty]
      refine ⟨[blockTransacts batch], Session.extends_send _ _ _,
        ⟨fun _ => ⟨untouched, fun _ _ => by rw [Session.send_state, written]⟩, .inl fun state crash => ?_⟩⟩
      rw [Session.crashState_cons, Session.crashState_nil] at crash
      rcases crash with rfl | rfl
      · exact settled_start absent
      · exact ⟨untouched, .inr fun _ _ => by rw [written]⟩

/-- The journal path: `write_journal`, then `coherently_resolve_journal` of its header. -/
theorem writeJournal_resolve_run (batch : SimpleUnorderedBatch) (writable : Writable baseKey batch)
    (short : baseKey.length + 6 ≤ maxKeyBytes) (session : Session MemoryStoreMap (List TransactWriteItem))
    (absent : session.state.get (headerKey baseKey) = none) {target : MemoryStoreMap}
    (writes : ∀ blocks : List SimpleUnorderedBatch, (blocks.flatMap blockItems).Perm (blockItems batch) →
      MemoryClient.writeBatch session.state ⟨blocks.reverse.flatMap pointOperations⟩ = target) :
    ∃ requests, Session.Extends applyTransaction session
        ((writeJournal batch baseKey >>= fun header => header.coherentlyResolveJournal baseKey) session).2 requests ∧
      WriteOutcome baseKey session.state target requests
        ((writeJournal batch baseKey >>= fun header => header.coherentlyResolveJournal baseKey) session).1
        ((writeJournal batch baseKey >>= fun header => header.coherentlyResolveJournal baseKey) session).2.state := by
  obtain ⟨blocks, entries, extended, crashes, failed, finished⟩ :=
    writeJournal_run batch baseKey session writable.few absent target
  rw [Program.run_bind]
  revert extended failed finished
  cases writeJournal batch baseKey session with
  | mk result after =>
  intro extended failed finished
  cases result with
  | error error =>
      dsimp only
      exact ⟨entries, extended, ⟨(nomatch ·), .inl (failed error rfl)⟩⟩
  | ok header =>
  obtain ⟨counted, perm, fit, journaled⟩ := finished header rfl
  have resolvable := writable.resolvable short perm fit
  have written : UserEq baseKey (MemoryClient.writeBatch session.state ⟨blocks.reverse.flatMap pointOperations⟩)
      target := fun key _ => by rw [writes blocks perm]
  obtain ⟨resolving, final, run, resolved, done, resolveCrashes⟩ :=
    JournalHeader.coherentlyResolveJournalLoop_run resolvable blocks.length after journaled
  simp only [JournalHeader.coherentlyResolveJournal, counted, run]
  refine ⟨entries ++ resolving, Session.Extends.trans _ extended resolved,
    ⟨fun _ => done.applied written, .inr ⟨blocks, resolvable, written, fun state crash => ?_⟩⟩⟩
  rcases (Session.crashState_append _).mp crash with early | late
  · exact crashes state early
  · rw [← extended.2] at late
    obtain ⟨left, journaledLeft⟩ := resolveCrashes state late
    exact journaledLeft.consistent written

end DynamoDbBatch

namespace DynamoDbClientInternal

/-- `write_batch` from a table without a header, for a batch that `from_batch` lowers to
operations that the journal can write. -/
theorem writeBatch_run (batch : Batch) (baseKey : Bytes) (session : Session MemoryStoreMap (List TransactWriteItem))
    (absent : session.state.get (headerKey baseKey) = none) (short : baseKey.length + 6 ≤ maxKeyBytes)
    (writable : ∀ lowered, (fromBatch batch session).1 = .ok lowered → Writable baseKey lowered) :
    ∃ requests, Session.Extends applyTransaction session (writeBatch batch baseKey session).2 requests ∧
      WriteOutcome baseKey session.state (MemoryClient.writeBatch session.state batch) requests
        (writeBatch batch baseKey session).1 (writeBatch batch baseKey session).2.state := by
  rw [fromBatch_run] at writable
  unfold writeBatch
  rw [Program.run_bind, fromBatch_run]
  cases expanded : batch.simplify.expandDeletePrefixes (expandDeletePrefix session.state) with
  | error error => exact ⟨[], Session.extends_refl _ _, WriteOutcome.unsent absent _⟩
  | ok lowered =>
  have lowering := fromBatch_lowering expanded
  have writableLowered := writable lowered (by rw [expanded]; rfl)
  simp only [Except.mapError_ok]
  by_cases fast : isFastpathFeasible lowered
  · -- The fast path writes the lowered operations in one transaction.
    have target : MemoryClient.writeBatch session.state ⟨pointOperations lowered⟩ =
        MemoryClient.writeBatch session.state batch :=
      lowering.anyOrder _ (List.Perm.refl _)
    simp only [fast, if_true]
    rw [← target]
    exact writeFastpathFailsafe_run lowered writableLowered session absent
  · simp only [fast, if_false, Bool.false_eq_true]
    exact writeJournal_resolve_run lowered writableLowered short session absent
      fun blocks perm => lowering.anyOrder _ (flatMap_pointOperations_perm perm)

/-- A `write_batch` that returns leaves no journal header, and the table outside the journal
as the memory store's `write_batch` leaves it. -/
theorem writeBatch_applies_batch (batch : Batch) (baseKey : Bytes) (table : MemoryStoreMap)
    (absent : table.get (headerKey baseKey) = none) (short : baseKey.length + 6 ≤ maxKeyBytes)
    (writable : ∀ lowered, (fromBatch batch ⟨table, []⟩).1 = .ok lowered → Writable baseKey lowered)
    (returned : (writeBatch batch baseKey ⟨table, []⟩).1 = .ok ()) :
    (writeBatch batch baseKey ⟨table, []⟩).2.state.get (headerKey baseKey) = none ∧
      UserEq baseKey (writeBatch batch baseKey ⟨table, []⟩).2.state (MemoryClient.writeBatch table batch) := by
  obtain ⟨requests, extended, outcome⟩ := writeBatch_run batch baseKey ⟨table, []⟩ absent short writable
  exact outcome.applied returned

theorem writeBatch_applies_batch_single_put :
    (writeBatch ⟨[.put [1] [2]]⟩ [7] ⟨OrdMap.empty, []⟩).2.state.get (headerKey [7]) = none ∧
      UserEq [7] (writeBatch ⟨[.put [1] [2]]⟩ [7] ⟨OrdMap.empty, []⟩).2.state
        (MemoryClient.writeBatch OrdMap.empty ⟨[.put [1] [2]]⟩) :=
  writeBatch_applies_batch ⟨[.put [1] [2]]⟩ [7] OrdMap.empty (by decide) (by decide)
    (fun lowered computed => by
      obtain rfl : lowered = ⟨[], [([1], [2])]⟩ := Except.ok.inj (computed.symm.trans (by decide))
      decide)
    (by decide)

/-- A crash of `write_batch` after any of its transactions, followed by crashes of any number
of runs of `clear_journal`, is repaired by the next run of `clear_journal` that completes:
it returns, and leaves no journal header and the table outside the journal as it was before
the batch or as the memory store's `write_batch` leaves it. -/
theorem writeBatch_crash_consistent (batch : Batch) (baseKey : Bytes) (table : MemoryStoreMap)
    (absent : table.get (headerKey baseKey) = none) (short : baseKey.length + 6 ≤ maxKeyBytes)
    (writable : ∀ lowered, (fromBatch batch ⟨table, []⟩).1 = .ok lowered → Writable baseKey lowered)
    {crashed recovered : MemoryStoreMap}
    (crash : Session.CrashState applyTransaction table (writeBatch batch baseKey ⟨table, []⟩).2.sent crashed)
    (retried : Retried baseKey crashed recovered) :
    (clearJournal baseKey ⟨recovered, []⟩).1 = .ok () ∧
      Settled baseKey table (MemoryClient.writeBatch table batch) (clearJournal baseKey ⟨recovered, []⟩).2.state := by
  obtain ⟨requests, extended, outcome⟩ := writeBatch_run batch baseKey ⟨table, []⟩ absent short writable
  rw [extended.1, List.nil_append] at crash
  rcases outcome.crashes with settled | ⟨blocks, resolvable, written, consistent⟩
  · -- Settled tables have no header: the retries and the last run change nothing.
    have settledCrash := settled crashed crash
    obtain rfl := Retried.eq_of_settled settledCrash retried
    rw [clearJournal_of_absent settledCrash.1]
    exact ⟨rfl, settledCrash⟩
  · obtain ⟨-, after, run, -, finished, -⟩ := clearJournal_run resolvable written ⟨recovered, []⟩
      (Retried.consistent resolvable written retried (consistent crashed crash))
    rw [run]
    exact ⟨rfl, finished⟩

theorem writeBatch_crash_consistent_single_put :
    (clearJournal [7] ⟨OrdMap.empty, []⟩).1 = .ok () ∧
      Settled [7] OrdMap.empty (MemoryClient.writeBatch OrdMap.empty ⟨[.put [1] [2]]⟩)
        (clearJournal [7] ⟨OrdMap.empty, []⟩).2.state :=
  writeBatch_crash_consistent ⟨[.put [1] [2]]⟩ [7] OrdMap.empty (by decide) (by decide)
    (fun lowered computed => by
      obtain rfl : lowered = ⟨[], [([1], [2])]⟩ := Except.ok.inj (computed.symm.trans (by decide))
      decide)
    (Session.crashState_start _ _ _) (Retried.refl _)

end DynamoDbClientInternal

namespace DynamoDbBatch

/-- The `assert_eq!` of `write_journal` never fails: the size the loop counts for a block is
the size of its serialization. -/
theorem writeJournal_ne_panic (batch : SimpleUnorderedBatch) (baseKey : Bytes)
    (session : Session MemoryStoreMap (List TransactWriteItem)) :
    (writeJournal batch baseKey session).1 ≠ .error .panic := by
  have outcome := writeJournalLoop_run baseKey (blockItems batch) session (LoopInvariant.start baseKey)
    (fun _ => ⟨rfl, rfl⟩)
  have items : batch.deletions.map Sum.inl ++ batch.insertions.map Sum.inr = blockItems batch := rfl
  unfold writeJournal
  simp only [Program.run_bind, items]
  revert outcome
  cases writeJournalLoop baseKey (blockItems batch) ⟨0, 0, [], [], 0, []⟩ session with
  | mk result after =>
  intro outcome
  cases result with
  | error error =>
      -- The loop's error, which is not a panic, is passed on.
      dsimp only
      exact fun failed => outcome.notPanic (by cases failed; rfl)
  | ok count =>
      -- After the loop, only the header's put can fail, with an error of DynamoDB.
      dsimp only
      split
      · simp only [Program.run_bind, writeSingleKeyValue_run]
        cases buildPutTransact (getJournalingKey baseKey KeyTag.journal.byte 0) (JournalHeader.toBytes ⟨count⟩) <;>
          simp
      · simp

end DynamoDbBatch

end Linera.Views
