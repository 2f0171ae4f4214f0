import Linera.Chain.Outbox
import Linera.Execution.Block

set_option autoImplicit false

/-! Message ids: how `execute_block` numbers the outgoing messages of a block, and how
`ExecutedBlock::message_id_for_operation` finds them again (`linera-chain/src/chain.rs`,
`linera-chain/src/data_types.rs`).

Each transaction of a block, incoming message or operation, appends the messages of its
execution results to one vector, and `execute_block` records the length of the vector after
each transaction in `message_counts`. An operation learns how long the vector is before it
runs from the `next_message_index` of its context: `OpenChain` names the new chain after the
id of its first message. `message_id_for_operation` reads the same numbers back from
`message_counts`, so the ids a client derives are those the execution used. -/

namespace Linera.Chain.MessageIds

open Linera.Chain.Outbox (ChainStateView RawExecutionResult)
open Linera.Execution (ChainExecutionContext)

inductive GenericApplicationId (U : Type) where
  | system
  | user (applicationId : U)
  deriving DecidableEq, Repr

/-- `Message`: of the system, or of a user application with its bytes. -/
inductive Message (U Es Eu : Type) where
  | system (message : Es)
  | user (applicationId : U) (bytes : Eu)
  deriving DecidableEq, Repr

inductive ExecutionResult (C U Nm Es Eu O : Type) where
  | system (result : RawExecutionResult C Nm Es O)
  | user (applicationId : U) (result : RawExecutionResult C Nm Eu O)

/-- The outgoing messages of a raw result, as `process_raw_execution_result` appends them. -/
def lifted {C Nm E M O : Type} (lift : E → M) (result : RawExecutionResult C Nm E O) :
    List (Outbox.OutgoingMessage C Nm M O) :=
  result.messages.map fun message =>
    ⟨message.destination, if message.authenticated then result.authenticatedSigner else none,
      message.isSkippable, lift message.message⟩

/-- The outgoing messages of an execution result. -/
def ExecutionResult.outgoing {C U Nm Es Eu O : Type} :
    ExecutionResult C U Nm Es Eu O → List (Outbox.OutgoingMessage C Nm (Message U Es Eu) O)
  | .system result => lifted Message.system result
  | .user applicationId result => lifted (Message.user applicationId) result

/-- The fields of `OperationContext`. -/
structure OperationContext (C O : Type) where
  chainId : C
  height : Nat
  index : Nat
  authenticatedSigner : Option O
  nextMessageIndex : Nat
  deriving DecidableEq, Repr

structure MessageId (C : Type) where
  chainId : C
  height : Nat
  index : Nat
  deriving DecidableEq, Repr

/-- `OperationContext::next_message_id`: the id of the first message the operation sends. -/
def OperationContext.nextMessageId {C O : Type} (context : OperationContext C O) : MessageId C :=
  ⟨context.chainId, context.height, context.nextMessageIndex⟩

/-- `Block`, with what the numbering reads of it; an incoming message, of type `I`, carries
the context it runs in. -/
structure Block (C O I Op : Type) where
  chainId : C
  height : Nat
  authenticatedSigner : Option O
  incomingMessages : List I
  operations : List Op

/-- `ChainError`, as the loops of `execute_block` raise it; the errors of
`process_execution_results` are those of the outboxes and channels. -/
inductive ChainError (E N : Type) where
  | arithmeticError (error : Cursor.ArithmeticError)
  | executionError (error : E) (context : ChainExecutionContext)
  | processError (error : Outbox.ChainError N)

/-- `u32::try_from` on a `usize`, with the error `execute_block` maps its failure to. -/
def u32TryFrom {E N : Type} (value : Nat) : Except (ChainError E N) Nat :=
  if value < 2 ^ 32 then .ok value else .error (.arithmeticError .overflow)

/-- `checked_add` on integers of `bits` bits. -/
def checkedAdd (bits first second : Nat) : Option Nat :=
  if first + second < 2 ^ bits then some (first + second) else none

/-- `checked_sub` on unsigned integers. -/
def checkedSub (first second : Nat) : Option Nat :=
  if second ≤ first then some (first - second) else none

/-- What the loops of `execute_block` carry from one transaction to the next. -/
structure Progress (S C U Nm Es Eu O : Type) [LinearOrder C] [DecidableEq U] [DecidableEq Nm]
    where
  state : S
  chain : ChainStateView C (GenericApplicationId U) Nm
  messages : List (Outbox.OutgoingMessage C Nm (Message U Es Eu) O)
  messageCounts : List Nat

/-- The errors of the loops, over the channel names of the outboxes. -/
abbrev LoopError (U Nm E : Type) := ChainError E (Outbox.ChannelFullName (GenericApplicationId U) Nm)

theorem u32TryFrom_eq_ok {E N : Type} {value result : Nat} :
    (u32TryFrom value : Except (ChainError E N) Nat) = .ok result ↔
      value < 2 ^ 32 ∧ result = value := by
  unfold u32TryFrom
  by_cases fits : value < 2 ^ 32
  · rw [if_pos fits]
    exact ⟨fun same => ⟨fits, (Except.ok.inj same).symm⟩, fun ⟨_, same⟩ => same ▸ rfl⟩
  · rw [if_neg fits]
    exact ⟨fun failed => (nomatch failed), fun ⟨below, _⟩ => absurd below fits⟩

/-- The number of messages after each transaction, from the number before the first and the
messages each transaction sent. -/
def runningCounts {α : Type} (base : Nat) : List (List α) → List Nat
  | [] => []
  | sent :: rest => (base + sent.length) :: runningCounts (base + sent.length) rest

section RunningCounts

variable {α : Type}

@[simp] theorem length_runningCounts (base : Nat) (produced : List (List α)) :
    (runningCounts base produced).length = produced.length := by
  induction produced generalizing base with
  | nil => rfl
  | cons sent rest ih => simp [runningCounts, ih]

theorem getElem?_runningCounts (base : Nat) (produced : List (List α)) (position : Nat) :
    (runningCounts base produced)[position]? =
      produced[position]?.map fun sent =>
        base + (produced.take position).flatten.length + sent.length := by
  induction produced generalizing base position with
  | nil => rfl
  | cons sent rest ih =>
      cases position with
      | zero => simp [runningCounts]
      | succ position =>
          simp only [runningCounts, List.getElem?_cons_succ, ih, List.take_succ_cons,
            List.flatten_cons, List.length_append]
          congr 1
          funext later
          omega

theorem le_of_mem_runningCounts {base count : Nat} {produced : List (List α)}
    (member : count ∈ runningCounts base produced) :
    base ≤ count ∧ count ≤ base + produced.flatten.length := by
  induction produced generalizing base with
  | nil => cases member
  | cons sent rest ih =>
      simp only [runningCounts, List.mem_cons] at member
      rcases member with rfl | later
      · simp only [List.flatten_cons, List.length_append]
        omega
      · have bounds := ih later
        simp only [List.flatten_cons, List.length_append]
        omega

theorem pairwise_runningCounts (base : Nat) (produced : List (List α)) :
    (runningCounts base produced).Pairwise (· ≤ ·) := by
  induction produced generalizing base with
  | nil => exact List.Pairwise.nil
  | cons sent rest ih =>
      exact List.pairwise_cons.mpr ⟨fun count member => (le_of_mem_runningCounts member).1,
        ih (base + sent.length)⟩

theorem getLast?_runningCounts (base : Nat) (produced : List (List α)) :
    (runningCounts base produced).getLast? =
      if produced = [] then none else some (base + produced.flatten.length) := by
  induction produced generalizing base with
  | nil => rfl
  | cons sent rest ih =>
      rw [runningCounts, List.getLast?_cons, ih]
      cases rest with
      | nil => simp
      | cons next others =>
          simp only [reduceCtorEq, if_false, Option.getD_some, List.flatten_cons,
            List.length_append]
          congr 1
          omega

theorem runningCounts_append (base : Nat) (first second : List (List α)) :
    runningCounts base (first ++ second) =
      runningCounts base first ++ runningCounts (base + first.flatten.length) second := by
  induction first generalizing base with
  | nil => simp [runningCounts]
  | cons sent rest ih =>
      simp only [List.cons_append, runningCounts, ih, List.flatten_cons, List.length_append,
        Nat.add_assoc]

end RunningCounts

section Execution

variable {C U Nm Es Eu O : Type} [LinearOrder C] [DecidableEq U] [DecidableEq Nm]

/-- `ChainStateView::process_execution_results`: each result in turn, of the system or of a
user application. -/
def processExecutionResults (chain : ChainStateView C (GenericApplicationId U) Nm)
    (messages : List (Outbox.OutgoingMessage C Nm (Message U Es Eu) O)) (height : Nat) :
    List (ExecutionResult C U Nm Es Eu O) →
      Except (Outbox.ChainError (Outbox.ChannelFullName (GenericApplicationId U) Nm))
        (ChainStateView C (GenericApplicationId U) Nm ×
          List (Outbox.OutgoingMessage C Nm (Message U Es Eu) O))
  | [] => .ok (chain, messages)
  | .system result :: rest => do
      let (chain, messages) ←
        chain.processRawExecutionResult .system Message.system messages height result
      processExecutionResults chain messages height rest
  | .user applicationId result :: rest => do
      let (chain, messages) ← chain.processRawExecutionResult (.user applicationId)
        (Message.user applicationId) messages height result
      processExecutionResults chain messages height rest

variable {S E : Type}

/-- A loop of `execute_block` over the transactions of one kind: each runs with its index and
the number of messages so far, its results are processed into the outgoing messages, and the
number of messages after it is pushed to `message_counts`. -/
def executeTransactions {X : Type}
    (execute : Nat → Nat → S → X →
      Except (LoopError U Nm E) (S × List (ExecutionResult C U Nm Es Eu O)))
    (height : Nat) :
    Nat → Progress S C U Nm Es Eu O → List X →
      Except (LoopError U Nm E) (Progress S C U Nm Es Eu O)
  | _, progress, [] => .ok progress
  | index, progress, item :: rest => do
      let index ← u32TryFrom index
      let (state, results) ← execute index progress.messages.length progress.state item
      let (chain, messages) ←
        (processExecutionResults progress.chain progress.messages height results).mapError
          .processError
      let count ← u32TryFrom messages.length
      executeTransactions execute height (index + 1)
        ⟨state, chain, messages, progress.messageCounts ++ [count]⟩ rest

theorem processExecutionResults_messages {chain next : ChainStateView C (GenericApplicationId U) Nm}
    {messages sent : List (Outbox.OutgoingMessage C Nm (Message U Es Eu) O)} {height : Nat}
    {results : List (ExecutionResult C U Nm Es Eu O)}
    (processed : processExecutionResults chain messages height results = .ok (next, sent)) :
    sent = messages ++ results.flatMap ExecutionResult.outgoing := by
  induction results generalizing chain messages with
  | nil =>
      simp only [processExecutionResults, Except.ok.injEq, Prod.mk.injEq] at processed
      rw [← processed.2, List.flatMap_nil, List.append_nil]
  | cons result rest ih =>
      -- Either kind of result goes through `process_raw_execution_result`.
      cases result with
      | system raw =>
          obtain ⟨⟨middle, appended⟩, first, processed⟩ :=
            (Except.bind_eq_ok_iff _ _ _).mp processed
          rw [ih processed, ChainStateView.processRawExecutionResult_messages first,
            List.flatMap_cons, List.append_assoc]
          rfl
      | user applicationId raw =>
          obtain ⟨⟨middle, appended⟩, first, processed⟩ :=
            (Except.bind_eq_ok_iff _ _ _).mp processed
          rw [ih processed, ChainStateView.processRawExecutionResult_messages first,
            List.flatMap_cons, List.append_assoc]
          rfl

/-- A loop that succeeds ran every item with its index and the number of messages of the
items before it; each item sent the messages of its results, and the counts pushed are the
running counts, which fit in a `u32`, as do the indices. -/
theorem executeTransactions_eq_ok {X : Type}
    {execute : Nat → Nat → S → X →
      Except (LoopError U Nm E) (S × List (ExecutionResult C U Nm Es Eu O))}
    {height index : Nat} {progress final : Progress S C U Nm Es Eu O} {items : List X}
    (ran : executeTransactions execute height index progress items = .ok final) :
    ∃ produced : List (List (Outbox.OutgoingMessage C Nm (Message U Es Eu) O)),
      produced.length = items.length ∧
      final.messages = progress.messages ++ produced.flatten ∧
      final.messageCounts =
        progress.messageCounts ++ runningCounts progress.messages.length produced ∧
      (∀ count ∈ runningCounts progress.messages.length produced, count < 2 ^ 32) ∧
      (∀ position < items.length, index + position < 2 ^ 32) ∧
      ∀ position (inside : position < items.length), ∃ before after results,
        execute (index + position)
            (progress.messages.length + (produced.take position).flatten.length) before
            items[position] = .ok (after, results) ∧
          produced[position]? = some (results.flatMap ExecutionResult.outgoing) := by
  induction items generalizing index progress with
  | nil =>
      simp only [executeTransactions, Except.ok.injEq] at ran
      subst ran
      exact ⟨[], rfl, by simp, by simp [runningCounts], by simp [runningCounts],
        fun _ inside => absurd inside (Nat.not_lt_zero _),
        fun _ inside => absurd inside (Nat.not_lt_zero _)⟩
  | cons item rest ih =>
      obtain ⟨same, indexEq, afterIndex⟩ := (Except.bind_eq_ok_iff _ _ _).mp ran
      obtain ⟨fits, sameEq⟩ := u32TryFrom_eq_ok.mp indexEq
      subst sameEq
      obtain ⟨⟨state, results⟩, executed, afterExecute⟩ :=
        (Except.bind_eq_ok_iff _ _ _).mp afterIndex
      obtain ⟨⟨chain, messages⟩, processed, afterProcess⟩ :=
        (Except.bind_eq_ok_iff _ _ _).mp afterExecute
      rw [Except.mapError_eq_ok_iff] at processed
      obtain ⟨count, countEq, later⟩ := (Except.bind_eq_ok_iff _ _ _).mp afterProcess
      obtain ⟨countFits, countIs⟩ := u32TryFrom_eq_ok.mp countEq
      subst countIs
      have appended := processExecutionResults_messages processed
      obtain ⟨produced, length, finalMessages, finalCounts, bounded, indices, each⟩ := ih later
      -- The first item sent the messages of its results; the rest is the loop after it.
      refine ⟨results.flatMap ExecutionResult.outgoing :: produced, by simp [length], ?_, ?_, ?_,
        fun position inside => ?_, fun position inside => ?_⟩
      · rw [finalMessages, appended, List.flatten_cons, List.append_assoc]
      · rw [finalCounts, runningCounts, appended, List.length_append, List.append_assoc,
          List.singleton_append]
      · intro other member
        simp only [runningCounts, List.mem_cons] at member
        rcases member with rfl | later
        · rw [← List.length_append, ← appended]
          exact countFits
        · rw [appended, List.length_append] at bounded
          exact bounded other later
      · cases position with
        | zero => exact fits
        | succ position =>
            have := indices position (by simpa using inside)
            omega
      · cases position with
        | zero => exact ⟨progress.state, state, results, executed, rfl⟩
        | succ position =>
            obtain ⟨before, after, later, laterRan, laterSent⟩ :=
              each position (by simpa using inside)
            refine ⟨before, after, later, ?_, laterSent⟩
            rw [appended, List.length_append] at laterRan
            simp only [List.take_succ_cons, List.flatten_cons, List.length_append]
            rw [show same + (position + 1) = same + 1 + position by omega, ← Nat.add_assoc]
            exact laterRan

variable {I Op : Type}

/-- The loop of `execute_block` over the incoming messages. -/
def executeIncomingMessages
    (executeMessage : S → I → Except E (S × List (ExecutionResult C U Nm Es Eu O)))
    (height : Nat) (progress : Progress S C U Nm Es Eu O) (messages : List I) :
    Except (LoopError U Nm E) (Progress S C U Nm Es Eu O) :=
  executeTransactions (fun index _ state message => (executeMessage state message).mapError
      fun error => .executionError error (.incomingMessage index))
    height 0 progress messages

/-- The loop of `execute_block` over the operations: each learns the number of messages so
far as its `next_message_index`. -/
def executeOperations
    (executeOperation : S → OperationContext C O → Op →
      Except E (S × List (ExecutionResult C U Nm Es Eu O)))
    (block : Block C O I Op) (progress : Progress S C U Nm Es Eu O) :
    Except (LoopError U Nm E) (Progress S C U Nm Es Eu O) :=
  executeTransactions (fun index count state operation => do
      let nextMessageIndex ← u32TryFrom count
      (executeOperation state
          ⟨block.chainId, block.height, index, block.authenticatedSigner, nextMessageIndex⟩
          operation).mapError
        fun error => .executionError error (.operation index))
    block.height 0 progress block.operations

theorem length_le_of_indices {index length : Nat}
    (indices : ∀ position < length, index + position < 2 ^ 32) : length ≤ 2 ^ 32 := by
  by_contra long
  have last := indices (2 ^ 32) (by omega)
  omega

theorem executeIncomingMessages_eq_ok
    {executeMessage : S → I → Except E (S × List (ExecutionResult C U Nm Es Eu O))}
    {height : Nat} {progress final : Progress S C U Nm Es Eu O} {messages : List I}
    (ran : executeIncomingMessages executeMessage height progress messages = .ok final) :
    ∃ produced : List (List (Outbox.OutgoingMessage C Nm (Message U Es Eu) O)),
      produced.length = messages.length ∧
      final.messages = progress.messages ++ produced.flatten ∧
      final.messageCounts =
        progress.messageCounts ++ runningCounts progress.messages.length produced ∧
      (∀ count ∈ runningCounts progress.messages.length produced, count < 2 ^ 32) ∧
      messages.length ≤ 2 ^ 32 ∧
      ∀ position (inside : position < messages.length), ∃ before after results,
        executeMessage before messages[position] = .ok (after, results) ∧
          produced[position]? = some (results.flatMap ExecutionResult.outgoing) := by
  obtain ⟨produced, length, finalMessages, finalCounts, bounded, indices, each⟩ :=
    executeTransactions_eq_ok ran
  refine ⟨produced, length, finalMessages, finalCounts, bounded, length_le_of_indices indices,
    fun position inside => ?_⟩
  obtain ⟨before, after, results, executed, sent⟩ := each position inside
  exact ⟨before, after, results, (Except.mapError_eq_ok_iff _ _ _).mp executed, sent⟩

theorem executeOperations_eq_ok
    {executeOperation : S → OperationContext C O → Op →
      Except E (S × List (ExecutionResult C U Nm Es Eu O))}
    {block : Block C O I Op} {progress final : Progress S C U Nm Es Eu O}
    (ran : executeOperations executeOperation block progress = .ok final) :
    ∃ produced : List (List (Outbox.OutgoingMessage C Nm (Message U Es Eu) O)),
      produced.length = block.operations.length ∧
      final.messages = progress.messages ++ produced.flatten ∧
      final.messageCounts =
        progress.messageCounts ++ runningCounts progress.messages.length produced ∧
      (∀ count ∈ runningCounts progress.messages.length produced, count < 2 ^ 32) ∧
      block.operations.length ≤ 2 ^ 32 ∧
      ∀ position (inside : position < block.operations.length), ∃ before after results,
        executeOperation before
            ⟨block.chainId, block.height, position, block.authenticatedSigner,
              progress.messages.length + (produced.take position).flatten.length⟩
            block.operations[position] = .ok (after, results) ∧
          produced[position]? = some (results.flatMap ExecutionResult.outgoing) := by
  obtain ⟨produced, length, finalMessages, finalCounts, bounded, indices, each⟩ :=
    executeTransactions_eq_ok ran
  refine ⟨produced, length, finalMessages, finalCounts, bounded, length_le_of_indices indices,
    fun position inside => ?_⟩
  obtain ⟨before, after, results, executed, sent⟩ := each position inside
  -- The count converts to a `u32` before the operation runs with it.
  obtain ⟨nextMessageIndex, converted, executed⟩ := (Except.bind_eq_ok_iff _ _ _).mp executed
  obtain ⟨-, same⟩ := u32TryFrom_eq_ok.mp converted
  rw [same, Nat.zero_add] at executed
  exact ⟨before, after, results, (Except.mapError_eq_ok_iff _ _ _).mp executed, sent⟩

/-- `BlockExecutionOutcome`: the outgoing messages, and the number of messages after each
transaction. -/
structure BlockExecutionOutcome (C Nm M O : Type) where
  messages : List (Outbox.OutgoingMessage C Nm M O)
  messageCounts : List Nat

/-- `ChainStateView::execute_block`, as it numbers the outgoing messages: the incoming
messages, then the operations, from no message. -/
def executeBlock
    (executeMessage : S → I → Except E (S × List (ExecutionResult C U Nm Es Eu O)))
    (executeOperation : S → OperationContext C O → Op →
      Except E (S × List (ExecutionResult C U Nm Es Eu O)))
    (state : S) (chain : ChainStateView C (GenericApplicationId U) Nm) (block : Block C O I Op) :
    Except (LoopError U Nm E)
      (S × ChainStateView C (GenericApplicationId U) Nm ×
        BlockExecutionOutcome C Nm (Message U Es Eu) O) := do
  let progress ← executeIncomingMessages executeMessage block.height ⟨state, chain, [], []⟩
    block.incomingMessages
  let progress ← executeOperations executeOperation block progress
  pure (progress.state, progress.chain, ⟨progress.messages, progress.messageCounts⟩)

end Execution

/-- `ExecutedBlock`: a block with the outgoing messages and the counts of its execution. -/
structure ExecutedBlock (C O I Op M : Type) where
  block : Block C O I Op
  messages : List M
  messageCounts : List Nat

def BlockExecutionOutcome.with {C Nm M O I Op : Type} (outcome : BlockExecutionOutcome C Nm M O)
    (block : Block C O I Op) : ExecutedBlock C O I Op (Outbox.OutgoingMessage C Nm M O) :=
  ⟨block, outcome.messages, outcome.messageCounts⟩

namespace ExecutedBlock

variable {C O I Op M : Type}

/-- `ExecutedBlock::message_id`: the id of the outgoing message of the block at an index. -/
def messageId (executed : ExecutedBlock C O I Op M) (index : Nat) : MessageId C :=
  ⟨executed.block.chainId, executed.block.height, index⟩

/-- The number of messages before a transaction, as `message_id_for_operation` reads it: none
before the first, and otherwise the count after the transaction before. -/
def firstMessageIndex (executed : ExecutedBlock C O I Op M) (transactionIndex : Nat) :
    Option Nat :=
  match checkedSub transactionIndex 1 with
  | none => some 0
  | some index => executed.messageCounts[index]?

/-- `ExecutedBlock::message_id_for_operation`: the id of the message at `messageIndex` among
those the operation at `operationIndex` sent, if there is such an operation and message. -/
def messageIdForOperation (executed : ExecutedBlock C O I Op M) (operationIndex messageIndex : Nat) :
    Option (MessageId C) := do
  let transactionIndex ← checkedAdd 64 executed.block.incomingMessages.length operationIndex
  let firstMessageIndex ← executed.firstMessageIndex transactionIndex
  let index ← checkedAdd 32 firstMessageIndex messageIndex
  let nextTransactionIndex ← executed.messageCounts[transactionIndex]?
  if index < nextTransactionIndex then some (executed.messageId index) else none

theorem firstMessageIndex_eq {α : Type} {executed : ExecutedBlock C O I Op M}
    {produced : List (List α)} (counts : executed.messageCounts = runningCounts 0 produced)
    {transaction : Nat} (within : transaction ≤ produced.length) :
    executed.firstMessageIndex transaction = some (produced.take transaction).flatten.length := by
  unfold firstMessageIndex
  cases transaction with
  | zero => rfl
  | succ earlier =>
      have below : checkedSub (earlier + 1) 1 = some earlier := if_pos (by omega)
      rw [below]
      dsimp only
      rw [counts, getElem?_runningCounts, List.getElem?_eq_getElem (by omega),
        Option.map_some, List.take_add_one, List.getElem?_eq_getElem (by omega), Option.toList_some,
        List.flatten_append, List.length_append]
      simp

/-- `message_id_for_operation` reads the numbering back. If the block's transactions sent
`produced`, and the counts are their running counts, the `messageIndex`-th message of the
operation at `operationIndex` is found exactly when the operation sent more messages than
that, and its index is the number of messages of the transactions before it plus
`messageIndex`. -/
theorem messageIdForOperation_eq {α : Type} (executed : ExecutedBlock C O I Op M)
    (produced : List (List α)) (counts : executed.messageCounts = runningCounts 0 produced)
    (fits : ∀ count ∈ executed.messageCounts, count < 2 ^ 32)
    (short : produced.length < 2 ^ 64) (operationIndex messageIndex : Nat) :
    executed.messageIdForOperation operationIndex messageIndex =
      if messageIndex < ((produced[executed.block.incomingMessages.length + operationIndex]?).map
          List.length).getD 0 then
        some (executed.messageId
          ((produced.take (executed.block.incomingMessages.length + operationIndex)).flatten.length +
            messageIndex))
      else none := by
  unfold messageIdForOperation
  simp only [Option.bind_eq_bind]
  by_cases inside : executed.block.incomingMessages.length + operationIndex < produced.length
  · have added : checkedAdd 64 executed.block.incomingMessages.length operationIndex =
        some (executed.block.incomingMessages.length + operationIndex) := if_pos (by omega)
    rw [added, Option.bind_some]
    generalize executed.block.incomingMessages.length + operationIndex = transaction at inside ⊢
    have next : executed.messageCounts[transaction]? =
        some ((produced.take transaction).flatten.length + produced[transaction].length) := by
      rw [counts, getElem?_runningCounts, List.getElem?_eq_getElem inside]
      simp
    have nextFits : (produced.take transaction).flatten.length + produced[transaction].length <
        2 ^ 32 := fits _ (List.mem_of_getElem? next)
    rw [firstMessageIndex_eq counts (by omega), Option.bind_some, List.getElem?_eq_getElem inside,
      Option.map_some, Option.getD_some]
    -- The message is there exactly when the operation sent more messages than its index.
    by_cases sent : messageIndex < produced[transaction].length
    · have fitting : checkedAdd 32 (produced.take transaction).flatten.length messageIndex =
          some ((produced.take transaction).flatten.length + messageIndex) := if_pos (by omega)
      rw [fitting, Option.bind_some, next, Option.bind_some, if_pos (by omega), if_pos sent]
    · rw [if_neg sent]
      unfold checkedAdd
      by_cases fitting : (produced.take transaction).flatten.length + messageIndex < 2 ^ 32
      · rw [if_pos fitting, Option.bind_some, next, Option.bind_some, if_neg (by omega)]
      · rw [if_neg fitting]
        rfl
  · -- No such operation: there is no count after it.
    rw [List.getElem?_eq_none (by omega), Option.map_none, Option.getD_none,
      if_neg (Nat.not_lt_zero _)]
    by_cases fitting : executed.block.incomingMessages.length + operationIndex < 2 ^ 64
    · have added : checkedAdd 64 executed.block.incomingMessages.length operationIndex =
          some (executed.block.incomingMessages.length + operationIndex) := if_pos fitting
      have missing : executed.messageCounts[executed.block.incomingMessages.length +
          operationIndex]? = none := by
        rw [counts, getElem?_runningCounts, List.getElem?_eq_none (by omega), Option.map_none]
      rw [added, Option.bind_some]
      cases executed.firstMessageIndex
          (executed.block.incomingMessages.length + operationIndex) with
      | none => rfl
      | some firstIndex =>
          rw [Option.bind_some]
          cases checkedAdd 32 firstIndex messageIndex with
          | none => rfl
          | some index => rw [Option.bind_some, missing]; rfl
    · have overflows : checkedAdd 64 executed.block.incomingMessages.length operationIndex = none :=
        if_neg fitting
      rw [overflows]
      rfl

end ExecutedBlock

section Numbering

variable {S C U Nm Es Eu O E I Op : Type} [LinearOrder C] [DecidableEq U] [DecidableEq Nm]

/-- What a successful `execute_block` leaves in its outcome, when its transactions, the
incoming messages and then the operations, sent `produced`, one list of messages each. -/
structure Numbered
    (executeOperation : S → OperationContext C O → Op →
      Except E (S × List (ExecutionResult C U Nm Es Eu O)))
    (block : Block C O I Op) (outcome : BlockExecutionOutcome C Nm (Message U Es Eu) O)
    (produced : List (List (Outbox.OutgoingMessage C Nm (Message U Es Eu) O))) : Prop where
  length : produced.length = block.incomingMessages.length + block.operations.length
  messages : outcome.messages = produced.flatten
  /-- One count per transaction: the number of messages after it. -/
  counts : outcome.messageCounts = runningCounts 0 produced
  countsLength : outcome.messageCounts.length =
    block.incomingMessages.length + block.operations.length
  nondecreasing : outcome.messageCounts.Pairwise (· ≤ ·)
  /-- The last count is the number of messages (and there is none without a transaction). -/
  last : outcome.messageCounts.getLast?.getD 0 = outcome.messages.length
  /-- Each operation ran with the number of messages of the transactions before it as its
  `next_message_index`, and sent the messages of its results. -/
  operation : ∀ position (inside : position < block.operations.length), ∃ before after results,
    executeOperation before
        ⟨block.chainId, block.height, position, block.authenticatedSigner,
          (produced.take (block.incomingMessages.length + position)).flatten.length⟩
        block.operations[position] = .ok (after, results) ∧
      produced[block.incomingMessages.length + position]? =
        some (results.flatMap ExecutionResult.outgoing)
  /-- The client finds the `messageIndex`-th message of an operation exactly when the
  operation sent more messages, at the index that follows its `next_message_index`. -/
  messageId : ∀ operationIndex messageIndex,
    (outcome.with block).messageIdForOperation operationIndex messageIndex =
      if messageIndex <
          ((produced[block.incomingMessages.length + operationIndex]?).map List.length).getD 0 then
        some ⟨block.chainId, block.height,
          (produced.take (block.incomingMessages.length + operationIndex)).flatten.length +
            messageIndex⟩
      else none

theorem take_loops {α : Type} {fromMessages : List (List α)} (fromOperations : List (List α))
    {incoming : Nat} (length : fromMessages.length = incoming) (position : Nat) :
    ((fromMessages ++ fromOperations).take (incoming + position)).flatten.length =
      fromMessages.flatten.length + (fromOperations.take position).flatten.length := by
  rw [← length, List.take_length_add_append, List.flatten_append, List.length_append]

theorem executeBlock_message_ids
    {executeMessage : S → I → Except E (S × List (ExecutionResult C U Nm Es Eu O))}
    {executeOperation : S → OperationContext C O → Op →
      Except E (S × List (ExecutionResult C U Nm Es Eu O))}
    {state after : S} {chain next : ChainStateView C (GenericApplicationId U) Nm}
    {block : Block C O I Op} {outcome : BlockExecutionOutcome C Nm (Message U Es Eu) O}
    (ran : executeBlock executeMessage executeOperation state chain block =
      .ok (after, next, outcome)) :
    ∃ produced, Numbered executeOperation block outcome produced := by
  obtain ⟨first, incoming, afterIncoming⟩ := (Except.bind_eq_ok_iff _ _ _).mp ran
  obtain ⟨final, operations, done⟩ := (Except.bind_eq_ok_iff _ _ _).mp afterIncoming
  obtain ⟨fromMessages, messagesLength, firstMessages, firstCounts, messagesFit, fewMessages, -⟩ :=
    executeIncomingMessages_eq_ok incoming
  obtain ⟨fromOperations, operationsLength, finalMessages, finalCounts, operationsFit,
    fewOperations, each⟩ := executeOperations_eq_ok operations
  have outcomeEq : outcome = ⟨final.messages, final.messageCounts⟩ :=
    ((Prod.mk.inj (Prod.mk.inj (Except.ok.inj done)).2).2).symm
  subst outcomeEq
  -- The loops start from no message, and the operations from where the messages stopped.
  dsimp only at firstMessages firstCounts messagesFit
  rw [List.nil_append] at firstMessages firstCounts
  rw [firstMessages] at finalMessages finalCounts operationsFit each
  have messages : final.messages = (fromMessages ++ fromOperations).flatten := by
    rw [finalMessages, List.flatten_append]
  have counts : final.messageCounts = runningCounts 0 (fromMessages ++ fromOperations) := by
    rw [finalCounts, firstCounts, runningCounts_append, Nat.zero_add, List.length_nil]
  have fits : ∀ count ∈ final.messageCounts, count < 2 ^ 32 := by
    intro count member
    rw [finalCounts, firstCounts, List.mem_append] at member
    rcases member with early | late
    · exact messagesFit count early
    · exact operationsFit count late
  have length : (fromMessages ++ fromOperations).length =
      block.incomingMessages.length + block.operations.length := by
    rw [List.length_append, messagesLength, operationsLength]
  refine ⟨fromMessages ++ fromOperations, length, messages, counts, ?_, ?_, ?_, ?_, ?_⟩
  · rw [counts, length_runningCounts, length]
  · rw [counts]
    exact pairwise_runningCounts 0 _
  · rw [counts, getLast?_runningCounts, messages]
    by_cases empty : fromMessages ++ fromOperations = []
    · rw [if_pos empty, empty]
      rfl
    · rw [if_neg empty, Option.getD_some, Nat.zero_add]
  · intro position inside
    obtain ⟨before, afterOperation, results, executed, sent⟩ := each position inside
    refine ⟨before, afterOperation, results, ?_, ?_⟩
    · rw [take_loops fromOperations messagesLength]
      exact executed
    · rw [← messagesLength, List.getElem?_append_right (by omega), Nat.add_sub_cancel_left]
      exact sent
  · intro operationIndex messageIndex
    exact ExecutedBlock.messageIdForOperation_eq _ _ counts fits (by omega) _ _

/-- A block of one incoming message that sends one message, and two operations that each
send one message to chain 1 and one to chain 2: the counts run 1, 3, 5. -/
theorem executeBlock_message_ids_sending :
    ∃ produced : List (List (Outbox.OutgoingMessage Nat Nat (Message Nat Unit Unit) Unit)),
      Numbered (fun (state : Unit) (_ : OperationContext Nat Unit) (_ : Unit) =>
          (.ok (state, [.system ⟨none, [⟨.recipient 1, false, false, ()⟩,
            ⟨.recipient 2, true, false, ()⟩], [], []⟩]) :
            Except Unit (Unit × List (ExecutionResult Nat Nat Nat Unit Unit Unit))))
        (⟨0, 0, none, [()], [(), ()]⟩ : Block Nat Unit Unit Unit)
        ⟨[⟨.recipient 1, none, false, .system ()⟩,
          ⟨.recipient 1, none, false, .system ()⟩, ⟨.recipient 2, none, false, .system ()⟩,
          ⟨.recipient 1, none, false, .system ()⟩, ⟨.recipient 2, none, false, .system ()⟩],
          [1, 3, 5]⟩ produced := by
  obtain ⟨next, ran⟩ : ∃ next, executeBlock
      (fun (state : Unit) (_ : Unit) =>
        (.ok (state, [.system ⟨none, [⟨.recipient 1, false, false, ()⟩], [], []⟩]) :
          Except Unit (Unit × List (ExecutionResult Nat Nat Nat Unit Unit Unit))))
      (fun (state : Unit) (_ : OperationContext Nat Unit) (_ : Unit) =>
        (.ok (state, [.system ⟨none, [⟨.recipient 1, false, false, ()⟩,
          ⟨.recipient 2, true, false, ()⟩], [], []⟩]) :
          Except Unit (Unit × List (ExecutionResult Nat Nat Nat Unit Unit Unit))))
      () (ChainStateView.empty : ChainStateView Nat (GenericApplicationId Nat) Nat)
      ⟨0, 0, none, [()], [(), ()]⟩ =
      .ok ((), next, ⟨[⟨.recipient 1, none, false, .system ()⟩,
          ⟨.recipient 1, none, false, .system ()⟩, ⟨.recipient 2, none, false, .system ()⟩,
          ⟨.recipient 1, none, false, .system ()⟩, ⟨.recipient 2, none, false, .system ()⟩],
          [1, 3, 5]⟩) := ⟨_, rfl⟩
  exact executeBlock_message_ids ran

omit [LinearOrder C] [DecidableEq U] [DecidableEq Nm] in
/-- The first message of an operation that sent one is found at the `next_message_id()` of
the context it ran with: the id that `OpenChain` names its new chain after is the one the
client derives. -/
theorem Numbered.messageIdForOperation_zero
    {executeOperation : S → OperationContext C O → Op →
      Except E (S × List (ExecutionResult C U Nm Es Eu O))}
    {block : Block C O I Op} {outcome : BlockExecutionOutcome C Nm (Message U Es Eu) O}
    {produced : List (List (Outbox.OutgoingMessage C Nm (Message U Es Eu) O))}
    (numbered : Numbered executeOperation block outcome produced) {position : Nat}
    {sent : List (Outbox.OutgoingMessage C Nm (Message U Es Eu) O)}
    (sentEq : produced[block.incomingMessages.length + position]? = some sent)
    (nonempty : sent ≠ []) :
    (outcome.with block).messageIdForOperation position 0 =
      some (OperationContext.nextMessageId
        ⟨block.chainId, block.height, position, block.authenticatedSigner,
          (produced.take (block.incomingMessages.length + position)).flatten.length⟩) := by
  rw [numbered.messageId, sentEq, Option.map_some, Option.getD_some,
    if_pos (List.length_pos_iff.mpr nonempty)]
  rfl

end Numbering

end Linera.Chain.MessageIds
