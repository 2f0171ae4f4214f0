import Linera.Execution.Runtime

set_option autoImplicit false

/-! Executing a block, as it moves native tokens (`ChainStateView::execute_block` in
`linera-chain/src/chain.rs`; `ExecutionStateView::execute_operation`, `execute_message`
and `run_user_action` in `linera-execution/src/execution.rs`).

Before anything runs, `execute_block` credits the chain's account with the `Credit`
messages of the block addressed to that account, so that they can pay the block's fees:
the price of the certificate, and of storing the incoming messages and the operations.
The incoming messages then run, each `Credit` crediting its account once more, and then
the operations. At the end the early credit is debited. Over the whole block the chain's
tokens change by what the `Credit` messages bring, less the transfers, the withdrawals and
the fees: the early credit is taken back exactly once, whatever ran in between. -/

namespace Linera.Execution

/-- `Operation`: of the system, or of a user application, which runs and reports these
counts. -/
inductive Operation (C O : Type) where
  | system (operation : SystemOperation C O)
  | user (counts : RuntimeCounts)
  deriving DecidableEq, Repr

/-- `Message`: of the system, or of a user application, which runs and reports these
counts. -/
inductive Message (C O : Type) where
  | system (message : SystemMessage C O)
  | user (counts : RuntimeCounts)
  deriving DecidableEq, Repr

def Message.creditTo {C O : Type} [DecidableEq C] (chainId : C) : Message C O → Option Nat
  | .system message => message.creditTo chainId
  | .user _ => none

def Operation.transferAmount {C O : Type} : Operation C O → Option Nat
  | .system operation => operation.transferAmount
  | .user _ => none

/-- `ExecutionStateView`: the system's accounts and timestamp, and the resource policy of
its current committee, if the chain is active. -/
structure ExecutionStateView (O : Type) [LinearOrder O] where
  system : SystemExecutionState O
  timestamp : Nat
  policy : Option ResourceControlPolicy

namespace ExecutionStateView

variable {C O : Type} [DecidableEq C] [LinearOrder O]

/-- `run_user_action`, as it touches tokens: the application runs and reports its counts,
then `update_limits` charges them to the chain's account. -/
def runUserAction (state : ExecutionStateView O) (policy : ResourceControlPolicy)
    (counts : RuntimeCounts) : Except ExecutionError (ExecutionStateView O × RawExecutionResult C O) := do
  let (balance, fees) ← (updateLimits policy counts state.system.balance).mapError .pricingError
  pure ({ state with system := { state.system with balance } }, ⟨[], fees.map .fee⟩)

/-- `execute_operation`: a system operation, then the `initialize` of the application it
creates; or a user application's operation. -/
def executeOperation (state : ExecutionStateView O) (context : Context C O)
    (policy : ResourceControlPolicy) :
    Operation C O → Except ExecutionError (ExecutionStateView O × RawExecutionResult C O)
  | .system operation => do
      let (system, result, created) ←
        (state.system.executeOperation context operation).mapError .systemError
      let state := { state with system }
      match created with
      | some counts => do
          let (state, initialized) ← state.runUserAction policy counts
          pure (state, result ++ initialized)
      | none => pure (state, result)
  | .user counts => state.runUserAction policy counts

/-- `execute_message`: a system message, or a user application's message. -/
def executeMessage (state : ExecutionStateView O) (context : Context C O)
    (policy : ResourceControlPolicy) :
    Message C O → Except ExecutionError (ExecutionStateView O × RawExecutionResult C O)
  | .system message =>
      let (system, result) := state.system.executeMessage context message
      .ok ({ state with system }, result)
  | .user counts => state.runUserAction policy counts

omit [DecidableEq C] in
theorem runUserAction_eq_ok {state next : ExecutionStateView O} {policy : ResourceControlPolicy}
    {counts : RuntimeCounts} {result : RawExecutionResult C O}
    (ran : state.runUserAction policy counts = .ok (next, result)) :
    Ledger.Conserves Flow.incoming Flow.outgoing state.system.total next.system.total result.flows ∧
      result.flows.filterMap Flow.receivedAmount = [] ∧
      result.flows.filterMap Flow.transferredAmount = [] ∧ result.CreditsSent := by
  unfold runUserAction at ran
  obtain ⟨⟨balance, fees⟩, charged, done⟩ := (Except.bind_eq_ok_iff _ _ _).mp ran
  simp only [Except.pure_eq_ok, Except.ok.injEq, Prod.mk.injEq] at done
  obtain ⟨rfl, rfl⟩ := done
  have paid := updateLimits_eq_ok ((Except.mapError_eq_ok_iff _ _ _).mp charged)
  have charges : ({ state.system with balance } : SystemExecutionState O).total + fees.sum =
      state.system.total := by
    simp only [SystemExecutionState.total]
    omega
  exact ⟨Ledger.conserves_map_of_paid fees charges (fun _ => rfl) (fun _ => rfl),
    by simp [Flow.receivedAmount], by simp [Flow.transferredAmount],
    by simp [RawExecutionResult.CreditsSent, Flow.sentAmount]⟩

omit [DecidableEq C] in
theorem executeOperation_eq_ok {state next : ExecutionStateView O} {context : Context C O}
    {policy : ResourceControlPolicy} {operation : Operation C O} {result : RawExecutionResult C O}
    (executed : state.executeOperation context policy operation = .ok (next, result)) :
    Ledger.Conserves Flow.incoming Flow.outgoing state.system.total next.system.total result.flows ∧
      result.flows.filterMap Flow.receivedAmount = [] ∧
      result.flows.filterMap Flow.transferredAmount = operation.transferAmount.toList ∧
      result.CreditsSent := by
  cases operation with
  | user counts => exact runUserAction_eq_ok executed
  | system operation =>
      unfold executeOperation at executed
      obtain ⟨⟨system, systemResult, created⟩, systemExecuted, rest⟩ :=
        (Except.bind_eq_ok_iff _ _ _).mp executed
      have systemOk := (Except.mapError_eq_ok_iff _ _ _).mp systemExecuted
      have conserves := SystemExecutionState.executeOperation_conserves systemOk
      obtain ⟨transferred, received, sent⟩ := SystemExecutionState.executeOperation_flows systemOk
      rcases created with _ | counts
      · -- No application to create: the system's result is the whole result.
        simp only [Except.pure_eq_ok, Except.ok.injEq, Prod.mk.injEq] at rest
        obtain ⟨rfl, rfl⟩ := rest
        exact ⟨conserves, received, transferred, sent⟩
      · -- The new application's `initialize` runs after the system operation.
        obtain ⟨⟨initializedState, initialized⟩, initializedRan, done⟩ :=
          (Except.bind_eq_ok_iff _ _ _).mp rest
        simp only [Except.pure_eq_ok, Except.ok.injEq, Prod.mk.injEq] at done
        obtain ⟨rfl, rfl⟩ := done
        obtain ⟨initConserves, initReceived, initTransferred, initSent⟩ :=
          runUserAction_eq_ok initializedRan
        refine ⟨conserves.append initConserves, ?_, ?_, sent.append initSent⟩
        · simp [List.filterMap_append, received, initReceived]
        · simp [List.filterMap_append, transferred, initTransferred, Operation.transferAmount]

theorem executeMessage_eq_ok {state next : ExecutionStateView O} {context : Context C O}
    {policy : ResourceControlPolicy} {message : Message C O} {result : RawExecutionResult C O}
    (executed : state.executeMessage context policy message = .ok (next, result)) :
    ((∀ flow ∈ result.flows, flow.saturated = false) →
      Ledger.Conserves Flow.incoming Flow.outgoing state.system.total next.system.total
        result.flows) ∧
      result.flows.filterMap Flow.receivedAmount =
        (message.creditTo context.chainId).toList ∧
      result.flows.filterMap Flow.transferredAmount = [] ∧ result.CreditsSent := by
  cases message with
  | user counts =>
      obtain ⟨conserves, received, transferred, sent⟩ := runUserAction_eq_ok executed
      exact ⟨fun _ => conserves, received, transferred, sent⟩
  | system message =>
      simp only [executeMessage, Except.ok.injEq, Prod.mk.injEq] at executed
      obtain ⟨rfl, rfl⟩ := executed
      exact ⟨SystemExecutionState.executeMessage_conserves state.system context message,
        SystemExecutionState.executeMessage_received state.system context message,
        SystemExecutionState.executeMessage_transferred state.system context message,
        SystemExecutionState.executeMessage_creditsSent state.system context message⟩

end ExecutionStateView

/-- An incoming message of a block, with the signer it carries. -/
structure IncomingMessage (C O : Type) where
  authenticatedSigner : Option O
  message : Message C O
  deriving DecidableEq, Repr

def IncomingMessage.creditTo {C O : Type} [DecidableEq C] (chainId : C)
    (incoming : IncomingMessage C O) : Option Nat :=
  incoming.message.creditTo chainId

/-- The amount of an incoming `Credit` to the chain's own account, which `execute_block`
credits early. -/
def IncomingMessage.chainCredit {C O : Type} [DecidableEq C] [DecidableEq O] (chainId : C)
    (incoming : IncomingMessage C O) : Option Nat :=
  match incoming.message with
  | .system (.credit account amount) => if account = Account.chain chainId then some amount else none
  | _ => none

/-- `Block`, with the BCS sizes of its incoming messages and operations, which fix their
storage price. -/
structure Block (C O : Type) where
  timestamp : Nat
  authenticatedSigner : Option O
  incomingMessages : List (IncomingMessage C O)
  operations : List (Operation C O)
  incomingMessagesSize : Nat
  operationsSize : Nat
  deriving DecidableEq, Repr

inductive ChainExecutionContext where
  | incomingMessage (index : Nat)
  | operation (index : Nat)
  deriving DecidableEq, Repr

/-- `ChainError`, as `execute_block` raises it. -/
inductive ChainError (C : Type) where
  | arithmeticError (error : ArithmeticError)
  | executionError (error : ExecutionError) (context : ChainExecutionContext)
  | pricingError (error : PricingError)
  | inactiveChain (chainId : C)
  | invalidBlockTimestamp
  deriving DecidableEq, Repr

/-- `BlockExecutionOutcome`: the outgoing messages, and the ghost log of flows. -/
structure BlockExecutionOutcome (C O : Type) where
  messages : List (RawOutgoingMessage C O)
  flows : List (Flow C O)

section Block

variable {C O : Type} [DecidableEq C] [LinearOrder O]

/-- A loop of `execute_block`: each item runs in turn, and the first error stops the
block, with the index of the item. -/
def executeEach {A : Type}
    (execute : ExecutionStateView O → A →
      Except ExecutionError (ExecutionStateView O × RawExecutionResult C O))
    (context : Nat → ChainExecutionContext) :
    Nat → ExecutionStateView O → List A →
      Except (ChainError C) (ExecutionStateView O × RawExecutionResult C O)
  | _, state, [] => .ok (state, ⟨[], []⟩)
  | index, state, item :: rest =>
      match execute state item with
      | .error error => .error (.executionError error (context index))
      | .ok (state, result) =>
          match executeEach execute context (index + 1) state rest with
          | .error error => .error error
          | .ok (state, results) => .ok (state, result ++ results)

omit [DecidableEq C] in
/-- Induction over a loop that ran: each item ran before the items after it, and the
loop's result is the items' results in order. -/
theorem executeEach_induction {A : Type}
    {execute : ExecutionStateView O → A →
      Except ExecutionError (ExecutionStateView O × RawExecutionResult C O)}
    {context : Nat → ChainExecutionContext}
    (motive : ExecutionStateView O → List A → ExecutionStateView O → RawExecutionResult C O →
      Prop)
    (nil : ∀ state, motive state [] state ⟨[], []⟩)
    (cons : ∀ state item rest middle first next others,
      execute state item = .ok (middle, first) → motive middle rest next others →
        motive state (item :: rest) next (first ++ others))
    {index : Nat} {state next : ExecutionStateView O} {items : List A}
    {result : RawExecutionResult C O}
    (ran : executeEach execute context index state items = .ok (next, result)) :
    motive state items next result := by
  induction items generalizing index state result with
  | nil =>
      simp only [executeEach, Except.ok.injEq, Prod.mk.injEq] at ran
      obtain ⟨rfl, rfl⟩ := ran
      exact nil state
  | cons item rest ih =>
      unfold executeEach at ran
      split at ran
      · cases ran
      · rename_i middle first stepped
        split at ran
        · cases ran
        · rename_i others ranRest
          simp only [Except.ok.injEq, Prod.mk.injEq] at ran
          obtain ⟨rfl, rfl⟩ := ran
          exact cons _ _ _ _ _ _ _ stepped (ih ranRest)

omit [DecidableEq C] in
theorem executeEach_conserves {A : Type}
    {execute : ExecutionStateView O → A →
      Except ExecutionError (ExecutionStateView O × RawExecutionResult C O)}
    {context : Nat → ChainExecutionContext}
    (step : ∀ state item next result, execute state item = .ok (next, result) →
      (∀ flow ∈ result.flows, flow.saturated = false) →
      Ledger.Conserves Flow.incoming Flow.outgoing state.system.total next.system.total
        result.flows)
    {index : Nat} {state next : ExecutionStateView O} {items : List A}
    {result : RawExecutionResult C O}
    (ran : executeEach execute context index state items = .ok (next, result))
    (unsaturated : ∀ flow ∈ result.flows, flow.saturated = false) :
    Ledger.Conserves Flow.incoming Flow.outgoing state.system.total next.system.total
      result.flows := by
  refine executeEach_induction (fun state _ next result =>
      (∀ flow ∈ result.flows, flow.saturated = false) →
        Ledger.Conserves Flow.incoming Flow.outgoing state.system.total next.system.total
          result.flows)
    (fun _ _ => Ledger.conserves_nil _ _ _) ?_ ran unsaturated
  intro state item rest middle first next others stepped ih unsaturated
  simp only [RawExecutionResult.flows_append, List.mem_append] at unsaturated
  exact (step _ _ _ _ stepped fun flow mem => unsaturated flow (Or.inl mem)).append
    (ih fun flow mem => unsaturated flow (Or.inr mem))

omit [DecidableEq C] in
theorem executeEach_filterMap {A : Type}
    {execute : ExecutionStateView O → A →
      Except ExecutionError (ExecutionStateView O × RawExecutionResult C O)}
    {context : Nat → ChainExecutionContext} (select : Flow C O → Option Nat)
    (expected : A → Option Nat)
    (step : ∀ state item next result, execute state item = .ok (next, result) →
      result.flows.filterMap select = (expected item).toList)
    {index : Nat} {state next : ExecutionStateView O} {items : List A}
    {result : RawExecutionResult C O}
    (ran : executeEach execute context index state items = .ok (next, result)) :
    result.flows.filterMap select = items.filterMap expected := by
  refine executeEach_induction (fun _ items _ result =>
      result.flows.filterMap select = items.filterMap expected) (fun _ => rfl) ?_ ran
  intro state item rest middle first next others stepped ih
  rw [RawExecutionResult.flows_append, List.filterMap_append, step _ _ _ _ stepped, ih]
  rcases selected : expected item with _ | amount <;> simp [selected]

omit [DecidableEq C] in
theorem executeEach_creditsSent {A : Type}
    {execute : ExecutionStateView O → A →
      Except ExecutionError (ExecutionStateView O × RawExecutionResult C O)}
    {context : Nat → ChainExecutionContext}
    (step : ∀ state item next result, execute state item = .ok (next, result) →
      result.CreditsSent)
    {index : Nat} {state next : ExecutionStateView O} {items : List A}
    {result : RawExecutionResult C O}
    (ran : executeEach execute context index state items = .ok (next, result)) :
    result.CreditsSent :=
  executeEach_induction (fun _ _ _ result => result.CreditsSent) (fun _ => rfl)
    (fun _ _ _ _ _ _ _ stepped ih => (step _ _ _ _ stepped).append ih) ran

/-- `ChainStateView::execute_block`, as it moves tokens. -/
def executeBlock (chainId : C) (state : ExecutionStateView O) (block : Block C O) :
    Except (ChainError C) (ExecutionStateView O × BlockExecutionOutcome C O) := do
  if ¬ state.timestamp ≤ block.timestamp then throw .invalidBlockTimestamp
  let state := { state with timestamp := block.timestamp }
  let some policy := state.policy | throw (.inactiveChain chainId)
  let credit := Amount.sum (block.incomingMessages.filterMap (IncomingMessage.chainCredit chainId))
  let balance ← (Amount.tryAdd state.system.balance credit).mapError .arithmeticError
  let certificateFees := policy.certificatePrice
  let balance ← (subAssignFees balance certificateFees).mapError
    fun error => .pricingError (.arithmeticError error)
  let messagesFees ← (policy.storageBytesWrittenPriceRaw block.incomingMessagesSize).mapError
    fun error => .pricingError (.arithmeticError error)
  let balance ← (subAssignFees balance messagesFees).mapError
    fun error => .pricingError (.arithmeticError error)
  let operationsFees ← (policy.storageBytesWrittenPriceRaw block.operationsSize).mapError
    fun error => .pricingError (.arithmeticError error)
  let balance ← (subAssignFees balance operationsFees).mapError
    fun error => .pricingError (.arithmeticError error)
  let state := { state with system := { state.system with balance } }
  let (state, received) ← executeEach
    (fun state incoming => state.executeMessage ⟨chainId, incoming.authenticatedSigner⟩ policy
      incoming.message)
    .incomingMessage 0 state block.incomingMessages
  let (state, executed) ← executeEach
    (fun state operation => state.executeOperation ⟨chainId, block.authenticatedSigner⟩ policy
      operation)
    .operation 0 state block.operations
  let balance ← (subAssignFees state.system.balance credit).mapError
    fun error => .pricingError (.arithmeticError error)
  pure ({ state with system := { state.system with balance } },
    ⟨received.messages ++ executed.messages,
      [.fee certificateFees, .fee messagesFees, .fee operationsFees] ++ received.flows ++
        executed.flows⟩)

/-- What a successful block does with tokens: it conserves them as long as no credit
saturates, it receives the credits its incoming messages make to this chain, it
transfers what its `Transfer` operations say, and its `Credit` messages carry what it
sent on. -/
theorem executeBlock_eq_ok {chainId : C} {state next : ExecutionStateView O} {block : Block C O}
    {outcome : BlockExecutionOutcome C O}
    (executed : executeBlock chainId state block = .ok (next, outcome)) :
    ((∀ flow ∈ outcome.flows, flow.saturated = false) →
      Ledger.Conserves Flow.incoming Flow.outgoing state.system.total next.system.total
        outcome.flows) ∧
      outcome.flows.filterMap Flow.receivedAmount =
        block.incomingMessages.filterMap (IncomingMessage.creditTo chainId) ∧
      outcome.flows.filterMap Flow.transferredAmount =
        block.operations.filterMap Operation.transferAmount ∧
      outcome.messages.filterMap RawOutgoingMessage.creditAmount =
        outcome.flows.filterMap Flow.sentAmount := by
  unfold executeBlock at executed
  by_cases late : ¬ state.timestamp ≤ block.timestamp
  · simp only [late, not_false_eq_true, if_true, Except.throw_eq_error, Except.error_bind,
      reduceCtorEq] at executed
  rcases policyEq : state.policy with _ | policy
  · simp [late, policyEq] at executed
  simp only [late, if_false, policyEq, Except.bind_eq_ok_iff, Except.mapError_eq_ok_iff] at executed
  obtain ⟨credited, creditedEq, afterCertificate, certificatePaid, messagesFees, -,
    afterMessagesFees, messagesPaid, operationsFees, -, afterOperationsFees, operationsPaid,
    ⟨afterMessages, received⟩, messagesRan, ⟨afterOperations, executedOperations⟩, operationsRan,
    final, finalPaid, done⟩ := executed
  simp only [Except.pure_eq_ok, Except.ok.injEq, Prod.mk.injEq] at done
  obtain ⟨rfl, rfl⟩ := done
  -- The loops, step by step.
  have messagesConserve := executeEach_conserves
    (fun _ _ _ _ ran => (ExecutionStateView.executeMessage_eq_ok ran).1) messagesRan
  have operationsConserve := executeEach_conserves
    (fun _ _ _ _ ran _ => (ExecutionStateView.executeOperation_eq_ok ran).1) operationsRan
  have messagesReceived := executeEach_filterMap Flow.receivedAmount (IncomingMessage.creditTo chainId)
    (fun current incoming after result ran =>
      (@ExecutionStateView.executeMessage_eq_ok C O _ _ current after
        ⟨chainId, incoming.authenticatedSigner⟩ policy incoming.message result ran).2.1)
    messagesRan
  have operationsReceived := executeEach_filterMap Flow.receivedAmount (fun _ => none)
    (fun _ _ _ _ ran => (ExecutionStateView.executeOperation_eq_ok ran).2.1) operationsRan
  have messagesTransferred := executeEach_filterMap Flow.transferredAmount (fun _ => none)
    (fun _ _ _ _ ran => (ExecutionStateView.executeMessage_eq_ok ran).2.2.1) messagesRan
  have operationsTransferred := executeEach_filterMap Flow.transferredAmount
    Operation.transferAmount
    (fun _ _ _ _ ran => (ExecutionStateView.executeOperation_eq_ok ran).2.2.1) operationsRan
  have messagesSent : received.CreditsSent := executeEach_creditsSent
    (fun _ _ _ _ ran => (ExecutionStateView.executeMessage_eq_ok ran).2.2.2) messagesRan
  have operationsSent : executedOperations.CreditsSent := executeEach_creditsSent
    (fun _ _ _ _ ran => (ExecutionStateView.executeOperation_eq_ok ran).2.2.2) operationsRan
  refine ⟨fun unsaturated => ?_, ?_, ?_, ?_⟩
  · -- The early credit is taken back at the end; the fees are logged.
    have creditedSum := Amount.tryAdd_eq_ok creditedEq
    have certificate := subAssignFees_eq_ok certificatePaid
    have messagesCharge := subAssignFees_eq_ok messagesPaid
    have operationsCharge := subAssignFees_eq_ok operationsPaid
    have takenBack := subAssignFees_eq_ok finalPaid
    dsimp only at takenBack
    simp only [List.mem_append] at unsaturated
    have messagesBalance := messagesConserve fun flow mem => unsaturated flow (Or.inl (Or.inr mem))
    have operationsBalance := operationsConserve fun flow mem => unsaturated flow (Or.inr mem)
    unfold Ledger.Conserves at messagesBalance operationsBalance ⊢
    simp only [SystemExecutionState.total] at messagesBalance operationsBalance ⊢
    simp only [List.map_append, List.sum_append, List.map_cons, List.map_nil, List.sum_cons,
      List.sum_nil, Flow.incoming, Flow.outgoing]
    omega
  · -- The fees receive nothing, and neither do the operations.
    rw [List.filterMap_append, List.filterMap_append, messagesReceived, operationsReceived,
      List.filterMap_none, List.append_nil]
    rfl
  · rw [List.filterMap_append, List.filterMap_append, messagesTransferred, operationsTransferred,
      List.filterMap_none]
    rfl
  · -- The fees send nothing on.
    unfold RawExecutionResult.CreditsSent at messagesSent operationsSent
    rw [List.filterMap_append, messagesSent, operationsSent, List.filterMap_append,
      List.filterMap_append]
    rfl

end Block

end Linera.Execution
