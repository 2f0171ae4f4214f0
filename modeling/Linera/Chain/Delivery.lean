import Linera.Chain.Outbox
import Linera.Execution.Applications

set_option autoImplicit false

/-! Registrations sent with the messages of a user application (`run_user_action` in
`linera-execution/src/execution.rs`, `process_execution_results` and `receive_block` in
`linera-chain/src/chain.rs`).

Before the result of a user application, `run_user_action` puts a system result with one
`RegisterApplications` message for each message of the application, to the same
destination, listing the application and all it requires. The chain then schedules each
result in the outboxes of its destinations, under the application id of the result: a
message to `Subscribers(name)` goes to the subscribers of the channel `(System, name)` for
the system result, and of `(User(id), name)` for the user result. A recipient receives a
block once for each of its outboxes that holds the block's height, and `receive_block`
keeps the messages meant for that medium.

So a subscriber of a user channel receives the application's message without the
registration, which went to the subscribers of the system channel of the same name
(`subscriber_receives_no_registration`). -/

namespace Linera.Chain.Delivery

open Outbox Execution.Applications

inductive GenericApplicationId where
  | system
  | user (id : UserApplicationId)
  deriving DecidableEq, Repr

/-- `SystemMessage`: `RegisterApplications`, and the others. -/
inductive SystemMessage where
  | registerApplications (applications : List UserApplicationDescription)
  | other
  deriving DecidableEq, Repr

inductive Message where
  | system (message : SystemMessage)
  | user (applicationId : UserApplicationId) (bytes : List UInt8)
  deriving DecidableEq, Repr

def Message.applicationId : Message → GenericApplicationId
  | .system _ => .system
  | .user applicationId _ => .user applicationId

inductive ExecutionResult (C Nm O : Type) where
  | system (result : RawExecutionResult C Nm SystemMessage O)
  | user (applicationId : UserApplicationId) (result : RawExecutionResult C Nm (List UInt8) O)

variable {C Nm O : Type} [LinearOrder C] [DecidableEq Nm]

/-- The end of `ExecutionStateView::run_user_action`, once the application returned
`result`, with its authenticated signer set, and the runtime pushed `results`: a
`RegisterApplications` for each of its messages, then the result itself. -/
def runUserActionResults (registry : ApplicationRegistryView) (applicationId : UserApplicationId)
    (results : List (ExecutionResult C Nm O)) (result : RawExecutionResult C Nm (List UInt8) O) :
    Except SystemExecutionError (List (ExecutionResult C Nm O)) := do
  -- Make sure to declare the application first for all recipients of the user execution
  -- result.
  let applications ← registry.describeApplicationsWithDependencies [applicationId] ∅
  let systemResult : RawExecutionResult C Nm SystemMessage O :=
    ⟨none, result.messages.map fun message =>
      ⟨message.destination, false, true, .registerApplications applications⟩, [], []⟩
  let results := if systemResult.messages.isEmpty then results else results ++ [.system systemResult]
  pure (results ++ [.user applicationId result])

/-- `ChainStateView::process_execution_results`: each result is scheduled under its own
application id. -/
def processExecutionResults (chain : ChainStateView C GenericApplicationId Nm)
    (messages : List (Outbox.OutgoingMessage C Nm Message O)) (height : Nat) :
    List (ExecutionResult C Nm O) →
      Except (Outbox.ChainError (Outbox.ChannelFullName GenericApplicationId Nm))
        (ChainStateView C GenericApplicationId Nm × List (Outbox.OutgoingMessage C Nm Message O))
  | [] => .ok (chain, messages)
  | .system result :: rest => do
      let (chain, messages) ←
        chain.processRawExecutionResult .system Message.system messages height result
      processExecutionResults chain messages height rest
  | .user applicationId result :: rest => do
      let (chain, messages) ← chain.processRawExecutionResult (.user applicationId)
        (Message.user applicationId) messages height result
      processExecutionResults chain messages height rest

/-- The test of `ChainStateView::receive_block`: a message of the block is for the
recipient on this medium. -/
def isForMedium (recipient : C)
    (medium : Outbox.Medium (Outbox.ChannelFullName GenericApplicationId Nm))
    (message : Outbox.OutgoingMessage C Nm Message O) : Bool :=
  match message.destination with
  | .recipient id => medium = .direct && id = recipient
  | .subscribers name => medium = .channel ⟨message.message.applicationId, name⟩

/-- What a recipient receives of the block at `height` with `messages`: for each of its
outboxes that holds the height, the medium and the messages `receive_block` keeps for it.
`create_network_actions` sends the block on every such medium. -/
def receivedMessages (chain : ChainStateView C GenericApplicationId Nm) (recipient : C)
    (height : Nat) (messages : List (Outbox.OutgoingMessage C Nm Message O)) :
    List (Outbox.Medium (Outbox.ChannelFullName GenericApplicationId Nm) ×
      List (Outbox.OutgoingMessage C Nm Message O)) :=
  chain.outboxes.entries.filterMap fun entry =>
    if entry.1.recipient = recipient ∧ height ∈ entry.2.queue then
      some (entry.1.medium, messages.filter (isForMedium recipient entry.1.medium))
    else none

/-- `ChainError`, as `execute_block` raises it for an operation. -/
inductive BlockError (N : Type) where
  | executionError (error : SystemExecutionError)
  | chainError (error : Outbox.ChainError N)
  deriving DecidableEq, Repr

/-- One operation of `ChainStateView::execute_block` that runs a user application, which
returned `result` and called no other application: `run_user_action`, then
`process_execution_results`. -/
def executeUserOperation (chain : ChainStateView C GenericApplicationId Nm)
    (registry : ApplicationRegistryView) (messages : List (Outbox.OutgoingMessage C Nm Message O))
    (height : Nat) (applicationId : UserApplicationId)
    (result : RawExecutionResult C Nm (List UInt8) O) :
    Except (BlockError (Outbox.ChannelFullName GenericApplicationId Nm))
      (ChainStateView C GenericApplicationId Nm × List (Outbox.OutgoingMessage C Nm Message O)) := do
  let results ← (runUserActionResults registry applicationId [] result).mapError .executionError
  (processExecutionResults chain messages height results).mapError .chainError

set_option synthInstance.maxSize 512 in
/-- Application `⟨1, 1⟩`, which requires nothing, has chain 2 subscribe to its channel 7
in block 0, and sends a message to the subscribers of channel 7 in block 1. Block 1 sends
the registration first, then the message; chain 2 receives block 1 only on the channel of
the application, with the message and without the registration. -/
theorem subscriber_receives_no_registration :
    let x : UserApplicationId := ⟨1, 1⟩
    let description : UserApplicationDescription := ⟨1, 0, 1, [], []⟩
    let registry : ApplicationRegistryView := ⟨∅, (∅ : Descriptions).insert x description⟩
    let subscribing : RawExecutionResult Nat Nat (List UInt8) Nat := ⟨none, [], [(7, 2)], []⟩
    let sending : RawExecutionResult Nat Nat (List UInt8) Nat :=
      ⟨none, [⟨.subscribers 7, false, false, [1]⟩], [], []⟩
    ((executeUserOperation ChainStateView.empty registry [] 0 x subscribing).bind fun executed =>
        executeUserOperation executed.1 registry [] 1 x sending).map
      (fun executed => (executed.2, receivedMessages executed.1 2 1 executed.2)) =
    .ok ([⟨.subscribers 7, none, true, .system (.registerApplications [description])⟩,
          ⟨.subscribers 7, none, false, .user x [1]⟩],
        [(.channel ⟨.user x, 7⟩, [⟨.subscribers 7, none, false, .user x [1]⟩])]) := by
  intro x description registry subscribing sending
  -- The search is a well-founded loop: compute the registration first.
  have described : registry.describeApplicationsWithDependencies [x] ∅ = .ok [description] :=
    registry.describeApplicationsWithDependencies_of_requiresNone rfl rfl
  simp only [executeUserOperation, runUserActionResults, described]
  decide

end Linera.Chain.Delivery
