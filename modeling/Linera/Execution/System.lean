import Linera.Lib.OrdMap
import Linera.Lib.Except
import Linera.Lib.Ledger

set_option autoImplicit false

/-! Native tokens (`linera-execution/src/system.rs`, `policy.rs` and `lib.rs`; `Amount` in
`linera-base/src/data_types.rs`).

A chain holds tokens in its own account, `balance`, and in the accounts of its owners,
`balances`. Three things move them. A `Transfer` operation debits an account and sends a
`Credit` message, or burns the amount. A `Credit` message credits an account of this chain.
A `Withdraw` message, sent by a `Claim` operation on another chain, debits an owner's
account and sends a `Credit` in turn. Fees are debited from the chain's account by
`sub_assign_fees`, among them the charges that `update_limits` makes for a user
application's fuel and storage.

Each function that moves tokens also returns, as ghost bookkeeping that the code does not
keep, a `Flow` for each movement: what it received, transferred, withdrew or charged. -/

namespace Linera.Execution

inductive ArithmeticError where
  | overflow
  | underflow
  deriving DecidableEq, Repr

-- `Amount`: attotokens in a `u128`, as a natural number up to `Amount.max`.

namespace Amount

def max : Nat := 2 ^ 128 - 1

/-- `Amount::try_add` and `try_add_assign`. -/
def tryAdd (amount other : Nat) : Except ArithmeticError Nat :=
  if amount + other ≤ max then .ok (amount + other) else .error .overflow

/-- `Amount::try_sub` and `try_sub_assign`. -/
def trySub (amount other : Nat) : Except ArithmeticError Nat :=
  if other ≤ amount then .ok (amount - other) else .error .underflow

/-- `Amount::try_mul`, by a `u128`. -/
def tryMul (amount : Nat) (factor : Nat) : Except ArithmeticError Nat :=
  if amount * factor ≤ max then .ok (amount * factor) else .error .overflow

def saturatingAdd (amount other : Nat) : Nat := min (amount + other) max

/-- `Amount::saturating_div`: a `u128` quotient, `u128::MAX` when dividing by zero. -/
def saturatingDiv (amount other : Nat) : Nat := if other = 0 then max else amount / other

/-- `impl Sum for Amount`: a saturating fold. -/
def sum (amounts : List Nat) : Nat := amounts.foldl saturatingAdd 0

theorem trySub_eq_ok {amount other result : Nat} (subtracted : trySub amount other = .ok result) :
    result + other = amount := by
  unfold trySub at subtracted
  split_ifs at subtracted with enough
  cases subtracted
  omega

theorem tryAdd_eq_ok {amount other result : Nat} (added : tryAdd amount other = .ok result) :
    result = amount + other := by
  unfold tryAdd at added
  split_ifs at added
  cases added
  rfl

end Amount

def u64Max : Nat := 2 ^ 64 - 1

/-- `PricingError`; a BCS size is given, so it never fails to serialize. -/
inductive PricingError where
  | arithmeticError (error : ArithmeticError)
  deriving DecidableEq, Repr

/-- `ResourceControlPolicy`, without the limits per block that only the tracker reads and
the price of messages that block execution does not charge. -/
structure ResourceControlPolicy where
  certificate : Nat
  fuel : Nat
  storageNumReads : Nat
  storageBytesRead : Nat
  storageBytesWritten : Nat
  deriving DecidableEq, Repr

namespace ResourceControlPolicy

variable (policy : ResourceControlPolicy)

def certificatePrice : Nat := policy.certificate

def storageNumReadsPrice (count : Nat) : Except ArithmeticError Nat :=
  Amount.tryMul policy.storageNumReads count

def storageBytesReadPrice (count : Nat) : Except ArithmeticError Nat :=
  Amount.tryMul policy.storageBytesRead count

def storageBytesWrittenPrice (count : Nat) : Except ArithmeticError Nat :=
  Amount.tryMul policy.storageBytesWritten count

/-- `storage_bytes_written_price_raw`, for data whose BCS size is `size`. -/
def storageBytesWrittenPriceRaw (size : Nat) : Except ArithmeticError Nat :=
  Amount.tryMul policy.storageBytesWritten size

def fuelPrice (fuel : Nat) : Except ArithmeticError Nat :=
  Amount.tryMul policy.fuel fuel

/-- `remaining_fuel`: how much fuel the balance pays for, as a `u64`. -/
def remainingFuel (balance : Nat) : Nat :=
  min (Amount.saturatingDiv balance policy.fuel) u64Max

end ResourceControlPolicy

def subAssignFees (balance fees : Nat) : Except ArithmeticError Nat :=
  match Amount.trySub balance fees with
  | .ok balance => .ok balance
  | .error _ => .error .underflow

theorem subAssignFees_eq_ok {balance fees result : Nat}
    (charged : subAssignFees balance fees = .ok result) : result + fees = balance := by
  unfold subAssignFees at charged
  split at charged
  · rename_i subtracted
    cases charged
    exact Amount.trySub_eq_ok subtracted
  · cases charged

/-- `RuntimeCounts`: what the runtime measured of a user application's run. -/
structure RuntimeCounts where
  remainingFuel : Nat
  numReads : Nat
  bytesRead : Nat
  bytesWritten : Nat
  deriving DecidableEq, Repr

/-- `ResourceTracker::update_limits`, on the balance: the balance after the fees, and the
fees in the order they are debited. The tracker's own counters are left out. -/
def updateLimits (policy : ResourceControlPolicy) (counts : RuntimeCounts) (balance : Nat) :
    Except PricingError (Nat × List Nat) := do
  -- The fuel being used
  let initialFuel := policy.remainingFuel balance
  let usedFuel := initialFuel - counts.remainingFuel
  let fuelFees ← (policy.fuelPrice usedFuel).mapError .arithmeticError
  let balance ← (subAssignFees balance fuelFees).mapError .arithmeticError
  -- The number of reads
  let readsFees ← (policy.storageNumReadsPrice counts.numReads).mapError .arithmeticError
  let balance ← (subAssignFees balance readsFees).mapError .arithmeticError
  -- The number of bytes read
  let bytesReadFees ← (policy.storageBytesReadPrice counts.bytesRead).mapError .arithmeticError
  let balance ← (subAssignFees balance bytesReadFees).mapError .arithmeticError
  -- The number of bytes written
  let bytesWrittenFees ←
    (policy.storageBytesWrittenPrice counts.bytesWritten).mapError .arithmeticError
  let balance ← (subAssignFees balance bytesWrittenFees).mapError .arithmeticError
  pure (balance, [fuelFees, readsFees, bytesReadFees, bytesWrittenFees])

theorem updateLimits_eq_ok {policy : ResourceControlPolicy} {counts : RuntimeCounts}
    {balance result : Nat} {fees : List Nat}
    (charged : updateLimits policy counts balance = .ok (result, fees)) :
    result + fees.sum = balance := by
  unfold updateLimits at charged
  simp only [Except.bind_eq_ok_iff, Except.mapError_eq_ok_iff] at charged
  obtain ⟨fuelFees, -, afterFuel, fuelPaid, readsFees, -, afterReads, readsPaid, bytesReadFees, -,
    afterBytesRead, bytesReadPaid, bytesWrittenFees, -, afterBytesWritten, bytesWrittenPaid,
    done⟩ := charged
  cases done
  have fuel := subAssignFees_eq_ok fuelPaid
  have reads := subAssignFees_eq_ok readsPaid
  have bytesRead := subAssignFees_eq_ok bytesReadPaid
  have bytesWritten := subAssignFees_eq_ok bytesWrittenPaid
  simp only [List.sum_cons, List.sum_nil]
  omega

/-- `SystemExecutionError`, for the operations that move tokens. -/
inductive SystemExecutionError where
  | arithmeticError (error : ArithmeticError)
  | unauthenticatedTransferOwner
  | incorrectTransferAmount
  | insufficientFunding (currentBalance : Nat)
  | unauthenticatedClaimOwner
  | incorrectClaimAmount
  deriving DecidableEq, Repr

/-- `Account`: a chain, and one of its owners or the chain itself. -/
structure Account (C O : Type) where
  chainId : C
  owner : Option O
  deriving DecidableEq, Repr

def Account.chain {C O : Type} (chainId : C) : Account C O := ⟨chainId, none⟩

inductive Recipient (C O : Type) where
  | burn
  | account (account : Account C O)
  deriving DecidableEq, Repr

/-- `SystemMessage`: the two that move tokens, and the others, none of which touches a
balance. -/
inductive SystemMessage (C O : Type) where
  | credit (account : Account C O) (amount : Nat)
  | withdraw (account : Account C O) (amount : Nat) (recipient : Recipient C O)
  | other
  deriving DecidableEq, Repr

/-- `RawOutgoingMessage`, to one recipient chain. -/
structure RawOutgoingMessage (C O : Type) where
  destination : C
  authenticated : Bool
  message : SystemMessage C O
  deriving DecidableEq, Repr

/-- The `Credit` message that `Transfer` and `Withdraw` send to an account; a burned amount
sends nothing. -/
def Recipient.creditMessages {C O : Type} : Recipient C O → Nat → List (RawOutgoingMessage C O)
  | .account target, amount => [⟨target.chainId, false, .credit target amount⟩]
  | .burn, _ => []

/-- A movement of tokens, logged where the code makes it. -/
inductive Flow (C O : Type) where
  /-- A `Credit` message executed on this chain; `saturated` when the addition
  saturated. -/
  | received (account : Account C O) (amount : Nat) (saturated : Bool)
  /-- A `Transfer` operation, from the chain's account or an owner's. -/
  | transferred (owner : Option O) (recipient : Recipient C O) (amount : Nat)
  /-- A `Withdraw` message that debited the owner's account. -/
  | withdrawn (owner : O) (recipient : Recipient C O) (amount : Nat)
  /-- Fees debited by `sub_assign_fees`. -/
  | fee (amount : Nat)
  deriving DecidableEq, Repr

namespace Flow

variable {C O : Type}

def incoming : Flow C O → Nat
  | received _ amount _ => amount
  | _ => 0

def outgoing : Flow C O → Nat
  | transferred _ _ amount => amount
  | withdrawn _ _ amount => amount
  | fee amount => amount
  | received .. => 0

def saturated : Flow C O → Bool
  | received _ _ saturated => saturated
  | _ => false

def receivedAmount : Flow C O → Option Nat
  | received _ amount _ => some amount
  | _ => none

def transferredAmount : Flow C O → Option Nat
  | transferred _ _ amount => some amount
  | _ => none

/-- What a `Transfer` or a `Withdraw` sent on to an account, in a `Credit` message. -/
def sentAmount : Flow C O → Option Nat
  | transferred _ (.account _) amount => some amount
  | withdrawn _ (.account _) amount => some amount
  | _ => none

end Flow

/-- `RawExecutionResult`: the outgoing messages, and the ghost log of flows. -/
structure RawExecutionResult (C O : Type) where
  messages : List (RawOutgoingMessage C O)
  flows : List (Flow C O)

instance {C O : Type} : Append (RawExecutionResult C O) :=
  ⟨fun first second => ⟨first.messages ++ second.messages, first.flows ++ second.flows⟩⟩

@[simp] theorem RawExecutionResult.flows_append {C O : Type} (first second : RawExecutionResult C O) :
    (first ++ second).flows = first.flows ++ second.flows := rfl

@[simp] theorem RawExecutionResult.messages_append {C O : Type}
    (first second : RawExecutionResult C O) :
    (first ++ second).messages = first.messages ++ second.messages := rfl

/-- The amount a `Credit` message carries. -/
def RawOutgoingMessage.creditAmount {C O : Type} (outgoing : RawOutgoingMessage C O) :
    Option Nat :=
  match outgoing.message with
  | .credit _ amount => some amount
  | _ => none

/-- The `Credit` messages of a result carry, in order, what its flows sent on to accounts. -/
def RawExecutionResult.CreditsSent {C O : Type} (result : RawExecutionResult C O) : Prop :=
  result.messages.filterMap RawOutgoingMessage.creditAmount = result.flows.filterMap Flow.sentAmount

theorem RawExecutionResult.CreditsSent.append {C O : Type} {first second : RawExecutionResult C O}
    (firstSent : first.CreditsSent) (secondSent : second.CreditsSent) :
    (first ++ second).CreditsSent := by
  unfold RawExecutionResult.CreditsSent at firstSent secondSent ⊢
  rw [RawExecutionResult.messages_append, RawExecutionResult.flows_append, List.filterMap_append,
    List.filterMap_append, firstSent, secondSent]

theorem Recipient.creditsSent_transferred {C O : Type} (owner : Option O)
    (recipient : Recipient C O) (amount : Nat) :
    RawExecutionResult.CreditsSent
      ⟨recipient.creditMessages amount, [.transferred owner recipient amount]⟩ := by
  cases recipient <;> rfl

theorem Recipient.creditsSent_withdrawn {C O : Type} (owner : O) (recipient : Recipient C O)
    (amount : Nat) :
    RawExecutionResult.CreditsSent
      ⟨recipient.creditMessages amount, [.withdrawn owner recipient amount]⟩ := by
  cases recipient <;> rfl

/-- `SystemOperation`: the two that move tokens, `CreateApplication`, and the others. -/
inductive SystemOperation (C O : Type) where
  | transfer (owner : Option O) (recipient : Recipient C O) (amount : Nat)
  | claim (owner : O) (target : C) (recipient : Recipient C O) (amount : Nat)
  /-- `CreateApplication`: the new application's `initialize` then runs, and reports these
  counts. -/
  | createApplication (counts : RuntimeCounts)
  /-- Any other operation; none touches a balance. -/
  | other
  deriving DecidableEq, Repr

/-- The fields of `OperationContext` and `MessageContext` that the system reads. -/
structure Context (C O : Type) where
  chainId : C
  authenticatedSigner : Option O
  deriving DecidableEq, Repr

def SystemMessage.creditTo {C O : Type} [DecidableEq C] (chainId : C) :
    SystemMessage C O → Option Nat
  | .credit account amount => if chainId = account.chainId then some amount else none
  | _ => none

def SystemOperation.transferAmount {C O : Type} : SystemOperation C O → Option Nat
  | .transfer _ _ amount => some amount
  | _ => none

/-- `SystemExecutionStateView`, reduced to its accounts. -/
structure SystemExecutionState (O : Type) [LinearOrder O] where
  balance : Nat
  balances : OrdMap O Nat

namespace SystemExecutionState

variable {C O : Type} [DecidableEq C] [LinearOrder O]

/-- The account that `balances.get_mut_or_default(owner)` or `balance.get_mut()` reaches. -/
def balanceOf (state : SystemExecutionState O) : Option O → Nat
  | some owner => (state.balances.get owner).getD 0
  | none => state.balance

/-- Writes through the reference that `balanceOf` reads. -/
def setBalanceOf (state : SystemExecutionState O) : Option O → Nat → SystemExecutionState O
  | some owner, amount => { state with balances := state.balances.insert owner amount }
  | none, amount => { state with balance := amount }

/-- The tokens on the chain: its own account and its owners'. -/
def total (state : SystemExecutionState O) : Nat := state.balance + state.balances.total

omit [DecidableEq C] in
theorem total_setBalanceOf (state : SystemExecutionState O) (owner : Option O) (amount : Nat) :
    (state.setBalanceOf owner amount).total + state.balanceOf owner = state.total + amount := by
  cases owner with
  | none =>
      simp only [setBalanceOf, balanceOf, total]
      omega
  | some owner =>
      have inserted := state.balances.total_insert owner amount
      simp only [setBalanceOf, balanceOf, total]
      omega

/-- `execute_operation`, for the operations that touch balances: the state, the result,
and the counts of a new application's `initialize` to run next. -/
def executeOperation (state : SystemExecutionState O) (context : Context C O) :
    SystemOperation C O →
      Except SystemExecutionError
        (SystemExecutionState O × RawExecutionResult C O × Option RuntimeCounts)
  | .transfer owner recipient amount => do
      if owner.isSome then
        if context.authenticatedSigner ≠ owner then throw .unauthenticatedTransferOwner
      if ¬ amount > 0 then throw .incorrectTransferAmount
      let balance := state.balanceOf owner
      if ¬ balance ≥ amount then throw (.insufficientFunding balance)
      let balance ← (Amount.trySub balance amount).mapError .arithmeticError
      pure (state.setBalanceOf owner balance,
        ⟨recipient.creditMessages amount, [.transferred owner recipient amount]⟩, none)
  | .claim owner target recipient amount => do
      if context.authenticatedSigner ≠ some owner then throw .unauthenticatedClaimOwner
      if ¬ amount > 0 then throw .incorrectClaimAmount
      pure (state, ⟨[⟨target, true, .withdraw ⟨target, some owner⟩ amount recipient⟩], []⟩, none)
  | .createApplication counts => pure (state, ⟨[], []⟩, some counts)
  | .other => pure (state, ⟨[], []⟩, none)

/-- `execute_message`, for the messages that touch balances; a message it does not match
is skipped. -/
def executeMessage (state : SystemExecutionState O) (context : Context C O) :
    SystemMessage C O → SystemExecutionState O × RawExecutionResult C O
  | .credit account amount =>
      if context.chainId = account.chainId then
        let balance := state.balanceOf account.owner
        let credited := Amount.saturatingAdd balance amount
        (state.setBalanceOf account.owner credited,
          ⟨[], [.received account amount (decide (credited ≠ balance + amount))]⟩)
      else (state, ⟨[], []⟩)
  | .withdraw account amount recipient =>
      match account.owner with
      | some owner =>
          if account.chainId = context.chainId ∧ context.authenticatedSigner = some owner then
            let balance := state.balanceOf (some owner)
            match Amount.trySub balance amount with
            | .ok rest =>
                (state.setBalanceOf (some owner) rest,
                  ⟨recipient.creditMessages amount, [.withdrawn owner recipient amount]⟩)
            -- Withdrawal request was skipped due to lack of funds; the owner's entry
            -- was created by `get_mut_or_default`.
            | .error _ => (state.setBalanceOf (some owner) balance, ⟨[], []⟩)
          else (state, ⟨[], []⟩)
      | none => (state, ⟨[], []⟩)
  | .other => (state, ⟨[], []⟩)

omit [DecidableEq C] in
theorem executeOperation_transfer_eq_ok {state next : SystemExecutionState O} {context : Context C O}
    {owner : Option O} {recipient : Recipient C O} {amount : Nat}
    {result : RawExecutionResult C O} {counts : Option RuntimeCounts}
    (executed : state.executeOperation context (.transfer owner recipient amount) =
      .ok (next, result, counts)) :
    ∃ rest, Amount.trySub (state.balanceOf owner) amount = .ok rest ∧
      next = state.setBalanceOf owner rest ∧
      result = ⟨recipient.creditMessages amount, [.transferred owner recipient amount]⟩ ∧
      counts = none := by
  -- A failed check throws, and the rest of the block after it is dropped before the split.
  simp only [executeOperation, Except.throw_eq_error, Except.error_bind] at executed
  -- Past the checks, the subtraction decides.
  split_ifs at executed <;>
    simp only [Except.bind_eq_ok_iff, Except.mapError_eq_ok_iff, Except.pure_eq_ok,
      Except.ok.injEq, Prod.mk.injEq] at executed <;>
    obtain ⟨rest, subtracted, rfl, rfl, rfl⟩ := executed <;>
    exact ⟨rest, subtracted, rfl, rfl, rfl⟩

omit [DecidableEq C] in
/-- Every other operation leaves the accounts alone, moves nothing and sends no `Credit`:
a `Claim` sends a `Withdraw` to the target chain. -/
theorem executeOperation_eq_ok_of_not_transfer {state next : SystemExecutionState O}
    {context : Context C O} {operation : SystemOperation C O} {result : RawExecutionResult C O}
    {counts : Option RuntimeCounts}
    (notTransfer : ∀ owner recipient amount, operation ≠ .transfer owner recipient amount)
    (executed : state.executeOperation context operation = .ok (next, result, counts)) :
    next = state ∧ result.flows = [] ∧
      result.messages.filterMap RawOutgoingMessage.creditAmount = [] := by
  cases operation with
  | transfer owner recipient amount => exact absurd rfl (notTransfer owner recipient amount)
  | claim owner target recipient amount =>
      simp only [executeOperation] at executed
      split_ifs at executed <;>
        simp only [Except.throw_eq_error, Except.error_bind, reduceCtorEq, Except.pure_eq_ok,
          Except.ok.injEq, Prod.mk.injEq] at executed
      obtain ⟨rfl, rfl, -⟩ := executed
      exact ⟨rfl, rfl, rfl⟩
  | createApplication =>
      simp only [executeOperation, Except.pure_eq_ok, Except.ok.injEq, Prod.mk.injEq] at executed
      obtain ⟨rfl, rfl, -⟩ := executed
      exact ⟨rfl, rfl, rfl⟩
  | other =>
      simp only [executeOperation, Except.pure_eq_ok, Except.ok.injEq, Prod.mk.injEq] at executed
      obtain ⟨rfl, rfl, -⟩ := executed
      exact ⟨rfl, rfl, rfl⟩

omit [DecidableEq C] in
theorem executeOperation_conserves {state next : SystemExecutionState O} {context : Context C O}
    {operation : SystemOperation C O} {result : RawExecutionResult C O}
    {counts : Option RuntimeCounts}
    (executed : state.executeOperation context operation = .ok (next, result, counts)) :
    Ledger.Conserves Flow.incoming Flow.outgoing state.total next.total result.flows := by
  by_cases transfer : ∃ owner recipient amount, operation = .transfer owner recipient amount
  · obtain ⟨owner, recipient, amount, rfl⟩ := transfer
    obtain ⟨rest, subtracted, rfl, rfl, -⟩ := executeOperation_transfer_eq_ok executed
    have paid : (state.setBalanceOf owner rest).total + amount = state.total := by
      have kept := state.total_setBalanceOf owner rest
      have debited := Amount.trySub_eq_ok subtracted
      omega
    exact Ledger.conserves_of_paid paid rfl rfl
  · push Not at transfer
    obtain ⟨rfl, flows, -⟩ := executeOperation_eq_ok_of_not_transfer transfer executed
    rw [flows]
    exact Ledger.conserves_nil _ _ _

/-- `execute_message` conserves the chain's tokens, counting what it receives and
withdraws, as long as no credit saturates. -/
theorem executeMessage_conserves (state : SystemExecutionState O) (context : Context C O)
    (message : SystemMessage C O)
    (unsaturated : ∀ flow ∈ (state.executeMessage context message).2.flows,
      flow.saturated = false) :
    Ledger.Conserves Flow.incoming Flow.outgoing state.total
      (state.executeMessage context message).1.total
      (state.executeMessage context message).2.flows := by
  cases message with
  | credit account amount =>
      by_cases here : context.chainId = account.chainId
      · simp only [executeMessage, here, if_true] at unsaturated ⊢
        -- No saturation: the account grows by the amount.
        have exact : Amount.saturatingAdd (state.balanceOf account.owner) amount =
            state.balanceOf account.owner + amount := by
          simpa [Flow.saturated] using unsaturated _ List.mem_cons_self
        have received : (state.setBalanceOf account.owner
            (Amount.saturatingAdd (state.balanceOf account.owner) amount)).total =
            state.total + amount := by
          have kept := state.total_setBalanceOf account.owner
            (Amount.saturatingAdd (state.balanceOf account.owner) amount)
          rw [exact] at kept ⊢
          omega
        exact Ledger.conserves_of_received received rfl rfl
      · simp only [executeMessage, here, if_false]
        exact Ledger.conserves_nil _ _ _
  | withdraw account amount recipient =>
      rcases ownerEq : account.owner with _ | owner
      · simp only [executeMessage, ownerEq]
        exact Ledger.conserves_nil _ _ _
      by_cases allowed : account.chainId = context.chainId ∧ context.authenticatedSigner = some owner
      · rcases subtracted : Amount.trySub (state.balanceOf (some owner)) amount with fault | rest
        · -- Skipped for lack of funds: the owner's entry is written back unchanged.
          simp only [executeMessage, ownerEq, allowed, and_self, if_true, subtracted]
          have kept := state.total_setBalanceOf (some owner) (state.balanceOf (some owner))
          unfold Ledger.Conserves
          simp only [List.map_nil, List.sum_nil]
          omega
        · simp only [executeMessage, ownerEq, allowed, and_self, if_true, subtracted]
          have paid : (state.setBalanceOf (some owner) rest).total + amount = state.total := by
            have kept := state.total_setBalanceOf (some owner) rest
            have debited := Amount.trySub_eq_ok subtracted
            omega
          exact Ledger.conserves_of_paid paid rfl rfl
      · simp only [executeMessage, ownerEq, allowed, if_false]
        exact Ledger.conserves_nil _ _ _
  | other => exact Ledger.conserves_nil _ _ _

theorem executeMessage_received (state : SystemExecutionState O) (context : Context C O)
    (message : SystemMessage C O) :
    (state.executeMessage context message).2.flows.filterMap Flow.receivedAmount =
      (message.creditTo context.chainId).toList := by
  cases message with
  | credit account amount =>
      by_cases here : context.chainId = account.chainId
      · simp only [executeMessage, SystemMessage.creditTo, here, if_true, List.filterMap_cons,
          List.filterMap_nil, Flow.receivedAmount, Option.toList_some]
      · simp only [executeMessage, SystemMessage.creditTo, here, if_false, List.filterMap_nil,
          Option.toList_none]
  | withdraw account amount recipient =>
      simp only [executeMessage, SystemMessage.creditTo, Option.toList_none]
      split
      · split_ifs
        · split <;> rfl
        · rfl
      · rfl
  | other => rfl

theorem executeMessage_transferred (state : SystemExecutionState O) (context : Context C O)
    (message : SystemMessage C O) :
    (state.executeMessage context message).2.flows.filterMap Flow.transferredAmount = [] := by
  cases message with
  | credit account amount =>
      by_cases here : context.chainId = account.chainId
      · simp only [executeMessage, here, if_true, List.filterMap_cons, List.filterMap_nil,
          Flow.transferredAmount]
      · simp only [executeMessage, here, if_false, List.filterMap_nil]
  | withdraw account amount recipient =>
      simp only [executeMessage]
      split
      · split_ifs
        · split <;> rfl
        · rfl
      · rfl
  | other => rfl

theorem executeMessage_creditsSent (state : SystemExecutionState O) (context : Context C O)
    (message : SystemMessage C O) : (state.executeMessage context message).2.CreditsSent := by
  cases message with
  | credit account amount =>
      by_cases here : context.chainId = account.chainId
      · simp only [executeMessage, here, if_true]
        rfl
      · simp only [executeMessage, here, if_false]
        rfl
  | withdraw account amount recipient =>
      simp only [executeMessage]
      split
      · rename_i owner _
        split_ifs
        · split
          · exact Recipient.creditsSent_withdrawn owner recipient amount
          · rfl
        · rfl
      · rfl
  | other => rfl

omit [DecidableEq C] in
theorem executeOperation_flows {state next : SystemExecutionState O} {context : Context C O}
    {operation : SystemOperation C O} {result : RawExecutionResult C O}
    {counts : Option RuntimeCounts}
    (executed : state.executeOperation context operation = .ok (next, result, counts)) :
    result.flows.filterMap Flow.transferredAmount = operation.transferAmount.toList ∧
      result.flows.filterMap Flow.receivedAmount = [] ∧ result.CreditsSent := by
  by_cases transfer : ∃ owner recipient amount, operation = .transfer owner recipient amount
  · obtain ⟨owner, recipient, amount, rfl⟩ := transfer
    obtain ⟨rest, -, -, rfl, -⟩ := executeOperation_transfer_eq_ok executed
    exact ⟨rfl, rfl, Recipient.creditsSent_transferred owner recipient amount⟩
  · push Not at transfer
    obtain ⟨-, flows, credits⟩ := executeOperation_eq_ok_of_not_transfer transfer executed
    have sent : result.CreditsSent := by
      rw [RawExecutionResult.CreditsSent, flows, credits]
      rfl
    rw [flows]
    cases operation with
    | transfer owner recipient amount => exact absurd rfl (transfer owner recipient amount)
    | _ => exact ⟨rfl, rfl, sent⟩

end SystemExecutionState

end Linera.Execution
