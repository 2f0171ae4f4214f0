import Linera.Execution.System

set_option autoImplicit false

/-! Storage metering of user applications (`ResourceTracker`, `RuntimeLimits` and
`ResourceTracker::limits` in `linera-execution/src/lib.rs`; the `increment_*` checks and the
storage system calls of `ExecutionRuntime` in `runtime.rs`; `run_user_action` in
`execution.rs`; the tracker of `ChainStateView::execute_block` in `linera-chain`).

`execute_block` starts a `ResourceTracker` with the policy's maximum numbers of bytes to read
and to write in the block. Each user action runs with the `RuntimeLimits` that
`ResourceTracker::limits` computes: a budget for each category, the balance divided by a
price and capped at `u64::MAX`, and the bytes left in the block. The runtime counts the reads,
the bytes read and the bytes written of the action in `u64` counters, and fails a storage call
once a count reaches its budget or the bytes left. After the action, `update_limits` charges
the counts to the balance and takes the bytes from those left in the block.

Counters are `u64`s whose `fetch_add`, `+=` and `-=` wrap in a release build; they are
natural numbers here, with the wrapping written out. -/

namespace Linera.Execution.Metering

/-- `fetch_add` and `+=` on a `u64`. -/
def wrappingAdd (counter increment : Nat) : Nat := (counter + increment) % 2 ^ 64

/-- `-=` on a `u64`. -/
def wrappingSub (counter decrement : Nat) : Nat := (counter + (2 ^ 64 - decrement)) % 2 ^ 64

theorem wrappingAdd_eq {counter increment : Nat} (fits : counter + increment < 2 ^ 64) :
    wrappingAdd counter increment = counter + increment :=
  Nat.mod_eq_of_lt fits

theorem wrappingSub_eq {counter decrement : Nat} (small : counter < 2 ^ 64)
    (enough : decrement ≤ counter) : wrappingSub counter decrement = counter - decrement := by
  unfold wrappingSub
  omega

/-- `ExecutionError`, as the metering raises it. -/
inductive ExecutionError where
  | arithmeticError (error : ArithmeticError)
  | excessiveRead
  | excessiveWrite
  /-- The fees of `update_limits` could not be priced or paid. -/
  | pricingError (error : PricingError)
  deriving DecidableEq, Repr

structure RuntimeLimits where
  maxBudgetNumReads : Nat
  maxBudgetBytesRead : Nat
  maxBudgetBytesWritten : Nat
  maximumBytesLeftToRead : Nat
  maximumBytesLeftToWrite : Nat
  deriving DecidableEq, Repr

structure ResourceTracker where
  usedFuel : Nat
  numReads : Nat
  bytesRead : Nat
  bytesWritten : Nat
  maximumBytesLeftToRead : Nat
  maximumBytesLeftToWrite : Nat
  deriving DecidableEq, Repr

/-- The limits per block of `ResourceControlPolicy`, which only the tracker reads; they are
`u64`s. -/
structure BlockLimits where
  maximumBytesReadPerBlock : Nat
  maximumBytesWrittenPerBlock : Nat
  read_lt : maximumBytesReadPerBlock < 2 ^ 64
  written_lt : maximumBytesWrittenPerBlock < 2 ^ 64

/-- The budget of a category, as `limits` computes each:
`u64::try_from(balance.saturating_div(price)).unwrap_or(u64::MAX)`. -/
def budget (balance price : Nat) : Nat := min (Amount.saturatingDiv balance price) u64Max

namespace ResourceTracker

/-- The tracker `execute_block` starts with. -/
def new (limits : BlockLimits) : ResourceTracker :=
  ⟨0, 0, 0, 0, limits.maximumBytesReadPerBlock, limits.maximumBytesWrittenPerBlock⟩

def limits (tracker : ResourceTracker) (policy : ResourceControlPolicy) (balance : Nat) :
    RuntimeLimits :=
  let maxBudgetNumReads := budget balance policy.storageNumReads
  let maxBudgetBytesRead := budget balance policy.storageBytesRead
  let maxBudgetBytesWritten := budget balance policy.storageBytesRead
  ⟨maxBudgetNumReads, maxBudgetBytesRead, maxBudgetBytesWritten, tracker.maximumBytesLeftToRead,
    tracker.maximumBytesLeftToWrite⟩

/-- The counters of `update_limits`, once its fees are paid. -/
def record (tracker : ResourceTracker) (usedFuel : Nat) (counts : RuntimeCounts) :
    ResourceTracker :=
  ⟨wrappingAdd tracker.usedFuel usedFuel, wrappingAdd tracker.numReads counts.numReads,
    wrappingAdd tracker.bytesRead counts.bytesRead,
    wrappingAdd tracker.bytesWritten counts.bytesWritten,
    wrappingSub tracker.maximumBytesLeftToRead counts.bytesRead,
    wrappingSub tracker.maximumBytesLeftToWrite counts.bytesWritten⟩

/-- `ResourceTracker::update_limits`: the fees of the counts are debited from the balance, as
`updateLimits` computes them, and the counts are recorded. A failure fails the block, so the
counters it has already changed do not matter. -/
def updateLimits (tracker : ResourceTracker) (balance : Nat) (policy : ResourceControlPolicy)
    (counts : RuntimeCounts) : Except ExecutionError (ResourceTracker × Nat) := do
  -- The fuel being used
  let initialFuel := policy.remainingFuel balance
  let usedFuel := initialFuel - counts.remainingFuel
  let (balance, _) ← (Execution.updateLimits policy counts balance).mapError .pricingError
  pure (tracker.record usedFuel counts, balance)

end ResourceTracker

/-- The counters of `ExecutionRuntime`, and the limits of its action. -/
structure ExecutionRuntime where
  numReads : Nat
  bytesRead : Nat
  bytesWritten : Nat
  runtimeLimits : RuntimeLimits
  deriving DecidableEq, Repr

/-- What `increment_bytes_read` and `increment_bytes_written` do with their counter: an
increment of half of `u64::MAX` or more is excessive; otherwise the counter grows, and the
count must stay below the budget, else the error is an overflow, and below the bytes left in
the block, else it is excessive. -/
def incrementBytes (excessive : ExecutionError) (counter budget left increment : Nat) :
    Except ExecutionError Nat :=
  if increment ≥ u64Max / 2 then .error excessive
  else
    let bytes := wrappingAdd counter increment
    if bytes ≥ budget then .error (.arithmeticError .overflow)
    else if bytes ≥ left then .error excessive
    else .ok bytes

theorem incrementBytes_eq_ok {excessive : ExecutionError} {counter budget left increment bytes : Nat} :
    incrementBytes excessive counter budget left increment = .ok bytes ↔
      increment < u64Max / 2 ∧ bytes = wrappingAdd counter increment ∧ bytes < budget ∧
        bytes < left := by
  constructor
  · intro admitted
    unfold incrementBytes at admitted
    dsimp only at admitted
    split_ifs at admitted
    cases admitted
    exact ⟨by omega, rfl, by omega, by omega⟩
  · rintro ⟨small, rfl, within, below⟩
    unfold incrementBytes
    dsimp only
    rw [if_neg (by omega), if_neg (by omega), if_neg (by omega)]

namespace ExecutionRuntime

/-- The runtime of a new action. -/
def new (runtimeLimits : RuntimeLimits) : ExecutionRuntime := ⟨0, 0, 0, runtimeLimits⟩

def incrementNumReads (runtime : ExecutionRuntime) : Except ExecutionError ExecutionRuntime :=
  let numReads := wrappingAdd runtime.numReads 1
  if numReads ≥ runtime.runtimeLimits.maxBudgetNumReads then .error (.arithmeticError .overflow)
  else .ok { runtime with numReads }

def incrementBytesRead (runtime : ExecutionRuntime) (increment : Nat) :
    Except ExecutionError ExecutionRuntime := do
  let bytesRead ← incrementBytes .excessiveRead runtime.bytesRead
    runtime.runtimeLimits.maxBudgetBytesRead runtime.runtimeLimits.maximumBytesLeftToRead increment
  pure { runtime with bytesRead }

def incrementBytesWritten (runtime : ExecutionRuntime) (increment : Nat) :
    Except ExecutionError ExecutionRuntime := do
  let bytesWritten ← incrementBytes .excessiveWrite runtime.bytesWritten
    runtime.runtimeLimits.maxBudgetBytesWritten runtime.runtimeLimits.maximumBytesLeftToWrite
    increment
  pure { runtime with bytesWritten }

/-- `runtime_counts`, with the fuel the action has left. -/
def runtimeCounts (runtime : ExecutionRuntime) (remainingFuel : Nat) : RuntimeCounts :=
  ⟨remainingFuel, runtime.numReads, runtime.bytesRead, runtime.bytesWritten⟩

end ExecutionRuntime

/-- A storage system call of user code, with the sizes of what it moves. -/
inductive StorageCall where
  /-- `read_key_bytes`, with the length of the value found, if any. -/
  | readKeyBytes (value : Option Nat)
  /-- `find_keys_by_prefix`, with the lengths of the keys found. -/
  | findKeysByPrefix (keys : List Nat)
  /-- `find_key_values_by_prefix`, with the lengths of the keys and values found. -/
  | findKeyValuesByPrefix (keyValues : List (Nat × Nat))
  /-- `try_read_my_state`, with the length of the state. -/
  | tryReadMyState (state : Nat)
  /-- `try_read_and_lock_my_state`, with the length of the state. -/
  | tryReadAndLockMyState (state : Nat)
  /-- `save_and_unlock_my_state`, with the length of the state. -/
  | saveAndUnlockMyState (state : Nat)
  /-- `write_batch_and_unlock`, with `batch.size()`. -/
  | writeBatchAndUnlock (size : Nat)
  deriving DecidableEq, Repr

namespace StorageCall

def obtained : StorageCall → Nat
  | .readKeyBytes value => value.getD 0
  | .findKeysByPrefix keys => keys.sum
  | .findKeyValuesByPrefix keyValues => (keyValues.map fun entry => entry.1 + entry.2).sum
  | .tryReadMyState state => state
  | .tryReadAndLockMyState state => state
  | .saveAndUnlockMyState _ => 0
  | .writeBatchAndUnlock _ => 0

def persisted : StorageCall → Nat
  | .saveAndUnlockMyState state => state
  | .writeBatchAndUnlock size => size
  | _ => 0

end StorageCall

namespace ExecutionRuntime

/-- A storage call: the calls on the view of the application count a read and the bytes they
return, `write_batch_and_unlock` counts the bytes of its batch, and the calls on the simple
state of the application count nothing. -/
def runStorageCall (runtime : ExecutionRuntime) :
    StorageCall → Except ExecutionError ExecutionRuntime
  | .readKeyBytes value => do
      let runtime ← runtime.incrementNumReads
      match value with
      | some length => runtime.incrementBytesRead length
      | none => pure runtime
  | .findKeysByPrefix keys => do
      let runtime ← runtime.incrementNumReads
      runtime.incrementBytesRead keys.sum
  | .findKeyValuesByPrefix keyValues => do
      let runtime ← runtime.incrementNumReads
      runtime.incrementBytesRead (keyValues.map fun entry => entry.1 + entry.2).sum
  | .tryReadMyState _ => pure runtime
  | .tryReadAndLockMyState _ => pure runtime
  | .saveAndUnlockMyState _ => pure runtime
  | .writeBatchAndUnlock size => runtime.incrementBytesWritten size

theorem incrementNumReads_eq_ok {runtime next : ExecutionRuntime} :
    runtime.incrementNumReads = .ok next ↔
      wrappingAdd runtime.numReads 1 < runtime.runtimeLimits.maxBudgetNumReads ∧
        next = { runtime with numReads := wrappingAdd runtime.numReads 1 } := by
  unfold incrementNumReads
  dsimp only
  by_cases exceeded : wrappingAdd runtime.numReads 1 ≥ runtime.runtimeLimits.maxBudgetNumReads
  · rw [if_pos exceeded]
    exact ⟨fun failed => (nomatch failed), fun ⟨below, _⟩ => absurd exceeded (by omega)⟩
  · rw [if_neg exceeded, Except.ok.injEq]
    exact ⟨fun same => ⟨by omega, same.symm⟩, fun ⟨_, same⟩ => same.symm⟩

theorem incrementBytesRead_eq_ok {runtime next : ExecutionRuntime} {increment : Nat} :
    runtime.incrementBytesRead increment = .ok next ↔
      ∃ bytesRead, incrementBytes .excessiveRead runtime.bytesRead
          runtime.runtimeLimits.maxBudgetBytesRead runtime.runtimeLimits.maximumBytesLeftToRead
          increment = .ok bytesRead ∧
        next = { runtime with bytesRead } := by
  unfold incrementBytesRead
  exact Except.bind_pure_eq_ok_iff _ _ _

theorem incrementBytesWritten_eq_ok {runtime next : ExecutionRuntime} {increment : Nat} :
    runtime.incrementBytesWritten increment = .ok next ↔
      ∃ bytesWritten, incrementBytes .excessiveWrite runtime.bytesWritten
          runtime.runtimeLimits.maxBudgetBytesWritten runtime.runtimeLimits.maximumBytesLeftToWrite
          increment = .ok bytesWritten ∧
        next = { runtime with bytesWritten } := by
  unfold incrementBytesWritten
  exact Except.bind_pure_eq_ok_iff _ _ _

/-- The counters of a runtime are each zero, or were admitted: below their budget and, for
bytes, below the bytes left in the block. -/
structure Within (runtime : ExecutionRuntime) : Prop where
  numReads : runtime.numReads = 0 ∨ runtime.numReads < runtime.runtimeLimits.maxBudgetNumReads
  bytesRead : runtime.bytesRead = 0 ∨
    runtime.bytesRead < runtime.runtimeLimits.maxBudgetBytesRead ∧
      runtime.bytesRead < runtime.runtimeLimits.maximumBytesLeftToRead
  bytesWritten : runtime.bytesWritten = 0 ∨
    runtime.bytesWritten < runtime.runtimeLimits.maxBudgetBytesWritten ∧
      runtime.bytesWritten < runtime.runtimeLimits.maximumBytesLeftToWrite

theorem within_new (runtimeLimits : RuntimeLimits) : (new runtimeLimits).Within :=
  ⟨Or.inl rfl, Or.inl rfl, Or.inl rfl⟩

/-- A runtime that a successful call leaves: the limits are those before, and counters within
them stay so. -/
structure Follows (runtime next : ExecutionRuntime) : Prop where
  runtimeLimits : next.runtimeLimits = runtime.runtimeLimits
  within : runtime.Within → next.Within

theorem Follows.refl (runtime : ExecutionRuntime) : Follows runtime runtime := ⟨rfl, id⟩

theorem Follows.trans {runtime middle next : ExecutionRuntime} (first : Follows runtime middle)
    (second : Follows middle next) : Follows runtime next :=
  ⟨second.runtimeLimits.trans first.runtimeLimits, fun within => second.within (first.within within)⟩

theorem follows_incrementNumReads {runtime next : ExecutionRuntime}
    (counted : runtime.incrementNumReads = .ok next) : Follows runtime next := by
  obtain ⟨below, rfl⟩ := incrementNumReads_eq_ok.mp counted
  exact ⟨rfl, fun within => ⟨Or.inr below, within.bytesRead, within.bytesWritten⟩⟩

theorem follows_incrementBytesRead {runtime next : ExecutionRuntime} {increment : Nat}
    (counted : runtime.incrementBytesRead increment = .ok next) : Follows runtime next := by
  obtain ⟨bytesRead, admitted, rfl⟩ := incrementBytesRead_eq_ok.mp counted
  obtain ⟨-, -, withinBudget, withinLeft⟩ := incrementBytes_eq_ok.mp admitted
  exact ⟨rfl, fun within => ⟨within.numReads, Or.inr ⟨withinBudget, withinLeft⟩,
    within.bytesWritten⟩⟩

theorem follows_incrementBytesWritten {runtime next : ExecutionRuntime} {increment : Nat}
    (counted : runtime.incrementBytesWritten increment = .ok next) : Follows runtime next := by
  obtain ⟨bytesWritten, admitted, rfl⟩ := incrementBytesWritten_eq_ok.mp counted
  obtain ⟨-, -, withinBudget, withinLeft⟩ := incrementBytes_eq_ok.mp admitted
  exact ⟨rfl, fun within => ⟨within.numReads, within.bytesRead,
    Or.inr ⟨withinBudget, withinLeft⟩⟩⟩

theorem follows_runStorageCall {runtime next : ExecutionRuntime} {call : StorageCall}
    (ran : runtime.runStorageCall call = .ok next) : Follows runtime next := by
  cases call with
  | readKeyBytes value =>
      obtain ⟨middle, counted, rest⟩ := (Except.bind_eq_ok_iff _ _ _).mp ran
      cases value with
      | none =>
          cases rest
          exact follows_incrementNumReads counted
      | some length => exact (follows_incrementNumReads counted).trans (follows_incrementBytesRead rest)
  | findKeysByPrefix keys =>
      obtain ⟨middle, counted, rest⟩ := (Except.bind_eq_ok_iff _ _ _).mp ran
      exact (follows_incrementNumReads counted).trans (follows_incrementBytesRead rest)
  | findKeyValuesByPrefix keyValues =>
      obtain ⟨middle, counted, rest⟩ := (Except.bind_eq_ok_iff _ _ _).mp ran
      exact (follows_incrementNumReads counted).trans (follows_incrementBytesRead rest)
  | tryReadMyState state =>
      cases ran
      exact Follows.refl _
  | tryReadAndLockMyState state =>
      cases ran
      exact Follows.refl _
  | saveAndUnlockMyState state =>
      cases ran
      exact Follows.refl _
  | writeBatchAndUnlock size => exact follows_incrementBytesWritten ran

def runStorageCalls : ExecutionRuntime → List StorageCall → Except ExecutionError ExecutionRuntime
  | runtime, [] => .ok runtime
  | runtime, call :: rest => do
      let runtime ← runtime.runStorageCall call
      runStorageCalls runtime rest

theorem follows_runStorageCalls {runtime next : ExecutionRuntime} {calls : List StorageCall}
    (ran : runtime.runStorageCalls calls = .ok next) : Follows runtime next := by
  induction calls generalizing runtime with
  | nil =>
      cases ran
      exact Follows.refl _
  | cons call rest ih =>
      obtain ⟨middle, first, later⟩ := (Except.bind_eq_ok_iff _ _ _).mp ran
      exact (follows_runStorageCall first).trans (ih later)

end ExecutionRuntime

/-- A user action as the metering sees it: the storage calls of the application, and of the
applications and sessions it calls, in the order they are made, and the fuel it burns. -/
structure UserAction where
  calls : List StorageCall
  fuel : Nat
  deriving DecidableEq, Repr

/-- `run_user_action`, as it meters storage: the runtime starts with the limits of the
tracker at the balance, runs the calls of the action, and `update_limits` charges its counts. -/
def runUserAction (tracker : ResourceTracker) (policy : ResourceControlPolicy) (balance : Nat)
    (action : UserAction) : Except ExecutionError (ResourceTracker × Nat) := do
  let runtimeLimits := tracker.limits policy balance
  let initialRemainingFuel := policy.remainingFuel balance
  let runtime ← (ExecutionRuntime.new runtimeLimits).runStorageCalls action.calls
  let runtimeCounts := runtime.runtimeCounts (initialRemainingFuel - action.fuel)
  tracker.updateLimits balance policy runtimeCounts

def executeActions (policy : ResourceControlPolicy) :
    ResourceTracker → Nat → List UserAction → Except ExecutionError (ResourceTracker × Nat)
  | tracker, balance, [] => .ok (tracker, balance)
  | tracker, balance, action :: rest => do
      let (tracker, balance) ← runUserAction tracker policy balance action
      executeActions policy tracker balance rest

/-- `ChainStateView::execute_block`, as it meters storage: the user actions of its incoming
messages and operations, from a new tracker. -/
def executeBlock (policy : ResourceControlPolicy) (limits : BlockLimits) (balance : Nat)
    (actions : List UserAction) : Except ExecutionError (ResourceTracker × Nat) :=
  executeActions policy (ResourceTracker.new limits) balance actions

theorem runUserAction_eq_ok {tracker next : ResourceTracker} {policy : ResourceControlPolicy}
    {balance after : Nat} {action : UserAction}
    (ran : runUserAction tracker policy balance action = .ok (next, after)) :
    ∃ runtime : ExecutionRuntime,
      (ExecutionRuntime.new (tracker.limits policy balance)).runStorageCalls action.calls =
          .ok runtime ∧
        runtime.runtimeLimits = tracker.limits policy balance ∧ runtime.Within ∧
        ∃ usedFuel, next = tracker.record usedFuel
          (runtime.runtimeCounts (policy.remainingFuel balance - action.fuel)) := by
  unfold runUserAction at ran
  obtain ⟨runtime, calls, charged⟩ := (Except.bind_eq_ok_iff _ _ _).mp ran
  have follows := ExecutionRuntime.follows_runStorageCalls calls
  refine ⟨runtime, calls, follows.runtimeLimits, follows.within (ExecutionRuntime.within_new _), ?_⟩
  unfold ResourceTracker.updateLimits at charged
  obtain ⟨⟨paid, fees⟩, -, done⟩ := (Except.bind_eq_ok_iff _ _ _).mp charged
  simp only [Except.pure_eq_ok, Except.ok.injEq, Prod.mk.injEq] at done
  exact ⟨_, done.1.symm⟩

theorem account_record {counted left maximum count : Nat} (small : maximum < 2 ^ 64)
    (sum : counted + left = maximum) (positive : counted = 0 ∨ 0 < left)
    (admitted : count = 0 ∨ count < left) :
    wrappingAdd counted count + wrappingSub left count = maximum ∧
      (wrappingAdd counted count = 0 ∨ 0 < wrappingSub left count) := by
  have enough : count ≤ left := by omega
  rw [wrappingAdd_eq (by omega), wrappingSub_eq (by omega) enough]
  omega

/-- The bytes the tracker has counted and those it has left make up the maximum of the
block, and some are left once any was counted. -/
structure Accounts (limits : BlockLimits) (tracker : ResourceTracker) : Prop where
  read : tracker.bytesRead + tracker.maximumBytesLeftToRead = limits.maximumBytesReadPerBlock
  written :
    tracker.bytesWritten + tracker.maximumBytesLeftToWrite = limits.maximumBytesWrittenPerBlock
  readLeft : tracker.bytesRead = 0 ∨ 0 < tracker.maximumBytesLeftToRead
  writtenLeft : tracker.bytesWritten = 0 ∨ 0 < tracker.maximumBytesLeftToWrite

theorem accounts_new (limits : BlockLimits) : Accounts limits (ResourceTracker.new limits) :=
  ⟨Nat.zero_add _, Nat.zero_add _, Or.inl rfl, Or.inl rfl⟩

/-- A user action keeps the accounts: the strict checks of the runtime against the bytes left
are what make the unchecked `-=` of `update_limits` exact. -/
theorem Accounts.runUserAction {limits : BlockLimits} {tracker next : ResourceTracker}
    {policy : ResourceControlPolicy} {balance after : Nat} {action : UserAction}
    (accounts : Accounts limits tracker)
    (ran : runUserAction tracker policy balance action = .ok (next, after)) :
    Accounts limits next := by
  obtain ⟨runtime, -, limitsEq, within, usedFuel, rfl⟩ := runUserAction_eq_ok ran
  -- The runtime ran against the bytes the tracker had left.
  have readAdmitted :
      runtime.bytesRead = 0 ∨ runtime.bytesRead < tracker.maximumBytesLeftToRead := by
    rcases within.bytesRead with zero | ⟨-, below⟩
    · exact Or.inl zero
    · rw [limitsEq] at below
      exact Or.inr below
  have writtenAdmitted :
      runtime.bytesWritten = 0 ∨ runtime.bytesWritten < tracker.maximumBytesLeftToWrite := by
    rcases within.bytesWritten with zero | ⟨-, below⟩
    · exact Or.inl zero
    · rw [limitsEq] at below
      exact Or.inr below
  obtain ⟨read, readLeft⟩ :=
    account_record limits.read_lt accounts.read accounts.readLeft readAdmitted
  obtain ⟨written, writtenLeft⟩ :=
    account_record limits.written_lt accounts.written accounts.writtenLeft writtenAdmitted
  exact ⟨read, written, readLeft, writtenLeft⟩

theorem Accounts.executeActions {limits : BlockLimits} {policy : ResourceControlPolicy}
    {tracker final : ResourceTracker} {balance after : Nat} {actions : List UserAction}
    (accounts : Accounts limits tracker)
    (ran : executeActions policy tracker balance actions = .ok (final, after)) :
    Accounts limits final := by
  induction actions generalizing tracker balance with
  | nil =>
      simp only [Metering.executeActions, Except.ok.injEq, Prod.mk.injEq] at ran
      obtain ⟨rfl, rfl⟩ := ran
      exact accounts
  | cons action rest ih =>
      obtain ⟨⟨middle, paid⟩, first, later⟩ := (Except.bind_eq_ok_iff _ _ _).mp ran
      exact ih (accounts.runUserAction first) later

/-- Over a successful block, the bytes the runtime admitted to the user actions total at most
the maximum of the block, and less than it once any was counted; the same for the bytes
written. -/
theorem executeBlock_counted_bytes {policy : ResourceControlPolicy} {limits : BlockLimits}
    {balance after : Nat} {actions : List UserAction} {final : ResourceTracker}
    (ran : executeBlock policy limits balance actions = .ok (final, after)) :
    (final.bytesRead = 0 ∨ final.bytesRead < limits.maximumBytesReadPerBlock) ∧
      (final.bytesWritten = 0 ∨ final.bytesWritten < limits.maximumBytesWrittenPerBlock) := by
  obtain ⟨read, written, readLeft, writtenLeft⟩ := (accounts_new limits).executeActions ran
  omega

/-- A block of one action that reads a value of 5 bytes, under budgets of 100 bytes. -/
theorem executeBlock_counted_bytes_of_read :
    let limits : BlockLimits := ⟨100, 100, by decide, by decide⟩
    ∃ final after, executeBlock ⟨0, 0, 0, 0, 0⟩ limits 10 [⟨[.readKeyBytes (some 5)], 0⟩] =
        .ok (final, after) ∧
      (final.bytesRead = 0 ∨ final.bytesRead < limits.maximumBytesReadPerBlock) ∧
      (final.bytesWritten = 0 ∨ final.bytesWritten < limits.maximumBytesWrittenPerBlock) := by
  intro limits
  obtain ⟨final, after, ran⟩ : ∃ final after,
      executeBlock ⟨0, 0, 0, 0, 0⟩ limits 10 [⟨[.readKeyBytes (some 5)], 0⟩] =
        .ok (final, after) := ⟨_, _, rfl⟩
  exact ⟨final, after, ran, executeBlock_counted_bytes ran⟩

theorem updateLimits_nothing (policy : ResourceControlPolicy) (balance : Nat) :
    Execution.updateLimits policy ⟨policy.remainingFuel balance, 0, 0, 0⟩ balance =
      .ok (balance, [0, 0, 0, 0]) := by
  simp [Execution.updateLimits, ResourceControlPolicy.fuelPrice,
    ResourceControlPolicy.storageNumReadsPrice, ResourceControlPolicy.storageBytesReadPrice,
    ResourceControlPolicy.storageBytesWrittenPrice, Amount.tryMul, subAssignFees, Amount.trySub]

/-- Two things escape the budgets. The simple state of an application is read and saved
without a count: a block whose one action reads and saves a state of any size succeeds, and
its tracker has counted nothing. And a batch is admitted against the budget that `limits`
computes from the price of bytes read, whatever the price of bytes written. -/
theorem executeBlock_storage_metering (policy : ResourceControlPolicy) (limits : BlockLimits)
    (balance size : Nat) :
    executeBlock policy limits balance [⟨[.tryReadMyState size, .saveAndUnlockMyState size], 0⟩] =
        .ok (ResourceTracker.new limits, balance) ∧
      ∀ tracker : ResourceTracker,
        (∃ runtime, (ExecutionRuntime.new (tracker.limits policy balance)).runStorageCalls
            [.writeBatchAndUnlock size] = .ok runtime) ↔
          size < u64Max / 2 ∧ size < budget balance policy.storageBytesRead ∧
            size < tracker.maximumBytesLeftToWrite := by
  constructor
  · -- Neither call counts anything: the action is charged nothing and the tracker is unchanged.
    have recorded : (ResourceTracker.new limits).record 0 ⟨policy.remainingFuel balance, 0, 0, 0⟩ =
        ResourceTracker.new limits := by
      have read := limits.read_lt
      have written := limits.written_lt
      simp only [ResourceTracker.record, ResourceTracker.new, wrappingAdd, wrappingSub,
        ResourceTracker.mk.injEq]
      omega
    simp [executeBlock, executeActions, runUserAction, ExecutionRuntime.runStorageCalls,
      ExecutionRuntime.runStorageCall, ExecutionRuntime.runtimeCounts, ExecutionRuntime.new,
      ResourceTracker.updateLimits, updateLimits_nothing, recorded]
  · -- A batch is admitted against the budget of the price of bytes read.
    intro tracker
    constructor
    · rintro ⟨runtime, ran⟩
      obtain ⟨written, counted, -⟩ := (Except.bind_eq_ok_iff _ _ _).mp ran
      obtain ⟨bytesWritten, admitted, -⟩ := ExecutionRuntime.incrementBytesWritten_eq_ok.mp counted
      obtain ⟨small, rfl, withinBudget, withinLeft⟩ := incrementBytes_eq_ok.mp admitted
      have fits : wrappingAdd 0 size = size := by
        unfold wrappingAdd
        unfold u64Max at small
        omega
      -- The runtime is new: its count starts at zero, and its budget is that of `limits`.
      change wrappingAdd 0 size < budget balance policy.storageBytesRead at withinBudget
      change wrappingAdd 0 size < tracker.maximumBytesLeftToWrite at withinLeft
      rw [fits] at withinBudget withinLeft
      exact ⟨small, withinBudget, withinLeft⟩
    · rintro ⟨small, withinBudget, withinLeft⟩
      have fits : wrappingAdd 0 size = size := by
        unfold wrappingAdd
        unfold u64Max at small
        omega
      have admitted : incrementBytes .excessiveWrite 0 (budget balance policy.storageBytesRead)
          tracker.maximumBytesLeftToWrite size = .ok size :=
        incrementBytes_eq_ok.mpr ⟨small, fits.symm, withinBudget, withinLeft⟩
      have counted : (ExecutionRuntime.new (tracker.limits policy balance)).incrementBytesWritten size =
          .ok { ExecutionRuntime.new (tracker.limits policy balance) with bytesWritten := size } :=
        ExecutionRuntime.incrementBytesWritten_eq_ok.mpr ⟨size, admitted, rfl⟩
      exact ⟨_, (Except.bind_eq_ok_iff _ _ _).mpr ⟨_, counted, rfl⟩⟩

end Linera.Execution.Metering
