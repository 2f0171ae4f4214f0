import Linera.Execution.Block
import Linera.Lib.OrdMap

set_option autoImplicit false

/-! Epochs, committees, and what keeps a chain active (`SystemExecutionStateView::is_active`,
`execute_operation` and `execute_message` in `linera-execution/src/system.rs`; the check of
the current committee in `ChainStateView::execute_block`, `linera-chain/src/chain.rs`).

A chain is active when it has a description, an admin chain, an ownership that is not `None`,
and a committee for its current epoch. The admin chain creates the committee of the next
epoch with `CreateCommittee` and removes any committee with `RemoveCommittee`; both send the
new map of committees, with the admin chain's epoch, to the subscribers of its admin channel,
which take them with `SetCommittees` as long as the epoch does not go back.

The epoch never goes back, and the admin chain creates the committees of its epochs one after
the other. But nothing stops `RemoveCommittee` from removing the committee of the current
epoch: the admin chain, and every subscriber that takes the message it sends, is then left
with no current committee, and `execute_block` refuses every later block. -/

namespace Linera.Execution.Epochs

/-- `Epoch::try_add_one`: an epoch is a `u32`. -/
def tryAddOne (epoch : Nat) : Except ArithmeticError Nat :=
  if epoch + 1 < 2 ^ 32 then .ok (epoch + 1) else .error .overflow

theorem tryAddOne_eq_ok {epoch : Nat} (fits : epoch + 1 < 2 ^ 32) :
    tryAddOne epoch = .ok (epoch + 1) :=
  if_pos fits

theorem tryAddOne_eq_error {epoch : Nat} (overflow : ¬ epoch + 1 < 2 ^ 32) :
    tryAddOne epoch = .error .overflow :=
  if_neg overflow

/-- `ChainOwnership`, over the owners' public keys; an `Owner` is the hash of its key. -/
inductive ChainOwnership (P : Type) where
  /-- The default: the chain is not active. -/
  | none
  | single (publicKey : P)
  | multi (publicKeys : List (P × Nat)) (multiLeaderRounds : Nat)
  deriving DecidableEq, Repr

def ChainOwnership.isActive {P : Type} : ChainOwnership P → Bool
  | .none => false
  | .single _ => true
  | .multi _ _ => true

inductive SystemChannel where
  | admin
  | publishedBytecodes
  deriving DecidableEq, Repr

/-- `ChannelSubscription`, with the channel's name as the system channel it names. -/
structure ChannelSubscription (C : Type) where
  chainId : C
  name : SystemChannel
  deriving DecidableEq, Repr

inductive Destination (C : Type) where
  | recipient (id : C)
  | subscribers (name : SystemChannel)
  deriving DecidableEq, Repr

/-- The system messages that carry ownerships, epochs, committees and subscriptions. -/
inductive SystemMessage (C P M : Type) where
  | openChain (ownership : ChainOwnership P) (committees : OrdMap Nat M) (adminId : C)
      (epoch : Nat)
  | setCommittees (epoch : Nat) (committees : OrdMap Nat M)
  | subscribe (id : C) (subscription : ChannelSubscription C)
  | unsubscribe (id : C) (subscription : ChannelSubscription C)
  /-- Any other message; none writes the fields of this module. -/
  | other

/-- `RawOutgoingMessage`; the messages of this module are neither authenticated nor
skippable. -/
structure RawOutgoingMessage (C P M : Type) where
  destination : Destination C
  message : SystemMessage C P M

inductive AdminOperation (M : Type) where
  | createCommittee (epoch : Nat) (committee : M)
  | removeCommittee (epoch : Nat)

/-- The system operations that write ownerships, epochs, committees and subscriptions. -/
inductive SystemOperation (C P M : Type) where
  | openChain (ownership : ChainOwnership P) (committees : OrdMap Nat M) (adminId : C)
      (epoch : Nat)
  | changeOwner (newPublicKey : P)
  | changeMultipleOwners (newPublicKeys : List (P × Nat)) (multiLeaderRounds : Nat)
  | closeChain
  | subscribe (chainId : C) (channel : SystemChannel)
  | unsubscribe (chainId : C) (channel : SystemChannel)
  | admin (operation : AdminOperation M)
  /-- Any other operation; none writes the fields of this module. -/
  | other

/-- The epoch for which an operation creates a committee. -/
def SystemOperation.createdEpoch {C P M : Type} : SystemOperation C P M → Option Nat
  | .admin (.createCommittee epoch _) => some epoch
  | _ => none

def SystemOperation.closesChain {C P M : Type} : SystemOperation C P M → Bool
  | .closeChain => true
  | _ => false

def SystemMessage.isSetCommittees {C P M : Type} : SystemMessage C P M → Bool
  | .setCommittees _ _ => true
  | _ => false

/-- The fields of `OperationContext` that these operations read: the chain's id, and the id
`ChainId::child(context.next_message_id())` of the chain an `OpenChain` opens. -/
structure OperationContext (C : Type) where
  chainId : C
  childId : C

/-- `SystemExecutionError`, the variants these operations and messages raise. -/
inductive SystemExecutionError (C : Type) where
  | arithmeticError (error : ArithmeticError)
  | invalidNewChainAdminId (chainId : C)
  | invalidCommittees
  | invalidEpoch (chainId : C) (epoch : Nat)
  | adminOperationOnNonAdminChain
  | invalidCommitteeCreation
  | invalidCommitteeRemoval
  | invalidAdminSubscription (chainId : C) (channel : SystemChannel)
  | selfSubscription (chainId : C) (channel : SystemChannel)
  | noSuchChannel (chainId : C) (channel : SystemChannel)
  | invalidUnsubscription (chainId : C) (channel : SystemChannel)
  | cannotRewindEpoch
  deriving DecidableEq, Repr

/-- `ChainError`, as the check of the current committee and the two loops of
`execute_block` raise it. -/
inductive ChainError (C : Type) where
  | inactiveChain (chainId : C)
  | executionError (error : SystemExecutionError C) (context : ChainExecutionContext)
  deriving DecidableEq, Repr

/-- The fields of `SystemExecutionStateView` that `is_active` reads, with the subscriptions,
which decide who receives the admin chain's committees. -/
structure SystemExecutionStateView (C D P M : Type) where
  description : Option D
  epoch : Option Nat
  adminId : Option C
  subscriptions : List (ChannelSubscription C)
  committees : OrdMap Nat M
  ownership : ChainOwnership P

/-- `Block`, with what these operations and messages read of it. -/
structure Block (C P M : Type) where
  chainId : C
  incomingMessages : List (SystemMessage C P M)
  operations : List (SystemOperation C P M)

/-- The epochs for which a block's operations create committees. -/
def Block.createdEpochs {C P M : Type} (block : Block C P M) : List Nat :=
  block.operations.filterMap SystemOperation.createdEpoch

namespace SystemExecutionStateView

variable {C D P M : Type} [DecidableEq C] [DecidableEq M]

/-- The system part of `Storage::create_chain`: a genesis chain at epoch zero, with one
committee and a single owner. -/
def createChain (description : D) (adminId : C) (committee : M) (publicKey : P) :
    SystemExecutionStateView C D P M :=
  ⟨some description, some 0, some adminId, [], OrdMap.empty.insert 0 committee,
    .single publicKey⟩

def currentCommittee (state : SystemExecutionStateView C D P M) : Option (Nat × M) :=
  match state.epoch with
  | none => none
  | some epoch => (state.committees.get epoch).map fun committee => (epoch, committee)

omit [DecidableEq C] [DecidableEq M] in
theorem currentCommittee_isSome_iff (state : SystemExecutionStateView C D P M) :
    state.currentCommittee.isSome ↔
      ∃ epoch, state.epoch = some epoch ∧ (state.committees.get epoch).isSome := by
  unfold currentCommittee
  cases state.epoch with
  | none => simp
  | some epoch => simp

def isActive (state : SystemExecutionStateView C D P M) : Bool :=
  state.description.isSome && state.ownership.isActive && state.currentCommittee.isSome &&
    state.adminId.isSome

/-- `execute_operation`, for the operations of this module; `none` is the panic of an
`expect("chain is active")` on a chain with no epoch. -/
def executeOperation (state : SystemExecutionStateView C D P M) (context : OperationContext C) :
    SystemOperation C P M →
      Option (Except (SystemExecutionError C)
        (SystemExecutionStateView C D P M × List (RawOutgoingMessage C P M)))
  | .openChain ownership committees adminId epoch =>
      if state.adminId ≠ some adminId then some (.error (.invalidNewChainAdminId context.childId))
      else if state.committees.entries ≠ committees.entries then some (.error .invalidCommittees)
      else if state.epoch ≠ some epoch then some (.error (.invalidEpoch context.childId epoch))
      else some (.ok (state,
        [⟨.recipient context.childId, .openChain ownership committees adminId epoch⟩,
          ⟨.recipient adminId, .subscribe context.childId ⟨adminId, .admin⟩⟩]))
  | .changeOwner newPublicKey => some (.ok ({ state with ownership := .single newPublicKey }, []))
  | .changeMultipleOwners newPublicKeys multiLeaderRounds =>
      some (.ok ({ state with ownership := .multi newPublicKeys multiLeaderRounds }, []))
  | .closeChain =>
      -- The chain unsubscribes from every channel it is subscribed to.
      some (.ok ({ state with ownership := .none }, state.subscriptions.map fun subscription =>
        ⟨.recipient subscription.chainId, .unsubscribe context.chainId subscription⟩))
  | .subscribe chainId channel =>
      if context.chainId = chainId then some (.error (.selfSubscription context.chainId channel))
      else if channel = .admin ∧ state.adminId ≠ some chainId then
        some (.error (.invalidAdminSubscription context.chainId channel))
      else if (⟨chainId, channel⟩ : ChannelSubscription C) ∈ state.subscriptions then
        some (.error (.noSuchChannel context.chainId channel))
      else some (.ok ({ state with subscriptions := ⟨chainId, channel⟩ :: state.subscriptions },
        [⟨.recipient chainId, .subscribe context.chainId ⟨chainId, channel⟩⟩]))
  | .unsubscribe chainId channel =>
      if (⟨chainId, channel⟩ : ChannelSubscription C) ∉ state.subscriptions then
        some (.error (.invalidUnsubscription context.chainId channel))
      else some (.ok ({ state with subscriptions := state.subscriptions.erase ⟨chainId, channel⟩ },
        [⟨.recipient chainId, .unsubscribe context.chainId ⟨chainId, channel⟩⟩]))
  | .admin operation =>
      if state.adminId ≠ some context.chainId then some (.error .adminOperationOnNonAdminChain)
      else match operation with
        | .createCommittee epoch committee =>
            match state.epoch with
            | none => none
            | some current =>
                match tryAddOne current with
                | .error error => some (.error (.arithmeticError error))
                | .ok next =>
                    if epoch ≠ next then some (.error .invalidCommitteeCreation)
                    else
                      let committees := state.committees.insert epoch committee
                      some (.ok ({ state with committees, epoch := some epoch },
                        [⟨.subscribers .admin, .setCommittees epoch committees⟩]))
        | .removeCommittee epoch =>
            -- Any epoch with a committee, the current one included.
            if (state.committees.get epoch).isNone then some (.error .invalidCommitteeRemoval)
            else
              match state.epoch with
              | none => none
              | some current =>
                  some (.ok ({ state with committees := state.committees.erase epoch },
                    [⟨.subscribers .admin, .setCommittees current (state.committees.erase epoch)⟩]))
  | .other => some (.ok (state, []))

/-- `execute_message`, for the messages of this module. -/
def executeMessage (state : SystemExecutionStateView C D P M) :
    SystemMessage C P M →
      Option (Except (SystemExecutionError C)
        (SystemExecutionStateView C D P M × List (RawOutgoingMessage C P M)))
  | .setCommittees epoch committees =>
      match state.epoch with
      | none => none
      | some current =>
          if ¬ current ≤ epoch then some (.error .cannotRewindEpoch)
          else some (.ok ({ state with epoch := some epoch, committees }, []))
  | _ => some (.ok (state, []))

/-- What a successful operation does to the state, with the checks it passed. -/
def Performs (context : OperationContext C) (state : SystemExecutionStateView C D P M) :
    SystemOperation C P M → SystemExecutionStateView C D P M → Prop
  | .openChain _ _ _ _, next => next = state
  | .changeOwner newPublicKey, next => next = { state with ownership := .single newPublicKey }
  | .changeMultipleOwners newPublicKeys multiLeaderRounds, next =>
      next = { state with ownership := .multi newPublicKeys multiLeaderRounds }
  | .closeChain, next => next = { state with ownership := .none }
  | .subscribe chainId channel, next => context.chainId ≠ chainId ∧
      (channel = .admin → state.adminId = some chainId) ∧
      next = { state with subscriptions := ⟨chainId, channel⟩ :: state.subscriptions }
  | .unsubscribe chainId channel, next =>
      next = { state with subscriptions := state.subscriptions.erase ⟨chainId, channel⟩ }
  | .admin (.createCommittee epoch committee), next => state.adminId = some context.chainId ∧
      ∃ current, state.epoch = some current ∧ epoch = current + 1 ∧
        next = { state with
          committees := state.committees.insert epoch committee
          epoch := some epoch }
  | .admin (.removeCommittee epoch), next => state.adminId = some context.chainId ∧
      (state.committees.get epoch).isSome ∧
        next = { state with committees := state.committees.erase epoch }
  | .other, next => next = state

/-- What a successful message does to the state, with the check it passed. -/
def Takes (state : SystemExecutionStateView C D P M) :
    SystemMessage C P M → SystemExecutionStateView C D P M → Prop
  | .setCommittees epoch committees, next => ∃ current, state.epoch = some current ∧
      current ≤ epoch ∧ next = { state with epoch := some epoch, committees }
  | _, next => next = state

theorem executeOperation_eq_ok {state next : SystemExecutionStateView C D P M}
    {context : OperationContext C} {operation : SystemOperation C P M}
    {sent : List (RawOutgoingMessage C P M)}
    (ran : state.executeOperation context operation = some (.ok (next, sent))) :
    Performs context state operation next := by
  cases operation with
  | openChain ownership committees adminId epoch =>
      simp only [executeOperation] at ran
      split_ifs at ran <;> simp only [Option.some.injEq, reduceCtorEq, Except.ok.injEq,
        Prod.mk.injEq] at ran
      exact ran.1.symm
  | changeOwner newPublicKey =>
      simp only [executeOperation, Option.some.injEq, Except.ok.injEq, Prod.mk.injEq] at ran
      exact ran.1.symm
  | changeMultipleOwners newPublicKeys multiLeaderRounds =>
      simp only [executeOperation, Option.some.injEq, Except.ok.injEq, Prod.mk.injEq] at ran
      exact ran.1.symm
  | closeChain =>
      simp only [executeOperation, Option.some.injEq, Except.ok.injEq, Prod.mk.injEq] at ran
      exact ran.1.symm
  | subscribe chainId channel =>
      simp only [executeOperation] at ran
      split_ifs at ran with self admin <;> simp only [Option.some.injEq, reduceCtorEq,
        Except.ok.injEq, Prod.mk.injEq] at ran
      exact ⟨self, fun named => not_not.mp fun other => admin ⟨named, other⟩, ran.1.symm⟩
  | unsubscribe chainId channel =>
      simp only [executeOperation] at ran
      split_ifs at ran <;> simp only [Option.some.injEq, reduceCtorEq, Except.ok.injEq,
        Prod.mk.injEq] at ran
      exact ran.1.symm
  | admin operation =>
      by_cases admin : state.adminId = some context.chainId
      · have allowed : ¬ state.adminId ≠ some context.chainId := not_not.mpr admin
        cases operation with
        | createCommittee epoch committee =>
            rcases epochEq : state.epoch with _ | current
            · simp [executeOperation, admin, epochEq] at ran
            have fits : current + 1 < 2 ^ 32 := by
              by_contra overflow
              simp [executeOperation, admin, epochEq, tryAddOne_eq_error overflow] at ran
            have created : epoch = current + 1 := by
              by_contra mismatch
              simp [executeOperation, admin, epochEq, tryAddOne_eq_ok fits, mismatch] at ran
            subst created
            simp only [executeOperation] at ran
            rw [if_neg allowed] at ran
            simp only [epochEq, tryAddOne_eq_ok fits, ne_eq, not_true_eq_false, if_false,
              Option.some.injEq, Except.ok.injEq, Prod.mk.injEq] at ran
            exact ⟨admin, current, epochEq, rfl, ran.1.symm⟩
        | removeCommittee epoch =>
            rcases found : state.committees.get epoch with _ | committee
            · simp [executeOperation, admin, found] at ran
            rcases epochEq : state.epoch with _ | current
            · simp [executeOperation, admin, found, epochEq] at ran
            simp only [executeOperation] at ran
            rw [if_neg allowed] at ran
            simp only [found, epochEq, Option.isNone_some, Bool.false_eq_true, if_false,
              Option.some.injEq, Except.ok.injEq, Prod.mk.injEq] at ran
            exact ⟨admin, by simp [found], by rw [epochEq]; exact ran.1.symm⟩
      · simp [executeOperation, admin] at ran
  | other =>
      simp only [executeOperation, Option.some.injEq, Except.ok.injEq, Prod.mk.injEq] at ran
      exact ran.1.symm

omit [DecidableEq C] [DecidableEq M] in
theorem executeMessage_eq_ok {state next : SystemExecutionStateView C D P M}
    {message : SystemMessage C P M} {sent : List (RawOutgoingMessage C P M)}
    (ran : state.executeMessage message = some (.ok (next, sent))) : Takes state message next := by
  cases message with
  | setCommittees epoch committees =>
      rcases epochEq : state.epoch with _ | current
      · simp [executeMessage, epochEq] at ran
      simp only [executeMessage, epochEq] at ran
      split_ifs at ran with rewinds <;> simp only [Option.some.injEq, reduceCtorEq,
        Except.ok.injEq, Prod.mk.injEq] at ran
      exact ⟨current, epochEq, rewinds, ran.1.symm⟩
  | openChain | subscribe | unsubscribe | other =>
      simp only [executeMessage, Option.some.injEq, Except.ok.injEq, Prod.mk.injEq] at ran
      exact ran.1.symm

section Step

variable {context : OperationContext C} {state next : SystemExecutionStateView C D P M}

omit [DecidableEq M] in
theorem Performs.frame {operation : SystemOperation C P M}
    (performed : Performs context state operation next) :
    next.description = state.description ∧ next.adminId = state.adminId := by
  cases operation with
  | admin operation =>
      cases operation with
      | createCommittee =>
          obtain ⟨-, -, -, -, rfl⟩ := performed
          exact ⟨rfl, rfl⟩
      | removeCommittee =>
          obtain ⟨-, -, rfl⟩ := performed
          exact ⟨rfl, rfl⟩
  | subscribe =>
      obtain ⟨-, -, rfl⟩ := performed
      exact ⟨rfl, rfl⟩
  | openChain | changeOwner | changeMultipleOwners | closeChain | unsubscribe | other =>
      subst performed
      exact ⟨rfl, rfl⟩

omit [DecidableEq M] in
theorem Performs.epoch {operation : SystemOperation C P M}
    (performed : Performs context state operation next) {current : Nat}
    (epochEq : state.epoch = some current) :
    (operation.createdEpoch = none ∧ next.epoch = some current) ∨
      (operation.createdEpoch = some (current + 1) ∧ next.epoch = some (current + 1)) := by
  cases operation with
  | admin operation =>
      cases operation with
      | createCommittee epoch =>
          obtain ⟨-, before, before_eq, rfl, rfl⟩ := performed
          rw [epochEq, Option.some.injEq] at before_eq
          subst before_eq
          exact Or.inr ⟨rfl, rfl⟩
      | removeCommittee =>
          obtain ⟨-, -, rfl⟩ := performed
          exact Or.inl ⟨rfl, epochEq⟩
  | subscribe =>
      obtain ⟨-, -, rfl⟩ := performed
      exact Or.inl ⟨rfl, epochEq⟩
  | openChain | changeOwner | changeMultipleOwners | closeChain | unsubscribe | other =>
      subst performed
      exact Or.inl ⟨rfl, epochEq⟩

omit [DecidableEq M] in
theorem Performs.ownership_isActive {operation : SystemOperation C P M}
    (performed : Performs context state operation next) (staying : operation.closesChain = false)
    (owned : state.ownership.isActive = true) : next.ownership.isActive = true := by
  cases operation with
  | admin operation =>
      cases operation with
      | createCommittee =>
          obtain ⟨-, -, -, -, rfl⟩ := performed
          exact owned
      | removeCommittee =>
          obtain ⟨-, -, rfl⟩ := performed
          exact owned
  | subscribe =>
      obtain ⟨-, -, rfl⟩ := performed
      exact owned
  | closeChain => cases staying
  | changeOwner | changeMultipleOwners =>
      subst performed
      rfl
  | openChain | unsubscribe | other =>
      subst performed
      exact owned

omit [DecidableEq M] in
/-- The admin chain never subscribes to an admin channel: the only admin channel a chain may
subscribe to is its admin chain's, and no chain subscribes to itself. -/
theorem Performs.admin_unsubscribed {operation : SystemOperation C P M}
    (performed : Performs context state operation next)
    (admin : state.adminId = some context.chainId)
    (unsubscribed : ∀ target, (⟨target, .admin⟩ : ChannelSubscription C) ∉ state.subscriptions) :
    ∀ target, (⟨target, .admin⟩ : ChannelSubscription C) ∉ next.subscriptions := by
  cases operation with
  | admin operation =>
      cases operation with
      | createCommittee =>
          obtain ⟨-, -, -, -, rfl⟩ := performed
          exact unsubscribed
      | removeCommittee =>
          obtain ⟨-, -, rfl⟩ := performed
          exact unsubscribed
  | subscribe chainId channel =>
      obtain ⟨other, named, rfl⟩ := performed
      intro target member
      rcases List.mem_cons.mp member with same | earlier
      · obtain ⟨rfl, rfl⟩ := ChannelSubscription.mk.inj same
        rw [admin, Option.some.injEq] at named
        exact other (named rfl)
      · exact unsubscribed target earlier
  | unsubscribe =>
      subst performed
      exact fun target member => unsubscribed target (List.mem_of_mem_erase member)
  | openChain | changeOwner | changeMultipleOwners | closeChain | other =>
      subst performed
      exact unsubscribed

omit [DecidableEq C] [DecidableEq M] in
theorem Takes.frame {message : SystemMessage C P M} (taken : Takes state message next) :
    next.description = state.description ∧ next.adminId = state.adminId ∧
      next.ownership = state.ownership ∧ next.subscriptions = state.subscriptions := by
  cases message with
  | setCommittees =>
      obtain ⟨-, -, -, rfl⟩ := taken
      exact ⟨rfl, rfl, rfl, rfl⟩
  | openChain | subscribe | unsubscribe | other =>
      subst taken
      exact ⟨rfl, rfl, rfl, rfl⟩

omit [DecidableEq C] [DecidableEq M] in
theorem Takes.epoch {message : SystemMessage C P M} (taken : Takes state message next)
    {current : Nat} (epochEq : state.epoch = some current) :
    ∃ later, next.epoch = some later ∧ current ≤ later ∧
      (message.isSetCommittees = false → later = current) := by
  cases message with
  | setCommittees epoch =>
      obtain ⟨before, before_eq, forward, rfl⟩ := taken
      rw [epochEq, Option.some.injEq] at before_eq
      subst before_eq
      exact ⟨epoch, rfl, forward, fun never => nomatch never⟩
  | openChain | subscribe | unsubscribe | other =>
      subst taken
      exact ⟨current, epochEq, le_refl _, fun _ => rfl⟩

end Step

end SystemExecutionStateView

section Loop

variable {S X E F O : Type}

/-- A loop of `execute_block`: the items run in turn, each with its index, and the messages
they send are collected; the first error stops the loop, with the index of its item, and a
panic stops everything. -/
def executeEach (execute : Nat → S → X → Option (Except E (S × List O))) (wrap : Nat → E → F) :
    Nat → S → List X → Option (Except F (S × List O))
  | _, state, [] => some (.ok (state, []))
  | index, state, item :: rest =>
      match execute index state item with
      | none => none
      | some (.error error) => some (.error (wrap index error))
      | some (.ok (state, sent)) =>
          match executeEach execute wrap (index + 1) state rest with
          | some (.ok (state, more)) => some (.ok (state, sent ++ more))
          | other => other

theorem executeEach_cons_eq_ok {execute : Nat → S → X → Option (Except E (S × List O))}
    {wrap : Nat → E → F} {index : Nat} {state final : S} {item : X} {rest : List X}
    {outgoing : List O}
    (ran : executeEach execute wrap index state (item :: rest) = some (.ok (final, outgoing))) :
    ∃ middle sent more, execute index state item = some (.ok (middle, sent)) ∧
      executeEach execute wrap (index + 1) middle rest = some (.ok (final, more)) ∧
      outgoing = sent ++ more := by
  unfold executeEach at ran
  rcases stepped : execute index state item with _ | _ | ⟨middle, sent⟩
  · simp [stepped] at ran
  · simp [stepped] at ran
  rw [stepped] at ran
  dsimp only at ran
  rcases others : executeEach execute wrap (index + 1) middle rest with _ | _ | ⟨last, more⟩
  · simp [others] at ran
  · simp [others] at ran
  rw [others] at ran
  obtain ⟨rfl, rfl⟩ := Prod.mk.inj (Except.ok.inj (Option.some.inj ran))
  exact ⟨middle, sent, more, rfl, others, rfl⟩

@[elab_as_elim]
theorem executeEach_induction {execute : Nat → S → X → Option (Except E (S × List O))}
    {wrap : Nat → E → F} (motive : S → List X → S → Prop)
    (nil : ∀ state, motive state [] state)
    (cons : ∀ index state item middle sent rest final,
      execute index state item = some (.ok (middle, sent)) → motive middle rest final →
        motive state (item :: rest) final)
    {index : Nat} {state final : S} {items : List X} {outgoing : List O}
    (ran : executeEach execute wrap index state items = some (.ok (final, outgoing))) :
    motive state items final := by
  induction items generalizing index state outgoing with
  | nil =>
      simp only [executeEach, Option.some.injEq, Except.ok.injEq, Prod.mk.injEq] at ran
      rw [← ran.1]
      exact nil state
  | cons item rest ih =>
      obtain ⟨middle, sent, more, stepped, others, -⟩ := executeEach_cons_eq_ok ran
      exact cons index state item middle sent rest final stepped (ih others)

end Loop

namespace SystemExecutionStateView

variable {C D P M : Type} [DecidableEq C] [DecidableEq M]

/-- The loop of `execute_block` over the incoming messages. -/
def executeMessages (state : SystemExecutionStateView C D P M)
    (messages : List (SystemMessage C P M)) :
    Option (Except (ChainError C)
      (SystemExecutionStateView C D P M × List (RawOutgoingMessage C P M))) :=
  executeEach (fun _ state message => state.executeMessage message)
    (fun index error => .executionError error (.incomingMessage index)) 0 state messages

/-- The loop of `execute_block` over the operations, the one at each index opening the chain
`childId index`. -/
def executeOperations (chainId : C) (childId : Nat → C) (state : SystemExecutionStateView C D P M)
    (operations : List (SystemOperation C P M)) :
    Option (Except (ChainError C)
      (SystemExecutionStateView C D P M × List (RawOutgoingMessage C P M))) :=
  executeEach (fun index state operation => state.executeOperation ⟨chainId, childId index⟩ operation)
    (fun index error => .executionError error (.operation index)) 0 state operations

/-- `ChainStateView::execute_block`, for the fields of this module: the chain must have a
current committee when the block starts; then the incoming messages run, then the
operations. -/
def executeBlock (childId : Nat → C) (state : SystemExecutionStateView C D P M)
    (block : Block C P M) :
    Option (Except (ChainError C)
      (SystemExecutionStateView C D P M × List (RawOutgoingMessage C P M))) :=
  if state.currentCommittee.isNone then some (.error (.inactiveChain block.chainId))
  else
    match executeMessages state block.incomingMessages with
    | none => none
    | some (.error error) => some (.error error)
    | some (.ok (state, received)) =>
        match executeOperations block.chainId childId state block.operations with
        | some (.ok (state, sent)) => some (.ok (state, received ++ sent))
        | other => other

/-- A chain's blocks, one after the other: a block that fails or panics is thrown away, one
that succeeds replaces the state. Alongside, the epochs for which the blocks that succeeded
created committees. -/
def run (childId : Nat → C) (state : SystemExecutionStateView C D P M) :
    List (Block C P M) → SystemExecutionStateView C D P M × List Nat
  | [] => (state, [])
  | block :: rest =>
      match executeBlock childId state block with
      | some (.ok (next, _)) =>
          ((run childId next rest).1, block.createdEpochs ++ (run childId next rest).2)
      | _ => run childId state rest

section Block

variable {state next : SystemExecutionStateView C D P M}

omit [DecidableEq C] [DecidableEq M] in
theorem executeMessages_eq_ok {messages : List (SystemMessage C P M)}
    {received : List (RawOutgoingMessage C P M)}
    (ran : executeMessages state messages = some (.ok (next, received))) :
    (next.description = state.description ∧ next.adminId = state.adminId ∧
      next.ownership = state.ownership ∧ next.subscriptions = state.subscriptions) ∧
    ∀ current, state.epoch = some current → ∃ later, next.epoch = some later ∧ current ≤ later ∧
      ((∀ message ∈ messages, message.isSetCommittees = false) → later = current) := by
  refine executeEach_induction _ ?_ ?_ ran
  · intro state
    exact ⟨⟨rfl, rfl, rfl, rfl⟩, fun current epochEq => ⟨current, epochEq, le_refl _, fun _ => rfl⟩⟩
  · intro index state message middle sent rest final stepped ⟨⟨description, admin, ownership,
      subscriptions⟩, epochs⟩
    have taken := executeMessage_eq_ok stepped
    obtain ⟨description', admin', ownership', subscriptions'⟩ := taken.frame
    refine ⟨⟨description.trans description', admin.trans admin', ownership.trans ownership',
      subscriptions.trans subscriptions'⟩, fun current epochEq => ?_⟩
    obtain ⟨between, betweenEq, forward, kept⟩ := taken.epoch epochEq
    obtain ⟨last, lastEq, forward', kept'⟩ := epochs between betweenEq
    refine ⟨last, lastEq, le_trans forward forward', fun unset => ?_⟩
    rw [kept' fun following member => unset following (List.mem_cons_of_mem _ member),
      kept (unset message List.mem_cons_self)]

/-- The operations keep the description and the admin chain; they create the committees of
the epochs they move through, one by one; only `CloseChain` makes the ownership inactive; and
they never subscribe the admin chain to an admin channel. -/
theorem executeOperations_eq_ok {chainId : C} {childId : Nat → C}
    {operations : List (SystemOperation C P M)} {sent : List (RawOutgoingMessage C P M)}
    (ran : executeOperations chainId childId state operations = some (.ok (next, sent))) :
    (next.description = state.description ∧ next.adminId = state.adminId) ∧
    (∀ current, state.epoch = some current → ∃ later, next.epoch = some later ∧ current ≤ later ∧
      operations.filterMap SystemOperation.createdEpoch =
        List.range' (current + 1) (later - current)) ∧
    ((∀ operation ∈ operations, operation.closesChain = false) →
      state.ownership.isActive = true → next.ownership.isActive = true) ∧
    (state.adminId = some chainId →
      (∀ target, (⟨target, .admin⟩ : ChannelSubscription C) ∉ state.subscriptions) →
      ∀ target, (⟨target, .admin⟩ : ChannelSubscription C) ∉ next.subscriptions) := by
  refine executeEach_induction _ ?_ ?_ ran
  · intro state
    refine ⟨⟨rfl, rfl⟩, fun current epochEq => ⟨current, epochEq, le_refl _, ?_⟩,
      fun _ owned => owned, fun _ unsubscribed => unsubscribed⟩
    simp
  · intro index state operation middle sent rest final stepped ⟨⟨description, admin⟩, epochs,
      owned, unsubscribed⟩
    have performed := executeOperation_eq_ok stepped
    obtain ⟨description', admin'⟩ := performed.frame
    refine ⟨⟨description.trans description', admin.trans admin'⟩, fun current epochEq => ?_,
      fun staying owner => owned (fun later member => staying later (List.mem_cons_of_mem _ member))
        (performed.ownership_isActive (staying operation List.mem_cons_self) owner),
      fun admin outside => unsubscribed (admin'.trans admin)
        (performed.admin_unsubscribed admin outside)⟩
    -- The operation either keeps the epoch or creates the next one's committee.
    rcases performed.epoch epochEq with ⟨none, kept⟩ | ⟨created, moved⟩
    · obtain ⟨later, laterEq, forward, range⟩ := epochs current kept
      refine ⟨later, laterEq, forward, ?_⟩
      rw [List.filterMap_cons, none, range]
    · obtain ⟨later, laterEq, forward, range⟩ := epochs (current + 1) moved
      refine ⟨later, laterEq, by omega, ?_⟩
      have count : later - current = later - (current + 1) + 1 := by omega
      rw [List.filterMap_cons, created, range, count, List.range'_succ]

theorem executeBlock_eq_ok {childId : Nat → C} {block : Block C P M}
    {sent : List (RawOutgoingMessage C P M)}
    (ran : executeBlock childId state block = some (.ok (next, sent))) :
    state.currentCommittee.isSome ∧ ∃ middle received rest,
      executeMessages state block.incomingMessages = some (.ok (middle, received)) ∧
      executeOperations block.chainId childId middle block.operations = some (.ok (next, rest)) ∧
      sent = received ++ rest := by
  unfold executeBlock at ran
  by_cases inactive : state.currentCommittee.isNone
  · simp [inactive] at ran
  rw [if_neg inactive] at ran
  refine ⟨Option.isSome_iff_ne_none.mpr (by simpa using inactive), ?_⟩
  split at ran
  · cases ran
  · cases ran
  · rename_i middle received messagesRan
    split at ran
    · rename_i final rest operationsRan
      obtain ⟨rfl, rfl⟩ := Prod.mk.inj (Except.ok.inj (Option.some.inj ran))
      exact ⟨middle, received, rest, messagesRan, operationsRan, rfl⟩
    · rename_i notOk
      exact (notOk next sent ran).elim

theorem executeBlock_epoch_le {childId : Nat → C} {block : Block C P M}
    {sent : List (RawOutgoingMessage C P M)}
    (ran : executeBlock childId state block = some (.ok (next, sent))) :
    ∃ before after, state.epoch = some before ∧ next.epoch = some after ∧ before ≤ after := by
  obtain ⟨committee, middle, received, rest, messagesRan, operationsRan, -⟩ :=
    executeBlock_eq_ok ran
  obtain ⟨before, epochEq, -⟩ := (currentCommittee_isSome_iff state).mp committee
  obtain ⟨between, betweenEq, forward, -⟩ := (executeMessages_eq_ok messagesRan).2 before epochEq
  obtain ⟨after, afterEq, forward', -⟩ :=
    (executeOperations_eq_ok operationsRan).2.1 between betweenEq
  exact ⟨before, after, epochEq, afterEq, le_trans forward forward'⟩

/-- A block that does not close an active chain leaves it active exactly when the chain
still has a committee for its epoch. -/
theorem executeBlock_isActive {childId : Nat → C} {block : Block C P M}
    {sent : List (RawOutgoingMessage C P M)} (active : state.isActive = true)
    (ran : executeBlock childId state block = some (.ok (next, sent)))
    (staying : ∀ operation ∈ block.operations, operation.closesChain = false) :
    next.isActive = next.currentCommittee.isSome := by
  obtain ⟨-, middle, received, rest, messagesRan, operationsRan, -⟩ := executeBlock_eq_ok ran
  obtain ⟨⟨description, admin, ownership, -⟩, -⟩ := executeMessages_eq_ok messagesRan
  obtain ⟨⟨description', admin'⟩, -, owned, -⟩ := executeOperations_eq_ok operationsRan
  simp only [isActive, Bool.and_eq_true] at active
  have owner : next.ownership.isActive = true :=
    owned staying (ownership ▸ active.1.1.2)
  rw [isActive, description', description, admin', admin, owner, active.1.1.1, active.2]
  simp

/-- The genesis admin chain stays active after creating the committee of epoch 1. -/
theorem executeBlock_isActive_at_genesis :
    let state : SystemExecutionStateView Nat Unit Nat Nat := createChain () 0 0 0
    let block : Block Nat Nat Nat := ⟨0, [], [.admin (.createCommittee 1 7)]⟩
    state.isActive = true ∧ (∀ operation ∈ block.operations, operation.closesChain = false) ∧
      ∃ next sent, executeBlock (fun _ => 1) state block = some (.ok (next, sent)) ∧
        next.isActive = next.currentCommittee.isSome := by
  intro state block
  obtain ⟨next, sent, ran⟩ : ∃ next sent,
      executeBlock (fun _ => 1) state block = some (.ok (next, sent)) := ⟨_, _, rfl⟩
  have staying : ∀ operation ∈ block.operations, operation.closesChain = false := by decide
  exact ⟨rfl, staying, next, sent, ran, executeBlock_isActive rfl ran staying⟩

theorem executeBlock_createdEpochs {childId : Nat → C} {block : Block C P M}
    {sent : List (RawOutgoingMessage C P M)}
    (ran : executeBlock childId state block = some (.ok (next, sent)))
    (unset : ∀ message ∈ block.incomingMessages, message.isSetCommittees = false) {current : Nat}
    (epochEq : state.epoch = some current) :
    ∃ later, next.epoch = some later ∧ current ≤ later ∧
      block.createdEpochs = List.range' (current + 1) (later - current) := by
  obtain ⟨-, middle, received, rest, messagesRan, operationsRan, -⟩ := executeBlock_eq_ok ran
  obtain ⟨between, betweenEq, -, kept⟩ := (executeMessages_eq_ok messagesRan).2 current epochEq
  rw [kept unset] at betweenEq
  exact (executeOperations_eq_ok operationsRan).2.1 current betweenEq

theorem executeBlock_admin_unsubscribed {childId : Nat → C} {block : Block C P M}
    {sent : List (RawOutgoingMessage C P M)}
    (ran : executeBlock childId state block = some (.ok (next, sent)))
    (admin : state.adminId = some block.chainId)
    (unsubscribed : ∀ target, (⟨target, .admin⟩ : ChannelSubscription C) ∉ state.subscriptions) :
    (next.adminId = some block.chainId) ∧
      ∀ target, (⟨target, .admin⟩ : ChannelSubscription C) ∉ next.subscriptions := by
  obtain ⟨-, middle, received, rest, messagesRan, operationsRan, -⟩ := executeBlock_eq_ok ran
  obtain ⟨⟨-, admin', -, subscriptions⟩, -⟩ := executeMessages_eq_ok messagesRan
  obtain ⟨⟨-, admin''⟩, -, -, kept⟩ := executeOperations_eq_ok operationsRan
  refine ⟨admin''.trans (admin'.trans admin), kept (admin'.trans admin) ?_⟩
  rw [subscriptions]
  exact unsubscribed

end Block

section Run

variable {childId : Nat → C}

/-- Over a run of blocks with no `SetCommittees`, the epochs for which committees were
created are those the chain moved through, one by one. -/
theorem run_createdEpochs (blocks : List (Block C P M))
    (unset : ∀ block ∈ blocks, ∀ message ∈ block.incomingMessages,
      message.isSetCommittees = false) :
    ∀ {state : SystemExecutionStateView C D P M} {current : Nat}, state.epoch = some current →
      ∃ later, (run childId state blocks).1.epoch = some later ∧ current ≤ later ∧
        (run childId state blocks).2 = List.range' (current + 1) (later - current) := by
  induction blocks with
  | nil =>
      intro state current epochEq
      exact ⟨current, epochEq, le_refl _, by simp [run]⟩
  | cons block rest ih =>
      intro state current epochEq
      have later_unset := fun block member => unset block (List.mem_cons_of_mem _ member)
      rcases executed : executeBlock childId state block with _ | _ | ⟨next, sent⟩
      · simp only [run, executed]
        exact ih later_unset epochEq
      · simp only [run, executed]
        exact ih later_unset epochEq
      -- The block succeeded: its epochs, then those of the rest of the run.
      simp only [run, executed]
      obtain ⟨between, betweenEq, forward, created⟩ :=
        executeBlock_createdEpochs executed (unset block List.mem_cons_self) epochEq
      obtain ⟨last, lastEq, forward', createdLater⟩ := ih later_unset betweenEq
      refine ⟨last, lastEq, le_trans forward forward', ?_⟩
      rw [created, createdLater, show between + 1 = current + 1 + (between - current) by omega,
        List.range'_append_1, show between - current + (last - between) = last - current by omega]

/-- Over a run of the admin chain's blocks, the admin chain never subscribes to an admin
channel. -/
theorem run_admin_unsubscribed (chainId : C) (blocks : List (Block C P M))
    (own : ∀ block ∈ blocks, block.chainId = chainId) :
    ∀ {state : SystemExecutionStateView C D P M}, state.adminId = some chainId →
      (∀ target, (⟨target, .admin⟩ : ChannelSubscription C) ∉ state.subscriptions) →
      ∀ target, (⟨target, .admin⟩ : ChannelSubscription C) ∉ (run childId state blocks).1.subscriptions := by
  induction blocks with
  | nil =>
      intro state _ unsubscribed
      exact unsubscribed
  | cons block rest ih =>
      intro state admin unsubscribed
      have later_own := fun block member => own block (List.mem_cons_of_mem _ member)
      rcases executed : executeBlock childId state block with _ | _ | ⟨next, sent⟩
      · simp only [run, executed]
        exact ih later_own admin unsubscribed
      · simp only [run, executed]
        exact ih later_own admin unsubscribed
      simp only [run, executed]
      have chain := own block List.mem_cons_self
      obtain ⟨admin', unsubscribed'⟩ :=
        executeBlock_admin_unsubscribed executed (chain ▸ admin) unsubscribed
      exact ih later_own (chain ▸ admin') unsubscribed'

/-- Two blocks of the genesis admin chain, creating the committees of epochs 1 and 2. -/
theorem run_admin_unsubscribed_at_genesis :
    let blocks : List (Block Nat Nat Nat) :=
      [⟨0, [], [.admin (.createCommittee 1 7)]⟩, ⟨0, [.other], [.admin (.createCommittee 2 8)]⟩]
    let state : SystemExecutionStateView Nat Unit Nat Nat := createChain () 0 0 0
    (∀ block ∈ blocks, block.chainId = 0) ∧ state.adminId = some 0 ∧
      (∀ target, (⟨target, .admin⟩ : ChannelSubscription Nat) ∉ state.subscriptions) ∧
      ∀ target, (⟨target, .admin⟩ : ChannelSubscription Nat) ∉
        (run (fun _ => 1) state blocks).1.subscriptions := by
  intro blocks state
  have own : ∀ block ∈ blocks, block.chainId = 0 := by decide
  have unsubscribed : ∀ target, (⟨target, .admin⟩ : ChannelSubscription Nat) ∉ state.subscriptions :=
    fun _ => List.not_mem_nil
  exact ⟨own, rfl, unsubscribed, run_admin_unsubscribed 0 blocks own rfl unsubscribed⟩

/-- The admin chain, started by `create_chain` and receiving no `SetCommittees` (it never
subscribes to an admin channel), has created committees for exactly the epochs `0..=epoch`,
each once and in increasing order. -/
theorem createChain_run_createdEpochs (description : D) (chainId : C) (committee : M)
    (publicKey : P) (blocks : List (Block C P M))
    (unset : ∀ block ∈ blocks, ∀ message ∈ block.incomingMessages,
      message.isSetCommittees = false) :
    ∃ epoch, (run childId (createChain description chainId committee publicKey) blocks).1.epoch =
        some epoch ∧
      0 :: (run childId (createChain description chainId committee publicKey) blocks).2 =
        List.range (epoch + 1) := by
  have grown : ∃ later,
      (run childId (createChain description chainId committee publicKey) blocks).1.epoch =
          some later ∧ 0 ≤ later ∧
        (run childId (createChain description chainId committee publicKey) blocks).2 =
          List.range' (0 + 1) (later - 0) :=
    run_createdEpochs blocks unset rfl
  obtain ⟨epoch, epochEq, -, created⟩ := grown
  refine ⟨epoch, epochEq, ?_⟩
  rw [created, List.range_eq_range', List.range'_succ, Nat.sub_zero]

/-- Two blocks of the genesis admin chain create the committees of epochs 1 and 2. -/
theorem createChain_run_createdEpochs_of_two :
    let blocks : List (Block Nat Nat Nat) :=
      [⟨0, [], [.admin (.createCommittee 1 7)]⟩, ⟨0, [.other], [.admin (.createCommittee 2 8)]⟩]
    (∀ block ∈ blocks, ∀ message ∈ block.incomingMessages, message.isSetCommittees = false) ∧
      ∃ epoch, (run (fun _ => 1) (createChain () 0 0 0 : SystemExecutionStateView Nat Unit Nat Nat)
          blocks).1.epoch = some epoch ∧
        0 :: (run (fun _ => 1) (createChain () 0 0 0 : SystemExecutionStateView Nat Unit Nat Nat)
          blocks).2 = List.range (epoch + 1) := by
  intro blocks
  have unset : ∀ block ∈ blocks, ∀ message ∈ block.incomingMessages,
      message.isSetCommittees = false := by decide
  exact ⟨unset, createChain_run_createdEpochs () 0 0 0 blocks unset⟩

end Run

/-- `RemoveCommittee` of the admin chain's current epoch succeeds and leaves the admin chain
with no current committee: it is no longer active, though the block did not close it, and
every later block fails with `InactiveChain`. Every subscriber not ahead of the admin chain
that takes the `SetCommittees` the block sends is left inactive too. -/
theorem removeCommittee_current_deactivates (childId : Nat → C)
    (state : SystemExecutionStateView C D P M) (chainId : C) (epoch : Nat)
    (active : state.isActive = true) (admin : state.adminId = some chainId)
    (current : state.epoch = some epoch) :
    (∃ next, executeBlock childId state ⟨chainId, [], [.admin (.removeCommittee epoch)]⟩ =
        some (.ok (next,
          [⟨.subscribers .admin, .setCommittees epoch (state.committees.erase epoch)⟩])) ∧
      next.isActive = false ∧
      ∀ block : Block C P M,
        executeBlock childId next block = some (.error (.inactiveChain block.chainId))) ∧
    ∀ (subscriber : SystemExecutionStateView C D P M) (subscribed : Nat),
      subscriber.epoch = some subscribed → subscribed ≤ epoch →
      ∃ next, subscriber.executeMessage (.setCommittees epoch (state.committees.erase epoch)) =
          some (.ok (next, [])) ∧ next.isActive = false := by
  obtain ⟨present, epochEq, found⟩ := (currentCommittee_isSome_iff state).mp (by
    simp only [isActive, Bool.and_eq_true] at active
    exact active.1.2)
  rw [current, Option.some.injEq] at epochEq
  subst epochEq
  -- Without the committee of its epoch a chain has no current committee.
  have retired : ∀ other : SystemExecutionStateView C D P M, other.epoch = some epoch →
      other.committees = state.committees.erase epoch → other.currentCommittee = none := by
    intro other otherEpoch otherCommittees
    simp [currentCommittee, otherEpoch, otherCommittees]
  obtain ⟨committee, present⟩ := Option.isSome_iff_exists.mp found
  have allowed : ¬ state.adminId ≠ some chainId := not_not.mpr admin
  have removed : state.executeOperation ⟨chainId, childId 0⟩ (.admin (.removeCommittee epoch)) =
      some (.ok ({ state with committees := state.committees.erase epoch },
        [⟨.subscribers .admin, .setCommittees epoch (state.committees.erase epoch)⟩])) := by
    simp only [executeOperation]
    rw [if_neg allowed]
    simp [present, current]
  refine ⟨⟨{ state with committees := state.committees.erase epoch }, ?_, ?_, fun block => ?_⟩,
    fun subscriber subscribed subscribedEq behind => ?_⟩
  · have committeeSome : ¬ state.currentCommittee.isNone := by
      simp [currentCommittee, current, present]
    simp only [executeBlock, if_neg committeeSome, executeMessages, executeEach,
      executeOperations, removed, List.nil_append, List.append_nil]
  · simp [isActive, retired { state with committees := state.committees.erase epoch } current rfl]
  · simp [executeBlock,
      retired { state with committees := state.committees.erase epoch } current rfl]
  · refine ⟨{ subscriber with epoch := some epoch, committees := state.committees.erase epoch },
      ?_, ?_⟩
    · simp [executeMessage, subscribedEq, behind]
    · simp [isActive, retired { subscriber with
        epoch := some epoch
        committees := state.committees.erase epoch } rfl rfl]

/-- The genesis admin chain removes the committee of its epoch zero. -/
theorem removeCommittee_current_deactivates_at_genesis :
    let state : SystemExecutionStateView Nat Unit Nat Nat := createChain () 0 0 0
    (state.isActive = true ∧ state.adminId = some 0 ∧ state.epoch = some 0) ∧
      (∃ next, executeBlock (fun _ => 1) state ⟨0, [], [.admin (.removeCommittee 0)]⟩ =
          some (.ok (next,
            [⟨.subscribers .admin, .setCommittees 0 (state.committees.erase 0)⟩])) ∧
        next.isActive = false ∧
        ∀ block : Block Nat Nat Nat,
          executeBlock (fun _ => 1) next block = some (.error (.inactiveChain block.chainId))) ∧
      ∀ (subscriber : SystemExecutionStateView Nat Unit Nat Nat) (subscribed : Nat),
        subscriber.epoch = some subscribed → subscribed ≤ 0 →
        ∃ next, subscriber.executeMessage (.setCommittees 0 (state.committees.erase 0)) =
            some (.ok (next, [])) ∧ next.isActive = false :=
  ⟨⟨rfl, rfl, rfl⟩,
    removeCommittee_current_deactivates (fun _ => 1) (createChain () 0 0 0) 0 0 rfl rfl rfl⟩

end SystemExecutionStateView

end Linera.Execution.Epochs
