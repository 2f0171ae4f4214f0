import Linera.Chain.Inbox

set_option autoImplicit false

/-! The recipient's side of cross-chain updates (`linera-core/src/worker.rs` and
`linera-chain/src/chain.rs`).

An `UpdateRecipient` request carries, for each medium, the heights of the sender's blocks
that have messages for the recipient, and the certificates of these blocks. The recipient
keeps, per origin, the certificates that are new (not below the next height to receive)
and trusted, receives their blocks into its inbox in order, and confirms the last height
it received with a `ConfirmUpdatedRecipient`. When every certificate of an origin is old,
`process_cross_chain_update` returns `Ok(None)` and no height of that origin is confirmed:
a confirmation that was lost is not sent again when the same heights are offered again. -/

namespace Linera.Chain

abbrev ChainId := Nat

abbrev BlockHeight := Nat

abbrev Epoch := Nat

inductive GenericApplicationId where
  | system
  | user (id : Nat)
  deriving DecidableEq, Repr

/-- `ChannelFullName`, with channel names as numbers. -/
structure ChannelFullName where
  applicationId : GenericApplicationId
  name : Nat
  deriving DecidableEq, Repr

inductive Medium where
  | direct
  | channel (fullName : ChannelFullName)
  deriving DecidableEq, Repr

structure Origin where
  sender : ChainId
  medium : Medium
  deriving DecidableEq, Repr

inductive Destination where
  | recipient (id : ChainId)
  | subscribers (name : Nat)
  deriving DecidableEq, Repr

/-- `SystemMessage`, as far as receiving a block looks at it. -/
inductive SystemMessage where
  | openChain
  | other
  deriving DecidableEq, Repr

/-- `Message`, with the user payload abstract. -/
inductive Message (M : Type) where
  | system (message : SystemMessage)
  | user (applicationId : Nat) (payload : M)
  deriving DecidableEq, Repr

def Message.applicationId {M : Type} : Message M → GenericApplicationId
  | .system _ => .system
  | .user applicationId _ => .user applicationId

/-- `OutgoingMessage`, without its authenticated signer. -/
structure OutgoingMessage (M : Type) where
  destination : Destination
  isSkippable : Bool
  message : Message M
  deriving DecidableEq, Repr

/-- The kinds of `CertificateValue`. -/
inductive CertificateKind where
  | validatedBlock
  | confirmedBlock
  | leaderTimeout
  deriving DecidableEq, Repr

/-- `Certificate`, with the fields of its value that the recipient reads. -/
structure Certificate (M : Type) where
  kind : CertificateKind
  chainId : ChainId
  height : BlockHeight
  epoch : Epoch
  messages : List (OutgoingMessage M)
  deriving DecidableEq, Repr

/-- `WorkerError`, as far as cross-chain updates raise it. -/
inductive WorkerError (M : Type) where
  | invalidCrossChainRequest
  /-- `ArithmeticError` of a height or of a message index. -/
  | arithmeticError
  /-- `ChainError::InternalError`, with its text. -/
  | internalError (message : String)
  /-- The `InternalError` that `receive_block` formats from an inbox error. -/
  | inboxError (error : InboxError (Message M))
  deriving DecidableEq, Repr

/-- The state of the recipient chain that cross-chain updates read and write. -/
structure ChainState (M : Type) where
  chainId : ChainId
  inboxes : Origin → InboxStateView (Message M)
  /-- `is_active`: the chain was opened. -/
  active : Bool
  currentEpoch : Option Epoch
  committees : List Epoch
  receivedLog : List (ChainId × BlockHeight)

inductive CrossChainRequest (M : Type) where
  | updateRecipient (heightMap : List (Medium × List BlockHeight)) (sender recipient : ChainId)
      (certificates : List (Certificate M))
  | confirmUpdatedRecipient (sender recipient : ChainId)
      (latestHeights : List (Medium × BlockHeight))
  deriving DecidableEq, Repr

/-- The options of the worker that cross-chain updates read. -/
structure WorkerConfig where
  allowMessagesFromDeprecatedEpochs : Bool
  allowInactiveChains : Bool

/-- `BlockHeight::try_add_one`, on `u64`. -/
def BlockHeight.tryAddOne (height : BlockHeight) : Except Cursor.ArithmeticError BlockHeight :=
  if height + 1 < 2 ^ 64 then .ok (height + 1) else .error .overflow

namespace InboxStateView

variable {M : Type}

def nextBlockHeightToReceive (inbox : InboxStateView M) :
    Except Cursor.ArithmeticError BlockHeight :=
  let cursor := inbox.nextCursorToAdd
  if cursor.index = 0 then .ok cursor.height else BlockHeight.tryAddOne cursor.height

def lastAnticipatedBlockHeight (inbox : InboxStateView M) : Option BlockHeight :=
  inbox.removedEvents.getLast?.map (·.height)

end InboxStateView

structure CrossChainUpdateHelper where
  allowMessagesFromDeprecatedEpochs : Bool
  currentEpoch : Option Epoch
  committees : List Epoch

namespace CrossChainUpdateHelper

variable {M : Type}

/-- The trust test of `select_certificates`. -/
def isTrusted (helper : CrossChainUpdateHelper) (lastAnticipatedBlockHeight : Option BlockHeight)
    (height : BlockHeight) (epoch : Epoch) : Bool :=
  helper.allowMessagesFromDeprecatedEpochs
    || (match lastAnticipatedBlockHeight with
        | some last => decide (height ≤ last)
        | none => false)
    || (match helper.currentEpoch with
        | some current => decide (current ≤ epoch)
        | none => true)
    || decide (epoch ∈ helper.committees)

def heightIncreases : Option BlockHeight → BlockHeight → Bool
  | none, _ => true
  | some latest, height => decide (latest < height)

/-- The loop of `select_certificates` from the certificate at `index`: it checks each
certificate and returns `(skipped_len, trusted_len)`. -/
def scanCertificates (helper : CrossChainUpdateHelper) (origin : Origin)
    (nextHeightToReceive : BlockHeight) (lastAnticipatedBlockHeight : Option BlockHeight) :
    Option BlockHeight → Nat → Nat × Nat → List (Certificate M) →
      Except (WorkerError M) (Nat × Nat)
  | _, _, lengths, [] => .ok lengths
  | latestHeight, index, (skippedLen, trustedLen), certificate :: rest =>
      if certificate.kind ≠ .confirmedBlock then .error .invalidCrossChainRequest
      else if origin.sender ≠ certificate.chainId then .error .invalidCrossChainRequest
      else if !heightIncreases latestHeight certificate.height then .error .invalidCrossChainRequest
      else
        -- The block was received already.
        let skippedLen :=
          if certificate.height < nextHeightToReceive then index + 1 else skippedLen
        let trustedLen :=
          if helper.isTrusted lastAnticipatedBlockHeight certificate.height certificate.epoch then
            index + 1
          else trustedLen
        scanCertificates helper origin nextHeightToReceive lastAnticipatedBlockHeight
          (some certificate.height) (index + 1) (skippedLen, trustedLen) rest

/-- `select_certificates`: the certificates after the skipped ones, up to the last
trusted one. -/
def selectCertificates (helper : CrossChainUpdateHelper) (origin : Origin)
    (nextHeightToReceive : BlockHeight) (lastAnticipatedBlockHeight : Option BlockHeight)
    (certificates : List (Certificate M)) : Except (WorkerError M) (List (Certificate M)) := do
  let (skippedLen, trustedLen) ←
    helper.scanCertificates origin nextHeightToReceive lastAnticipatedBlockHeight none 0 (0, 0)
      certificates
  if skippedLen < trustedLen then
    pure ((certificates.drop skippedLen).take (trustedLen - skippedLen))
  else pure []

end CrossChainUpdateHelper

namespace ChainState

variable {M : Type} [DecidableEq M]

/-- The test of `receive_block` that keeps the messages of a block for this origin. -/
def isForOrigin (chainId : ChainId) (origin : Origin) (message : OutgoingMessage M) : Bool :=
  match message.destination with
  | .recipient id => origin.medium = .direct && id = chainId
  | .subscribers name => origin.medium = .channel ⟨message.message.applicationId, name⟩

/-- `ChainStateView::receive_block`: the block's messages for the origin become inbox
events, in the order of their indices; an `OpenChain` message opens the chain. -/
def receiveBlock (chain : ChainState M) (origin : Origin) (height : BlockHeight)
    (messages : List (OutgoingMessage M)) : Except (WorkerError M) (ChainState M) := do
  let inbox := chain.inboxes origin
  let nextHeight ← inbox.nextBlockHeightToReceive.mapError fun _ => .arithmeticError
  if ¬ height ≥ nextHeight then
    throw (.internalError "Trying to receive blocks in the wrong order")
  -- u32::try_from(index) for every index of the block.
  if 2 ^ 32 < messages.length then throw .arithmeticError
  let selected := messages.zipIdx.filter fun entry => isForOrigin chain.chainId origin entry.1
  let opened := selected.any fun entry => entry.1.message = .system .openChain
  let events : List (Event (Message M)) :=
    selected.map fun entry => ⟨height, entry.2, entry.1.isSkippable, entry.1.message⟩
  if events.isEmpty then
    throw (.internalError "The block received was entirely ignored. This should not happen")
  let inbox ← (events.foldlM InboxStateView.addEvent inbox).mapError .inboxError
  pure { chain with
    inboxes := Function.update chain.inboxes origin inbox
    active := chain.active || opened
    receivedLog := chain.receivedLog ++ [(origin.sender, height)] }

/-- The loop of `process_cross_chain_update` over the selected certificates. -/
def receiveCertificates (origin : Origin) (chain : ChainState M) :
    List (Certificate M) → Except (WorkerError M) (ChainState M)
  | [] => .ok chain
  | certificate :: rest => do
      let chain ←
        if certificate.kind = .confirmedBlock then
          chain.receiveBlock origin certificate.height certificate.messages
        -- "Unexpected value in cross-chain message"
        else pure chain
      receiveCertificates origin chain rest

/-- `WorkerState::process_cross_chain_update`: the chain to save and the last height
received. When it returns no height, nothing is saved. -/
def processCrossChainUpdate (config : WorkerConfig) (chain : ChainState M) (origin : Origin)
    (certificates : List (Certificate M)) :
    Except (WorkerError M) (ChainState M × Option BlockHeight) := do
  let inbox := chain.inboxes origin
  let nextHeightToReceive ← inbox.nextBlockHeightToReceive.mapError fun _ => .arithmeticError
  let helper : CrossChainUpdateHelper :=
    ⟨config.allowMessagesFromDeprecatedEpochs, chain.currentEpoch, chain.committees⟩
  let certificates ← helper.selectCertificates origin nextHeightToReceive
    inbox.lastAnticipatedBlockHeight certificates
  match certificates.getLast? with
  | none => pure (chain, none)
  | some last =>
      let received ← receiveCertificates origin chain certificates
      if !config.allowInactiveChains && !received.active then pure (chain, none)
      else pure (received, some last.height)

/-- The loop of `handle_cross_chain_request` over the media of an `UpdateRecipient`: the
chain as saved so far, and the last height received per medium. An error stops the loop,
and what was saved before it stays. -/
def updateOrigins (config : WorkerConfig) (sender : ChainId) (certificates : List (Certificate M)) :
    ChainState M → List (Medium × List BlockHeight) →
      ChainState M × Except (WorkerError M) (List (Medium × BlockHeight))
  | chain, [] => (chain, .ok [])
  | chain, (medium, heights) :: rest =>
      -- heights.binary_search(height).is_ok(), on sorted heights.
      let appCertificates := certificates.filter fun certificate => certificate.height ∈ heights
      match chain.processCrossChainUpdate config ⟨sender, medium⟩ appCertificates with
      | .error error => (chain, .error error)
      | .ok (chain, none) => updateOrigins config sender certificates chain rest
      | .ok (chain, some height) =>
          let (chain, latestHeights) := updateOrigins config sender certificates chain rest
          (chain, latestHeights.map ((medium, height) :: ·))

/-- `WorkerState::handle_cross_chain_request` for `UpdateRecipient`, at the recipient: the
chain as saved, and the `ConfirmUpdatedRecipient` to send back, if any. -/
def handleUpdateRecipient (config : WorkerConfig) (chain : ChainState M)
    (heightMap : List (Medium × List BlockHeight)) (sender : ChainId)
    (certificates : List (Certificate M)) :
    ChainState M × Except (WorkerError M) (Option (CrossChainRequest M)) :=
  let (chain', latestHeights) := chain.updateOrigins config sender certificates heightMap
  (chain', latestHeights.map fun latestHeights =>
    if latestHeights.isEmpty then none
    else some (.confirmUpdatedRecipient sender chain.chainId latestHeights))

end ChainState

namespace ChainState

variable {M : Type} [DecidableEq M]

theorem foldlM_addEvent_eq_ok (events : List (Event (Message M)))
    (inbox received : InboxStateView (Message M))
    (added : events.foldlM InboxStateView.addEvent inbox = .ok received) :
    inbox.nextCursorToAdd ≤ received.nextCursorToAdd ∧
      ∀ event ∈ events, event.cursor < received.nextCursorToAdd := by
  induction events generalizing inbox with
  | nil =>
      cases added
      exact ⟨le_rfl, by simp⟩
  | cons event rest ih =>
      rw [List.foldlM_cons, Except.bind_eq_ok_iff] at added
      obtain ⟨middle, first, later⟩ := added
      obtain ⟨below, increased, -⟩ := InboxStateView.addEvent_eq_ok first
      have past : event.cursor < middle.nextCursorToAdd := Cursor.lt_of_tryAddOne increased
      obtain ⟨monotone, restPast⟩ := ih middle later
      refine ⟨below.trans (past.le.trans monotone), ?_⟩
      intro other mem
      rcases List.mem_cons.mp mem with rfl | tail
      · exact lt_of_lt_of_le past monotone
      · exact restPast other tail

/-- What a successful `receive_block` does to the inboxes: only the inbox of the origin
changes, and its next cursor to add moves forward, past the block's height. -/
theorem receiveBlock_eq_ok {chain received : ChainState M} {origin : Origin}
    {height : BlockHeight} {messages : List (OutgoingMessage M)}
    (receivedBlock : chain.receiveBlock origin height messages = .ok received) :
    (∀ other, other ≠ origin → received.inboxes other = chain.inboxes other) ∧
      (chain.inboxes origin).nextCursorToAdd ≤ (received.inboxes origin).nextCursorToAdd ∧
      Cursor.mk height 0 < (received.inboxes origin).nextCursorToAdd := by
  unfold receiveBlock at receivedBlock
  rcases next : (chain.inboxes origin).nextBlockHeightToReceive with _ | nextHeight
  · simp only [next, Except.mapError_error, Except.error_bind, reduceCtorEq] at receivedBlock
  · -- A check that fails throws, and the rest of the block after it is dropped.
    simp only [next, Except.mapError_ok, Except.ok_bind, Except.throw_eq_error,
      Except.error_bind] at receivedBlock
    by_cases inOrder : height ≥ nextHeight
    swap
    · rw [if_pos inOrder] at receivedBlock
      cases receivedBlock
    rw [if_neg (not_not_intro inOrder)] at receivedBlock
    by_cases tooLong : 2 ^ 32 < messages.length
    · rw [if_pos tooLong] at receivedBlock
      cases receivedBlock
    rw [if_neg tooLong] at receivedBlock
    -- The events of the block, all at its height, are added to the inbox of the origin.
    generalize eventsEq : List.map _ (List.filter _ messages.zipIdx) = events at receivedBlock
    by_cases ignored : events.isEmpty = true
    · rw [if_pos ignored] at receivedBlock
      cases receivedBlock
    rw [if_neg ignored] at receivedBlock
    rcases folded : events.foldlM InboxStateView.addEvent (chain.inboxes origin) with _ | inbox
    · rw [folded, Except.mapError_error, Except.error_bind] at receivedBlock
      cases receivedBlock
    · rw [folded, Except.mapError_ok, Except.ok_bind, Except.pure_eq_ok] at receivedBlock
      cases receivedBlock
      obtain ⟨monotone, past⟩ := foldlM_addEvent_eq_ok events _ _ folded
      obtain ⟨event, mem⟩ := List.exists_mem_of_ne_nil events (by simpa using ignored)
      have atHeight : event.height = height := by
        rw [← eventsEq] at mem
        obtain ⟨_, -, rfl⟩ := List.mem_map.mp mem
        rfl
      refine ⟨fun other different => Function.update_of_ne different _ _, ?_, ?_⟩
      · simpa using monotone
      · have least : Cursor.mk height 0 ≤ event.cursor := by
          rw [Cursor.le_iff]
          simp [Event.cursor, atHeight]
        simpa using lt_of_le_of_lt least (past event mem)

end ChainState

namespace CrossChainUpdateHelper

variable {M : Type} (helper : CrossChainUpdateHelper) (origin : Origin)
  (nextHeightToReceive : BlockHeight) (lastAnticipatedBlockHeight : Option BlockHeight)

theorem scanCertificates_of_below (certificates : List (Certificate M))
    (valid : ∀ certificate ∈ certificates, certificate.kind = .confirmedBlock ∧
      certificate.chainId = origin.sender ∧ certificate.height < nextHeightToReceive)
    (increasing : certificates.Pairwise (·.height < ·.height))
    (latestHeight : Option BlockHeight)
    (above : ∀ certificate ∈ certificates, heightIncreases latestHeight certificate.height = true)
    (index skippedLen trustedLen : Nat) (trustedSkipped : trustedLen ≤ skippedLen)
    (trustedBefore : trustedLen ≤ index) :
    ∃ lengths, helper.scanCertificates origin nextHeightToReceive lastAnticipatedBlockHeight
        latestHeight index (skippedLen, trustedLen) certificates = .ok lengths ∧
      lengths.2 ≤ lengths.1 := by
  induction certificates generalizing latestHeight index skippedLen trustedLen with
  | nil => exact ⟨_, rfl, trustedSkipped⟩
  | cons certificate rest ih =>
      obtain ⟨confirmed, sameChain, below⟩ := valid certificate List.mem_cons_self
      rw [List.pairwise_cons] at increasing
      have checked : heightIncreases latestHeight certificate.height = true :=
        above certificate List.mem_cons_self
      have aboveRest : ∀ later ∈ rest, heightIncreases (some certificate.height) later.height = true :=
        fun later mem => by simpa [heightIncreases] using increasing.1 later mem
      -- The certificate is skipped, so both lengths become at most `index + 1`.
      have next := ih (fun later mem => valid later (List.mem_cons_of_mem _ mem)) increasing.2
        (some certificate.height) aboveRest (index + 1) (index + 1)
        (if helper.isTrusted lastAnticipatedBlockHeight certificate.height certificate.epoch then
          index + 1 else trustedLen)
        (by split <;> omega) (by split <;> omega)
      simpa [scanCertificates, confirmed, sameChain, checked, below] using next

theorem selectCertificates_of_below (certificates : List (Certificate M))
    (valid : ∀ certificate ∈ certificates, certificate.kind = .confirmedBlock ∧
      certificate.chainId = origin.sender ∧ certificate.height < nextHeightToReceive)
    (increasing : certificates.Pairwise (·.height < ·.height)) :
    helper.selectCertificates origin nextHeightToReceive lastAnticipatedBlockHeight certificates =
      .ok [] := by
  obtain ⟨⟨skippedLen, trustedLen⟩, scanned, trustedSkipped⟩ :=
    scanCertificates_of_below helper origin nextHeightToReceive lastAnticipatedBlockHeight
      certificates valid increasing none (fun _ _ => rfl) 0 0 0 le_rfl le_rfl
  simp only [selectCertificates, scanned, Except.ok_bind]
  rw [if_neg (not_lt.mpr trustedSkipped)]
  rfl

theorem scanCertificates_confirmed (certificates : List (Certificate M))
    (latestHeight : Option BlockHeight) (index : Nat) (lengths result : Nat × Nat)
    (scanned : helper.scanCertificates origin nextHeightToReceive lastAnticipatedBlockHeight
      latestHeight index lengths certificates = .ok result) :
    ∀ certificate ∈ certificates, certificate.kind = .confirmedBlock := by
  induction certificates generalizing latestHeight index lengths with
  | nil => simp
  | cons certificate rest ih =>
      obtain ⟨skippedLen, trustedLen⟩ := lengths
      unfold scanCertificates at scanned
      by_cases unconfirmed : certificate.kind ≠ .confirmedBlock
      · rw [if_pos unconfirmed] at scanned
        cases scanned
      by_cases otherChain : origin.sender ≠ certificate.chainId
      · rw [if_neg unconfirmed, if_pos otherChain] at scanned
        cases scanned
      by_cases decreasing : (!heightIncreases latestHeight certificate.height) = true
      · rw [if_neg unconfirmed, if_neg otherChain, if_pos decreasing] at scanned
        cases scanned
      rw [if_neg unconfirmed, if_neg otherChain, if_neg decreasing] at scanned
      intro other mem
      rcases List.mem_cons.mp mem with rfl | tail
      · exact not_not.mp unconfirmed
      · exact ih _ _ _ scanned other tail

theorem mem_selectCertificates (certificates selected : List (Certificate M))
    (selection : helper.selectCertificates origin nextHeightToReceive lastAnticipatedBlockHeight
      certificates = .ok selected) :
    ∀ certificate ∈ selected, certificate ∈ certificates ∧ certificate.kind = .confirmedBlock := by
  unfold selectCertificates at selection
  rcases scanned : helper.scanCertificates origin nextHeightToReceive lastAnticipatedBlockHeight
    none 0 (0, 0) certificates with _ | ⟨skippedLen, trustedLen⟩
  · simp [scanned] at selection
  · have confirmed := scanCertificates_confirmed helper origin nextHeightToReceive
      lastAnticipatedBlockHeight certificates none 0 (0, 0) _ scanned
    simp only [scanned, Except.ok_bind] at selection
    intro certificate mem
    -- The selection is a slice of the certificates.
    have slice : certificate ∈ certificates := by
      split_ifs at selection
      · cases selection
        exact (List.drop_subset _ _) ((List.take_subset _ _) mem)
      · cases selection
        cases mem
    exact ⟨slice, confirmed certificate slice⟩

end CrossChainUpdateHelper

namespace ChainState

variable {M : Type} [DecidableEq M]

/-- The certificates received one after the other: only the inbox of the origin changes,
and it moves past the height of every confirmed block. -/
theorem receiveCertificates_eq_ok (origin : Origin) (certificates : List (Certificate M))
    (chain received : ChainState M)
    (receivedAll : receiveCertificates origin chain certificates = .ok received) :
    (∀ other, other ≠ origin → received.inboxes other = chain.inboxes other) ∧
      (chain.inboxes origin).nextCursorToAdd ≤ (received.inboxes origin).nextCursorToAdd ∧
      ∀ certificate ∈ certificates, certificate.kind = .confirmedBlock →
        Cursor.mk certificate.height 0 < (received.inboxes origin).nextCursorToAdd := by
  induction certificates generalizing chain with
  | nil =>
      cases receivedAll
      exact ⟨fun _ _ => rfl, le_rfl, by simp⟩
  | cons certificate rest ih =>
      unfold receiveCertificates at receivedAll
      dsimp only at receivedAll
      -- The first certificate is received, or skipped when it confirms no block.
      obtain ⟨middle, step, later⟩ : ∃ middle,
          ((∀ other, other ≠ origin → middle.inboxes other = chain.inboxes other) ∧
            (chain.inboxes origin).nextCursorToAdd ≤ (middle.inboxes origin).nextCursorToAdd ∧
            (certificate.kind = .confirmedBlock →
              Cursor.mk certificate.height 0 < (middle.inboxes origin).nextCursorToAdd)) ∧
          receiveCertificates origin middle rest = .ok received := by
        split_ifs at receivedAll with confirmed
        · obtain ⟨middle, first, later⟩ := (Except.bind_eq_ok_iff _ _ _).mp receivedAll
          obtain ⟨others, monotone, past⟩ := receiveBlock_eq_ok first
          exact ⟨middle, ⟨others, monotone, fun _ => past⟩, later⟩
        · exact ⟨chain, ⟨fun _ _ => rfl, le_rfl, fun same => absurd same confirmed⟩, receivedAll⟩
      obtain ⟨othersLater, monotoneLater, pastLater⟩ := ih middle later
      refine ⟨fun other different => (othersLater other different).trans (step.1 other different),
        step.2.1.trans monotoneLater, ?_⟩
      intro other mem confirmed
      rcases List.mem_cons.mp mem with rfl | tail
      · exact lt_of_lt_of_le (step.2.2 confirmed) monotoneLater
      · exact pastLater other tail confirmed

/-- A height is confirmed only once it is received: the inbox of the origin is past it,
and no other inbox changed. -/
theorem processCrossChainUpdate_eq_some (config : WorkerConfig) (chain updated : ChainState M)
    (origin : Origin) (certificates : List (Certificate M)) (height : BlockHeight)
    (processed : chain.processCrossChainUpdate config origin certificates = .ok (updated, some height)) :
    (∀ other, other ≠ origin → updated.inboxes other = chain.inboxes other) ∧
      Cursor.mk height 0 < (updated.inboxes origin).nextCursorToAdd := by
  unfold processCrossChainUpdate at processed
  rcases next : (chain.inboxes origin).nextBlockHeightToReceive with _ | nextHeight
  · simp [next] at processed
  rcases selection : CrossChainUpdateHelper.selectCertificates
    ⟨config.allowMessagesFromDeprecatedEpochs, chain.currentEpoch, chain.committees⟩ origin
    nextHeight (chain.inboxes origin).lastAnticipatedBlockHeight certificates with _ | selected
  · simp [next, selection] at processed
  have selectedConfirmed := CrossChainUpdateHelper.mem_selectCertificates _ _ _ _ _ _ selection
  simp only [next, selection, Except.mapError_ok, Except.ok_bind] at processed
  rcases last : selected.getLast? with _ | lastCertificate
  · simp [last] at processed
  rcases receivedAll : receiveCertificates origin chain selected with _ | received
  · simp [last, receivedAll] at processed
  simp only [last, receivedAll, Except.ok_bind] at processed
  split_ifs at processed
  · simp at processed
  · simp only [Except.pure_eq_ok, Except.ok.injEq, Prod.mk.injEq, Option.some.injEq] at processed
    obtain ⟨rfl, rfl⟩ := processed
    obtain ⟨others, -, past⟩ := receiveCertificates_eq_ok origin selected chain received receivedAll
    have mem : lastCertificate ∈ selected := List.mem_of_getLast? last
    exact ⟨others, past lastCertificate mem (selectedConfirmed lastCertificate mem).2⟩

/-- Chain 1 receives the first block of chain 0, which sends it one message. -/
theorem processCrossChainUpdate_eq_some_at_zero :
    let chain : ChainState Nat := ⟨1, fun _ => InboxStateView.empty, true, some 0, [0], []⟩
    let certificate : Certificate Nat :=
      ⟨.confirmedBlock, 0, 0, 0, [⟨.recipient 1, false, .user 7 5⟩]⟩
    ∃ updated, chain.processCrossChainUpdate ⟨false, false⟩ ⟨0, .direct⟩ [certificate] =
        .ok (updated, some 0) ∧
      (∀ other, other ≠ ⟨0, .direct⟩ → updated.inboxes other = chain.inboxes other) ∧
      Cursor.mk 0 0 < (updated.inboxes ⟨0, .direct⟩).nextCursorToAdd := by
  intro chain certificate
  obtain ⟨updated, processed⟩ : ∃ updated,
      chain.processCrossChainUpdate ⟨false, false⟩ ⟨0, .direct⟩ [certificate] =
        .ok (updated, some 0) := ⟨_, rfl⟩
  exact ⟨updated, processed,
    processCrossChainUpdate_eq_some ⟨false, false⟩ chain updated ⟨0, .direct⟩ [certificate] 0 processed⟩

/-- An `UpdateRecipient` whose certificates of an origin were all received already is
answered without any confirmation, and changes nothing. -/
theorem handleUpdateRecipient_of_received (config : WorkerConfig) (chain : ChainState M)
    (sender : ChainId) (medium : Medium) (heights : List BlockHeight)
    (certificates : List (Certificate M)) (nextHeight : BlockHeight)
    (received : (chain.inboxes ⟨sender, medium⟩).nextBlockHeightToReceive = .ok nextHeight)
    (valid : ∀ certificate ∈ certificates, certificate.kind = .confirmedBlock ∧
      certificate.chainId = sender ∧ certificate.height < nextHeight)
    (increasing : certificates.Pairwise (·.height < ·.height)) :
    chain.handleUpdateRecipient config [(medium, heights)] sender certificates = (chain, .ok none) := by
  -- The certificates of the medium are a sublist, still well formed and old.
  have kept : (certificates.filter fun certificate => decide (certificate.height ∈ heights)).Sublist
      certificates :=
    List.filter_sublist
  have selected := CrossChainUpdateHelper.selectCertificates_of_below
    ⟨config.allowMessagesFromDeprecatedEpochs, chain.currentEpoch, chain.committees⟩
    ⟨sender, medium⟩ nextHeight (chain.inboxes ⟨sender, medium⟩).lastAnticipatedBlockHeight _
    (fun certificate mem => valid certificate (kept.subset mem)) (increasing.sublist kept)
  simp [handleUpdateRecipient, updateOrigins, processCrossChainUpdate, received, selected]

/-- The first delivery of a block at height 0 is confirmed; the same request delivered
again, after the confirmation was lost, is not. -/
theorem handleUpdateRecipient_repeated_at_zero :
    let chain : ChainState Nat := ⟨1, fun _ => InboxStateView.empty, true, some 0, [0], []⟩
    let certificate : Certificate Nat :=
      ⟨.confirmedBlock, 0, 0, 0, [⟨.recipient 1, false, .user 7 5⟩]⟩
    let config : WorkerConfig := ⟨false, false⟩
    let first := chain.handleUpdateRecipient config [(.direct, [0])] 0 [certificate]
    first.2 = .ok (some (.confirmUpdatedRecipient 0 1 [(.direct, 0)])) ∧
      (first.1.inboxes ⟨0, .direct⟩).nextBlockHeightToReceive = .ok 1 ∧
      (∀ c ∈ [certificate], c.kind = .confirmedBlock ∧ c.chainId = 0 ∧ c.height < 1) ∧
      [certificate].Pairwise (·.height < ·.height) ∧
      first.1.handleUpdateRecipient config [(.direct, [0])] 0 [certificate] = (first.1, .ok none) := by
  intro chain certificate config first
  have confirmed : first.2 = .ok (some (.confirmUpdatedRecipient 0 1 [(.direct, 0)])) := by
    decide
  have received : (first.1.inboxes ⟨0, .direct⟩).nextBlockHeightToReceive = .ok 1 := by decide
  have valid : ∀ c ∈ [certificate], c.kind = .confirmedBlock ∧ c.chainId = 0 ∧ c.height < 1 := by
    decide
  have increasing : [certificate].Pairwise (·.height < ·.height) := by decide
  exact ⟨confirmed, received, valid, increasing,
    handleUpdateRecipient_of_received config first.1 0 .direct [0] [certificate] 1 received valid
      increasing⟩

end ChainState

end Linera.Chain
