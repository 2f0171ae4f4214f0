import Mathlib
import Linera.Chain.Inbox
import Linera.Lib.OrdMap

set_option autoImplicit false

/-! The outboxes of a chain and their counters (`linera-chain/src/outbox.rs` and
`ChainStateView` in `linera-chain/src/chain.rs`).

Each target has an outbox: a queue of the heights of the blocks with messages for it,
and the least height it accepts next. `outbox_counters` counts, for each height, the
outboxes whose queue holds it. `process_raw_execution_result` schedules the heights of a
block in the outboxes of its direct recipients, of the subscribers of the channels it
broadcasts to, and of the new subscribers of its channels, which are sent the latest
height of the channel; `mark_messages_as_received` takes the received heights off the
front of a queue, decrements their counters, and removes the outbox once its queue is
empty, which resets its least height.

The hash sets of recipients and channels are iterated in an unspecified order; they are
modelled as the lists without duplicates in the order of the messages. A call that fails
leaves no trace: its block is not executed. -/

namespace Linera.Chain.Outbox

open Cursor (ArithmeticError)

inductive Medium (N : Type) where
  | direct
  | channel (fullName : N)
  deriving DecidableEq, Repr

/-- `Target`: a recipient chain and the medium of its messages. -/
structure Target (C N : Type) where
  recipient : C
  medium : Medium N
  deriving DecidableEq, Repr

def Target.chain {C N : Type} (id : C) : Target C N := ⟨id, .direct⟩

def Target.channel {C N : Type} (id : C) (fullName : N) : Target C N := ⟨id, .channel fullName⟩

/-- `ChannelFullName`: a channel name within an application. -/
structure ChannelFullName (A Nm : Type) where
  applicationId : A
  name : Nm
  deriving DecidableEq, Repr

inductive Destination (C Nm : Type) where
  | recipient (id : C)
  | subscribers (name : Nm)
  deriving DecidableEq, Repr

/-- `RawOutgoingMessage`, over any type of messages. -/
structure RawOutgoingMessage (C Nm E : Type) where
  destination : Destination C Nm
  authenticated : Bool
  isSkippable : Bool
  message : E

/-- `RawExecutionResult`, over any type of messages. -/
structure RawExecutionResult (C Nm E O : Type) where
  authenticatedSigner : Option O
  messages : List (RawOutgoingMessage C Nm E)
  subscribe : List (Nm × C)
  unsubscribe : List (Nm × C)

structure OutgoingMessage (C Nm M O : Type) where
  destination : Destination C Nm
  authenticatedSigner : Option O
  isSkippable : Bool
  message : M
  deriving DecidableEq, Repr

structure OutboxStateView where
  nextHeightToSchedule : Nat
  queue : List Nat
  deriving DecidableEq, Repr

namespace OutboxStateView

def empty : OutboxStateView := ⟨0, []⟩

/-- `BlockHeight::try_add_one`: heights are `u64`. -/
def tryAddOneHeight (height : Nat) : Except ArithmeticError Nat :=
  if height + 1 < 2 ^ 64 then .ok (height + 1) else .error .overflow

/-- `OutboxStateView::schedule_message`: whether the height was queued, and the outbox. -/
def scheduleMessage (outbox : OutboxStateView) (height : Nat) :
    Except ArithmeticError (Bool × OutboxStateView) :=
  if height < outbox.nextHeightToSchedule then .ok (false, outbox)
  else do
    let next ← tryAddOneHeight height
    pure (true, ⟨next, outbox.queue ++ [height]⟩)

/-- `OutboxStateView::mark_messages_as_received`: the heights up to `height` leave the
front of the queue, and are returned. -/
def markMessagesAsReceived (outbox : OutboxStateView) (height : Nat) :
    List Nat × OutboxStateView :=
  (outbox.queue.takeWhile (· ≤ height), { outbox with queue := outbox.queue.dropWhile (· ≤ height) })

/-- A queue that increases and stays below the next height to schedule. -/
def Ordered (outbox : OutboxStateView) : Prop :=
  outbox.queue.Pairwise (· < ·) ∧ ∀ height ∈ outbox.queue, height < outbox.nextHeightToSchedule

theorem ordered_empty : empty.Ordered := ⟨List.Pairwise.nil, by simp [empty]⟩

/-- What `schedule_message` does: a height below the next one is ignored, and any other is
new to the queue and goes at its end. -/
theorem scheduleMessage_eq_ok {outbox next : OutboxStateView} {height : Nat} {changed : Bool}
    (ordered : outbox.Ordered) (scheduled : outbox.scheduleMessage height = .ok (changed, next)) :
    next.Ordered ∧ (changed = false → next = outbox) ∧
      (changed = true → height ∉ outbox.queue ∧ next.queue = outbox.queue ++ [height]) := by
  unfold scheduleMessage at scheduled
  split_ifs at scheduled with below
  · obtain ⟨rfl, rfl⟩ := Prod.mk.inj (Except.ok.inj scheduled)
    exact ⟨ordered, fun _ => rfl, by simp⟩
  · obtain ⟨following, added, answered⟩ := (Except.bind_eq_ok_iff _ _ _).mp scheduled
    obtain ⟨rfl, rfl⟩ := Prod.mk.inj (Except.ok.inj answered)
    unfold tryAddOneHeight at added
    split_ifs at added with fits
    obtain rfl := Except.ok.inj added
    have earlier : ∀ queued ∈ outbox.queue, queued < height := fun queued mem => by
      have := ordered.2 queued mem
      omega
    refine ⟨⟨?_, ?_⟩, by simp, fun _ => ⟨fun mem => by simpa using earlier height mem, rfl⟩⟩
    · exact List.pairwise_append.mpr ⟨ordered.1, List.pairwise_singleton _ _,
        fun queued mem last lastMem => by
          rw [List.mem_singleton.mp lastMem]
          exact earlier queued mem⟩
    · intro queued mem
      dsimp only
      rcases List.mem_append.mp mem with old | last
      · have := earlier queued old
        omega
      · rw [List.mem_singleton.mp last]
        omega

theorem markMessagesAsReceived_spec {outbox : OutboxStateView} (ordered : outbox.Ordered)
    (height : Nat) :
    (outbox.markMessagesAsReceived height).1 ++ (outbox.markMessagesAsReceived height).2.queue =
        outbox.queue ∧
      (outbox.markMessagesAsReceived height).2.Ordered := by
  have whole := List.takeWhile_append_dropWhile (p := fun queued => decide (queued ≤ height))
    (l := outbox.queue)
  refine ⟨whole, ?_, ?_⟩
  · exact ordered.1.sublist (List.dropWhile_suffix _).sublist
  · exact fun queued mem => ordered.2 queued ((List.dropWhile_suffix _).subset mem)

end OutboxStateView

structure ChannelStateView (C : Type) [LinearOrder C] where
  subscribers : OrdSet C
  blockHeight : Option Nat

def ChannelStateView.empty {C : Type} [LinearOrder C] : ChannelStateView C := ⟨OrdSet.empty, none⟩

/-- The errors of `process_raw_execution_result`: an overflowing height, or a channel
loaded twice at once (`ViewError::TryLockError`). -/
inductive ChainError (N : Type) where
  | arithmeticError (error : ArithmeticError)
  | tryLockError (fullName : N)
  deriving DecidableEq, Repr

/-- The part of `ChainStateView` that the outboxes and channels make up. -/
structure ChainStateView (C A Nm : Type) [LinearOrder C] [DecidableEq A] [DecidableEq Nm] where
  outboxes : AList (fun _ : Target C (ChannelFullName A Nm) => OutboxStateView)
  outboxCounters : OrdMap Nat Nat
  channels : AList (fun _ : ChannelFullName A Nm => ChannelStateView C)

namespace ChainStateView

variable {C A Nm : Type} [LinearOrder C] [DecidableEq A] [DecidableEq Nm]

def empty : ChainStateView C A Nm := ⟨∅, OrdMap.empty, ∅⟩

/-- The outbox of a target, as `try_load_entry_mut` loads it. -/
def outbox (chain : ChainStateView C A Nm) (target : Target C (ChannelFullName A Nm)) :
    OutboxStateView :=
  (chain.outboxes.lookup target).getD .empty

/-- The channel of a full name, as `try_load_entry_mut` loads it. -/
def channel (chain : ChainStateView C A Nm) (fullName : ChannelFullName A Nm) :
    ChannelStateView C :=
  (chain.channels.lookup fullName).getD .empty

/-- One round of the loops of `process_raw_execution_result` that schedule a height in an
outbox and count it: `*outbox_counters.entry(height).or_default() += 1`. -/
def scheduleTarget (chain : ChainStateView C A Nm)
    (entry : Target C (ChannelFullName A Nm) × Nat) :
    Except (ChainError (ChannelFullName A Nm)) (ChainStateView C A Nm) :=
  match (chain.outbox entry.1).scheduleMessage entry.2 with
  | .error error => .error (.arithmeticError error)
  | .ok (changed, outbox) =>
      .ok { chain with
        outboxes := chain.outboxes.insert entry.1 outbox
        outboxCounters :=
          if changed then chain.outboxCounters.insert entry.2 ((chain.outboxCounters.get entry.2).getD 0 + 1)
          else chain.outboxCounters }

/-- The channels of a list of full names, loaded at once: a name loaded twice fails. -/
def loadChannels (chain : ChainStateView C A Nm) (fullNames : List (ChannelFullName A Nm)) :
    Except (ChainError (ChannelFullName A Nm)) (List (ChannelStateView C)) :=
  match fullNames.find? (fun fullName => fullNames.count fullName > 1) with
  | some fullName => .error (.tryLockError fullName)
  | none => .ok (fullNames.map chain.channel)

/-- The loop of `process_raw_execution_result` over `raw_result.unsubscribe`. -/
def unsubscribe (chain : ChainStateView C A Nm) (applicationId : A) (unsubscribe : List (Nm × C)) :
    Except (ChainError (ChannelFullName A Nm)) (ChainStateView C A Nm) := do
  let fullNames := unsubscribe.map fun entry => ⟨applicationId, entry.1⟩
  let channels ← chain.loadChannels fullNames
  pure { chain with
    channels := ((unsubscribe.zip fullNames).zip channels).foldl (fun channels entry =>
      -- Remove subscriber. Do not remove the channel outbox yet.
      channels.insert entry.1.2 { entry.2 with subscribers := entry.2.subscribers.erase entry.1.1.2 })
      chain.channels }

/-- The stream of `process_raw_execution_result` over the broadcast channels: each records
the height, and its subscribers are the targets. -/
def broadcast (chain : ChainStateView C A Nm) (applicationId : A) (height : Nat)
    (channelBroadcasts : List Nm) :
    Except (ChainError (ChannelFullName A Nm))
      (ChainStateView C A Nm × List (Target C (ChannelFullName A Nm))) := do
  let fullNames : List (ChannelFullName A Nm) := channelBroadcasts.map fun name => ⟨applicationId, name⟩
  let channels ← chain.loadChannels fullNames
  let targets := (fullNames.zip channels).flatMap fun entry =>
    entry.2.subscribers.elems.map fun recipient => Target.channel recipient entry.1
  pure ({ chain with
    channels := (fullNames.zip channels).foldl (fun channels entry =>
      channels.insert entry.1 { entry.2 with blockHeight := some height }) chain.channels },
    targets)

/-- The stream of `process_raw_execution_result` over `raw_result.subscribe`: a chain that
was not subscribed is added, and is the target of the channel's latest height, if any. -/
def subscribe (chain : ChainStateView C A Nm) (applicationId : A) (subscribe : List (Nm × C)) :
    Except (ChainError (ChannelFullName A Nm))
      (ChainStateView C A Nm × List (Target C (ChannelFullName A Nm) × Nat)) := do
  let fullNames : List (ChannelFullName A Nm) := subscribe.map fun entry => ⟨applicationId, entry.1⟩
  let channels ← chain.loadChannels fullNames
  let added := ((subscribe.zip fullNames).zip channels).foldl (fun added entry =>
    let id := entry.1.1.2
    let fullName := entry.1.2
    let channel := entry.2
    if id ∈ channel.subscribers then added
    else
      -- Send the latest message if any.
      (added.1.insert fullName { channel with subscribers := channel.subscribers.insert id },
        added.2 ++ (channel.blockHeight.map fun latestHeight => (Target.channel id fullName, latestHeight)).toList))
    (chain.channels, [])
  pure ({ chain with channels := added.1 }, added.2)

/-- `ChainStateView::process_raw_execution_result`, for the outboxes and channels: the
outgoing messages, then the outboxes of the direct recipients, the unsubscriptions, the
outboxes of the subscribers of the broadcast channels, and those of the new
subscribers. -/
def processRawExecutionResult {E M O : Type} (chain : ChainStateView C A Nm) (applicationId : A)
    (lift : E → M) (messages : List (OutgoingMessage C Nm M O)) (height : Nat)
    (rawResult : RawExecutionResult C Nm E O) :
    Except (ChainError (ChannelFullName A Nm)) (ChainStateView C A Nm × List (OutgoingMessage C Nm M O)) := do
  let recipients := (rawResult.messages.filterMap fun message =>
    match message.destination with
    | .recipient id => some id
    | .subscribers _ => none).dedup
  let channelBroadcasts := (rawResult.messages.filterMap fun message =>
    match message.destination with
    | .recipient _ => none
    | .subscribers name => some name).dedup
  let messages := messages ++ rawResult.messages.map fun message =>
    ⟨message.destination, if message.authenticated then rawResult.authenticatedSigner else none,
      message.isSkippable, lift message.message⟩
  -- Update the (regular) outboxes.
  let chain ← (recipients.map fun id => (Target.chain id, height)).foldlM scheduleTarget chain
  -- Update the channels.
  let chain ← chain.unsubscribe applicationId rawResult.unsubscribe
  let (chain, targets) ← chain.broadcast applicationId height channelBroadcasts
  let chain ← (targets.map fun target => (target, height)).foldlM scheduleTarget chain
  let (chain, subscribed) ← chain.subscribe applicationId rawResult.subscribe
  let chain ← subscribed.foldlM scheduleTarget chain
  pure (chain, messages)

/-- One decrement of `mark_messages_as_received`; `none` is the panic of an `expect`: a
missing counter, or one that would go below zero. -/
def decrementCounter (counters : OrdMap Nat Nat) (update : Nat) : Option (OrdMap Nat Nat) :=
  match counters.get update with
  | none => none
  | some counter =>
      if counter = 0 then none
      else if counter - 1 = 0 then some (counters.erase update)
      else some (counters.insert update (counter - 1))

/-- `ChainStateView::mark_messages_as_received`: whether anything was received, and the
chain; `none` is a panic. -/
def markMessagesAsReceived (chain : ChainStateView C A Nm)
    (target : Target C (ChannelFullName A Nm)) (height : Nat) :
    Option (Bool × ChainStateView C A Nm) :=
  let received := (chain.outbox target).markMessagesAsReceived height
  if received.1.isEmpty then some (false, { chain with outboxes := chain.outboxes.insert target received.2 })
  else do
    let outboxCounters ← received.1.foldlM decrementCounter chain.outboxCounters
    let outboxes := if received.2.queue.isEmpty then chain.outboxes.erase target
      else chain.outboxes.insert target received.2
    pure (true, { chain with outboxes, outboxCounters })

/-- `ChainStateView::all_messages_delivered_up_to`: the least counted height is above. -/
def allMessagesDeliveredUpTo (chain : ChainStateView C A Nm) (height : Nat) : Bool :=
  match chain.outboxCounters.entries.head? with
  | some entry => decide (height < entry.1)
  | none => true

/-- The number of outboxes whose queue holds the height. -/
def queuesHolding (chain : ChainStateView C A Nm) (height : Nat) : Nat :=
  chain.outboxes.entries.countP fun entry => decide (height ∈ entry.2.queue)

/-- What `outbox_counters` holds for a number of queues: nothing for none. -/
def counterOf (count : Nat) : Option Nat := if count = 0 then none else some count

theorem countP_entries_kerase {β : Target C (ChannelFullName A Nm) → Type}
    (s : AList β) (target : Target C (ChannelFullName A Nm)) (p : Sigma β → Bool) :
    s.entries.countP p = (s.entries.kerase target).countP p +
      match s.lookup target with
      | some b => if p ⟨target, b⟩ then 1 else 0
      | none => 0 := by
  rcases found : s.lookup target with _ | b
  · have absent : target ∉ s.entries.keys := by
      rw [← AList.keys, ← AList.mem_keys, ← AList.lookup_isSome, found]
      simp
    rw [List.kerase_of_notMem_keys absent]
    rfl
  · have present : target ∈ s.entries.keys := by
      rw [← AList.keys, ← AList.mem_keys, ← AList.lookup_isSome, found]
      rfl
    obtain ⟨b', front, back, -, split, erased⟩ := List.exists_of_kerase present
    have same : b' = b := by
      have mem : (⟨target, b'⟩ : Sigma β) ∈ s.entries := by
        rw [split]
        exact List.mem_append_right _ List.mem_cons_self
      exact Option.some.inj ((AList.mem_lookup_iff.mpr mem).symm.trans found)
    subst same
    rw [erased, split, List.countP_append, List.countP_append, List.countP_cons]
    by_cases holds : p ⟨target, b'⟩ = true
    · simp only [holds, if_true]
      omega
    · simp only [holds, Bool.false_eq_true, if_false]
      omega

theorem queuesHolding_insert (chain : ChainStateView C A Nm)
    (target : Target C (ChannelFullName A Nm)) (outbox : OutboxStateView)
    (counters : OrdMap Nat Nat) (height : Nat) :
    queuesHolding ⟨chain.outboxes.insert target outbox, counters, chain.channels⟩ height +
        (if height ∈ (chain.outbox target).queue then 1 else 0) =
      queuesHolding chain height + (if height ∈ outbox.queue then 1 else 0) := by
  have split := countP_entries_kerase chain.outboxes target
    (fun entry => decide (height ∈ entry.2.queue))
  unfold queuesHolding ChainStateView.outbox
  rw [AList.entries_insert, List.countP_cons, split]
  rcases chain.outboxes.lookup target with _ | old
  · simp [OutboxStateView.empty]
  · simp only [decide_eq_true_eq, Option.getD_some]
    split_ifs <;> omega

theorem queuesHolding_erase (chain : ChainStateView C A Nm)
    (target : Target C (ChannelFullName A Nm)) (counters : OrdMap Nat Nat) (height : Nat) :
    queuesHolding ⟨chain.outboxes.erase target, counters, chain.channels⟩ height +
        (if height ∈ (chain.outbox target).queue then 1 else 0) =
      queuesHolding chain height := by
  have split := countP_entries_kerase chain.outboxes target
    (fun entry => decide (height ∈ entry.2.queue))
  unfold queuesHolding ChainStateView.outbox
  rw [split]
  rcases chain.outboxes.lookup target with _ | old <;> simp [AList.erase, OutboxStateView.empty]

theorem getD_counterOf (count : Nat) : (counterOf count).getD 0 = count := by
  unfold counterOf
  split_ifs with zero
  · exact zero.symm
  · rfl

/-- Every queue increases below its next height, and the counter of each height is the
number of queues that hold it. -/
structure CountersInvariant (chain : ChainStateView C A Nm) : Prop where
  ordered : ∀ target outbox, chain.outboxes.lookup target = some outbox → outbox.Ordered
  counted : ∀ height, chain.outboxCounters.get height = counterOf (chain.queuesHolding height)

theorem countersInvariant_empty : (empty : ChainStateView C A Nm).CountersInvariant where
  ordered target outbox found := by simp [empty] at found
  counted height := by simp [empty, queuesHolding, counterOf]

theorem CountersInvariant.outbox_ordered {chain : ChainStateView C A Nm}
    (invariant : chain.CountersInvariant) (target : Target C (ChannelFullName A Nm)) :
    (chain.outbox target).Ordered := by
  unfold ChainStateView.outbox
  rcases found : chain.outboxes.lookup target with _ | outbox
  · exact OutboxStateView.ordered_empty
  · exact invariant.ordered target outbox found

theorem CountersInvariant.of_eq {chain next : ChainStateView C A Nm}
    (invariant : chain.CountersInvariant) (outboxes : next.outboxes = chain.outboxes)
    (counters : next.outboxCounters = chain.outboxCounters) : next.CountersInvariant where
  ordered target outbox found := invariant.ordered target outbox (outboxes ▸ found)
  counted height := by
    rw [counters, invariant.counted]
    unfold queuesHolding
    rw [outboxes]

theorem ordered_insert {chain : ChainStateView C A Nm} (invariant : chain.CountersInvariant)
    {target : Target C (ChannelFullName A Nm)} {outbox : OutboxStateView} (ordered : outbox.Ordered) :
    ∀ other found, (chain.outboxes.insert target outbox).lookup other = some found → found.Ordered := by
  intro other found present
  by_cases hit : other = target
  · subst hit
    rw [AList.lookup_insert, Option.some.injEq] at present
    exact present ▸ ordered
  · rw [AList.lookup_insert_ne hit] at present
    exact invariant.ordered other found present

/-- Scheduling a height in one outbox keeps the invariant: the counter of the height goes
up exactly when the height joins the queue. -/
theorem CountersInvariant.scheduleTarget {chain next : ChainStateView C A Nm}
    (invariant : chain.CountersInvariant) {entry : Target C (ChannelFullName A Nm) × Nat}
    (scheduled : chain.scheduleTarget entry = .ok next) : next.CountersInvariant := by
  unfold ChainStateView.scheduleTarget at scheduled
  rcases result : (chain.outbox entry.1).scheduleMessage entry.2 with error | ⟨changed, outbox⟩ <;>
    rw [result] at scheduled
  · cases scheduled
  obtain rfl := Except.ok.inj scheduled
  obtain ⟨ordered, same, added⟩ :=
    OutboxStateView.scheduleMessage_eq_ok (invariant.outbox_ordered entry.1) result
  refine ⟨ordered_insert invariant ordered, fun height => ?_⟩
  have holding := queuesHolding_insert chain entry.1 outbox
    (if changed then chain.outboxCounters.insert entry.2
      ((chain.outboxCounters.get entry.2).getD 0 + 1) else chain.outboxCounters) height
  cases changed with
  | false =>
      -- The outbox is written back as it was.
      have unchanged := same rfl
      subst unchanged
      simp only [Bool.false_eq_true, if_false] at holding ⊢
      rw [invariant.counted height]
      congr 1
      omega
  | true =>
      obtain ⟨fresh, queueEq⟩ := added rfl
      have current : (chain.outboxCounters.get entry.2).getD 0 = chain.queuesHolding entry.2 := by
        rw [invariant.counted, getD_counterOf]
      rw [queueEq] at holding
      simp only [if_true, OrdMap.get_insert] at holding ⊢
      rw [current] at holding ⊢
      by_cases queued : height = entry.2
      · subst queued
        simp only [fresh, if_false, List.mem_append, List.mem_singleton, or_true, if_true]
          at holding
        rw [if_pos rfl]
        unfold counterOf
        rw [if_neg (by omega)]
        congr 1
        omega
      · rw [if_neg queued, invariant.counted height]
        simp only [List.mem_append, List.mem_singleton, queued, or_false] at holding
        congr 1
        omega

theorem CountersInvariant.foldlM_scheduleTarget (entries : List (Target C (ChannelFullName A Nm) × Nat))
    {chain next : ChainStateView C A Nm} (invariant : chain.CountersInvariant)
    (scheduled : entries.foldlM ChainStateView.scheduleTarget chain = .ok next) :
    next.CountersInvariant := by
  induction entries generalizing chain with
  | nil => exact Except.ok.inj scheduled ▸ invariant
  | cons entry rest ih =>
      rw [List.foldlM_cons] at scheduled
      obtain ⟨middle, first, later⟩ := (Except.bind_eq_ok_iff _ _ _).mp scheduled
      exact ih (invariant.scheduleTarget first) later

theorem unsubscribe_eq_ok {chain next : ChainStateView C A Nm} {applicationId : A}
    {entries : List (Nm × C)} (unsubscribed : chain.unsubscribe applicationId entries = .ok next) :
    next.outboxes = chain.outboxes ∧ next.outboxCounters = chain.outboxCounters := by
  unfold ChainStateView.unsubscribe at unsubscribed
  obtain ⟨channels, -, answered⟩ := (Except.bind_eq_ok_iff _ _ _).mp unsubscribed
  obtain rfl := Except.ok.inj answered
  exact ⟨rfl, rfl⟩

theorem broadcast_eq_ok {chain next : ChainStateView C A Nm} {applicationId : A} {height : Nat}
    {names : List Nm} {targets : List (Target C (ChannelFullName A Nm))}
    (broadcast : chain.broadcast applicationId height names = .ok (next, targets)) :
    next.outboxes = chain.outboxes ∧ next.outboxCounters = chain.outboxCounters := by
  unfold ChainStateView.broadcast at broadcast
  obtain ⟨channels, -, answered⟩ := (Except.bind_eq_ok_iff _ _ _).mp broadcast
  obtain ⟨rfl, -⟩ := Prod.mk.inj (Except.ok.inj answered)
  exact ⟨rfl, rfl⟩

theorem subscribe_eq_ok {chain next : ChainStateView C A Nm} {applicationId : A}
    {entries : List (Nm × C)} {scheduled : List (Target C (ChannelFullName A Nm) × Nat)}
    (subscribed : chain.subscribe applicationId entries = .ok (next, scheduled)) :
    next.outboxes = chain.outboxes ∧ next.outboxCounters = chain.outboxCounters := by
  unfold ChainStateView.subscribe at subscribed
  obtain ⟨channels, -, answered⟩ := (Except.bind_eq_ok_iff _ _ _).mp subscribed
  obtain ⟨rfl, -⟩ := Prod.mk.inj (Except.ok.inj answered)
  exact ⟨rfl, rfl⟩

theorem CountersInvariant.processRawExecutionResult {E M O : Type}
    {chain next : ChainStateView C A Nm} (invariant : chain.CountersInvariant) {applicationId : A}
    {lift : E → M} {messages sent : List (OutgoingMessage C Nm M O)} {height : Nat}
    {rawResult : RawExecutionResult C Nm E O}
    (processed : chain.processRawExecutionResult applicationId lift messages height rawResult =
      .ok (next, sent)) : next.CountersInvariant := by
  unfold ChainStateView.processRawExecutionResult at processed
  obtain ⟨direct, directEq, processed⟩ := (Except.bind_eq_ok_iff _ _ _).mp processed
  obtain ⟨unsubscribed, unsubscribedEq, processed⟩ := (Except.bind_eq_ok_iff _ _ _).mp processed
  obtain ⟨⟨broadcast, targets⟩, broadcastEq, processed⟩ :=
    (Except.bind_eq_ok_iff _ _ _).mp processed
  obtain ⟨subscribers, subscribersEq, processed⟩ := (Except.bind_eq_ok_iff _ _ _).mp processed
  obtain ⟨⟨subscribed, added⟩, subscribedEq, processed⟩ :=
    (Except.bind_eq_ok_iff _ _ _).mp processed
  obtain ⟨final, finalEq, answered⟩ := (Except.bind_eq_ok_iff _ _ _).mp processed
  obtain ⟨rfl, -⟩ := Prod.mk.inj (Except.ok.inj answered)
  -- The three rounds of scheduling, with the channel steps between them.
  have afterDirect := invariant.foldlM_scheduleTarget _ directEq
  obtain ⟨outboxes, counters⟩ := unsubscribe_eq_ok unsubscribedEq
  have afterUnsubscribe := afterDirect.of_eq outboxes counters
  obtain ⟨outboxes, counters⟩ := broadcast_eq_ok broadcastEq
  have afterBroadcast := (afterUnsubscribe.of_eq outboxes counters).foldlM_scheduleTarget _
    subscribersEq
  obtain ⟨outboxes, counters⟩ := subscribe_eq_ok subscribedEq
  exact (afterBroadcast.of_eq outboxes counters).foldlM_scheduleTarget _ finalEq

theorem processRawExecutionResult_messages {E M O : Type} {chain next : ChainStateView C A Nm}
    {applicationId : A} {lift : E → M} {messages sent : List (OutgoingMessage C Nm M O)}
    {height : Nat} {rawResult : RawExecutionResult C Nm E O}
    (processed : chain.processRawExecutionResult applicationId lift messages height rawResult =
      .ok (next, sent)) :
    sent = messages ++ rawResult.messages.map fun message =>
      ⟨message.destination, if message.authenticated then rawResult.authenticatedSigner else none,
        message.isSkippable, lift message.message⟩ := by
  unfold ChainStateView.processRawExecutionResult at processed
  obtain ⟨_, -, processed⟩ := (Except.bind_eq_ok_iff _ _ _).mp processed
  obtain ⟨_, -, processed⟩ := (Except.bind_eq_ok_iff _ _ _).mp processed
  obtain ⟨⟨_, _⟩, -, processed⟩ := (Except.bind_eq_ok_iff _ _ _).mp processed
  obtain ⟨_, -, processed⟩ := (Except.bind_eq_ok_iff _ _ _).mp processed
  obtain ⟨⟨_, _⟩, -, processed⟩ := (Except.bind_eq_ok_iff _ _ _).mp processed
  obtain ⟨_, -, answered⟩ := (Except.bind_eq_ok_iff _ _ _).mp processed
  exact (Prod.mk.inj (Except.ok.inj answered)).2.symm

theorem decrementCounter_eq {counters : OrdMap Nat Nat} {update count : Nat}
    (counted : counters.get update = counterOf count) (positive : 0 < count) :
    ∃ next, decrementCounter counters update = some next ∧
      ∀ height, next.get height =
        if height = update then counterOf (count - 1) else counters.get height := by
  have present : counters.get update = some count := by
    rw [counted, counterOf, if_neg (by omega)]
  unfold decrementCounter
  rw [present]
  dsimp only
  rw [if_neg (by omega)]
  split_ifs with last
  · exact ⟨_, rfl, fun height => by rw [OrdMap.get_erase, counterOf, if_pos last]⟩
  · exact ⟨_, rfl, fun height => by rw [OrdMap.get_insert, counterOf, if_neg last]⟩

theorem foldlM_decrementCounter (updates : List Nat) (distinct : updates.Nodup)
    (counts : Nat → Nat) {counters : OrdMap Nat Nat}
    (counted : ∀ height, counters.get height = counterOf (counts height))
    (positive : ∀ update ∈ updates, 0 < counts update) :
    ∃ next, updates.foldlM decrementCounter counters = some next ∧
      ∀ height, next.get height = counterOf (counts height - if height ∈ updates then 1 else 0) := by
  induction updates generalizing counts counters with
  | nil => exact ⟨counters, rfl, fun height => by simpa using counted height⟩
  | cons update rest ih =>
      obtain ⟨fresh, distinct⟩ := List.nodup_cons.mp distinct
      obtain ⟨middle, decremented, middleGet⟩ :=
        decrementCounter_eq (counted update) (positive update List.mem_cons_self)
      -- The counts after the first decrement; the later heights are other heights.
      have middleCounted : ∀ height, middle.get height =
          counterOf (if height = update then counts update - 1 else counts height) := by
        intro height
        rw [middleGet height]
        split_ifs with hit
        · rfl
        · exact counted height
      have laterPositive : ∀ other ∈ rest,
          0 < if other = update then counts update - 1 else counts other := by
        intro other mem
        have different : other ≠ update := fun same => fresh (same ▸ mem)
        rw [if_neg different]
        exact positive other (List.mem_cons_of_mem _ mem)
      obtain ⟨next, folded, nextGet⟩ := ih distinct _ middleCounted laterPositive
      refine ⟨next, by rw [List.foldlM_cons, decremented]; exact folded, fun height => ?_⟩
      rw [nextGet]
      by_cases hit : height = update
      · subst hit
        simp [fresh]
      · simp [hit]

theorem ite_mem_append {front back : List Nat} (disjoint : ∀ a ∈ front, ∀ b ∈ back, a < b)
    (height : Nat) :
    (if height ∈ front ++ back then 1 else 0) =
      (if height ∈ front then 1 else 0) + (if height ∈ back then 1 else 0) := by
  by_cases inFront : height ∈ front
  · have notBack : height ∉ back := fun inBack => lt_irrefl height (disjoint height inFront height inBack)
    simp [inFront, notBack]
  · simp [inFront]

theorem ordered_erase {chain : ChainStateView C A Nm} (invariant : chain.CountersInvariant)
    (target : Target C (ChannelFullName A Nm)) :
    ∀ other found, (chain.outboxes.erase target).lookup other = some found → found.Ordered := by
  intro other found present
  by_cases hit : other = target
  · subst hit
    rw [AList.lookup_erase] at present
    cases present
  · rw [AList.lookup_erase_ne hit] at present
    exact invariant.ordered other found present

/-- Marking messages as received keeps the invariant, and never reaches either of its
panics: every height it takes off a queue is counted. -/
theorem CountersInvariant.markMessagesAsReceived {chain : ChainStateView C A Nm}
    (invariant : chain.CountersInvariant) (target : Target C (ChannelFullName A Nm))
    (height : Nat) :
    ∃ result, chain.markMessagesAsReceived target height = some result ∧
      result.2.CountersInvariant := by
  have ordered := invariant.outbox_ordered target
  obtain ⟨whole, restOrdered⟩ := OutboxStateView.markMessagesAsReceived_spec ordered height
  rcases received : (chain.outbox target).markMessagesAsReceived height with ⟨updates, rest⟩
  rw [received] at whole restOrdered
  dsimp only at whole restOrdered
  -- The received heights come before the rest of the queue.
  have increasing := ordered.1
  rw [← whole] at increasing
  have disjoint : ∀ a ∈ updates, ∀ b ∈ rest.queue, a < b := (List.pairwise_append.mp increasing).2.2
  have split : ∀ height, (if height ∈ (chain.outbox target).queue then 1 else 0) =
      (if height ∈ updates then 1 else 0) + (if height ∈ rest.queue then 1 else 0) := by
    intro height
    rw [← whole]
    exact ite_mem_append disjoint height
  unfold ChainStateView.markMessagesAsReceived
  simp only [received]
  by_cases none : updates.isEmpty
  · -- Nothing received: the outbox is written back as it was.
    rw [if_pos none]
    refine ⟨_, rfl, ordered_insert invariant restOrdered, fun height => ?_⟩
    have holding := queuesHolding_insert chain target rest chain.outboxCounters height
    rw [List.isEmpty_iff.mp none] at split
    have same := split height
    simp only [List.not_mem_nil, if_false, zero_add] at same
    rw [invariant.counted height]
    dsimp only
    congr 1
    omega
  · rw [if_neg none]
    -- Every received height is in this queue, hence counted.
    have positive : ∀ update ∈ updates, 0 < chain.queuesHolding update := by
      intro update mem
      have erased := queuesHolding_erase chain target chain.outboxCounters update
      have held := split update
      rw [if_pos mem] at held
      omega
    have distinct : updates.Nodup := (List.pairwise_append.mp increasing).1.nodup
    obtain ⟨counters, folded, countersGet⟩ :=
      foldlM_decrementCounter updates distinct _ invariant.counted positive
    rw [folded]
    refine ⟨_, rfl, ?_⟩
    split_ifs with emptied
    · -- The queue is emptied: the outbox is removed.
      refine ⟨ordered_erase invariant target, fun height => ?_⟩
      have erased := queuesHolding_erase chain target counters height
      have same := split height
      rw [List.isEmpty_iff.mp emptied] at same
      simp only [List.not_mem_nil, if_false, add_zero] at same
      dsimp only
      rw [countersGet height]
      congr 1
      omega
    · refine ⟨ordered_insert invariant restOrdered, fun height => ?_⟩
      have holding := queuesHolding_insert chain target rest counters height
      have same := split height
      dsimp only
      rw [countersGet height]
      congr 1
      omega

theorem allMessagesDeliveredUpTo_iff (chain : ChainStateView C A Nm) (height : Nat) :
    chain.allMessagesDeliveredUpTo height = true ↔
      ∀ counted, (chain.outboxCounters.get counted).isSome → height < counted := by
  unfold allMessagesDeliveredUpTo
  rcases head : chain.outboxCounters.entries.head? with _ | first
  · -- No counter at all.
    have empty : chain.outboxCounters.entries = [] := List.head?_eq_none_iff.mp head
    simp [OrdMap.get, empty]
  · simp only [decide_eq_true_eq]
    constructor
    · intro below counted present
      exact lt_of_lt_of_le below (OrdMap.le_of_head?_eq_some head present)
    · intro above
      have mem : first ∈ chain.outboxCounters.entries := List.mem_of_mem_head? head
      apply above first.1
      rw [(OrdMap.mem_entries_iff _ first.1 first.2).mp mem]
      rfl

theorem queuesHolding_pos_iff (chain : ChainStateView C A Nm) (height : Nat) :
    0 < chain.queuesHolding height ↔
      ∃ target outbox, chain.outboxes.lookup target = some outbox ∧ height ∈ outbox.queue := by
  unfold queuesHolding
  rw [List.countP_pos_iff]
  constructor
  · rintro ⟨⟨target, outbox⟩, mem, holds⟩
    exact ⟨target, outbox, AList.mem_lookup_iff.mpr mem, of_decide_eq_true holds⟩
  · rintro ⟨target, outbox, found, holds⟩
    exact ⟨⟨target, outbox⟩, AList.mem_lookup_iff.mp found, decide_eq_true holds⟩

theorem CountersInvariant.isSome_get_iff {chain : ChainStateView C A Nm}
    (invariant : chain.CountersInvariant) (height : Nat) :
    (chain.outboxCounters.get height).isSome ↔
      ∃ target outbox, chain.outboxes.lookup target = some outbox ∧ height ∈ outbox.queue := by
  rw [invariant.counted height, ← queuesHolding_pos_iff, counterOf]
  split_ifs with zero
  · simp [zero]
  · simp only [Option.isSome_some, true_iff]
    omega

theorem CountersInvariant.allMessagesDeliveredUpTo_iff {chain : ChainStateView C A Nm}
    (invariant : chain.CountersInvariant) (height : Nat) :
    chain.allMessagesDeliveredUpTo height = true ↔
      ∀ target outbox, chain.outboxes.lookup target = some outbox →
        ∀ queued ∈ outbox.queue, height < queued := by
  rw [ChainStateView.allMessagesDeliveredUpTo_iff]
  constructor
  · intro above target outbox found queued holds
    exact above queued ((invariant.isSome_get_iff queued).mpr ⟨target, outbox, found, holds⟩)
  · intro above counted present
    obtain ⟨target, outbox, found, holds⟩ := (invariant.isSome_get_iff counted).mp present
    exact above target outbox found counted holds

end ChainStateView

/-- The calls that change the outboxes: `process_raw_execution_result`, from
`execute_block`, and `mark_messages_as_received`. -/
inductive OutboxCall (C A Nm E M O : Type) where
  | processRawExecutionResult (applicationId : A) (lift : E → M)
      (messages : List (OutgoingMessage C Nm M O)) (height : Nat)
      (rawResult : RawExecutionResult C Nm E O)
  | markMessagesAsReceived (target : Target C (ChannelFullName A Nm)) (height : Nat)

variable {C A Nm E M O : Type} [LinearOrder C] [DecidableEq A] [DecidableEq Nm]

/-- One call on the chain; `none` is a panic. A failed `process_raw_execution_result`
fails its block, and the worker drops the chain state without saving it. -/
def OutboxCall.apply (chain : ChainStateView C A Nm) :
    OutboxCall C A Nm E M O → Option (ChainStateView C A Nm)
  | .processRawExecutionResult applicationId lift messages height rawResult =>
      match chain.processRawExecutionResult applicationId lift messages height rawResult with
      | .ok (next, _) => some next
      | .error _ => some chain
  | .markMessagesAsReceived target height => (chain.markMessagesAsReceived target height).map (·.2)

def OutboxCall.run (chain : ChainStateView C A Nm) (calls : List (OutboxCall C A Nm E M O)) :
    Option (ChainStateView C A Nm) :=
  calls.foldlM OutboxCall.apply chain

theorem ChainStateView.CountersInvariant.apply {chain : ChainStateView C A Nm}
    (invariant : chain.CountersInvariant) (call : OutboxCall C A Nm E M O) :
    ∃ next, OutboxCall.apply chain call = some next ∧ next.CountersInvariant := by
  cases call with
  | processRawExecutionResult applicationId lift messages height rawResult =>
      rcases processed : chain.processRawExecutionResult applicationId lift messages height rawResult
        with error | ⟨next, sent⟩
      · -- The block fails: the chain is left as it was.
        exact ⟨chain, by rw [OutboxCall.apply, processed], invariant⟩
      · exact ⟨next, by rw [OutboxCall.apply, processed], invariant.processRawExecutionResult processed⟩
  | markMessagesAsReceived target height =>
      obtain ⟨result, marked, kept⟩ := invariant.markMessagesAsReceived target height
      exact ⟨result.2, by rw [OutboxCall.apply, marked]; rfl, kept⟩

/-- Every run keeps the invariant, and none panics. -/
theorem ChainStateView.CountersInvariant.run {chain : ChainStateView C A Nm}
    (invariant : chain.CountersInvariant) (calls : List (OutboxCall C A Nm E M O)) :
    ∃ next, OutboxCall.run chain calls = some next ∧ next.CountersInvariant := by
  induction calls generalizing chain with
  | nil => exact ⟨chain, rfl, invariant⟩
  | cons call rest ih =>
      obtain ⟨middle, applied, kept⟩ := invariant.apply call
      obtain ⟨next, ran, final⟩ := ih kept
      refine ⟨next, ?_, final⟩
      rw [OutboxCall.run, List.foldlM_cons, applied]
      exact ran

/-- From empty outboxes, every run of calls at any heights never panics, and ends with
every height counted exactly when some queue holds it, by the number of queues that
hold it; with every queue increasing below its next height; and with the messages
delivered up to a height exactly when no queue holds a height at or below it. -/
theorem outbox_counters_consistent (calls : List (OutboxCall C A Nm E M O)) :
    ∃ chain, OutboxCall.run ChainStateView.empty calls = some chain ∧
      (∀ height,
        ((chain.outboxCounters.get height).isSome ↔
          ∃ target outbox, chain.outboxes.lookup target = some outbox ∧ height ∈ outbox.queue) ∧
        ∀ count, chain.outboxCounters.get height = some count →
          count = chain.queuesHolding height) ∧
      (∀ target outbox, chain.outboxes.lookup target = some outbox →
        outbox.queue.Pairwise (· < ·) ∧ ∀ queued ∈ outbox.queue, queued < outbox.nextHeightToSchedule) ∧
      ∀ height, chain.allMessagesDeliveredUpTo height = true ↔
        ∀ target outbox, chain.outboxes.lookup target = some outbox →
          ∀ queued ∈ outbox.queue, height < queued := by
  obtain ⟨chain, ran, invariant⟩ := ChainStateView.countersInvariant_empty.run calls
  refine ⟨chain, ran, fun height => ⟨invariant.isSome_get_iff height, fun count found => ?_⟩,
    invariant.ordered, invariant.allMessagesDeliveredUpTo_iff⟩
  rw [invariant.counted height, ChainStateView.counterOf] at found
  split_ifs at found
  exact (Option.some.inj found).symm

end Linera.Chain.Outbox
