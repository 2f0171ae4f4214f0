import Mathlib
import Linera.Lib.Except

set_option autoImplicit false

/-! The inbox of a chain for one origin (`linera-chain/src/inbox.rs`).

Events arrive from the sender (`add_event`) and are consumed by blocks
(`remove_event`), each side in increasing cursor order. A block may consume an event
before it arrives: it is then kept in `removed_events` until the same event is added.
An added event may be skipped when it is skippable. The invariant `Reconciled` says how
the two queues and the two cursors follow from the whole history of successful calls,
and `Reconciled.runCalls` proves it over every run from the empty inbox. -/

namespace Linera.Chain

/-- `Cursor`: a block height and the index of a message in it, ordered by height first
as the derived `Ord` does. -/
structure Cursor where
  height : Nat
  index : Nat
  deriving DecidableEq, Repr

namespace Cursor

/-- The order of `Cursor`, as a lexicographic pair. -/
def toLex (cursor : Cursor) : Lex (Nat × Nat) := (cursor.height, cursor.index)

theorem toLex_injective : Function.Injective toLex := by
  rintro ⟨height, index⟩ ⟨height', index'⟩ same
  cases same
  rfl

instance : LinearOrder Cursor := LinearOrder.lift' toLex toLex_injective

theorem lt_iff {cursor cursor' : Cursor} :
    cursor < cursor' ↔ cursor.height < cursor'.height ∨
      cursor.height = cursor'.height ∧ cursor.index < cursor'.index :=
  Prod.Lex.toLex_lt_toLex

theorem le_iff {cursor cursor' : Cursor} :
    cursor ≤ cursor' ↔ cursor.height < cursor'.height ∨
      cursor.height = cursor'.height ∧ cursor.index ≤ cursor'.index :=
  Prod.Lex.toLex_le_toLex

def zero : Cursor := ⟨0, 0⟩

theorem zero_le (cursor : Cursor) : zero ≤ cursor := by
  rw [le_iff]
  simp only [zero]
  omega

inductive ArithmeticError where
  | overflow
  deriving DecidableEq, Repr

/-- `Cursor::try_add_one`: the next index, which must fit in a `u32`. -/
def tryAddOne (cursor : Cursor) : Except ArithmeticError Cursor :=
  if cursor.index + 1 < 2 ^ 32 then .ok ⟨cursor.height, cursor.index + 1⟩ else .error .overflow

theorem le_iff_lt_of_tryAddOne {cursor next : Cursor} (added : cursor.tryAddOne = .ok next)
    (other : Cursor) : next ≤ other ↔ cursor < other := by
  unfold tryAddOne at added
  split at added
  · cases added
    rw [le_iff, lt_iff]
    simp only
    omega
  · cases added

theorem lt_of_tryAddOne {cursor next : Cursor} (added : cursor.tryAddOne = .ok next) :
    cursor < next :=
  (le_iff_lt_of_tryAddOne added next).mp le_rfl

end Cursor

/-- `Event`, with the fields other than the cursor and `is_skippable` (certificate hash,
signer, timestamp and message) gathered in a payload that is only compared. -/
structure Event (M : Type) where
  height : Nat
  index : Nat
  isSkippable : Bool
  payload : M
  deriving DecidableEq, Repr

def Event.cursor {M : Type} (event : Event M) : Cursor := ⟨event.height, event.index⟩

/-- `InboxError`, without the storage errors of the view. -/
inductive InboxError (M : Type) where
  | arithmeticError (error : Cursor.ArithmeticError)
  | unexpectedEvent (event previousEvent : Event M)
  | incorrectOrder (event : Event M) (nextCursor : Cursor)
  | unskippableEvent (event : Event M)
  deriving DecidableEq, Repr

structure InboxStateView (M : Type) where
  /-- All the events below this cursor have been added. -/
  nextCursorToAdd : Cursor
  /-- All the events below this cursor have been removed. -/
  nextCursorToRemove : Cursor
  /-- Added events waiting to be removed. -/
  addedEvents : List (Event M)
  /-- Events removed by anticipation, waiting to be added. -/
  removedEvents : List (Event M)
  deriving DecidableEq, Repr

namespace InboxStateView

variable {M : Type}

/-- A new inbox. -/
def empty : InboxStateView M := ⟨Cursor.zero, Cursor.zero, [], []⟩

/-- The loop of `remove_event` that discards the added events below the cursor, each
of which must be skippable. -/
def discardBelow (cursor : Cursor) : List (Event M) → Except (InboxError M) (List (Event M))
  | [] => .ok []
  | previousEvent :: rest =>
      if previousEvent.cursor ≥ cursor then .ok (previousEvent :: rest)
      else if previousEvent.isSkippable then discardBelow cursor rest
      else .error (.unskippableEvent previousEvent)

def removeEvent [DecidableEq M] (inbox : InboxStateView M) (event : Event M) :
    Except (InboxError M) (InboxStateView M) := do
  let cursor := event.cursor
  if ¬ cursor ≥ inbox.nextCursorToRemove then
    throw (.incorrectOrder event inbox.nextCursorToRemove)
  let remaining ← discardBelow cursor inbox.addedEvents
  -- Reconcile the event with the next added event, or mark it as removed.
  let (addedEvents, removedEvents) ←
    match remaining with
    | previousEvent :: rest =>
        if event = previousEvent then pure (rest, inbox.removedEvents)
        else throw (.unexpectedEvent event previousEvent)
    | [] => pure ([], inbox.removedEvents ++ [event])
  let nextCursorToRemove ← cursor.tryAddOne.mapError .arithmeticError
  pure { inbox with nextCursorToRemove, addedEvents, removedEvents }

def addEvent [DecidableEq M] (inbox : InboxStateView M) (event : Event M) :
    Except (InboxError M) (InboxStateView M) := do
  let cursor := event.cursor
  if ¬ cursor ≥ inbox.nextCursorToAdd then
    throw (.incorrectOrder event inbox.nextCursorToAdd)
  -- Find if the message was removed ahead of time.
  let (addedEvents, removedEvents) ←
    match inbox.removedEvents with
    | previousEvent :: rest =>
        if previousEvent.cursor = cursor then
          if event = previousEvent then pure (inbox.addedEvents, rest)
          else throw (.unexpectedEvent event previousEvent)
        else if cursor < previousEvent.cursor ∧ event.isSkippable then
          pure (inbox.addedEvents, inbox.removedEvents)
        else throw (.unexpectedEvent event previousEvent)
    | [] => pure (inbox.addedEvents ++ [event], [])
  let nextCursorToAdd ← cursor.tryAddOne.mapError .arithmeticError
  pure { inbox with nextCursorToAdd, addedEvents, removedEvents }

theorem discardBelow_eq_ok {cursor : Cursor} {events remaining : List (Event M)}
    (discarded : discardBelow cursor events = .ok remaining) :
    ∃ skipped, events = skipped ++ remaining ∧
      (∀ skippedEvent ∈ skipped, skippedEvent.cursor < cursor ∧ skippedEvent.isSkippable = true) ∧
      ∀ first ∈ remaining.head?, cursor ≤ first.cursor := by
  induction events with
  | nil =>
      cases discarded
      exact ⟨[], rfl, by simp, by simp⟩
  | cons previousEvent rest ih =>
      unfold discardBelow at discarded
      by_cases above : previousEvent.cursor ≥ cursor
      · rw [if_pos above] at discarded
        cases discarded
        exact ⟨[], rfl, by simp, by simpa using above⟩
      · rw [if_neg above] at discarded
        by_cases skippable : previousEvent.isSkippable = true
        · rw [if_pos skippable] at discarded
          obtain ⟨skipped, split, below, first⟩ := ih discarded
          refine ⟨previousEvent :: skipped, by rw [split]; rfl, ?_, first⟩
          intro skippedEvent mem
          rcases List.mem_cons.mp mem with rfl | later
          · exact ⟨lt_of_not_ge above, skippable⟩
          · exact below skippedEvent later
        · rw [if_neg skippable] at discarded
          cases discarded

/-- What a successful `remove_event` does: it discards skippable added events below the
event, then either consumes the next added event, which is the event itself, or marks
the event as removed when no added event is left. -/
theorem removeEvent_eq_ok [DecidableEq M] {inbox next : InboxStateView M} {event : Event M}
    (removed : inbox.removeEvent event = .ok next) :
    inbox.nextCursorToRemove ≤ event.cursor ∧
      event.cursor.tryAddOne = .ok next.nextCursorToRemove ∧
      next.nextCursorToAdd = inbox.nextCursorToAdd ∧
      ∃ skipped, (∀ skippedEvent ∈ skipped,
          skippedEvent.cursor < event.cursor ∧ skippedEvent.isSkippable = true) ∧
        ((inbox.addedEvents = skipped ∧ next.addedEvents = [] ∧
            next.removedEvents = inbox.removedEvents ++ [event]) ∨
          (inbox.addedEvents = skipped ++ event :: next.addedEvents ∧
            next.removedEvents = inbox.removedEvents)) := by
  unfold removeEvent at removed
  by_cases order : event.cursor ≥ inbox.nextCursorToRemove
  · simp only [order, not_true_eq_false, if_false] at removed
    cases discarded : discardBelow event.cursor inbox.addedEvents with
    | error fault => simp [discarded] at removed
    | ok remaining =>
        obtain ⟨skipped, split, below, -⟩ := discardBelow_eq_ok discarded
        rw [discarded, Except.ok_bind] at removed
        cases remaining with
        | nil =>
            cases added : event.cursor.tryAddOne with
            | error fault => simp [added] at removed
            | ok nextCursor =>
                simp only [added] at removed
                cases removed
                exact ⟨order, rfl, rfl, skipped, below, Or.inl ⟨by simpa using split, rfl, rfl⟩⟩
        | cons previousEvent rest =>
            by_cases same : event = previousEvent
            · subst same
              cases added : event.cursor.tryAddOne with
              | error fault => simp [added] at removed
              | ok nextCursor =>
                  simp only [added, if_true] at removed
                  cases removed
                  exact ⟨order, rfl, rfl, skipped, below, Or.inr ⟨split, rfl⟩⟩
            · simp [same] at removed
  · simp [order] at removed

/-- What a successful `add_event` does: with no event removed by anticipation it queues
the event; otherwise the event either is the first event removed by anticipation, or
comes before it and is skippable. -/
theorem addEvent_eq_ok [DecidableEq M] {inbox next : InboxStateView M} {event : Event M}
    (added : inbox.addEvent event = .ok next) :
    inbox.nextCursorToAdd ≤ event.cursor ∧
      event.cursor.tryAddOne = .ok next.nextCursorToAdd ∧
      next.nextCursorToRemove = inbox.nextCursorToRemove ∧
      ((inbox.removedEvents = [] ∧ next.addedEvents = inbox.addedEvents ++ [event] ∧
          next.removedEvents = []) ∨
        (inbox.removedEvents = event :: next.removedEvents ∧
          next.addedEvents = inbox.addedEvents) ∨
        (∃ previousEvent ∈ inbox.removedEvents.head?, event.cursor < previousEvent.cursor ∧
          event.isSkippable = true ∧ next.addedEvents = inbox.addedEvents ∧
          next.removedEvents = inbox.removedEvents)) := by
  obtain ⟨nextCursorToAdd, nextCursorToRemove, addedEvents, removedEvents⟩ := inbox
  unfold addEvent at added
  by_cases order : event.cursor ≥ nextCursorToAdd
  · simp only [order, not_true_eq_false, if_false] at added
    cases increased : event.cursor.tryAddOne with
    | error fault =>
        cases removedEvents with
        | nil => simp [increased] at added
        | cons previousEvent rest =>
            dsimp only at added
            split_ifs at added <;> simp [increased] at added
    | ok nextCursor =>
        cases removedEvents with
        | nil =>
            simp only [increased] at added
            cases added
            exact ⟨order, rfl, rfl, Or.inl ⟨rfl, rfl, rfl⟩⟩
        | cons previousEvent rest =>
            dsimp only at added
            split_ifs at added with same_cursor same skip
            · subst same
              simp only [increased] at added
              cases added
              exact ⟨order, rfl, rfl, Or.inr (Or.inl ⟨rfl, rfl⟩)⟩
            · simp at added
            · simp only [increased] at added
              cases added
              exact ⟨order, rfl, rfl, Or.inr (Or.inr ⟨previousEvent, rfl, skip.1, skip.2, rfl, rfl⟩)⟩
            · simp at added
  · simp [order] at added

/-- What the queues and cursors of an inbox say about the events `added` and `removed` by
the successful calls so far. -/
structure Reconciled (inbox : InboxStateView M) (added removed : List (Event M)) : Prop where
  addedIncreasing : added.Pairwise (fun event event' => event.cursor < event'.cursor)
  removedIncreasing : removed.Pairwise (fun event event' => event.cursor < event'.cursor)
  /-- `next_cursor_to_add` is the least cursor above every added event. -/
  addedBelow : ∀ event ∈ added, event.cursor < inbox.nextCursorToAdd
  addedLeast : ∀ cursor, (∀ event ∈ added, event.cursor < cursor) → inbox.nextCursorToAdd ≤ cursor
  /-- `next_cursor_to_remove` is the least cursor above every removed event. -/
  removedBelow : ∀ event ∈ removed, event.cursor < inbox.nextCursorToRemove
  removedLeast : ∀ cursor, (∀ event ∈ removed, event.cursor < cursor) →
    inbox.nextCursorToRemove ≤ cursor
  addedQueue : inbox.addedEvents = added.filter (inbox.nextCursorToRemove ≤ ·.cursor)
  removedQueue : inbox.removedEvents = removed.filter (inbox.nextCursorToAdd ≤ ·.cursor)
  /-- An event removed below `next_cursor_to_add` was added as it is. -/
  matched : ∀ event ∈ removed, event.cursor < inbox.nextCursorToAdd → event ∈ added
  /-- An event added below `next_cursor_to_remove` and never removed was skipped. -/
  skipped : ∀ event ∈ added, event.cursor < inbox.nextCursorToRemove → event ∉ removed →
    event.isSkippable = true

theorem eq_of_cursor_eq {events : List (Event M)}
    (increasing : events.Pairwise (fun event event' => event.cursor < event'.cursor))
    {event event' : Event M} (mem : event ∈ events) (mem' : event' ∈ events)
    (same : event.cursor = event'.cursor) : event = event' := by
  have distinct : (events.map Event.cursor).Nodup :=
    List.pairwise_map.mpr (increasing.imp ne_of_lt)
  exact List.inj_on_of_nodup_map distinct mem mem' same

theorem head_le_of_increasing {first : Event M} {rest : List (Event M)}
    (increasing : (first :: rest).Pairwise (fun event event' => event.cursor < event'.cursor))
    {event : Event M} (mem : event ∈ first :: rest) : first.cursor ≤ event.cursor := by
  rcases List.mem_cons.mp mem with rfl | later
  · exact le_rfl
  · exact le_of_lt (List.rel_of_pairwise_cons increasing later)

theorem reconciled_empty : Reconciled (empty : InboxStateView M) [] [] where
  addedIncreasing := List.Pairwise.nil
  removedIncreasing := List.Pairwise.nil
  addedBelow := by simp
  addedLeast cursor _ := Cursor.zero_le cursor
  removedBelow := by simp
  removedLeast cursor _ := Cursor.zero_le cursor
  addedQueue := rfl
  removedQueue := rfl
  matched := by simp
  skipped := by simp

namespace Reconciled

variable {inbox : InboxStateView M} {added removed : List (Event M)}

theorem mem_of_mem_addedEvents (reconciled : Reconciled inbox added removed) {event : Event M}
    (mem : event ∈ inbox.addedEvents) :
    event ∈ added ∧ inbox.nextCursorToRemove ≤ event.cursor := by
  rw [reconciled.addedQueue, List.mem_filter, decide_eq_true_iff] at mem
  exact mem

theorem mem_of_mem_removedEvents (reconciled : Reconciled inbox added removed)
    {event : Event M} (mem : event ∈ inbox.removedEvents) :
    event ∈ removed ∧ inbox.nextCursorToAdd ≤ event.cursor := by
  rw [reconciled.removedQueue, List.mem_filter, decide_eq_true_iff] at mem
  exact mem

theorem addedEvents_increasing (reconciled : Reconciled inbox added removed) :
    inbox.addedEvents.Pairwise (fun event event' => event.cursor < event'.cursor) := by
  rw [reconciled.addedQueue]
  exact reconciled.addedIncreasing.filter _

theorem removedEvents_increasing (reconciled : Reconciled inbox added removed) :
    inbox.removedEvents.Pairwise (fun event event' => event.cursor < event'.cursor) := by
  rw [reconciled.removedQueue]
  exact reconciled.removedIncreasing.filter _

theorem below_of_removedEvents_eq_nil (reconciled : Reconciled inbox added removed)
    (none_ahead : inbox.removedEvents = []) :
    ∀ event ∈ removed, event.cursor < inbox.nextCursorToAdd := by
  intro event mem
  by_contra above
  have queued : event ∈ inbox.removedEvents := by
    rw [reconciled.removedQueue, List.mem_filter, decide_eq_true_iff]
    exact ⟨mem, not_lt.mp above⟩
  rw [none_ahead] at queued
  exact List.not_mem_nil queued

theorem addedEvents_eq_nil_or_removedEvents_eq_nil (reconciled : Reconciled inbox added removed) :
    inbox.addedEvents = [] ∨ inbox.removedEvents = [] := by
  by_contra both
  rw [not_or] at both
  obtain ⟨event, mem⟩ := List.exists_mem_of_ne_nil _ both.1
  obtain ⟨event', mem'⟩ := List.exists_mem_of_ne_nil _ both.2
  obtain ⟨added_mem, above⟩ := reconciled.mem_of_mem_addedEvents mem
  obtain ⟨removed_mem, above'⟩ := reconciled.mem_of_mem_removedEvents mem'
  -- The added event lies below the removed one, which lies below the added one.
  have cycle : event.cursor < event.cursor :=
    calc event.cursor < inbox.nextCursorToAdd := reconciled.addedBelow event added_mem
      _ ≤ event'.cursor := above'
      _ < inbox.nextCursorToRemove := reconciled.removedBelow event' removed_mem
      _ ≤ event.cursor := above
  exact lt_irrefl _ cycle

theorem nextCursorToRemove_le_of_removedEvents_eq_nil
    (reconciled : Reconciled inbox added removed) (none_ahead : inbox.removedEvents = []) :
    inbox.nextCursorToRemove ≤ inbox.nextCursorToAdd :=
  reconciled.removedLeast _ (reconciled.below_of_removedEvents_eq_nil none_ahead)

theorem removedEvents_eq_nil_iff (reconciled : Reconciled inbox added removed) :
    inbox.removedEvents = [] ↔ ∀ event ∈ removed, event ∈ added := by
  constructor
  · intro none_ahead event mem
    exact reconciled.matched event mem (reconciled.below_of_removedEvents_eq_nil none_ahead event mem)
  · intro all_added
    rw [reconciled.removedQueue, List.filter_eq_nil_iff]
    intro event mem
    simpa using reconciled.addedBelow event (all_added event mem)

theorem filter_addedEvents (reconciled : Reconciled inbox added removed) :
    inbox.addedEvents.filter (inbox.nextCursorToRemove ≤ ·.cursor) = inbox.addedEvents :=
  List.filter_eq_self.mpr fun _ mem => by
    simpa using (reconciled.mem_of_mem_addedEvents mem).2

theorem filter_removedEvents (reconciled : Reconciled inbox added removed) :
    inbox.removedEvents.filter (inbox.nextCursorToAdd ≤ ·.cursor) = inbox.removedEvents :=
  List.filter_eq_self.mpr fun _ mem => by
    simpa using (reconciled.mem_of_mem_removedEvents mem).2

end Reconciled

theorem filter_filter_of_imp {α : Type} {items : List α} {weak strong : α → Bool}
    (imp : ∀ item ∈ items, strong item = true → weak item = true) :
    (items.filter weak).filter strong = items.filter strong := by
  rw [List.filter_filter]
  apply List.filter_congr
  intro item mem
  by_cases kept : strong item = true
  · simp [kept, imp item mem kept]
  · simp [kept]

theorem addEvent_queues [DecidableEq M] {inbox next : InboxStateView M}
    {added removed : List (Event M)} {event : Event M}
    (reconciled : Reconciled inbox added removed) (call : inbox.addEvent event = .ok next) :
    next.addedEvents = (inbox.addedEvents ++ [event]).filter (inbox.nextCursorToRemove ≤ ·.cursor) ∧
      next.removedEvents = inbox.removedEvents.filter (event.cursor < ·.cursor) ∧
      (∀ earlier ∈ inbox.removedEvents, earlier.cursor ≤ event.cursor → earlier = event) ∧
      (event.cursor < inbox.nextCursorToRemove → event ∉ removed → event.isSkippable = true) := by
  obtain ⟨order, -, -, branch⟩ := addEvent_eq_ok call
  rw [List.filter_append, reconciled.filter_addedEvents]
  rcases branch with ⟨none_ahead, queued, cleared⟩ | ⟨matched, kept⟩ |
      ⟨previousEvent, first, before, skippable, kept, kept'⟩
  · -- No event was removed ahead: the event is queued, at or above `next_cursor_to_remove`.
    have above : inbox.nextCursorToRemove ≤ event.cursor :=
      le_trans (reconciled.nextCursorToRemove_le_of_removedEvents_eq_nil none_ahead) order
    refine ⟨by simp [queued, above], by simp [cleared, none_ahead], by simp [none_ahead], ?_⟩
    exact fun below => absurd above (not_le.mpr below)
  · -- The event was removed ahead and is now taken off the removed queue.
    have increasing := reconciled.removedEvents_increasing
    rw [matched] at increasing
    have removed_mem := reconciled.mem_of_mem_removedEvents (matched ▸ List.mem_cons_self)
    have below := reconciled.removedBelow event removed_mem.1
    have later : ∀ other ∈ next.removedEvents, event.cursor < other.cursor :=
      fun other mem => List.rel_of_pairwise_cons increasing mem
    refine ⟨by simp [kept, below], ?_, ?_, fun _ absent => absurd removed_mem.1 absent⟩
    · rw [matched, List.filter_cons_of_neg (by simp)]
      exact (List.filter_eq_self.mpr fun other mem => by simpa using later other mem).symm
    · intro earlier mem not_after
      rw [matched] at mem
      rcases List.mem_cons.mp mem with same | after
      · exact same
      · exact absurd (later earlier after) (not_lt.mpr not_after)
  · -- A later event was removed ahead: the event is skipped.
    have previous_mem := reconciled.mem_of_mem_removedEvents (List.mem_of_mem_head? first)
    have below := lt_trans before (reconciled.removedBelow previousEvent previous_mem.1)
    obtain ⟨rest, queue⟩ := List.head?_eq_some_iff.mp first
    have increasing := reconciled.removedEvents_increasing
    rw [queue] at increasing
    have after : ∀ other ∈ inbox.removedEvents, event.cursor < other.cursor := fun other mem =>
      lt_of_lt_of_le before (head_le_of_increasing increasing (queue ▸ mem))
    refine ⟨by simp [kept, below], ?_, ?_, fun _ _ => skippable⟩
    · rw [kept']
      exact (List.filter_eq_self.mpr fun other mem => by simpa using after other mem).symm
    · exact fun earlier mem not_after => absurd (after earlier mem) (not_lt.mpr not_after)

theorem Reconciled.addEvent [DecidableEq M] {inbox next : InboxStateView M}
    {added removed : List (Event M)} {event : Event M}
    (reconciled : Reconciled inbox added removed) (call : inbox.addEvent event = .ok next) :
    Reconciled next (added ++ [event]) removed := by
  obtain ⟨order, increased, same_remove, -⟩ := addEvent_eq_ok call
  obtain ⟨added_queue, removed_queue, only_event, skippable⟩ := addEvent_queues reconciled call
  have next_le : ∀ cursor, next.nextCursorToAdd ≤ cursor ↔ event.cursor < cursor :=
    Cursor.le_iff_lt_of_tryAddOne increased
  have before : ∀ earlier ∈ added, earlier.cursor < event.cursor := fun earlier mem =>
    lt_of_lt_of_le (reconciled.addedBelow earlier mem) order
  refine
    { addedIncreasing := ?_, removedIncreasing := reconciled.removedIncreasing,
      addedBelow := ?_, addedLeast := ?_, removedBelow := same_remove ▸ reconciled.removedBelow,
      removedLeast := same_remove ▸ reconciled.removedLeast, addedQueue := ?_,
      removedQueue := ?_, matched := ?_, skipped := ?_ }
  · exact List.pairwise_append.mpr ⟨reconciled.addedIncreasing, List.pairwise_singleton _ _,
      fun earlier mem last last_mem => (List.mem_singleton.mp last_mem) ▸ before earlier mem⟩
  · intro earlier mem
    have event_below := Cursor.lt_of_tryAddOne increased
    rcases List.mem_append.mp mem with old | last
    · exact lt_trans (before earlier old) event_below
    · exact (List.mem_singleton.mp last) ▸ event_below
  · exact fun cursor above => (next_le cursor).mpr (above event (by simp))
  · rw [added_queue, same_remove, reconciled.addedQueue, List.filter_append, List.filter_append,
      filter_filter_of_imp (fun _ _ kept => kept)]
  · rw [removed_queue, reconciled.removedQueue, filter_filter_of_imp]
    · exact List.filter_congr fun other _ => by simp [next_le]
    · intro other _ after
      simp only [decide_eq_true_eq] at after ⊢
      exact le_of_lt (lt_of_le_of_lt order after)
  · intro earlier mem below
    by_cases old : earlier.cursor < inbox.nextCursorToAdd
    · exact List.mem_append_left _ (reconciled.matched earlier mem old)
    · -- Still removed ahead: only the event itself has a cursor this low.
      have queued : earlier ∈ inbox.removedEvents := by
        rw [reconciled.removedQueue, List.mem_filter, decide_eq_true_iff]
        exact ⟨mem, not_lt.mp old⟩
      have not_after : earlier.cursor ≤ event.cursor :=
        not_lt.mp fun after => absurd ((next_le _).mpr after) (not_le.mpr below)
      rw [only_event earlier queued not_after]
      exact List.mem_append_right _ List.mem_cons_self
  · intro earlier mem below absent
    rw [same_remove] at below
    rcases List.mem_append.mp mem with old | last
    · exact reconciled.skipped earlier old below absent
    · rw [List.mem_singleton.mp last] at below absent ⊢
      exact skippable below absent

theorem removeEvent_queues [DecidableEq M] {inbox next : InboxStateView M}
    {added removed : List (Event M)} {event : Event M}
    (reconciled : Reconciled inbox added removed) (call : inbox.removeEvent event = .ok next) :
    next.addedEvents = inbox.addedEvents.filter (event.cursor < ·.cursor) ∧
      next.removedEvents =
        (inbox.removedEvents ++ [event]).filter (inbox.nextCursorToAdd ≤ ·.cursor) ∧
      (event.cursor < inbox.nextCursorToAdd → event ∈ added) ∧
      (∀ earlier ∈ inbox.addedEvents, earlier.cursor ≤ event.cursor → earlier ≠ event →
        earlier.isSkippable = true) := by
  obtain ⟨order, -, -, skipped, below, branch⟩ := removeEvent_eq_ok call
  rw [List.filter_append, reconciled.filter_removedEvents]
  have skipped_gone : skipped.filter (event.cursor < ·.cursor) = [] :=
    List.filter_eq_nil_iff.mpr fun earlier mem => by simpa using le_of_lt (below earlier mem).1
  rcases branch with ⟨all_skipped, cleared, pushed⟩ | ⟨split, kept⟩
  · -- Every added event was below the event: it is marked as removed ahead.
    have before : ∀ earlier ∈ added, earlier.cursor < event.cursor := by
      intro earlier mem
      by_cases old : earlier.cursor < inbox.nextCursorToRemove
      · exact lt_of_lt_of_le old order
      · have queued : earlier ∈ inbox.addedEvents := by
          rw [reconciled.addedQueue, List.mem_filter, decide_eq_true_iff]
          exact ⟨mem, not_lt.mp old⟩
        exact (below earlier (all_skipped ▸ queued)).1
    have above := reconciled.addedLeast _ before
    refine ⟨by rw [cleared, all_skipped, skipped_gone], by simp [pushed, above],
      fun early => absurd above (not_le.mpr early), ?_⟩
    exact fun earlier mem _ _ => (below earlier (all_skipped ▸ mem)).2
  · -- The next added event is the event itself: it is consumed.
    have added_mem := reconciled.mem_of_mem_addedEvents (split ▸ List.mem_append_right _
      List.mem_cons_self)
    have early := reconciled.addedBelow event added_mem.1
    have increasing := reconciled.addedEvents_increasing
    rw [split] at increasing
    have later : ∀ other ∈ next.addedEvents, event.cursor < other.cursor := fun other mem =>
      List.rel_of_pairwise_cons (List.pairwise_append.mp increasing).2.1 mem
    refine ⟨?_, by simp [kept, early], fun _ => added_mem.1, ?_⟩
    · rw [split, List.filter_append, skipped_gone, List.nil_append,
        List.filter_cons_of_neg (by simp)]
      exact (List.filter_eq_self.mpr fun other mem => by simpa using later other mem).symm
    · intro earlier mem not_after distinct
      rw [split] at mem
      rcases List.mem_append.mp mem with early_skip | rest
      · exact (below earlier early_skip).2
      · rcases List.mem_cons.mp rest with same | after
        · exact absurd same distinct
        · exact absurd (later earlier after) (not_lt.mpr not_after)

theorem Reconciled.removeEvent [DecidableEq M] {inbox next : InboxStateView M}
    {added removed : List (Event M)} {event : Event M}
    (reconciled : Reconciled inbox added removed) (call : inbox.removeEvent event = .ok next) :
    Reconciled next added (removed ++ [event]) := by
  obtain ⟨order, increased, same_add, -⟩ := removeEvent_eq_ok call
  obtain ⟨added_queue, removed_queue, matched, skippable⟩ := removeEvent_queues reconciled call
  have next_le : ∀ cursor, next.nextCursorToRemove ≤ cursor ↔ event.cursor < cursor :=
    Cursor.le_iff_lt_of_tryAddOne increased
  have before : ∀ earlier ∈ removed, earlier.cursor < event.cursor := fun earlier mem =>
    lt_of_lt_of_le (reconciled.removedBelow earlier mem) order
  refine
    { addedIncreasing := reconciled.addedIncreasing, removedIncreasing := ?_,
      addedBelow := same_add ▸ reconciled.addedBelow,
      addedLeast := same_add ▸ reconciled.addedLeast, removedBelow := ?_, removedLeast := ?_,
      addedQueue := ?_, removedQueue := ?_, matched := ?_, skipped := ?_ }
  · exact List.pairwise_append.mpr ⟨reconciled.removedIncreasing, List.pairwise_singleton _ _,
      fun earlier mem last last_mem => (List.mem_singleton.mp last_mem) ▸ before earlier mem⟩
  · intro earlier mem
    have event_below := Cursor.lt_of_tryAddOne increased
    rcases List.mem_append.mp mem with old | last
    · exact lt_trans (before earlier old) event_below
    · exact (List.mem_singleton.mp last) ▸ event_below
  · exact fun cursor above => (next_le cursor).mpr (above event (by simp))
  · rw [added_queue, reconciled.addedQueue, filter_filter_of_imp]
    · exact List.filter_congr fun other _ => by simp [next_le]
    · intro other _ after
      simp only [decide_eq_true_eq] at after ⊢
      exact le_of_lt (lt_of_le_of_lt order after)
  · rw [removed_queue, same_add, reconciled.removedQueue, List.filter_append,
      List.filter_append, filter_filter_of_imp (fun _ _ kept => kept)]
  · intro earlier mem early
    rw [same_add] at early
    rcases List.mem_append.mp mem with old | last
    · exact reconciled.matched earlier old early
    · rw [List.mem_singleton.mp last] at early ⊢
      exact matched early
  · intro earlier mem below absent
    rw [List.mem_append, not_or, List.mem_singleton] at absent
    by_cases old : earlier.cursor < inbox.nextCursorToRemove
    · exact reconciled.skipped earlier mem old absent.1
    · -- Still queued when the event came: it was discarded as skippable.
      have queued : earlier ∈ inbox.addedEvents := by
        rw [reconciled.addedQueue, List.mem_filter, decide_eq_true_iff]
        exact ⟨mem, not_lt.mp old⟩
      have not_after : earlier.cursor ≤ event.cursor :=
        not_lt.mp fun after => absurd ((next_le _).mpr after) (not_le.mpr below)
      exact skippable earlier queued not_after absent.2

end InboxStateView

/-- A call on an inbox. -/
inductive InboxCall (M : Type) where
  | addEvent (event : Event M)
  | removeEvent (event : Event M)
  deriving DecidableEq, Repr

namespace InboxCall

variable {M : Type}

def apply [DecidableEq M] (inbox : InboxStateView M) :
    InboxCall M → Except (InboxError M) (InboxStateView M)
  | addEvent event => inbox.addEvent event
  | removeEvent event => inbox.removeEvent event

def added : InboxCall M → List (Event M)
  | addEvent event => [event]
  | removeEvent _ => []

def removed : InboxCall M → List (Event M)
  | addEvent _ => []
  | removeEvent event => [event]

end InboxCall

variable {M : Type}

def runCalls [DecidableEq M] (inbox : InboxStateView M) (calls : List (InboxCall M)) :
    Except (InboxError M) (InboxStateView M) :=
  calls.foldlM InboxCall.apply inbox

def eventsAdded (calls : List (InboxCall M)) : List (Event M) := calls.flatMap InboxCall.added

def eventsRemoved (calls : List (InboxCall M)) : List (Event M) := calls.flatMap InboxCall.removed

/-- A run of successful calls keeps the invariant, each call adding its event to the
added or the removed ones. -/
theorem InboxStateView.Reconciled.runCalls [DecidableEq M] {inbox next : InboxStateView M}
    {added removed : List (Event M)} (reconciled : inbox.Reconciled added removed)
    (calls : List (InboxCall M)) (run : runCalls inbox calls = .ok next) :
    next.Reconciled (added ++ eventsAdded calls) (removed ++ eventsRemoved calls) := by
  induction calls generalizing inbox added removed with
  | nil =>
      cases run
      simpa [eventsAdded, eventsRemoved] using reconciled
  | cons call rest ih =>
      obtain ⟨middle, first, later⟩ := (Except.bind_eq_ok_iff _ _ _).mp run
      cases call with
      | addEvent event =>
          have step := reconciled.addEvent first
          simpa [eventsAdded, eventsRemoved, InboxCall.added, InboxCall.removed] using
            ih step later
      | removeEvent event =>
          have step := reconciled.removeEvent first
          simpa [eventsAdded, eventsRemoved, InboxCall.added, InboxCall.removed] using
            ih step later

/-- `ChainError`, for the error of `validate_incoming_messages`. -/
inductive ChainError (C O : Type) where
  | missingCrossChainUpdate (chainId : C) (origin : O) (height : Nat)
  deriving DecidableEq, Repr

/-- `ChainStateView::validate_incoming_messages`: no inbox may hold an event removed by
anticipation. The source checks the inboxes concurrently; which error it reports first
is left open, whether it fails is not. -/
def validateIncomingMessages {C O : Type} (chainId : C) :
    List (O × InboxStateView M) → Except (ChainError C O) Unit
  | [] => .ok ()
  | (origin, inbox) :: rest =>
      match inbox.removedEvents.head? with
      | some event => .error (.missingCrossChainUpdate chainId origin event.height)
      | none => validateIncomingMessages chainId rest

theorem validateIncomingMessages_eq_ok_iff {C O : Type} (chainId : C)
    (inboxes : List (O × InboxStateView M)) :
    validateIncomingMessages chainId inboxes = .ok () ↔
      ∀ entry ∈ inboxes, entry.2.removedEvents = [] := by
  induction inboxes with
  | nil => exact iff_of_true rfl fun _ absent => absurd absent List.not_mem_nil
  | cons entry rest ih =>
      obtain ⟨origin, inbox⟩ := entry
      rw [validateIncomingMessages, List.forall_mem_cons]
      -- The first inbox decides, through the head of its removed events.
      cases first : inbox.removedEvents with
      | nil => simp only [List.head?_nil, ih, true_and]
      | cons event later => simp only [List.head?_cons, reduceCtorEq, false_and]

theorem inbox_reconciliation [DecidableEq M] (calls : List (InboxCall M))
    {inbox : InboxStateView M} (run : runCalls InboxStateView.empty calls = .ok inbox) :
    (eventsAdded calls).Pairwise (fun event event' => event.cursor < event'.cursor) ∧
      (eventsRemoved calls).Pairwise (fun event event' => event.cursor < event'.cursor) ∧
      (inbox.addedEvents = [] ∨ inbox.removedEvents = []) ∧
      (inbox.removedEvents = [] → inbox.nextCursorToRemove ≤ inbox.nextCursorToAdd) ∧
      inbox.addedEvents = (eventsAdded calls).filter (inbox.nextCursorToRemove ≤ ·.cursor) ∧
      inbox.removedEvents = (eventsRemoved calls).filter (inbox.nextCursorToAdd ≤ ·.cursor) ∧
      (∀ event ∈ eventsRemoved calls, event.cursor < inbox.nextCursorToAdd →
        (∃ event' ∈ eventsAdded calls, event'.cursor = event.cursor) ∧
          ∀ event' ∈ eventsAdded calls, event'.cursor = event.cursor → event' = event) ∧
      (∀ event ∈ eventsAdded calls, event.cursor < inbox.nextCursorToRemove →
        event ∉ eventsRemoved calls → event.isSkippable = true) ∧
      ∀ {C O : Type} (chainId : C) (origin : O),
        validateIncomingMessages chainId [(origin, inbox)] = .ok () ↔
          ∀ event ∈ eventsRemoved calls, event ∈ eventsAdded calls := by
  have reconciled := InboxStateView.reconciled_empty.runCalls calls run
  simp only [List.nil_append] at reconciled
  refine ⟨reconciled.addedIncreasing, reconciled.removedIncreasing,
    reconciled.addedEvents_eq_nil_or_removedEvents_eq_nil,
    reconciled.nextCursorToRemove_le_of_removedEvents_eq_nil, reconciled.addedQueue,
    reconciled.removedQueue, fun event mem early => ?_, reconciled.skipped,
    fun chainId origin => ?_⟩
  · have added_mem := reconciled.matched event mem early
    exact ⟨⟨event, added_mem, rfl⟩, fun event' mem' same =>
      InboxStateView.eq_of_cursor_eq reconciled.addedIncreasing mem' added_mem same⟩
  · rw [validateIncomingMessages_eq_ok_iff, List.forall_mem_singleton,
      reconciled.removedEvents_eq_nil_iff]

/-- The successful calls of the unit test `test_inbox_remove_then_add_skippable`: two
events removed ahead are backfilled, with a skippable event between them. -/
def backfillCalls : List (InboxCall Nat) :=
  [.removeEvent ⟨0, 0, false, 0⟩, .addEvent ⟨0, 0, false, 0⟩, .removeEvent ⟨0, 1, false, 1⟩,
    .removeEvent ⟨1, 1, false, 3⟩, .addEvent ⟨0, 1, false, 1⟩, .addEvent ⟨1, 0, true, 2⟩,
    .addEvent ⟨1, 1, false, 3⟩]

theorem inbox_reconciliation_backfill :
    runCalls InboxStateView.empty backfillCalls = .ok ⟨⟨1, 2⟩, ⟨1, 2⟩, [], []⟩ ∧
      (eventsAdded backfillCalls).Pairwise (fun event event' => event.cursor < event'.cursor) ∧
      (eventsRemoved backfillCalls).Pairwise (fun event event' => event.cursor < event'.cursor) ∧
      (([] : List (Event Nat)) = [] ∨ ([] : List (Event Nat)) = []) ∧
      (([] : List (Event Nat)) = [] → (⟨1, 2⟩ : Cursor) ≤ ⟨1, 2⟩) ∧
      [] = (eventsAdded backfillCalls).filter ((⟨1, 2⟩ : Cursor) ≤ ·.cursor) ∧
      [] = (eventsRemoved backfillCalls).filter ((⟨1, 2⟩ : Cursor) ≤ ·.cursor) ∧
      (∀ event ∈ eventsRemoved backfillCalls, event.cursor < ⟨1, 2⟩ →
        (∃ event' ∈ eventsAdded backfillCalls, event'.cursor = event.cursor) ∧
          ∀ event' ∈ eventsAdded backfillCalls, event'.cursor = event.cursor → event' = event) ∧
      (∀ event ∈ eventsAdded backfillCalls, event.cursor < ⟨1, 2⟩ →
        event ∉ eventsRemoved backfillCalls → event.isSkippable = true) ∧
      ∀ {C O : Type} (chainId : C) (origin : O),
        validateIncomingMessages chainId [(origin, (⟨⟨1, 2⟩, ⟨1, 2⟩, [], []⟩ : InboxStateView Nat))] =
            .ok () ↔
          ∀ event ∈ eventsRemoved backfillCalls, event ∈ eventsAdded backfillCalls := by
  have run : runCalls InboxStateView.empty backfillCalls = .ok ⟨⟨1, 2⟩, ⟨1, 2⟩, [], []⟩ := by
    decide
  exact ⟨run, inbox_reconciliation backfillCalls run⟩

end Linera.Chain
