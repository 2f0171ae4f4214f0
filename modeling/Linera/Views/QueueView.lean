import Linera.Views.LogView

set_option autoImplicit false

/-! The queue view (`linera-views/src/queue_view.rs`).

A `QueueView` keeps the range of indices its storage holds, a count of the front values
deleted since the last flush, and the values pushed at the back since; once cleared it hides
the stored values. `iter_mut` first moves every stored value the view still shows in front of
the staged values (`load_all`) and marks the view cleared, so that the next flush rewrites
them all. `flush` deletes every stored value when the view shows none of them, or else the
deleted front ones, then writes the staged values after the stored ones, and the new range.

Indices grow by one for each value ever pushed, so they are natural numbers here; a `usize`
would wrap only after `2 ^ 64` pushes. -/

namespace Linera.Views

/-- A `Range<usize>`: the indices from `start` below `stop` (the source's `end`). -/
structure IndexRange where
  start : Nat
  stop : Nat
  deriving DecidableEq, Repr

/-- `Range::len`: zero when the range is empty. -/
def IndexRange.len (range : IndexRange) : Nat := range.stop - range.start

/-- `QueueView`, without its context and hash. -/
structure QueueView (T : Type) where
  storedIndices : IndexRange
  frontDeleteCount : Nat
  wasCleared : Bool
  newBackValues : List T

namespace QueueView

/-- What a queue stores: its range of indices under the `Store` tag, and the values under
`Index`. -/
structure Storage (T : Type) where
  storedIndices : Option IndexRange
  values : Nat → Option T

variable {T : Type}

/-- `load`: the range from the storage, nothing deleted or staged. -/
def load (storage : Storage T) : QueueView T :=
  ⟨storage.storedIndices.getD ⟨0, 0⟩, 0, false, []⟩

def rollback (view : QueueView T) : QueueView T :=
  { view with wasCleared := false, frontDeleteCount := 0, newBackValues := [] }

def clear (view : QueueView T) : QueueView T :=
  { view with wasCleared := true, newBackValues := [] }

/-- `stored_count`: the stored values the view still shows. -/
def storedCount (view : QueueView T) : Nat :=
  if view.wasCleared then 0 else view.storedIndices.len - view.frontDeleteCount

def deleteIndex (values : Nat → Option T) (index : Nat) : Nat → Option T :=
  fun other => if other = index then none else values other

/-- The deletions of `flush`: the whole `Index` prefix when the view shows no stored value,
else the deleted front ones; with the range left, and whether it must be saved. -/
def flushDeletions (view : QueueView T) (storage : Storage T) :
    IndexRange × (Nat → Option T) × Bool :=
  if view.storedCount = 0 then (⟨0, 0⟩, fun _ => none, true)
  else if view.frontDeleteCount > 0 then
    let deletionRange :=
      (List.range' view.storedIndices.start view.storedIndices.len).take view.frontDeleteCount
    (⟨view.storedIndices.start + view.frontDeleteCount, view.storedIndices.stop⟩,
      deletionRange.foldl deleteIndex storage.values, true)
  else (view.storedIndices, storage.values, false)

/-- `flush`: the deletions, then the staged values after the stored ones, then the range when
it changed. -/
def flush (view : QueueView T) (storage : Storage T) : QueueView T × Storage T :=
  let (storedIndices, values, saveStoredIndices) := view.flushDeletions storage
  let (storedIndices, values, saveStoredIndices) :=
    if !view.newBackValues.isEmpty then
      let (stop, values) := view.newBackValues.foldl putNext (storedIndices.stop, values)
      ((⟨storedIndices.start, stop⟩ : IndexRange), values, true)
    else (storedIndices, values, saveStoredIndices)
  (⟨storedIndices, 0, false, []⟩,
    ⟨if saveStoredIndices then some storedIndices else storage.storedIndices, values⟩)

def front (view : QueueView T) (storage : Storage T) : Option T :=
  let storedRemainder := view.storedCount
  if storedRemainder > 0 then storage.values (view.storedIndices.stop - storedRemainder)
  else view.newBackValues.head?

def back (view : QueueView T) (storage : Storage T) : Option T :=
  match view.newBackValues.getLast? with
  | some value => some value
  | none => if view.storedCount > 0 then storage.values (view.storedIndices.stop - 1) else none

def deleteFront (view : QueueView T) : QueueView T :=
  if view.storedCount > 0 then { view with frontDeleteCount := view.frontDeleteCount + 1 }
  else { view with newBackValues := view.newBackValues.tail }

def pushBack (view : QueueView T) (value : T) : QueueView T :=
  { view with newBackValues := view.newBackValues ++ [value] }

def count (view : QueueView T) : Nat := view.storedCount + view.newBackValues.length

def readContext (storage : Storage T) (start stop : Nat) : Except ViewError (List T) :=
  readIndexed storage.values start stop

/-- `read_front`: at most `count` values from the front. -/
def readFront (view : QueueView T) (storage : Storage T) (count : Nat) :
    Except ViewError (List T) :=
  let count := if count > view.count then view.count else count
  if count = 0 then .ok []
  else if !view.wasCleared then
    let storedRemainder := view.storedCount
    let start := view.storedIndices.stop - storedRemainder
    if count ≤ storedRemainder then readContext storage start (start + count)
    else do
      let values ← readContext storage start view.storedIndices.stop
      .ok (values ++ view.newBackValues.take (count - storedRemainder))
  else .ok (view.newBackValues.take count)

/-- `read_back`: at most `count` values from the back. -/
def readBack (view : QueueView T) (storage : Storage T) (count : Nat) :
    Except ViewError (List T) :=
  let count := if count > view.count then view.count else count
  if count = 0 then .ok []
  else
    let newBackLen := view.newBackValues.length
    if count ≤ newBackLen || view.wasCleared then .ok (view.newBackValues.drop (newBackLen - count))
    else do
      let start := view.storedIndices.stop + newBackLen - count
      let values ← readContext storage start view.storedIndices.stop
      .ok (values ++ view.newBackValues)

def elements (view : QueueView T) (storage : Storage T) : Except ViewError (List T) :=
  view.readFront storage view.count

/-- `load_all`: the stored values the view shows go in front of the staged ones
(`VecDeque::rotate_right` after pushing them at the back), and the view is cleared. -/
def loadAll (view : QueueView T) (storage : Storage T) : Except ViewError (QueueView T) :=
  if !view.wasCleared then do
    let storedRemainder := view.storedCount
    let start := view.storedIndices.stop - storedRemainder
    let elements ← readContext storage start view.storedIndices.stop
    let shift := view.storedIndices.stop - start
    .ok { view with
      newBackValues := (view.newBackValues ++ elements).rotateRight shift, wasCleared := true }
  else .ok view

/-- `iter_mut`, with the writes made through the iterator it returns: `write` gives each value
its new value from its position and its old value. -/
def iterMut (view : QueueView T) (storage : Storage T) (write : Nat → T → T) :
    Except ViewError (QueueView T) := do
  let view ← view.loadAll storage
  .ok { view with newBackValues := view.newBackValues.mapIdx write }

/-- The storage holds a vector under a range: the range under the `Store` tag, and the values
one under each index of the range. -/
structure Storage.Holds (storage : Storage T) (indices : IndexRange) (values : List T) : Prop where
  storedIndices : storage.storedIndices.getD ⟨0, 0⟩ = indices
  stop : indices.stop = indices.start + values.length
  value : HoldsFrom storage.values indices.start values

theorem foldl_deleteIndex_of_not_mem (values : Nat → Option T) {indices : List Nat} {index : Nat}
    (absent : index ∉ indices) : indices.foldl deleteIndex values index = values index := by
  induction indices generalizing values with
  | nil => rfl
  | cons first rest ih =>
    have other : index ≠ first := fun same => absent (same ▸ List.mem_cons_self)
    rw [List.foldl_cons, ih _ (fun mem => absent (List.mem_cons_of_mem _ mem))]
    simp [deleteIndex, other]

/-- The stored values a view shows: those after the deleted front ones, unless it was
cleared. -/
def shown (view : QueueView T) (flushed : List T) : List T :=
  if view.wasCleared then [] else flushed.drop view.frontDeleteCount

theorem storedCount_eq_length_shown {view : QueueView T} {flushed : List T}
    (length : view.storedIndices.len = flushed.length) :
    view.storedCount = (view.shown flushed).length := by
  unfold storedCount shown
  split <;> simp [length]

/-- The deletions of a flush leave the stored values the view shows, under a range that ends
where they end; a range that is not saved is the view's own. -/
theorem flushDeletions_holds (view : QueueView T) (storage : Storage T) (flushed : List T)
    (holds : storage.Holds view.storedIndices flushed)
    (deleted : view.frontDeleteCount ≤ flushed.length) :
    (view.flushDeletions storage).1.stop =
        (view.flushDeletions storage).1.start + (view.shown flushed).length ∧
      HoldsFrom (view.flushDeletions storage).2.1 (view.flushDeletions storage).1.start
        (view.shown flushed) ∧
      ((view.flushDeletions storage).2.2 = false →
        (view.flushDeletions storage).1 = view.storedIndices) := by
  have length : view.storedIndices.len = flushed.length := by
    simp [IndexRange.len, holds.stop]
  have counted := storedCount_eq_length_shown length
  unfold flushDeletions
  split_ifs with noneShown someDeleted
  · -- Nothing shown: the whole prefix goes.
    have empty : (view.shown flushed).length = 0 := by omega
    refine ⟨by simp [empty], fun offset below => absurd below (by omega), by simp⟩
  · -- The deleted front values go; the shown ones stay under their indices.
    have notCleared : view.wasCleared = false := by
      cases cleared : view.wasCleared
      · rfl
      · simp [storedCount, cleared] at noneShown
    have shownEq : view.shown flushed = flushed.drop view.frontDeleteCount := by
      simp [shown, notCleared]
    have taken : (List.range' view.storedIndices.start view.storedIndices.len).take
        view.frontDeleteCount = List.range' view.storedIndices.start view.frontDeleteCount :=
      List.take_range'_of_length_ge (by omega)
    refine ⟨?_, fun offset below => ?_, by simp⟩
    · simp only [shownEq, List.length_drop]
      have := holds.stop
      omega
    · rw [shownEq] at below ⊢
      simp only [taken]
      rw [foldl_deleteIndex_of_not_mem _ (by simp), Nat.add_assoc,
        holds.value (view.frontDeleteCount + offset) (by simp at below; omega), List.getElem?_drop]
  · -- No deletion: the range and the values stay.
    have notCleared : view.wasCleared = false := by
      cases cleared : view.wasCleared
      · rfl
      · simp [storedCount, cleared] at noneShown
    have shownEq : view.shown flushed = flushed := by
      simp [shown, notCleared, show view.frontDeleteCount = 0 by omega]
    rw [shownEq]
    exact ⟨holds.stop, holds.value, fun _ => rfl⟩

theorem flush_holds (view : QueueView T) (storage : Storage T) (flushed : List T)
    (holds : storage.Holds view.storedIndices flushed)
    (deleted : view.frontDeleteCount ≤ flushed.length) :
    (view.flush storage).2.Holds (view.flush storage).1.storedIndices
        (view.shown flushed ++ view.newBackValues) ∧
      (view.flush storage).1.frontDeleteCount = 0 ∧ (view.flush storage).1.wasCleared = false ∧
      (view.flush storage).1.newBackValues = [] := by
  obtain ⟨stopEq, heldFrom, unsaved⟩ := flushDeletions_holds view storage flushed holds deleted
  unfold flush
  generalize view.flushDeletions storage = deletions at stopEq heldFrom unsaved
  obtain ⟨indices, values, save⟩ := deletions
  dsimp only at stopEq heldFrom unsaved ⊢
  by_cases empty : view.newBackValues = []
  · -- Nothing to write: the range is saved only when the deletions changed it.
    have isEmpty : view.newBackValues.isEmpty = true := List.isEmpty_iff.mpr empty
    simp only [isEmpty, Bool.not_true, Bool.false_eq_true, if_false]
    refine ⟨⟨?_, by simpa [empty] using stopEq, by simpa [empty] using heldFrom⟩, trivial, trivial,
      trivial⟩
    cases save
    · simp only [Bool.false_eq_true, if_false]
      rw [holds.storedIndices, unsaved rfl]
    · rfl
  · -- The staged values go right after the shown ones.
    have isEmpty : view.newBackValues.isEmpty = false := List.isEmpty_eq_false_iff.mpr empty
    obtain ⟨loopStop, loopValues⟩ :=
      foldl_putNext view.newBackValues (view.shown flushed) values indices.start heldFrom
    rw [← stopEq] at loopStop loopValues
    simp only [isEmpty, Bool.not_false, if_true]
    exact ⟨⟨rfl, loopStop, loopValues⟩, trivial, trivial, trivial⟩

/-- What the reads of a view see: the stored values it shows, which end where its range
ends. -/
structure Shows (view : QueueView T) (storage : Storage T) (kept : List T) : Prop where
  storedCount : view.storedCount = kept.length
  below : kept.length ≤ view.storedIndices.stop
  stored : HoldsFrom storage.values (view.storedIndices.stop - kept.length) kept

variable {view : QueueView T} {storage : Storage T} {kept : List T}

theorem Shows.count (shows : view.Shows storage kept) :
    view.count = (kept ++ view.newBackValues).length := by
  unfold QueueView.count
  rw [shows.storedCount, List.length_append]

theorem Shows.kept_eq_nil (shows : view.Shows storage kept) (cleared : view.wasCleared = true) :
    kept = [] := by
  have counted := shows.storedCount
  simp only [QueueView.storedCount, cleared, if_true] at counted
  exact List.eq_nil_of_length_eq_zero counted.symm

theorem Shows.readContext (shows : view.Shows storage kept) (low high : Nat)
    (within : high ≤ kept.length) :
    readContext storage (view.storedIndices.stop - kept.length + low)
        (view.storedIndices.stop - kept.length + high) =
      .ok ((kept.drop low).take (high - low)) :=
  shows.stored.readIndexed low high within

theorem Shows.front (shows : view.Shows storage kept) :
    view.front storage = (kept ++ view.newBackValues).head? := by
  unfold QueueView.front
  dsimp only
  rw [shows.storedCount]
  split_ifs with someShown
  · -- The first shown stored value.
    have first := shows.stored 0 someShown
    rw [Nat.add_zero] at first
    rw [first, List.head?_append, List.head?_eq_getElem?]
    cases kept with
    | nil => simp at someShown
    | cons value rest => rfl
  · have empty : kept = [] := List.eq_nil_of_length_eq_zero (by omega)
    rw [empty, List.nil_append]

theorem Shows.back (shows : view.Shows storage kept) :
    view.back storage = (kept ++ view.newBackValues).getLast? := by
  unfold QueueView.back
  rw [List.getLast?_append]
  cases last : view.newBackValues.getLast? with
  | some value => rfl
  | none =>
    rw [shows.storedCount]
    dsimp only
    split_ifs with someShown
    · -- The last shown stored value.
      have final := shows.stored (kept.length - 1) (by omega)
      rw [show view.storedIndices.stop - kept.length + (kept.length - 1) =
        view.storedIndices.stop - 1 by have := shows.below; omega] at final
      rw [final, List.getLast?_eq_getElem?]
      rfl
    · have empty : kept = [] := List.eq_nil_of_length_eq_zero (by omega)
      rw [empty]
      rfl

theorem Shows.readFront (shows : view.Shows storage kept) (count : Nat) :
    view.readFront storage count = .ok ((kept ++ view.newBackValues).take count) := by
  have total := shows.count
  have below := shows.below
  -- The clamped count takes as much as `count` does.
  have clamped : (kept ++ view.newBackValues).take
      (if count > view.count then view.count else count) =
        (kept ++ view.newBackValues).take count := by
    split_ifs with more
    · rw [total, List.take_length, List.take_of_length_le (by omega)]
    · rfl
  have bounded : (if count > view.count then view.count else count) ≤ view.count := by
    split_ifs <;> omega
  unfold QueueView.readFront
  dsimp only
  rw [← clamped, shows.storedCount]
  generalize (if count > view.count then view.count else count) = taken at bounded
  rw [total, List.length_append] at bounded
  split_ifs with zero notCleared fits
  · rw [zero, List.take_zero]
  · -- Only stored values.
    have read := shows.readContext 0 taken fits
    rw [Nat.add_zero] at read
    rw [read, List.take_append_of_le_length fits]
    simp
  · -- All the shown stored values, then staged ones.
    have read := shows.readContext 0 kept.length le_rfl
    rw [Nat.add_zero, Nat.sub_add_cancel below] at read
    simp only [List.drop_zero, Nat.sub_zero, List.take_length] at read
    rw [read, Except.ok_bind, List.take_append, List.take_of_length_le (show kept.length ≤ taken by omega)]
  · have cleared : view.wasCleared = true := by simpa using notCleared
    rw [shows.kept_eq_nil cleared, List.nil_append]

theorem Shows.readBack (shows : view.Shows storage kept) (count : Nat) :
    view.readBack storage count =
      .ok ((kept ++ view.newBackValues).drop ((kept ++ view.newBackValues).length - count)) := by
  have total := shows.count
  have below := shows.below
  -- The clamped count drops as much as `count` does.
  have clamped : (kept ++ view.newBackValues).drop
      ((kept ++ view.newBackValues).length - if count > view.count then view.count else count) =
        (kept ++ view.newBackValues).drop ((kept ++ view.newBackValues).length - count) := by
    split_ifs with more
    · rw [total, Nat.sub_self, show (kept ++ view.newBackValues).length - count = 0 by omega]
    · rfl
  have bounded : (if count > view.count then view.count else count) ≤ view.count := by
    split_ifs <;> omega
  unfold QueueView.readBack
  dsimp only
  rw [← clamped]
  generalize (if count > view.count then view.count else count) = taken at bounded
  rw [total, List.length_append] at bounded
  rw [List.length_append]
  split_ifs with zero staged
  · rw [zero, Nat.sub_zero, ← List.length_append, List.drop_length]
  · -- Only staged values: none of the stored ones when cleared.
    have onlyStaged : kept.length ≤ kept.length + view.newBackValues.length - taken := by
      rcases Bool.or_eq_true_iff.mp staged with fits | cleared
      · simp at fits
        omega
      · rw [shows.kept_eq_nil cleared]
        exact Nat.zero_le _
    rw [List.drop_append, List.drop_eq_nil_of_le onlyStaged, List.nil_append]
    congr 2
    omega
  · -- The last shown stored values, then all staged ones.
    have more : view.newBackValues.length < taken ∧ view.wasCleared = false := by
      simpa [not_or] using staged
    have read := shows.readContext (kept.length + view.newBackValues.length - taken)
      kept.length le_rfl
    rw [show view.storedIndices.stop - kept.length +
        (kept.length + view.newBackValues.length - taken) =
          view.storedIndices.stop + view.newBackValues.length - taken by omega,
      Nat.sub_add_cancel below] at read
    rw [read, Except.ok_bind, List.take_of_length_le (by simp),
      List.drop_append_of_le_length (by omega)]

theorem Shows.elements (shows : view.Shows storage kept) :
    view.elements storage = .ok (kept ++ view.newBackValues) := by
  rw [QueueView.elements, shows.readFront, shows.count, List.take_length]

theorem Shows.loadAll (shows : view.Shows storage kept) :
    view.loadAll storage =
      .ok { view with newBackValues := kept ++ view.newBackValues, wasCleared := true } := by
  have below := shows.below
  unfold QueueView.loadAll
  dsimp only
  split_ifs with notCleared
  · have read := shows.readContext 0 kept.length le_rfl
    rw [Nat.add_zero, Nat.sub_add_cancel below] at read
    simp only [List.drop_zero, Nat.sub_zero, List.take_length] at read
    rw [shows.storedCount, read, Except.ok_bind, Nat.sub_sub_self below,
      Slice.rotateRight_append_length]
  · -- A cleared view shows no stored value and stays as it is.
    have cleared : view.wasCleared = true := by simpa using notCleared
    rw [shows.kept_eq_nil cleared, List.nil_append]
    cases view
    simp_all

theorem Shows.iterMut (shows : view.Shows storage kept) (write : Nat → T → T) :
    view.iterMut storage write =
      .ok { view with
        newBackValues := (kept ++ view.newBackValues).mapIdx write, wasCleared := true } := by
  rw [QueueView.iterMut, shows.loadAll, Except.ok_bind]

/-- The operations on a queue view; `iterMut` stands for the writes through `iter_mut`, and
`reload` for `load` from the storage. -/
inductive Operation (T : Type) where
  | pushBack (value : T)
  | deleteFront
  | clear
  | iterMut (write : Nat → T → T)
  | rollback
  | flush
  | reload

/-- A view with the storage it reads. -/
structure State (T : Type) where
  view : QueueView T
  storage : Storage T

/-- One operation; a failed `iter_mut` leaves the view as it was, and a flush writes its batch
to the storage. -/
def step (state : State T) : Operation T → State T
  | .pushBack value => { state with view := state.view.pushBack value }
  | .deleteFront => { state with view := state.view.deleteFront }
  | .clear => { state with view := state.view.clear }
  | .iterMut write =>
      match state.view.iterMut state.storage write with
      | .ok view => { state with view := view }
      | .error _ => state
  | .rollback => { state with view := state.view.rollback }
  | .flush => ⟨(state.view.flush state.storage).1, (state.view.flush state.storage).2⟩
  | .reload => { state with view := load state.storage }

def run (state : State T) (operations : List (Operation T)) : State T :=
  operations.foldl step state

/-- A double-ended queue, and the queue as of the last flush. -/
structure Reference (T : Type) where
  current : List T
  flushed : List T

/-- The operations of a queue, on a plain `VecDeque`: a rollback or a reload goes back to the
last flush. -/
def Reference.step (reference : Reference T) : Operation T → Reference T
  | .pushBack value => { reference with current := reference.current ++ [value] }
  | .deleteFront => { reference with current := reference.current.tail }
  | .clear => { reference with current := [] }
  | .iterMut write => { reference with current := reference.current.mapIdx write }
  | .rollback | .reload => { reference with current := reference.flushed }
  | .flush => { reference with flushed := reference.current }

def Reference.run (reference : Reference T) (operations : List (Operation T)) : Reference T :=
  operations.foldl Reference.step reference

/-- The view and its storage show the queue: the storage holds the queue as of the last flush
under the view's range, at most all of it is deleted at the front, and the view shows what it
keeps of it, then the staged values. -/
structure Simulates (state : State T) (reference : Reference T) : Prop where
  holds : state.storage.Holds state.view.storedIndices reference.flushed
  deleted : state.view.frontDeleteCount ≤ reference.flushed.length
  contents : state.view.shown reference.flushed ++ state.view.newBackValues = reference.current

variable {state : State T} {reference : Reference T}

theorem Simulates.shows (simulates : Simulates state reference) :
    state.view.Shows state.storage (state.view.shown reference.flushed) := by
  have length : state.view.storedIndices.len = reference.flushed.length := by
    simp [IndexRange.len, simulates.holds.stop]
  have stop := simulates.holds.stop
  have deleted := simulates.deleted
  refine ⟨storedCount_eq_length_shown length, ?_, fun offset below => ?_⟩
  · unfold shown
    split
    · simp
    · rw [List.length_drop]
      omega
  · -- A shown value sits after the deleted front ones.
    unfold shown at below ⊢
    cases cleared : state.view.wasCleared
    · simp only [cleared, Bool.false_eq_true, if_false, List.length_drop] at below ⊢
      rw [show state.view.storedIndices.stop - (reference.flushed.length -
          state.view.frontDeleteCount) + offset =
            state.view.storedIndices.start + (state.view.frontDeleteCount + offset) by omega,
        simulates.holds.value _ (by omega), List.getElem?_drop]
    · simp [cleared] at below

theorem simulates_load (storage : Storage T) (flushed : List T)
    (holds : storage.Holds (storage.storedIndices.getD ⟨0, 0⟩) flushed) :
    Simulates ⟨load storage, storage⟩ ⟨flushed, flushed⟩ :=
  ⟨holds, Nat.zero_le _, by simp [load, shown]⟩

theorem Simulates.step (simulates : Simulates state reference) (operation : Operation T) :
    Simulates (step state operation) (reference.step operation) := by
  have shows := simulates.shows
  obtain ⟨holds, deleted, contents⟩ := simulates
  cases operation with
  | pushBack value =>
    refine ⟨holds, deleted, ?_⟩
    simp only [QueueView.step, Reference.step, pushBack, shown, ← contents, List.append_assoc]
  | deleteFront =>
    unfold QueueView.step Reference.step deleteFront
    split_ifs with someShown
    · -- A stored value goes: one more deleted at the front.
      have notCleared : state.view.wasCleared = false := by
        cases cleared : state.view.wasCleared
        · rfl
        · simp [QueueView.storedCount, cleared] at someShown
      have more : state.view.frontDeleteCount < reference.flushed.length := by
        have := shows.storedCount
        simp only [shown, notCleared, Bool.false_eq_true, if_false, List.length_drop] at this
        omega
      refine ⟨holds, more, ?_⟩
      have nonempty : reference.flushed.drop state.view.frontDeleteCount ≠ [] := by
        simpa [List.drop_eq_nil_iff] using more
      simp only [shown, notCleared, Bool.false_eq_true, if_false] at contents ⊢
      rw [← contents, List.tail_append_of_ne_nil nonempty, List.tail_drop]
    · -- No stored value shown: a staged one goes.
      have empty : state.view.shown reference.flushed = [] :=
        List.eq_nil_of_length_eq_zero (by have := shows.storedCount; omega)
      refine ⟨holds, deleted, ?_⟩
      rw [empty, List.nil_append] at contents
      simp only [shown] at empty ⊢
      rw [empty, List.nil_append, ← contents]
  | clear => exact ⟨holds, deleted, by simp [QueueView.step, Reference.step, clear, shown]⟩
  | iterMut write =>
    -- The view loads every shown value, so the writes reach all of the queue.
    have stepped : QueueView.step state (.iterMut write) =
        { state with view := { state.view with
          newBackValues := (state.view.shown reference.flushed ++ state.view.newBackValues).mapIdx
            write, wasCleared := true } } := by
      simp only [QueueView.step, shows.iterMut write]
    rw [stepped]
    refine ⟨holds, deleted, ?_⟩
    simp [Reference.step, shown, ← contents]
  | rollback => exact ⟨holds, Nat.zero_le _, by simp [QueueView.step, Reference.step, rollback, shown]⟩
  | flush =>
    obtain ⟨flushedHolds, noneDeleted, notCleared, noneStaged⟩ :=
      flush_holds state.view state.storage reference.flushed holds deleted
    rw [contents] at flushedHolds
    refine ⟨flushedHolds, by simp [QueueView.step, noneDeleted], ?_⟩
    simp [QueueView.step, Reference.step, shown, noneDeleted, notCleared, noneStaged]
  | reload =>
    have loaded : (load state.storage).storedIndices = state.view.storedIndices := holds.storedIndices
    exact ⟨by simpa [QueueView.step, Reference.step, loaded] using holds, Nat.zero_le _,
      by simp [QueueView.step, Reference.step, load, shown]⟩

theorem Simulates.run (simulates : Simulates state reference) (operations : List (Operation T)) :
    Simulates (run state operations) (reference.run operations) := by
  induction operations generalizing state reference with
  | nil => exact simulates
  | cons operation operations ih => exact ih (simulates.step operation)

/-- A view that simulates a queue answers every read as the queue does. -/
theorem Simulates.observe (simulates : Simulates state reference) :
    state.view.count = reference.current.length ∧
      state.view.front state.storage = reference.current.head? ∧
      state.view.back state.storage = reference.current.getLast? ∧
      (∀ count, state.view.readFront state.storage count = .ok (reference.current.take count)) ∧
      (∀ count, state.view.readBack state.storage count =
        .ok (reference.current.drop (reference.current.length - count))) ∧
      state.view.elements state.storage = .ok reference.current := by
  have shows := simulates.shows
  rw [← simulates.contents]
  exact ⟨shows.count, shows.front, shows.back, shows.readFront, shows.readBack, shows.elements⟩

theorem queueView_fifo (storage : Storage T) (flushed : List T)
    (holds : storage.Holds (storage.storedIndices.getD ⟨0, 0⟩) flushed)
    (operations : List (Operation T)) :
    let state := run ⟨load storage, storage⟩ operations
    let reference := (Reference.mk flushed flushed).run operations
    state.view.count = reference.current.length ∧
      state.view.front state.storage = reference.current.head? ∧
      state.view.back state.storage = reference.current.getLast? ∧
      (∀ count, state.view.readFront state.storage count = .ok (reference.current.take count)) ∧
      (∀ count, state.view.readBack state.storage count =
        .ok (reference.current.drop (reference.current.length - count))) ∧
      state.view.elements state.storage = .ok reference.current :=
  ((simulates_load storage flushed holds).run operations).observe

theorem queueView_fifo_from_empty :
    (⟨none, fun _ => none⟩ : Storage Nat).Holds ⟨0, 0⟩ [] ∧
      let operations : List (Operation Nat) :=
        [.pushBack 1, .pushBack 2, .flush, .reload, .deleteFront, .iterMut fun _ value => value + 1]
      let state := run ⟨load ⟨none, fun _ => none⟩, ⟨none, fun _ => none⟩⟩ operations
      let reference := (Reference.mk [] []).run operations
      state.view.count = reference.current.length ∧
        state.view.front state.storage = reference.current.head? ∧
        state.view.back state.storage = reference.current.getLast? ∧
        (∀ count, state.view.readFront state.storage count = .ok (reference.current.take count)) ∧
        (∀ count, state.view.readBack state.storage count =
          .ok (reference.current.drop (reference.current.length - count))) ∧
        state.view.elements state.storage = .ok reference.current :=
  have holds : (⟨none, fun _ => none⟩ : Storage Nat).Holds ⟨0, 0⟩ [] :=
    ⟨rfl, rfl, fun _ below => absurd below (Nat.not_lt_zero _)⟩
  ⟨holds, queueView_fifo _ [] holds _⟩

end QueueView

end Linera.Views
