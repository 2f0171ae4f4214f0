import Linera.Lib.OrdMap
import Linera.Lib.Slice

set_option autoImplicit false

/-! The log view (`linera-views/src/log_view.rs`).

A `LogView` counts the values it has stored and stages the values pushed since; once
cleared it hides the stored ones. `get`, `multi_get` and `read` read a stored index from the
storage and a later one from the staged values. `flush` deletes the whole view when a cleared
view had stored values, then writes the staged values after the stored ones and the new
count.

Indices are `usize`. `read` turns an included end `e` into `e + 1` and an excluded start `s`
into `s + 1`; in a release build these sums wrap around at `2 ^ 64` (`usizeSucc`), and in a
debug build they panic. -/

namespace Linera.Views

/-- `ViewError`, for the one error that the reads of a log or a queue raise themselves: an
index the view counts but the storage does not hold. -/
inductive ViewError where
  | missingEntries
  deriving DecidableEq, Repr

/-- `n + 1` on a `usize` in a release build: the sum wraps around at `2 ^ 64`. -/
def usizeSucc (n : Nat) : Nat := (n + 1) % 2 ^ 64

-- The log and the queue store their values under the `Index` tag, one under each index, and
-- read a run of them back with the same `read_context`.

section Indexed

variable {T : Type}

/-- The `read_context` of the log and of the queue: the values under the indices from `start`
below `stop`, or `MissingEntries` when one is absent. -/
def readIndexed (values : Nat → Option T) (start stop : Nat) : Except ViewError (List T) :=
  (List.range' start (stop - start)).mapM fun index =>
    match values index with
    | some value => .ok value
    | none => .error .missingEntries

def putIndex (values : Nat → Option T) (index : Nat) (value : T) : Nat → Option T :=
  fun other => if other = index then some value else values other

/-- One pass of the loops of `flush` that write the staged values: the value goes under the
next index, which grows. -/
def putNext (next : Nat × (Nat → Option T)) (value : T) : Nat × (Nat → Option T) :=
  (next.1 + 1, putIndex next.2 next.1 value)

/-- The values from index `start` on hold a vector. -/
def HoldsFrom (values : Nat → Option T) (start : Nat) (kept : List T) : Prop :=
  ∀ offset, offset < kept.length → values (start + offset) = kept[offset]?

theorem foldl_putNext (news kept : List T) (values : Nat → Option T) (start : Nat)
    (holds : HoldsFrom values start kept) :
    (news.foldl putNext (start + kept.length, values)).1 = start + (kept ++ news).length ∧
      HoldsFrom (news.foldl putNext (start + kept.length, values)).2 start (kept ++ news) := by
  induction news generalizing kept values with
  | nil => exact ⟨by simp, by simpa using holds⟩
  | cons value news ih =>
    -- The first pass puts `value` right after `kept`; the rest continue from `kept ++ [value]`.
    have next : HoldsFrom (putIndex values (start + kept.length) value) start (kept ++ [value]) := by
      intro offset below
      by_cases hit : offset = kept.length
      · subst hit
        simp [putIndex]
      · have old : offset < kept.length := by
          simp only [List.length_append, List.length_singleton] at below
          omega
        simp [putIndex, hit, holds offset old, List.getElem?_append_left old]
    have rest := ih (kept ++ [value]) (putIndex values (start + kept.length) value) next
    rw [List.append_assoc, List.singleton_append, List.length_append, List.length_singleton,
      ← Nat.add_assoc] at rest
    exact rest

theorem HoldsFrom.readIndexed {values : Nat → Option T} {start : Nat} {kept : List T}
    (holds : HoldsFrom values start kept) (low high : Nat) (within : high ≤ kept.length) :
    readIndexed values (start + low) (start + high) = .ok ((kept.drop low).take (high - low)) := by
  unfold Linera.Views.readIndexed
  rw [show start + high - (start + low) = high - low by omega]
  by_cases order : low ≤ high
  · refine Slice.mapM_range'_eq_ok kept start _ (fun index inside => ?_) low (high - low) (by omega)
    simp [holds index inside, List.getElem?_eq_getElem inside]
  · rw [show high - low = 0 by omega]
    rfl

end Indexed

/-- `LogView`, without its context and hash. -/
structure LogView (T : Type) where
  wasCleared : Bool
  storedCount : Nat
  newValues : List T

namespace LogView

/-- What a log stores: the count under the `Store` tag, and the values under `Index`. -/
structure Storage (T : Type) where
  count : Option Nat
  values : Nat → Option T

variable {T : Type}

/-- `load`: the count from the storage, nothing staged. -/
def load (storage : Storage T) : LogView T := ⟨false, storage.count.getD 0, []⟩

def rollback (view : LogView T) : LogView T := ⟨false, view.storedCount, []⟩

def clear (view : LogView T) : LogView T := ⟨true, view.storedCount, []⟩

def push (view : LogView T) (value : T) : LogView T :=
  { view with newValues := view.newValues ++ [value] }

def count (view : LogView T) : Nat :=
  if view.wasCleared then view.newValues.length else view.storedCount + view.newValues.length

/-- `flush`: a cleared view with stored values deletes the whole view, the count with it;
the staged values are then put after the stored ones, and the new count with them. -/
def flush (view : LogView T) (storage : Storage T) : LogView T × Storage T :=
  let (storedCount, storage) :=
    if view.wasCleared && 0 < view.storedCount then (0, (⟨none, fun _ => none⟩ : Storage T))
    else (view.storedCount, storage)
  if view.newValues.isEmpty then (⟨false, storedCount, []⟩, storage)
  else
    let (storedCount, values) := view.newValues.foldl putNext (storedCount, storage.values)
    (⟨false, storedCount, []⟩, ⟨some storedCount, values⟩)

def get (view : LogView T) (storage : Storage T) (index : Nat) : Option T :=
  if view.wasCleared then view.newValues[index]?
  else if index < view.storedCount then storage.values index
  else view.newValues[index - view.storedCount]?

/-- The first loop of `multi_get`, from position `pos` on: the staged values, a placeholder
for each stored one, and the index and position of each stored one. -/
def multiGetScan (view : LogView T) : Nat → List Nat → List (Option T) × List Nat × List Nat
  | _, [] => ([], [], [])
  | pos, index :: indices =>
      let (result, keys, positions) := multiGetScan view (pos + 1) indices
      if index < view.storedCount then (none :: result, index :: keys, pos :: positions)
      else (view.newValues[index - view.storedCount]? :: result, keys, positions)

/-- `multi_get`: the stored values are read together and put at their positions. -/
def multiGet (view : LogView T) (storage : Storage T) (indices : List Nat) : List (Option T) :=
  if view.wasCleared then indices.map fun index => view.newValues[index]?
  else
    let (result, keys, positions) := multiGetScan view 0 indices
    let values := keys.map storage.values
    (positions.zip values).foldl (fun result entry => result.set entry.1 entry.2) result

def readContext (storage : Storage T) (start stop : Nat) : Except ViewError (List T) :=
  readIndexed storage.values start stop

/-- The index at which `read` starts, for the lower end of its range. -/
def startIndex : Bound Nat → Nat
  | .included start => start
  | .excluded start => usizeSucc start
  | .unbounded => 0

/-- The index before which `read` stops, for the upper end of its range, before it is clamped
to the count. -/
def endIndex (count : Nat) : Bound Nat → Nat
  | .included stop => usizeSucc stop
  | .excluded stop => stop
  | .unbounded => count

/-- `read`, on the two ends of a `RangeBounds<usize>`. -/
def read (view : LogView T) (storage : Storage T) (range : Bound Nat × Bound Nat) :
    Except ViewError (List T) :=
  let effectiveStoredCount := if view.wasCleared then 0 else view.storedCount
  let stop := Nat.min (endIndex view.count range.2) view.count
  let start := startIndex range.1
  if stop ≤ start then .ok []
  else if start < effectiveStoredCount then
    if stop ≤ effectiveStoredCount then readContext storage start stop
    else do
      let values ← readContext storage start effectiveStoredCount
      .ok (values ++ view.newValues.take (stop - effectiveStoredCount))
  else .ok ((view.newValues.drop (start - effectiveStoredCount)).take (stop - start))

theorem holdsFrom_zero {values : Nat → Option T} {kept : List T} :
    HoldsFrom values 0 kept ↔ ∀ index, index < kept.length → values index = kept[index]? := by
  simp [HoldsFrom]

/-- The storage holds a vector: its count, and each of its values under its index. -/
structure Storage.Holds (storage : Storage T) (values : List T) : Prop where
  count : storage.count.getD 0 = values.length
  value : ∀ index, index < values.length → storage.values index = values[index]?

theorem flush_start_holds (view : LogView T) (storage : Storage T) (flushed : List T)
    (holds : storage.Holds flushed) (storedCount : view.storedCount = flushed.length) :
    let start := if view.wasCleared && 0 < view.storedCount then (0, (⟨none, fun _ => none⟩ : Storage T))
      else (view.storedCount, storage)
    let kept := if view.wasCleared then [] else flushed
    start.1 = kept.length ∧ start.2.Holds kept := by
  intro start kept
  by_cases cleared : view.wasCleared
  · by_cases stored : 0 < view.storedCount
    · simp only [start, kept, cleared, stored, if_true, Bool.true_and, decide_true]
      exact ⟨rfl, rfl, fun _ below => absurd below (Nat.not_lt_zero _)⟩
    · -- Nothing was stored: the storage holds the empty vector as it is.
      have empty : flushed = [] := List.eq_nil_of_length_eq_zero (by omega)
      subst empty
      simp only [start, kept, cleared, stored, if_true, Bool.true_and, decide_false, Bool.false_eq_true, if_false]
      exact ⟨by omega, holds⟩
  · simp [start, kept, cleared, holds, storedCount]

theorem flush_holds (view : LogView T) (storage : Storage T) (flushed : List T)
    (holds : storage.Holds flushed) (storedCount : view.storedCount = flushed.length) :
    let contents := (if view.wasCleared then [] else flushed) ++ view.newValues
    (view.flush storage).1 = ⟨false, contents.length, []⟩ ∧ (view.flush storage).2.Holds contents := by
  intro contents
  obtain ⟨startCount, startHolds⟩ := flush_start_holds view storage flushed holds storedCount
  unfold flush
  generalize (if view.wasCleared && 0 < view.storedCount then (0, (⟨none, fun _ => none⟩ : Storage T))
    else (view.storedCount, storage)) = start at startCount startHolds
  obtain ⟨count, store⟩ := start
  dsimp only at startCount startHolds ⊢
  by_cases empty : view.newValues = []
  · simp [contents, empty, startCount, startHolds]
  · -- The loop starts at the count of what is kept, so it writes right after it.
    have isEmpty : view.newValues.isEmpty = false := List.isEmpty_eq_false_iff.mpr empty
    obtain ⟨loopCount, loopValues⟩ :=
      foldl_putNext view.newValues (if view.wasCleared then [] else flushed) store.values 0
        (holdsFrom_zero.mpr startHolds.value)
    simp only [Nat.zero_add, ← startCount] at loopCount loopValues
    simp only [isEmpty, Bool.false_eq_true, if_false]
    exact ⟨by rw [loopCount], ⟨by simp [loopCount, contents], holdsFrom_zero.mp loopValues⟩⟩

/-- What the reads of a view see: the stored values it keeps, under their indices. -/
structure Reads (view : LogView T) (storage : Storage T) (kept : List T) : Prop where
  effective : (if view.wasCleared then 0 else view.storedCount) = kept.length
  stored : ∀ index, index < kept.length → storage.values index = kept[index]?

theorem Reads.count {view : LogView T} {storage : Storage T} {kept : List T}
    (reads : view.Reads storage kept) : view.count = kept.length + view.newValues.length := by
  have effective := reads.effective
  unfold LogView.count
  split_ifs at effective ⊢ <;> omega

theorem Reads.get {view : LogView T} {storage : Storage T} {kept : List T}
    (reads : view.Reads storage kept) (index : Nat) :
    view.get storage index = (kept ++ view.newValues)[index]? := by
  have effective := reads.effective
  unfold LogView.get
  split_ifs at effective ⊢ with cleared stored
  · have empty : kept = [] := List.eq_nil_of_length_eq_zero effective.symm
    simp [empty]
  · rw [reads.stored index (by omega), List.getElem?_append_left (by omega)]
  · rw [List.getElem?_append_right (by omega), effective]

/-- The first loop of `multi_get` leaves a placeholder at each stored index, and the second
fills it: started at a position with the earlier results in front, the two give the results
of `get`. -/
theorem multiGetScan_fill (view : LogView T) (storage : Storage T)
    (notCleared : view.wasCleared = false) (indices : List Nat) (pos : Nat)
    (front : List (Option T)) (placed : front.length = pos) :
    ((multiGetScan view pos indices).2.2.zip ((multiGetScan view pos indices).2.1.map storage.values)).foldl
        (fun result entry => result.set entry.1 entry.2) (front ++ (multiGetScan view pos indices).1) =
      front ++ indices.map (view.get storage) := by
  induction indices generalizing pos front with
  | nil => simp [multiGetScan]
  | cons index indices ih =>
    rcases scanned : multiGetScan view (pos + 1) indices with ⟨result, keys, positions⟩
    have rest := fun front placed => ih (pos + 1) front placed
    rw [scanned] at rest
    by_cases stored : index < view.storedCount
    · -- A stored index: the first write of the second loop fills position `pos`.
      have filled : (front ++ none :: result).set pos (storage.values index) =
          (front ++ [storage.values index]) ++ result := by
        rw [List.set_append_right _ _ (by omega), placed, Nat.sub_self]
        simp
      have value : view.get storage index = storage.values index := by
        simp [get, notCleared, stored]
      simp only [multiGetScan, scanned, stored, if_true, List.map_cons, List.zip_cons_cons,
        List.foldl_cons, filled]
      rw [rest _ (by simp [placed])]
      simp [value]
    · have value : view.get storage index = view.newValues[index - view.storedCount]? := by
        simp [get, notCleared, stored]
      simp only [multiGetScan, scanned, stored, if_false]
      rw [show front ++ view.newValues[index - view.storedCount]? :: result =
          (front ++ [view.newValues[index - view.storedCount]?]) ++ result by simp,
        rest _ (by simp [placed])]
      simp [value]

theorem multiGet_eq_map_get (view : LogView T) (storage : Storage T) (indices : List Nat) :
    view.multiGet storage indices = indices.map (view.get storage) := by
  unfold multiGet
  cases cleared : view.wasCleared
  · simpa using multiGetScan_fill view storage cleared indices 0 [] rfl
  · simp [get, cleared]

theorem Reads.readContext {view : LogView T} {storage : Storage T} {kept : List T}
    (reads : view.Reads storage kept) (start stop : Nat) (within : stop ≤ kept.length) :
    readContext storage start stop = .ok ((kept.drop start).take (stop - start)) := by
  have read := (holdsFrom_zero.mpr reads.stored).readIndexed start stop within
  simp only [Nat.zero_add] at read
  exact read

theorem Reads.stop_le {view : LogView T} {storage : Storage T} {kept : List T}
    (reads : view.Reads storage kept) (range : Bound Nat × Bound Nat) :
    Nat.min (endIndex view.count range.2) view.count ≤ kept.length + view.newValues.length := by
  rw [← reads.count]
  exact Nat.min_le_right _ _

/-- `read` returns the slice of the view's contents between the indices it computes. -/
theorem Reads.read {view : LogView T} {storage : Storage T} {kept : List T}
    (reads : view.Reads storage kept) (range : Bound Nat × Bound Nat) :
    view.read storage range =
      .ok (((kept ++ view.newValues).drop (startIndex range.1)).take
        (Nat.min (endIndex view.count range.2) view.count - startIndex range.1)) := by
  have bounded := reads.stop_le range
  have effective := reads.effective
  unfold LogView.read
  dsimp only
  rw [effective]
  generalize startIndex range.1 = start
  generalize Nat.min (endIndex view.count range.2) view.count = stop at bounded ⊢
  split_ifs with empty storedStart storedStop
  · rw [show stop - start = 0 by omega, List.take_zero]
  · -- The whole slice is stored.
    rw [reads.readContext start stop storedStop, List.drop_append_of_le_length (by omega),
      List.take_append_of_le_length (by simp; omega)]
  · -- The slice starts among the stored values and ends among the staged ones.
    have storedPart : (kept.drop start).take (kept.length - start) = kept.drop start :=
      List.take_of_length_le (by simp)
    have allStored : (kept.drop start).take (stop - start) = kept.drop start :=
      List.take_of_length_le (by simp; omega)
    rw [reads.readContext start kept.length le_rfl, storedPart,
      List.drop_append_of_le_length (by omega), List.take_append, allStored, List.length_drop,
      Except.ok_bind]
    congr 3
    omega
  · -- The slice lies among the staged values.
    have noneStored : kept.drop start = [] := List.drop_eq_nil_of_le (by omega)
    rw [List.drop_append, noneStored, List.nil_append]

/-- The values of a vector at the indices a range admits, in order: what a `Vec` gives for
the range. -/
def readRange (values : List T) (range : Bound Nat × Bound Nat) : List T :=
  ((List.range values.length).filter fun index =>
    range.1.admitsFrom index && range.2.admitsUpTo index).filterMap (values[·]?)

/-- A range whose ends `read` shifts by one without wrapping around: an excluded start and an
included end below `usize::MAX`. -/
def ShiftFits (range : Bound Nat × Bound Nat) : Prop :=
  (∀ start, range.1 = .excluded start → start + 1 < 2 ^ 64) ∧
    (∀ stop, range.2 = .included stop → stop + 1 < 2 ^ 64)

theorem admitsFrom_iff {lower : Bound Nat}
    (fits : ∀ start, lower = .excluded start → start + 1 < 2 ^ 64) (index : Nat) :
    lower.admitsFrom index = true ↔ startIndex lower ≤ index := by
  cases lower with
  | included start => simp [Bound.admitsFrom, startIndex]
  | excluded start =>
    have noWrap : usizeSucc start = start + 1 := Nat.mod_eq_of_lt (fits start rfl)
    simp only [Bound.admitsFrom, startIndex, noWrap, decide_eq_true_eq]
    omega
  | unbounded => simp [Bound.admitsFrom, startIndex]

theorem admitsUpTo_iff {upper : Bound Nat}
    (fits : ∀ stop, upper = .included stop → stop + 1 < 2 ^ 64) {count index : Nat}
    (below : index < count) :
    upper.admitsUpTo index = true ↔ index < endIndex count upper := by
  cases upper with
  | included stop =>
    have noWrap : usizeSucc stop = stop + 1 := Nat.mod_eq_of_lt (fits stop rfl)
    simp only [Bound.admitsUpTo, endIndex, noWrap, decide_eq_true_eq]
    omega
  | excluded stop => simp [Bound.admitsUpTo, endIndex]
  | unbounded => simp [Bound.admitsUpTo, endIndex, below]

theorem readRange_eq_slice (values : List T) {range : Bound Nat × Bound Nat}
    (fits : ShiftFits range) :
    readRange values range =
      (values.drop (startIndex range.1)).take
        (Nat.min (endIndex values.length range.2) values.length - startIndex range.1) := by
  unfold readRange
  rw [List.range_eq_range', Slice.filter_range'_eq _ (Nat.zero_le _)
    ((Nat.min_le_right (endIndex values.length range.2) values.length).trans_eq
      (Nat.zero_add _).symm)
    (fun index _ below => ?_),
    Slice.filterMap_getElem?_range']
  have inside : index < values.length := by omega
  rw [Bool.and_eq_true, admitsFrom_iff fits.1, admitsUpTo_iff fits.2 inside]
  simp [inside]

/-- The operations on a log view; `reload` is `load` from the storage. -/
inductive Operation (T : Type) where
  | push (value : T)
  | clear
  | rollback
  | flush
  | reload

/-- A view with the storage it reads. -/
structure State (T : Type) where
  view : LogView T
  storage : Storage T

def step (state : State T) : Operation T → State T
  | .push value => { state with view := state.view.push value }
  | .clear => { state with view := state.view.clear }
  | .rollback => { state with view := state.view.rollback }
  | .flush => ⟨(state.view.flush state.storage).1, (state.view.flush state.storage).2⟩
  | .reload => { state with view := load state.storage }

def run (state : State T) (operations : List (Operation T)) : State T :=
  operations.foldl step state

/-- A vector, and the vector as of the last flush. -/
structure Reference (T : Type) where
  current : List T
  flushed : List T

/-- The operations of a log, on a plain vector: a rollback or a reload goes back to the last
flush. -/
def Reference.step (reference : Reference T) : Operation T → Reference T
  | .push value => { reference with current := reference.current ++ [value] }
  | .clear => { reference with current := [] }
  | .rollback | .reload => { reference with current := reference.flushed }
  | .flush => { reference with flushed := reference.current }

def Reference.run (reference : Reference T) (operations : List (Operation T)) : Reference T :=
  operations.foldl Reference.step reference

/-- The view and its storage show the vector: the storage holds the vector as of the last
flush, and the view shows what it keeps of it, then the staged values. -/
structure Simulates (state : State T) (reference : Reference T) : Prop where
  holds : state.storage.Holds reference.flushed
  storedCount : state.view.storedCount = reference.flushed.length
  contents : (if state.view.wasCleared then [] else reference.flushed) ++ state.view.newValues =
    reference.current

theorem Simulates.reads {state : State T} {reference : Reference T}
    (simulates : Simulates state reference) :
    state.view.Reads state.storage (if state.view.wasCleared then [] else reference.flushed) where
  effective := by
    split
    · rfl
    · exact simulates.storedCount
  stored index below := by
    split at below
    · exact absurd below (Nat.not_lt_zero _)
    · simpa [*] using simulates.holds.value index below

theorem simulates_load (storage : Storage T) (flushed : List T) (holds : storage.Holds flushed) :
    Simulates ⟨load storage, storage⟩ ⟨flushed, flushed⟩ :=
  ⟨holds, holds.count, by simp [load]⟩

theorem Simulates.step {state : State T} {reference : Reference T}
    (simulates : Simulates state reference) (operation : Operation T) :
    Simulates (step state operation) (reference.step operation) := by
  obtain ⟨holds, storedCount, contents⟩ := simulates
  cases operation with
  | push value =>
    refine ⟨holds, storedCount, ?_⟩
    simp only [LogView.step, Reference.step, push, ← contents, List.append_assoc]
  | clear => exact ⟨holds, storedCount, by simp [LogView.step, Reference.step, clear]⟩
  | rollback => exact ⟨holds, storedCount, by simp [LogView.step, Reference.step, rollback]⟩
  | flush =>
    -- The storage now holds the vector, and the view keeps all of it as stored.
    obtain ⟨flushedView, flushedHolds⟩ := flush_holds state.view state.storage _ holds storedCount
    rw [contents] at flushedView flushedHolds
    refine ⟨flushedHolds, ?_, ?_⟩ <;> simp [LogView.step, Reference.step, flushedView]
  | reload =>
    exact ⟨holds, by simp [LogView.step, Reference.step, load, holds.count],
      by simp [LogView.step, Reference.step, load]⟩

theorem Simulates.run {state : State T} {reference : Reference T}
    (simulates : Simulates state reference) (operations : List (Operation T)) :
    Simulates (run state operations) (reference.run operations) := by
  induction operations generalizing state reference with
  | nil => exact simulates
  | cons operation operations ih => exact ih (simulates.step operation)

/-- A view that simulates a vector counts, gets and multi-gets as the vector, and reads every
range whose ends do not wrap around as the vector does. -/
theorem Simulates.observe {state : State T} {reference : Reference T}
    (simulates : Simulates state reference) :
    state.view.count = reference.current.length ∧
      (∀ index, state.view.get state.storage index = reference.current[index]?) ∧
      (∀ indices, state.view.multiGet state.storage indices =
        indices.map (reference.current[·]?)) ∧
      (∀ range, ShiftFits range →
        state.view.read state.storage range = .ok (readRange reference.current range)) := by
  have reads := simulates.reads
  have contents := simulates.contents
  have count : state.view.count = reference.current.length := by
    rw [reads.count, ← contents, List.length_append]
  refine ⟨count, fun index => ?_, fun indices => ?_, fun range fits => ?_⟩
  · rw [reads.get, contents]
  · rw [multiGet_eq_map_get]
    exact List.map_congr_left fun index _ => by rw [reads.get, contents]
  · rw [reads.read, readRange_eq_slice _ fits, contents, count]

/-- Over every run from a storage that holds a vector, the view observes as the vector the
same operations produce. -/
theorem run_observe (storage : Storage T) (flushed : List T) (holds : storage.Holds flushed)
    (operations : List (Operation T)) :
    let state := run ⟨load storage, storage⟩ operations
    let reference := (Reference.mk flushed flushed).run operations
    state.view.count = reference.current.length ∧
      (∀ index, state.view.get state.storage index = reference.current[index]?) ∧
      (∀ indices, state.view.multiGet state.storage indices =
        indices.map (reference.current[·]?)) ∧
      (∀ range, ShiftFits range →
        state.view.read state.storage range = .ok (readRange reference.current range)) :=
  ((simulates_load storage flushed holds).run operations).observe

/-- A log holding one value pushes one, flushes and pushes another. -/
theorem run_observe_after_flush :
    let storage : Storage Nat := ⟨some 1, fun index => if index = 0 then some 7 else none⟩
    let operations : List (Operation Nat) := [.push 8, .flush, .push 9]
    storage.Holds [7] ∧
      let state := run ⟨load storage, storage⟩ operations
      let reference := (Reference.mk [7] [7]).run operations
      state.view.count = reference.current.length ∧
        (∀ index, state.view.get state.storage index = reference.current[index]?) ∧
        (∀ indices, state.view.multiGet state.storage indices =
          indices.map (reference.current[·]?)) ∧
        (∀ range, ShiftFits range →
          state.view.read state.storage range = .ok (readRange reference.current range)) := by
  intro storage operations
  have holds : storage.Holds [7] := by
    refine ⟨rfl, fun index below => ?_⟩
    obtain rfl : index = 0 := by simpa using below
    rfl
  exact ⟨holds, run_observe storage [7] holds operations⟩

theorem read_wraps_at_usize_max :
    (let state := run (⟨load ⟨none, fun _ => none⟩, ⟨none, fun _ => none⟩⟩ : State Nat)
      [.push 7, .flush, .reload]
    let reference := (Reference.mk [] []).run [.push 7, .flush, .reload]
    state.view.read state.storage (.unbounded, .included (2 ^ 64 - 1)) = .ok [] ∧
      readRange reference.current (.unbounded, .included (2 ^ 64 - 1)) = [7] ∧
      state.view.read state.storage (.excluded (2 ^ 64 - 1), .unbounded) = .ok [7] ∧
      readRange reference.current (.excluded (2 ^ 64 - 1), .unbounded) = []) := by
  decide

end LogView

end Linera.Views
