import Linera.Views.Simplify

set_option autoImplicit false

/-! Membership in a set of deleted prefixes (`NextLowerKeyIterator` in
`linera-views/src/key_value_store_view.rs`, `is_prefix_matched` in
`linera-views/src/batch.rs`).

Both tests look only at the greatest element of the set not above the key. On a set where no
element is a prefix of another this is enough: a prefix of the key that is not that greatest
element lies between it and the key, so it would be a prefix of the greatest element too.
`is_prefix_matched` finds the greatest element with a range scan. The iterator finds it by
walking the set once, keeping the last element read and the next one, which is correct only
while the keys it is asked about never decrease: what it has read so far is then exactly the
part of the set not above the last key. -/

namespace Linera.Views

/-- `NextLowerKeyIterator`: the last element read, the next one, and the rest of the set's
iterator. -/
structure NextLowerKeyIterator (T : Type) where
  prec1 : Option T
  prec2 : Option T
  iter : List T
  deriving DecidableEq, Repr

namespace NextLowerKeyIterator

variable {T : Type} [LinearOrder T]

/-- `NextLowerKeyIterator::new`: nothing read yet, the first element next. -/
def new (set : OrdSet T) : NextLowerKeyIterator T :=
  ⟨none, set.elems.head?, set.elems.tail⟩

/-- The loop of `get_lower_bound` once the next element `x` is found not above the value:
`x` becomes the last element read and the iterator gives the next one, until the next one is
above the value or the set runs out. -/
def advance (val x : T) : List T → Option T × NextLowerKeyIterator T
  | [] => (some x, ⟨some x, none, []⟩)
  | next :: rest => if next > val then (some x, ⟨some x, some next, rest⟩) else advance val next rest

/-- `get_lower_bound`: the last element read once every element not above the value is. -/
def getLowerBound (iterator : NextLowerKeyIterator T) (val : T) :
    Option T × NextLowerKeyIterator T :=
  match iterator.prec2 with
  | none => (iterator.prec1, iterator)
  | some x => if x > val then (iterator.prec1, iterator) else advance val x iterator.iter

/-- `is_index_present`: whether no element of the set is a prefix of the index, read off the
greatest element not above it. -/
def isIndexPresent (iterator : NextLowerKeyIterator Bytes) (index : Bytes) :
    Bool × NextLowerKeyIterator Bytes :=
  match iterator.getLowerBound index with
  | (none, iterator) => (true, iterator)
  | (some keyPrefix, iterator) =>
      if keyPrefix.length > index.length then (true, iterator)
      else (index.take keyPrefix.length != keyPrefix, iterator)

/-- The answers of `is_index_present` to indices asked in turn of one iterator, as the scans
of `KeyValueStoreView` ask them. -/
def answers (iterator : NextLowerKeyIterator Bytes) : List Bytes → List Bool
  | [] => []
  | index :: rest =>
      (iterator.isIndexPresent index).1 :: answers (iterator.isIndexPresent index).2 rest

section Reads

variable {T : Type} [LinearOrder T]

/-- The iterator has read `front`, an initial part of the set: `prec1` is the last element
read, `prec2` the next one and `iter` the others; once nothing is next, nothing is left. -/
structure Reads (elems front : List T) (iterator : NextLowerKeyIterator T) : Prop where
  last : iterator.prec1 = front.getLast?
  split : elems = front ++ iterator.prec2.toList ++ iterator.iter
  exhausted : iterator.prec2 = none → iterator.iter = []

theorem reads_new (set : OrdSet T) : Reads set.elems [] (new set) := by
  refine ⟨rfl, ?_, fun nothing => ?_⟩
  · simp only [new]
    cases set.elems <;> rfl
  · simp only [new, List.head?_eq_none_iff] at nothing
    simp [new, nothing]

theorem filter_le_eq_nil_of_lt {val x : T} {rest : List T} (sorted : (x :: rest).Pairwise (· < ·))
    (above : x > val) :
    (x :: rest).filter (· ≤ val) = [] := by
  refine List.filter_eq_nil_iff.mpr fun y member => ?_
  have : x ≤ y := by
    rcases List.mem_cons.mp member with rfl | after
    · exact le_refl _
    · exact le_of_lt ((List.pairwise_cons.mp sorted).1 y after)
  simpa using lt_of_lt_of_le above this

theorem advance_spec {val x : T} {rest : List T} (sorted : (x :: rest).Pairwise (· < ·))
    (below : x ≤ val) :
    ∃ remaining, x :: rest = (x :: rest).filter (· ≤ val) ++ remaining ∧
      advance val x rest = (((x :: rest).filter (· ≤ val)).getLast?,
        ⟨((x :: rest).filter (· ≤ val)).getLast?, remaining.head?, remaining.tail⟩) := by
  induction rest generalizing x with
  | nil =>
      refine ⟨[], ?_, ?_⟩ <;> simp [advance, below]
  | cons next rest ih =>
      obtain ⟨first, later⟩ := List.pairwise_cons.mp sorted
      by_cases above : next > val
      · -- Everything after `x` is above the value: the scan stops at `next`.
        have skipped := filter_le_eq_nil_of_lt later above
        refine ⟨next :: rest, ?_, ?_⟩
        · simp [below, skipped]
        · simp [advance, above, below, skipped]
      · obtain ⟨remaining, split, scanned⟩ := ih later (le_of_not_gt above)
        have kept : (next :: rest).filter (· ≤ val) ≠ [] := by
          simp [le_of_not_gt above]
        have readX : (x :: next :: rest).filter (· ≤ val) = x :: (next :: rest).filter (· ≤ val) :=
          List.filter_cons_of_pos (by simpa using below)
        refine ⟨remaining, ?_, ?_⟩
        · rw [readX, List.cons_append, ← split]
        · have attached : (x :: (next :: rest).filter (· ≤ val)).getLast? =
              ((next :: rest).filter (· ≤ val)).getLast? := by
            rw [← List.singleton_append, List.getLast?_append_of_ne_nil _ kept]
          rw [advance, if_neg above, scanned, readX, attached]

/-- One query whose value is not below anything read so far: the answer is the greatest
element not above the value, and everything not above it is read. -/
theorem getLowerBound_spec {elems front : List T} {iterator : NextLowerKeyIterator T} {val : T}
    (sorted : elems.Pairwise (· < ·)) (reads : Reads elems front iterator)
    (below : ∀ x ∈ front, x ≤ val) :
    (iterator.getLowerBound val).1 = (elems.filter (· ≤ val)).getLast? ∧
      Reads elems (elems.filter (· ≤ val)) (iterator.getLowerBound val).2 := by
  obtain ⟨last, split, exhausted⟩ := reads
  have readAll : front.filter (· ≤ val) = front := List.filter_eq_self.mpr fun x member => by
    simpa using below x member
  rcases next : iterator.prec2 with _ | x
  · -- The set is read to its end.
    have rest := exhausted next
    rw [next, rest] at split
    simp only [Option.toList_none, List.append_nil] at split
    subst split
    rw [readAll]
    simp only [getLowerBound, next]
    exact ⟨last, ⟨last, by rw [next, rest]; simp, exhausted⟩⟩
  rw [next, Option.toList_some, List.append_assoc, List.singleton_append] at split
  have halves := List.pairwise_append.mp (split ▸ sorted)
  by_cases above : x > val
  · -- The next element is above the value, and so is everything after it.
    have skipped := filter_le_eq_nil_of_lt halves.2.1 above
    have filtered : elems.filter (· ≤ val) = front := by
      rw [split, List.filter_append, readAll, skipped, List.append_nil]
    simp only [getLowerBound, next, above, if_true]
    rw [filtered]
    exact ⟨last, ⟨last, by rw [next, Option.toList_some, List.append_assoc]; exact split,
      exhausted⟩⟩
  · obtain ⟨remaining, parts, scanned⟩ := advance_spec halves.2.1 (le_of_not_gt above)
    have kept : (x :: iterator.iter).filter (· ≤ val) ≠ [] := by
      simp [le_of_not_gt above]
    have filtered : elems.filter (· ≤ val) = front ++ (x :: iterator.iter).filter (· ≤ val) := by
      rw [split, List.filter_append, readAll]
    simp only [getLowerBound, next, above, if_false, scanned]
    rw [filtered, List.getLast?_append_of_ne_nil _ kept]
    refine ⟨rfl, ⟨(List.getLast?_append_of_ne_nil _ kept).symm, ?_, fun nothing => ?_⟩⟩
    · calc elems = front ++ (x :: iterator.iter) := split
        _ = front ++ ((x :: iterator.iter).filter (· ≤ val) ++ remaining) :=
          congrArg (front ++ ·) parts
        _ = _ := by cases remaining <;> simp
    · simp only [List.head?_eq_none_iff] at nothing
      simp [nothing]

end Reads

theorem range_unbounded_included (set : OrdSet Bytes) (key : Bytes) :
    set.range .unbounded (.included key) = set.elems.filter (· ≤ key) := by
  simp [OrdSet.range, Bound.admitsFrom, Bound.admitsUpTo]

theorem isIndexPresent_spec {set : OrdSet Bytes} {front : List Bytes}
    {iterator : NextLowerKeyIterator Bytes} {index : Bytes} (reads : Reads set.elems front iterator)
    (below : ∀ x ∈ front, x ≤ index) :
    (iterator.isIndexPresent index).1 = !isPrefixMatched set index ∧
      Reads set.elems (set.elems.filter (· ≤ index)) (iterator.isIndexPresent index).2 := by
  obtain ⟨found, readsAfter⟩ := getLowerBound_spec set.sorted reads below
  unfold isIndexPresent isPrefixMatched
  rw [range_unbounded_included]
  rcases bound : iterator.getLowerBound index with ⟨_ | keyPrefix, next⟩
  · rw [bound] at found readsAfter
    rw [← found]
    exact ⟨rfl, readsAfter⟩
  · rw [bound] at found readsAfter
    dsimp only at found readsAfter
    rw [← found]
    dsimp only
    by_cases longer : keyPrefix.length > index.length
    · rw [if_pos longer, if_pos longer]
      exact ⟨rfl, readsAfter⟩
    · rw [if_neg longer, if_neg longer]
      refine ⟨?_, readsAfter⟩
      by_cases same : index.take keyPrefix.length = keyPrefix
      · rw [same]
        simp
      · have differs : (index.take keyPrefix.length != keyPrefix) = true := bne_iff_ne.mpr same
        have unmatched : (keyPrefix == index.take keyPrefix.length) = false :=
          beq_eq_false_iff_ne.mpr (Ne.symm same)
        rw [differs, unmatched]
        rfl

/-- Asked about indices that never decrease, the iterator answers each with the negation of
`is_prefix_matched`. -/
theorem answers_eq {set : OrdSet Bytes} {front : List Bytes} {iterator : NextLowerKeyIterator Bytes}
    (reads : Reads set.elems front iterator) {keys : List Bytes}
    (below : ∀ x ∈ front, ∀ key ∈ keys, x ≤ key) (sorted : keys.Pairwise (· ≤ ·)) :
    iterator.answers keys = keys.map fun key => !isPrefixMatched set key := by
  induction keys generalizing front iterator with
  | nil => rfl
  | cons key rest ih =>
      obtain ⟨first, later⟩ := List.pairwise_cons.mp sorted
      obtain ⟨answer, readsAfter⟩ :=
        isIndexPresent_spec reads fun x member => below x member key List.mem_cons_self
      -- What is read after `key` is not above it, so not above any later key.
      have belowLater : ∀ x ∈ set.elems.filter (· ≤ key), ∀ other ∈ rest, x ≤ other := by
        intro x member other later_member
        exact le_trans (by simpa using (List.mem_filter.mp member).2) (first other later_member)
      rw [answers, List.map_cons, answer, ih readsAfter belowLater later]

end NextLowerKeyIterator

/-- On a set of byte strings none of which is a prefix of another, `is_prefix_matched` finds
exactly the keys that some element is a prefix of, and one iterator, asked in turn about keys
that never decrease, answers each with whether no element is a prefix of it; and the loop of
`Batch::simplify` keeps its set of deleted prefixes free of prefixes of each other after
every operation. -/
theorem prefix_set_membership :
    (∀ (set : OrdSet Bytes) (key : Bytes), PrefixFree set.elems →
      (isPrefixMatched set key = true ↔ Covered set.elems key)) ∧
    (∀ (set : OrdSet Bytes) (keys : List Bytes), PrefixFree set.elems →
      keys.IsChain (· ≤ ·) →
      (NextLowerKeyIterator.new set).answers keys =
        keys.map fun key => !decide (Covered set.elems key)) ∧
    ∀ (operations : List WriteOperation) (count : Nat),
      PrefixFree ((operations.take count).foldl simplifyStep
        ⟨OrdMap.empty, OrdSet.empty⟩).deletePrefixSet.elems := by
  refine ⟨fun set key prefixFree => isPrefixMatched_iff set key prefixFree,
    fun set keys prefixFree increasing => ?_, fun operations count => ?_⟩
  · -- The iterator answers the negation of `is_prefix_matched`, which finds the covered keys.
    rw [NextLowerKeyIterator.answers_eq (NextLowerKeyIterator.reads_new set)
      (fun _ member => nomatch member) (List.isChain_iff_pairwise.mp increasing)]
    refine List.map_congr_left fun key _ => ?_
    by_cases covered : Covered set.elems key
    · rw [(isPrefixMatched_iff set key prefixFree).mpr covered]
      simp [covered]
    · have unmatched : isPrefixMatched set key = false := by
        rw [← Bool.not_eq_true, isPrefixMatched_iff set key prefixFree]
        exact covered
      simp [unmatched, covered]
  · have empty : PrefixFree (OrdSet.empty : OrdSet Bytes).elems := fun _ member => nomatch member
    exact (denoteState_foldl (operations.take count) _ empty fun _ => none).1

end Linera.Views
