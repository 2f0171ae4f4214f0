import Mathlib

set_option autoImplicit false

/-! Binary search over a slice, as `slice::binary_search_by` runs it.

The search keeps an interval `[left, right)` such that the test answers `Less` on every item
left of it and `Greater` on every item from its end on. It probes the middle of the interval,
returns `Ok` there when the test answers `Equal`, and returns `Err left` once the interval is
empty. When the test answers `Less`, then `Equal`, then `Greater` along the slice (the slice
is sorted for it), `Ok` points at an item the test answers `Equal`, and `Err` at the first item
it does not answer `Less`: where such an item would be inserted. -/

namespace BinarySearch

variable {α : Type}

/-- The loop of `binary_search_by` on the interval from `left` below `right`. -/
def searchBetween (items : List α) (f : α → Ordering) (left right : Nat)
    (bounded : right ≤ items.length) : Except Nat Nat :=
  if inside : left < right then
    let mid := left + (right - left) / 2
    have below : mid < items.length := by omega
    match f items[mid] with
    | .lt => searchBetween items f (mid + 1) right bounded
    | .gt => searchBetween items f left mid (by omega)
    | .eq => .ok mid
  else .error left
termination_by right - left

/-- `binary_search_by`: `Ok` with the index of an item the test answers `Equal`, or `Err` with
the index where such an item would go. -/
def binarySearchBy (items : List α) (f : α → Ordering) : Except Nat Nat :=
  searchBetween items f 0 items.length (Nat.le_refl _)

/-- The test sorts the items: it answers `Less` on a first part, `Greater` on a last part, and
`Equal` in between. -/
def SortedFor (items : List α) (f : α → Ordering) : Prop :=
  (items.map f).Pairwise fun earlier later =>
    (later = .lt → earlier = .lt) ∧ (earlier = .gt → later = .gt)

section Sorted

variable {items : List α} {f : α → Ordering}

theorem SortedFor.lt_of_le (sorted : SortedFor items f) {i j : Nat} (hi : i < items.length)
    (hj : j < items.length) (order : i ≤ j) (later : f items[j] = .lt) : f items[i] = .lt := by
  rcases Nat.eq_or_lt_of_le order with same | earlier
  · subst same
    exact later
  · have pair := List.pairwise_iff_getElem.mp sorted i j (by simpa using hi) (by simpa using hj)
      earlier
    simp only [List.getElem_map] at pair
    exact pair.1 later

theorem SortedFor.gt_of_le (sorted : SortedFor items f) {i j : Nat} (hi : i < items.length)
    (hj : j < items.length) (order : i ≤ j) (earlier : f items[i] = .gt) : f items[j] = .gt := by
  rcases Nat.eq_or_lt_of_le order with same | before
  · subst same
    exact earlier
  · have pair := List.pairwise_iff_getElem.mp sorted i j (by simpa using hi) (by simpa using hj)
      before
    simp only [List.getElem_map] at pair
    exact pair.2 earlier

/-- The loop keeps its invariant: `Less` left of the interval, `Greater` from its end on. When
it returns `Ok` the test answers `Equal` there; when it returns `Err` the index splits the
`Less` items from the `Greater` ones. -/
theorem searchBetween_spec (sorted : SortedFor items f) (left right : Nat)
    (bounded : right ≤ items.length) (ordered : left ≤ right)
    (low : ∀ i (h : i < items.length), i < left → f items[i] = .lt)
    (high : ∀ i (h : i < items.length), right ≤ i → f items[i] = .gt) :
    (∀ index, searchBetween items f left right bounded = .ok index →
      ∃ h : index < items.length, f items[index] = .eq) ∧
    (∀ index, searchBetween items f left right bounded = .error index →
      index ≤ items.length ∧ ∀ i (h : i < items.length),
        (i < index → f items[i] = .lt) ∧ (index ≤ i → f items[i] = .gt)) := by
  induction left, right, bounded using searchBetween.induct items f with
  | case1 left right bounded inside mid below probe ih =>
    -- The middle item answers `Less`: so does everything up to it.
    rw [searchBetween, dif_pos inside]
    simp only [show f items[left + (right - left) / 2] = .lt from probe]
    refine ih (by omega) (fun i h before => ?_) high
    exact sorted.lt_of_le h below (by omega) probe
  | case2 left right bounded inside mid below probe ih =>
    -- The middle item answers `Greater`: so does everything from it on.
    rw [searchBetween, dif_pos inside]
    simp only [show f items[left + (right - left) / 2] = .gt from probe]
    refine ih (by omega) low (fun i h after => ?_)
    exact sorted.gt_of_le below h after probe
  | case3 left right bounded inside mid below probe =>
    rw [searchBetween, dif_pos inside]
    simp only [show f items[left + (right - left) / 2] = .eq from probe]
    refine ⟨fun index found => ?_, fun index missing => nomatch missing⟩
    cases found
    exact ⟨below, probe⟩
  | case4 left right bounded empty =>
    rw [searchBetween, dif_neg empty]
    refine ⟨fun index found => (nomatch found), fun index missing => ?_⟩
    cases missing
    exact ⟨by omega, fun i h => ⟨low i h, fun after => high i h (by omega)⟩⟩

theorem binarySearchBy_ok (sorted : SortedFor items f) {index : Nat}
    (found : binarySearchBy items f = .ok index) :
    ∃ h : index < items.length, f items[index] = .eq :=
  (searchBetween_spec sorted 0 items.length (Nat.le_refl _) (Nat.zero_le _)
    (fun _ _ below => absurd below (Nat.not_lt_zero _))
    (fun _ h after => absurd h (Nat.not_lt.mpr after))).1 index found

theorem binarySearchBy_error (sorted : SortedFor items f) {index : Nat}
    (missing : binarySearchBy items f = .error index) :
    index ≤ items.length ∧ ∀ i (h : i < items.length),
      (i < index → f items[i] = .lt) ∧ (index ≤ i → f items[i] = .gt) :=
  (searchBetween_spec sorted 0 items.length (Nat.le_refl _) (Nat.zero_le _)
    (fun _ _ below => absurd below (Nat.not_lt_zero _))
    (fun _ h after => absurd h (Nat.not_lt.mpr after))).2 index missing

end Sorted

-- A slice strictly sorted by a key is sorted for the comparison of its keys with any key: the
-- search then finds a key exactly when it is there, and inserting an absent item where the
-- search points keeps the slice strictly sorted.

section Keyed

variable {K : Type} [LinearOrder K] (key : α → K) {items : List α}

theorem sortedFor_compare (sorted : items.Pairwise (key · < key ·)) (target : K) :
    SortedFor items fun item => compare (key item) target := by
  refine List.pairwise_map.mpr (sorted.imp fun {earlier later} below => ⟨fun later_lt => ?_,
    fun earlier_gt => ?_⟩)
  · rw [compare_lt_iff_lt] at later_lt ⊢
    exact lt_trans below later_lt
  · rw [compare_gt_iff_gt] at earlier_gt ⊢
    exact lt_trans earlier_gt below

theorem binarySearchBy_isOk_iff (sorted : items.Pairwise (key · < key ·)) (target : K) :
    (binarySearchBy items fun item => compare (key item) target).isOk = true ↔
      target ∈ items.map key := by
  have searched := sortedFor_compare key sorted target
  cases found : binarySearchBy items fun item => compare (key item) target with
  | ok index =>
    obtain ⟨inside, same⟩ := binarySearchBy_ok searched found
    rw [compare_eq_iff_eq] at same
    simp only [Except.isOk, Except.toBool, true_iff]
    exact List.mem_map.mpr ⟨items[index], List.getElem_mem inside, same⟩
  | error index =>
    obtain ⟨-, split⟩ := binarySearchBy_error searched found
    simp only [Except.isOk, Except.toBool, Bool.false_eq_true, false_iff]
    intro present
    obtain ⟨item, member, same⟩ := List.mem_map.mp present
    obtain ⟨position, inside, rfl⟩ := List.getElem_of_mem member
    by_cases before : position < index
    · have less := (split position inside).1 before
      rw [compare_lt_iff_lt, same] at less
      exact lt_irrefl _ less
    · have greater := (split position inside).2 (by omega)
      rw [compare_gt_iff_gt, same] at greater
      exact lt_irrefl _ greater

theorem insertIdx_eq_take_append_drop (item : α) :
    ∀ (items : List α) (index : Nat), index ≤ items.length →
      items.insertIdx index item = items.take index ++ item :: items.drop index
  | _, 0, _ => by simp
  | [], _ + 1, within => by simp at within
  | first :: rest, index + 1, within => by
    rw [List.insertIdx_succ_cons, insertIdx_eq_take_append_drop item rest index
      (by simpa using within)]
    rfl

theorem insertIdx_error_sorted (sorted : items.Pairwise (key · < key ·)) (item : α)
    {index : Nat} (missing : binarySearchBy items (fun other => compare (key other) (key item)) =
      .error index) :
    (items.insertIdx index item).Pairwise (key · < key ·) := by
  obtain ⟨within, split⟩ := binarySearchBy_error (sortedFor_compare key sorted (key item)) missing
  -- The items before the index are below the new one, those from it on above.
  have before : ∀ other ∈ items.take index, key other < key item := by
    intro other member
    obtain ⟨position, inside, rfl⟩ := List.mem_take_iff_getElem.mp member
    have less := (split position (by omega)).1 (by omega)
    rwa [compare_lt_iff_lt] at less
  have after : ∀ other ∈ items.drop index, key item < key other := by
    intro other member
    obtain ⟨position, inside, rfl⟩ := List.mem_drop_iff_getElem.mp member
    have greater := (split (index + position) (by omega)).2 (by omega)
    rwa [compare_gt_iff_gt] at greater
  have halves := List.pairwise_append.mp ((List.take_append_drop index items).symm ▸ sorted)
  rw [insertIdx_eq_take_append_drop item items index within, List.pairwise_append,
    List.pairwise_cons]
  refine ⟨halves.1, ⟨after, halves.2.1⟩, fun first firstMember second secondMember => ?_⟩
  rcases List.mem_cons.mp secondMember with rfl | later
  · exact before first firstMember
  · exact halves.2.2 first firstMember second later

theorem mergeSort_strictly_sorted (distinct : (items.map key).Nodup) :
    (items.mergeSort fun first second => decide (key first ≤ key second)).Pairwise
      (key · < key ·) := by
  have sorted : (items.mergeSort fun first second => decide (key first ≤ key second)).Pairwise
      (fun first second => decide (key first ≤ key second) = true) :=
    List.pairwise_mergeSort
      (fun _ _ _ first second => by simp only [decide_eq_true_eq] at *; exact le_trans first second)
      (fun first second => by simpa using le_total (key first) (key second)) items
  have apart : ((items.mergeSort fun first second => decide (key first ≤ key second)).map key).Nodup :=
    ((List.mergeSort_perm items _).map key).nodup_iff.mpr distinct
  refine (sorted.and (List.pairwise_map.mp apart)).imp fun ⟨le, ne⟩ => ?_
  exact lt_of_le_of_ne (by simpa using le) ne

end Keyed

end BinarySearch
