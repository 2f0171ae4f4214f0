import Linera.Lib.Except

set_option autoImplicit false

/-! Slices of a vector by an interval of indices.

The slice of `values` from `start` below `stop` is `(values.drop start).take (stop - start)`,
which is `values[start..stop]` when the interval lies inside the vector. Two ways to reach it
recur in views that store one value per index: picking the interval out of all indices with a
test on each index, and reading the values at the interval's indices one by one. -/

namespace Slice

variable {α ε : Type}

theorem filter_range'_eq (p : Nat → Bool) {first count start stop : Nat} (low : first ≤ start)
    (high : stop ≤ first + count)
    (admits : ∀ index, first ≤ index → index < first + count →
      (p index = true ↔ start ≤ index ∧ index < stop)) :
    (List.range' first count).filter p = List.range' start (stop - start) := by
  by_cases order : start ≤ stop
  · -- Cut the run at `start` and at `stop`; the test fails on the outer parts only.
    have cut : List.range' first count =
        List.range' first (start - first) ++
          (List.range' start (stop - start) ++ List.range' stop (first + count - stop)) := by
      have inner := @List.range'_append_1 start (stop - start) (first + count - stop)
      have outer := @List.range'_append_1 first (start - first) (first + count - start)
      rw [show start + (stop - start) = stop by omega,
        show stop - start + (first + count - stop) = first + count - start by omega] at inner
      rw [show first + (start - first) = start by omega,
        show start - first + (first + count - start) = count by omega] at outer
      rw [inner, outer]
    have before : (List.range' first (start - first)).filter p = [] := by
      refine List.filter_eq_nil_iff.mpr fun index mem admitted => ?_
      rw [List.mem_range'_1] at mem
      have := (admits index (by omega) (by omega)).mp admitted
      omega
    have within : (List.range' start (stop - start)).filter p = List.range' start (stop - start) := by
      refine List.filter_eq_self.mpr fun index mem => ?_
      rw [List.mem_range'_1] at mem
      exact (admits index (by omega) (by omega)).mpr (by omega)
    have after : (List.range' stop (first + count - stop)).filter p = [] := by
      refine List.filter_eq_nil_iff.mpr fun index mem admitted => ?_
      rw [List.mem_range'_1] at mem
      have := (admits index (by omega) (by omega)).mp admitted
      omega
    rw [cut, List.filter_append, List.filter_append, before, within, after]
    simp
  · -- An empty interval: no index passes.
    have empty : stop - start = 0 := by omega
    rw [empty, List.range'_zero, List.filter_eq_nil_iff]
    intro index mem admitted
    rw [List.mem_range'_1] at mem
    have := (admits index (by omega) (by omega)).mp admitted
    omega

theorem filterMap_getElem?_range' (values : List α) (start count : Nat) :
    (List.range' start count).filterMap (values[·]?) = (values.drop start).take count := by
  induction count generalizing start with
  | zero => simp
  | succ count ih =>
    rw [List.range'_succ, List.filterMap_cons]
    by_cases inside : start < values.length
    · rw [List.getElem?_eq_getElem inside, List.drop_eq_getElem_cons inside, ih]
      rfl
    · have past : values.length ≤ start := by omega
      rw [List.getElem?_eq_none past, ih, List.drop_eq_nil_of_le past,
        List.drop_eq_nil_of_le (by omega)]
      simp

theorem mapM_range'_eq_ok (values : List α) (base : Nat) (lookup : Nat → Except ε α)
    (found : ∀ index (inside : index < values.length), lookup (base + index) = .ok values[index])
    (start count : Nat) (within : start + count ≤ values.length) :
    (List.range' (base + start) count).mapM lookup = .ok ((values.drop start).take count) := by
  induction count generalizing start with
  | zero => rfl
  | succ count ih =>
    have inside : start < values.length := by omega
    rw [List.range'_succ, List.mapM_cons, found start inside, Except.ok_bind, Nat.add_assoc,
      ih (start + 1) (by omega), Except.ok_bind, List.drop_eq_getElem_cons inside]
    rfl

theorem rotateRight_append_length (front back : List α) :
    (front ++ back).rotateRight back.length = back ++ front := by
  unfold List.rotateRight
  dsimp only
  rw [List.length_append]
  by_cases short : front.length + back.length ≤ 1
  · -- At most one value: one of the two parts is empty.
    rw [if_pos short]
    by_cases emptyFront : front = []
    · simp [emptyFront]
    · have emptyBack : back = [] := List.eq_nil_of_length_eq_zero (by
        have := List.length_pos_iff.mpr emptyFront
        omega)
      simp [emptyBack]
  · rw [if_neg short]
    by_cases emptyFront : front = []
    · simp [emptyFront]
    · have shorter : back.length < front.length + back.length := by
        have := List.length_pos_iff.mpr emptyFront
        omega
      rw [Nat.mod_eq_of_lt shorter, Nat.add_sub_cancel, List.take_left, List.drop_left]

end Slice
