import Mathlib

set_option autoImplicit false

/-! Weighted quorums.

Members carry weights, and a set of members reaches a threshold when its total weight
does. Two sets that each reach a quorum share members weighing at least twice the quorum
minus the total weight; when that exceeds the weight of the faulty members, the two sets
share a member that is not faulty. This is the intersection argument of every
Byzantine quorum system.

Votes that arrive one at a time are a list of members, and the weight of those that pass a
test is a sum over the list (`weightWhere`); without repetitions it is the sum over the set
they form. -/

namespace Quorum

open Finset

variable {V : Type} (weight : V → Nat)

section Intersections

variable [DecidableEq V]

/-- Two sets inside `members` that each weigh at least `quorum` share members weighing
at least `2 * quorum` minus the weight of `members`. -/
theorem two_mul_le_add_inter {members first second : Finset V} {quorum : Nat}
    (firstInside : first ⊆ members) (secondInside : second ⊆ members)
    (firstReaches : quorum ≤ ∑ v ∈ first, weight v)
    (secondReaches : quorum ≤ ∑ v ∈ second, weight v) :
    2 * quorum ≤ (∑ v ∈ members, weight v) + ∑ v ∈ first ∩ second, weight v := by
  have split : ∑ v ∈ first ∪ second, weight v + ∑ v ∈ first ∩ second, weight v =
      ∑ v ∈ first, weight v + ∑ v ∈ second, weight v :=
    sum_union_inter
  have union : ∑ v ∈ first ∪ second, weight v ≤ ∑ v ∈ members, weight v :=
    sum_le_sum_of_subset (union_subset firstInside secondInside)
  omega

theorem exists_not_mem_of_lt {chosen faulty : Finset V}
    (heavier : ∑ v ∈ faulty, weight v < ∑ v ∈ chosen, weight v) :
    ∃ v ∈ chosen, v ∉ faulty := by
  by_contra allFaulty
  push Not at allFaulty
  exact absurd (sum_le_sum_of_subset allFaulty) (not_le.mpr heavier)

/-- Two quorums share a member that is not faulty when twice the quorum exceeds the total
weight plus the weight of the faulty members. -/
theorem exists_honest_mem_inter {members first second faulty : Finset V} {quorum : Nat}
    (firstInside : first ⊆ members) (secondInside : second ⊆ members)
    (firstReaches : quorum ≤ ∑ v ∈ first, weight v)
    (secondReaches : quorum ≤ ∑ v ∈ second, weight v)
    (intersecting : (∑ v ∈ members, weight v) + ∑ v ∈ faulty, weight v < 2 * quorum) :
    ∃ v, v ∈ first ∧ v ∈ second ∧ v ∉ faulty := by
  have overlap := two_mul_le_add_inter weight firstInside secondInside firstReaches secondReaches
  obtain ⟨v, shared, honest⟩ := @exists_not_mem_of_lt V weight _ (first ∩ second) faulty
    (by omega)
  exact ⟨v, (mem_inter.mp shared).1, (mem_inter.mp shared).2, honest⟩

end Intersections

def weightWhere (members : List V) (test : V → Bool) : Nat :=
  ((members.filter test).map weight).sum

@[simp] theorem weightWhere_nil (test : V → Bool) : weightWhere weight [] test = 0 := rfl

theorem weightWhere_append (first second : List V) (test : V → Bool) :
    weightWhere weight (first ++ second) test =
      weightWhere weight first test + weightWhere weight second test := by
  simp [weightWhere, List.filter_append]

theorem weightWhere_singleton (member : V) (test : V → Bool) :
    weightWhere weight [member] test = if test member then weight member else 0 := by
  by_cases passes : test member = true <;> simp [weightWhere, passes]

theorem weightWhere_cons (member : V) (rest : List V) (test : V → Bool) :
    weightWhere weight (member :: rest) test =
      (if test member then weight member else 0) + weightWhere weight rest test := by
  rw [← List.singleton_append, weightWhere_append, weightWhere_singleton]

theorem weightWhere_mono {members : List V} {test weaker : V → Bool}
    (implies : ∀ v ∈ members, test v = true → weaker v = true) :
    weightWhere weight members test ≤ weightWhere weight members weaker := by
  induction members with
  | nil => exact le_refl 0
  | cons member rest ih =>
      rw [weightWhere_cons, weightWhere_cons]
      have restLe := ih fun v mem => implies v (List.mem_cons_of_mem _ mem)
      by_cases passes : test member = true
      · rw [if_pos passes, if_pos (implies member List.mem_cons_self passes)]
        omega
      · rw [if_neg passes]
        omega

theorem weightWhere_add_le {members : List V} {first second : V → Bool}
    (disjoint : ∀ v ∈ members, first v = true → second v = false) :
    weightWhere weight members first + weightWhere weight members second ≤
      weightWhere weight members fun _ => true := by
  induction members with
  | nil => exact le_refl 0
  | cons member rest ih =>
      rw [weightWhere_cons, weightWhere_cons, weightWhere_cons, if_pos rfl]
      have restLe := ih fun v mem => disjoint v (List.mem_cons_of_mem _ mem)
      by_cases passes : first member = true
      · rw [if_pos passes, disjoint member List.mem_cons_self passes]
        simp only [Bool.false_eq_true, if_false]
        omega
      · rw [if_neg passes]
        split <;> omega

theorem weightWhere_eq_sum [DecidableEq V] {members : List V} (distinct : members.Nodup) (test : V → Bool) :
    weightWhere weight members test = ∑ v ∈ (members.filter test).toFinset, weight v :=
  (List.sum_toFinset weight (distinct.filter test)).symm

theorem weightWhere_le_sum [DecidableEq V] {members : List V} {inside : Finset V} (distinct : members.Nodup)
    (within : ∀ v ∈ members, v ∈ inside) (test : V → Bool) :
    weightWhere weight members test ≤ ∑ v ∈ inside, weight v := by
  rw [weightWhere_eq_sum weight distinct]
  refine Finset.sum_le_sum_of_subset fun v mem => within v ?_
  exact (List.mem_filter.mp (List.mem_toFinset.mp mem)).1

theorem sum_le_weightWhere [DecidableEq V] {members : List V} {chosen : Finset V} (distinct : members.Nodup)
    {test : V → Bool} (contains : ∀ v ∈ chosen, v ∈ members ∧ test v = true) :
    ∑ v ∈ chosen, weight v ≤ weightWhere weight members test := by
  rw [weightWhere_eq_sum weight distinct]
  refine Finset.sum_le_sum_of_subset fun v mem => ?_
  exact List.mem_toFinset.mpr (List.mem_filter.mpr (contains v mem))

theorem toNat_sum (words : List UInt64) :
    words.sum.toNat = (words.map UInt64.toNat).sum % 2 ^ 64 := by
  induction words with
  | nil => rfl
  | cons word rest ih =>
      rw [List.sum_cons, UInt64.toNat_add, ih, List.map_cons, List.sum_cons, Nat.add_mod_mod]

theorem toNat_add_le (first second : UInt64) : (first + second).toNat ≤ first.toNat + second.toNat := by
  rw [UInt64.toNat_add]
  exact Nat.mod_le _ _

theorem toNat_add_of_lt {first second : UInt64} (small : first.toNat + second.toNat < 2 ^ 64) :
    (first + second).toNat = first.toNat + second.toNat := by
  rw [UInt64.toNat_add, Nat.mod_eq_of_lt small]

theorem toNat_max (first second : UInt64) :
    (max first second).toNat = max first.toNat second.toNat := by
  change (if first ≤ second then second else first).toNat = _
  split
  · next le => rw [max_eq_right (UInt64.le_iff_toNat_le.mp le)]
  · next gt => rw [max_eq_left (Nat.le_of_lt (UInt64.lt_iff_toNat_lt.mp (UInt64.not_le.mp gt)))]

theorem toNat_finsetSum {α : Type} (members : Finset α) (word : α → UInt64) :
    (∑ v ∈ members, word v).toNat = (∑ v ∈ members, (word v).toNat) % 2 ^ 64 := by
  classical
  induction members using Finset.induction_on with
  | empty => rfl
  | insert member members fresh ih =>
      rw [Finset.sum_insert fresh, Finset.sum_insert fresh, UInt64.toNat_add, ih, Nat.add_mod_mod]

end Quorum
