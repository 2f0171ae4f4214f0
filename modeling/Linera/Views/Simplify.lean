import Linera.Views.Memory

set_option autoImplicit false

/-! What `Batch::simplify` computes.

While `simplify` reads a batch it keeps a map of final updates per key and a set of
deleted prefixes. The state means: a key with an update takes it, any other key is
cleared when a deleted prefix covers it and keeps its old value otherwise. Each step
of the loop changes this meaning exactly as the operation it reads does, provided no
deleted prefix extends another one, and every step keeps that so. -/

namespace Linera.Views

/-- No element of the list is a prefix of another element. -/
def PrefixFree (prefixes : List Bytes) : Prop :=
  ∀ p ∈ prefixes, ∀ q ∈ prefixes, p <+: q → p = q

/-- Some element of the list is a prefix of the key. -/
def Covered (prefixes : List Bytes) (key : Bytes) : Prop :=
  ∃ p ∈ prefixes, p <+: key

instance (prefixes : List Bytes) (key : Bytes) : Decidable (Covered prefixes key) :=
  inferInstanceAs (Decidable (∃ p ∈ prefixes, p <+: key))

theorem mem_scanSet (set : OrdSet Bytes) (keyPrefix key : Bytes) :
    key ∈ scanSet set keyPrefix ↔ key ∈ set ∧ keyPrefix <+: key := by
  rw [scanSet, OrdSet.mem_range, ← inRange_getInterval_iff, inRange, Bool.and_eq_true]

/-- `get_upper_bound_option` has no bound exactly for the prefixes of `0xFF` bytes only, the
interval of `get_interval` holds exactly the keys that extend the prefix, and so the range
scans of `simplify` and of `KeyValueStoreView::delete_prefix`, over the set of deleted
prefixes and over the map of updates, select exactly the extensions of the prefix. -/
theorem prefix_interval_selects_extensions (keyPrefix : Bytes) :
    (getUpperBoundOption keyPrefix = none ↔ ∀ byte ∈ keyPrefix, byte = 255) ∧
    (∀ key, keyPrefix <+: key ↔ inRange (getInterval keyPrefix) key = true) ∧
    (∀ (set : OrdSet Bytes) key, key ∈ scanSet set keyPrefix ↔ key ∈ set ∧ keyPrefix <+: key) ∧
    (∀ {V : Type} (map : OrdMap Bytes V) key,
      key ∈ (scanMap map keyPrefix).map (·.1) ↔ (map.get key).isSome ∧ keyPrefix <+: key) := by
  refine ⟨getUpperBoundOption_eq_none_iff keyPrefix, ?_, ?_, ?_⟩
  · intro key
    exact (inRange_getInterval_iff keyPrefix key).symm
  · intro set key
    exact mem_scanSet set keyPrefix key
  · intro V map key
    exact mem_scanMap_keys map keyPrefix key

/-- `is_prefix_matched` finds a covering prefix exactly, on a prefix-free set. -/
theorem isPrefixMatched_iff (set : OrdSet Bytes) (key : Bytes)
    (prefixFree : PrefixFree set.elems) :
    isPrefixMatched set key = true ↔ Covered set.elems key := by
  unfold isPrefixMatched
  cases found : (set.range .unbounded (.included key)).getLast? with
  | none =>
      simp only [Bool.false_eq_true, false_iff]
      rintro ⟨p, mem, covers⟩
      have scanned : p ∈ set.range .unbounded (.included key) :=
        (OrdSet.mem_range _ _ _ _).mpr ⟨mem, rfl, by
          simpa [Bound.admitsUpTo] using Lexicographic.le_of_isPrefix covers⟩
      rw [List.getLast?_eq_none_iff.mp found] at scanned
      exact List.not_mem_nil scanned
  | some last =>
      obtain ⟨mem, below, greatest⟩ := (OrdSet.greatest_below set key last).mp found
      have matched : (if last.length > key.length then false else last == key.take last.length) =
          true ↔ last <+: key := by
        rw [List.prefix_iff_eq_take]
        by_cases longer : last.length > key.length
        · simp only [longer, if_true, Bool.false_eq_true, false_iff]
          intro equal
          have := congrArg List.length equal
          simp only [List.length_take] at this
          omega
        · simp only [longer, if_false, beq_iff_eq]
      rw [matched]
      constructor
      · exact fun covers => ⟨last, mem, covers⟩
      · rintro ⟨p, mem_p, covers⟩
        have below_last : p ≤ last := greatest p mem_p (Lexicographic.le_of_isPrefix covers)
        have p_last : p <+: last := Lexicographic.isPrefix_of_le_of_le covers below_last below
        exact prefixFree p mem_p last mem p_last ▸ covers

/-- The meaning of the state of `simplify` over the contents it will be applied to. -/
def denoteState (state : SimplifyState) (contents : Bytes → Option Bytes) :
    Bytes → Option Bytes := fun key =>
  (state.deleteAndInsertMap.get key).getD
    (if Covered state.deletePrefixSet.elems key then none else contents key)

theorem get_eraseScan {V : Type} (map : OrdMap Bytes V) (keyPrefix key : Bytes) :
    (map.eraseAll ((scanMap map keyPrefix).map (·.1))).get key =
      if keyPrefix <+: key then none else map.get key := by
  simp only [OrdMap.get_eraseAll, mem_scanMap_keys]
  by_cases inside : keyPrefix <+: key
  · cases map.get key <;> simp [inside]
  · simp [inside]

theorem mem_replacePrefixes (set : OrdSet Bytes) (keyPrefix key : Bytes) :
    key ∈ ((set.eraseAll (scanSet set keyPrefix)).insert keyPrefix).elems ↔
      key = keyPrefix ∨ key ∈ set ∧ ¬ keyPrefix <+: key := by
  change key ∈ (set.eraseAll _).insert keyPrefix ↔ _
  rw [OrdSet.mem_insert, OrdSet.mem_eraseAll, mem_scanSet]
  tauto

theorem prefixFree_replacePrefixes {set : OrdSet Bytes} {keyPrefix : Bytes}
    (prefixFree : PrefixFree set.elems) (uncovered : ¬ Covered set.elems keyPrefix) :
    PrefixFree ((set.eraseAll (scanSet set keyPrefix)).insert keyPrefix).elems := by
  intro p mem_p q mem_q p_q
  rw [mem_replacePrefixes] at mem_p mem_q
  rcases mem_p with rfl | ⟨old_p, outside_p⟩ <;> rcases mem_q with rfl | ⟨old_q, outside_q⟩
  · rfl
  · exact absurd p_q outside_q
  · exact absurd ⟨p, old_p, p_q⟩ uncovered
  · exact prefixFree p old_p q old_q p_q

theorem covered_replacePrefixes {set : OrdSet Bytes} {keyPrefix key : Bytes}
    (outside : ¬ keyPrefix <+: key) :
    Covered ((set.eraseAll (scanSet set keyPrefix)).insert keyPrefix).elems key ↔
      Covered set.elems key := by
  constructor
  · rintro ⟨p, mem, covers⟩
    rcases (mem_replacePrefixes set keyPrefix p).mp mem with rfl | ⟨old, -⟩
    · exact absurd covers outside
    · exact ⟨p, old, covers⟩
  · rintro ⟨p, old, covers⟩
    refine ⟨p, (mem_replacePrefixes set keyPrefix p).mpr (Or.inr ⟨old, fun extends_p => ?_⟩), covers⟩
    exact outside (extends_p.trans covers)

theorem simplifyStep_delete_of_covered {state : SimplifyState} {key : Bytes}
    (prefixFree : PrefixFree state.deletePrefixSet.elems)
    (covered : Covered state.deletePrefixSet.elems key) :
    simplifyStep state (.delete key) =
      { state with deleteAndInsertMap := state.deleteAndInsertMap.erase key } := by
  have matched := (isPrefixMatched_iff state.deletePrefixSet key prefixFree).mpr covered
  simp [simplifyStep, matched]

theorem simplifyStep_delete_of_uncovered {state : SimplifyState} {key : Bytes}
    (prefixFree : PrefixFree state.deletePrefixSet.elems)
    (uncovered : ¬ Covered state.deletePrefixSet.elems key) :
    simplifyStep state (.delete key) =
      { state with deleteAndInsertMap := state.deleteAndInsertMap.insert key none } := by
  have unmatched : isPrefixMatched state.deletePrefixSet key = false := by
    rw [← Bool.not_eq_true, isPrefixMatched_iff state.deletePrefixSet key prefixFree]
    exact uncovered
  simp [simplifyStep, unmatched]

theorem simplifyStep_deletePrefix_of_covered {state : SimplifyState} {keyPrefix : Bytes}
    (prefixFree : PrefixFree state.deletePrefixSet.elems)
    (covered : Covered state.deletePrefixSet.elems keyPrefix) :
    simplifyStep state (.deletePrefix keyPrefix) =
      { state with
        deleteAndInsertMap :=
          state.deleteAndInsertMap.eraseAll ((scanMap state.deleteAndInsertMap keyPrefix).map (·.1)) } := by
  have matched := (isPrefixMatched_iff state.deletePrefixSet keyPrefix prefixFree).mpr covered
  simp [simplifyStep, matched]

theorem simplifyStep_deletePrefix_of_uncovered {state : SimplifyState} {keyPrefix : Bytes}
    (prefixFree : PrefixFree state.deletePrefixSet.elems)
    (uncovered : ¬ Covered state.deletePrefixSet.elems keyPrefix) :
    simplifyStep state (.deletePrefix keyPrefix) =
      { deleteAndInsertMap := state.deleteAndInsertMap.eraseAll
          ((scanMap state.deleteAndInsertMap keyPrefix).map (·.1)),
        deletePrefixSet := (state.deletePrefixSet.eraseAll
          (scanSet state.deletePrefixSet keyPrefix)).insert keyPrefix } := by
  have unmatched : isPrefixMatched state.deletePrefixSet keyPrefix = false := by
    rw [← Bool.not_eq_true, isPrefixMatched_iff state.deletePrefixSet keyPrefix prefixFree]
    exact uncovered
  simp [simplifyStep, unmatched]

theorem prefixFree_simplifyStep {state : SimplifyState} (operation : WriteOperation)
    (prefixFree : PrefixFree state.deletePrefixSet.elems) :
    PrefixFree (simplifyStep state operation).deletePrefixSet.elems := by
  cases operation with
  | delete key =>
      by_cases covered : Covered state.deletePrefixSet.elems key
      · rw [simplifyStep_delete_of_covered prefixFree covered]
        exact prefixFree
      · rw [simplifyStep_delete_of_uncovered prefixFree covered]
        exact prefixFree
  | put key value => exact prefixFree
  | deletePrefix keyPrefix =>
      by_cases covered : Covered state.deletePrefixSet.elems keyPrefix
      · rw [simplifyStep_deletePrefix_of_covered prefixFree covered]
        exact prefixFree
      · rw [simplifyStep_deletePrefix_of_uncovered prefixFree covered]
        exact prefixFree_replacePrefixes prefixFree covered

/-- Each step of `simplify` changes the meaning of its state as the operation it reads
changes the contents. -/
theorem denoteState_simplifyStep {state : SimplifyState} (operation : WriteOperation)
    (prefixFree : PrefixFree state.deletePrefixSet.elems) (contents : Bytes → Option Bytes) :
    denoteState (simplifyStep state operation) contents =
      operation.apply (denoteState state contents) := by
  funext probe
  cases operation with
  | put key value =>
      by_cases hit : probe = key
      · simp [simplifyStep, denoteState, WriteOperation.apply, hit]
      · simp only [simplifyStep, denoteState, WriteOperation.apply, OrdMap.get_insert, hit,
          if_false, Function.update_of_ne hit]
        rfl
  | delete key =>
      by_cases covered : Covered state.deletePrefixSet.elems key
      · rw [simplifyStep_delete_of_covered prefixFree covered]
        by_cases hit : probe = key
        · subst hit
          simp [denoteState, WriteOperation.apply, covered]
        · simp [denoteState, WriteOperation.apply, hit]
      · rw [simplifyStep_delete_of_uncovered prefixFree covered]
        by_cases hit : probe = key <;> simp [denoteState, WriteOperation.apply, hit]
  | deletePrefix keyPrefix =>
      simp only [WriteOperation.apply]
      by_cases covered : Covered state.deletePrefixSet.elems keyPrefix
      · rw [simplifyStep_deletePrefix_of_covered prefixFree covered]
        by_cases inside : keyPrefix <+: probe
        · -- A shorter deleted prefix already clears every extension of this one.
          obtain ⟨shorter, mem, covers⟩ := covered
          have covered_probe : Covered state.deletePrefixSet.elems probe :=
            ⟨shorter, mem, covers.trans inside⟩
          simp only [denoteState, get_eraseScan]
          simp [inside, covered_probe]
        · simp only [denoteState, get_eraseScan]
          simp [inside]
      · rw [simplifyStep_deletePrefix_of_uncovered prefixFree covered]
        by_cases inside : keyPrefix <+: probe
        · have covered_probe : Covered
              ((state.deletePrefixSet.eraseAll (scanSet state.deletePrefixSet keyPrefix)).insert
                keyPrefix).elems probe :=
            ⟨keyPrefix, (mem_replacePrefixes _ _ _).mpr (Or.inl rfl), inside⟩
          simp only [denoteState, get_eraseScan]
          simp [inside, covered_probe]
        · simp only [denoteState, get_eraseScan]
          simp [inside, covered_replacePrefixes inside]

theorem denoteState_foldl (operations : List WriteOperation) (state : SimplifyState)
    (prefixFree : PrefixFree state.deletePrefixSet.elems) (contents : Bytes → Option Bytes) :
    PrefixFree (operations.foldl simplifyStep state).deletePrefixSet.elems ∧
      denoteState (operations.foldl simplifyStep state) contents =
        applyOperations (denoteState state contents) operations := by
  induction operations generalizing state with
  | nil => exact ⟨prefixFree, rfl⟩
  | cons operation rest ih =>
      obtain ⟨keeps, means⟩ := ih (simplifyStep state operation)
        (prefixFree_simplifyStep operation prefixFree)
      refine ⟨keeps, ?_⟩
      rw [List.foldl_cons, means, denoteState_simplifyStep operation prefixFree,
        applyOperations_cons]

end Linera.Views
