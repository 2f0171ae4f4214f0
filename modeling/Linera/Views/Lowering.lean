import Linera.Lib.Except
import Linera.Views.Simplify

set_option autoImplicit false

/-! Lowering a batch to prefix deletions, deletions and insertions.

A lowered batch is applied as its prefix deletions first, then its deletions and
insertions in any order. That order is free because no key is both deleted and
inserted and no key is inserted twice, so the point operations commute. The
results below say that `simplify`, and each of the two expanders after it, lowers
a batch without changing what it does to a memory store. -/

namespace Linera.Views

/-- The deletions and insertions of a lowered batch, as operations. -/
def pointOperations (batch : SimpleUnorderedBatch) : List WriteOperation :=
  batch.deletions.map .delete ++ batch.insertions.map (fun entry => .put entry.1 entry.2)

/-- A lowered batch does to `map` what `batch` does, however its deletions and
insertions are ordered; its prefix deletions are free of prefixes of each other, and no
key is both deleted and inserted, or inserted twice. -/
structure Lowering (map : MemoryStoreMap) (batch : Batch) (lowered : UnorderedBatch) : Prop where
  prefixFree : PrefixFree lowered.keyPrefixDeletions
  disjoint : ∀ key ∈ lowered.simpleUnorderedBatch.deletions,
    key ∉ lowered.simpleUnorderedBatch.insertions.map (·.1)
  nodup : (lowered.simpleUnorderedBatch.insertions.map (·.1)).Nodup
  anyOrder : ∀ operations : List WriteOperation,
    operations.Perm (pointOperations lowered.simpleUnorderedBatch) →
      MemoryClient.writeBatch map
          ⟨lowered.keyPrefixDeletions.map .deletePrefix ++ operations⟩ =
        MemoryClient.writeBatch map batch

theorem applyOperations_deletePrefixes (contents : Bytes → Option Bytes)
    (prefixes : List Bytes) :
    applyOperations contents (prefixes.map .deletePrefix) =
      fun key => if Covered prefixes key then none else contents key := by
  induction prefixes generalizing contents with
  | nil => funext key; simp [Covered]
  | cons keyPrefix rest ih =>
      funext key
      simp only [List.map_cons, applyOperations_cons, ih, WriteOperation.apply]
      by_cases inside : keyPrefix <+: key
      · have covered : Covered (keyPrefix :: rest) key := ⟨keyPrefix, List.mem_cons_self, inside⟩
        simp [inside, covered]
      · have same : Covered (keyPrefix :: rest) key ↔ Covered rest key := by
          simp [Covered, inside]
        by_cases covered : Covered rest key <;> simp [inside, covered, same]

theorem applyOperations_deletes (contents : Bytes → Option Bytes) (keys : List Bytes) :
    applyOperations contents (keys.map .delete) =
      fun key => if key ∈ keys then none else contents key := by
  induction keys generalizing contents with
  | nil => rfl
  | cons deleted rest ih =>
      funext key
      simp only [List.map_cons, applyOperations_cons, ih, WriteOperation.apply, List.mem_cons]
      by_cases hit : key = deleted <;> by_cases later : key ∈ rest <;> simp [hit, later]

theorem applyOperations_puts_of_not_mem (contents : Bytes → Option Bytes)
    (insertions : List (Bytes × Bytes)) {key : Bytes}
    (absent : key ∉ insertions.map (·.1)) :
    applyOperations contents (insertions.map (fun entry => .put entry.1 entry.2)) key =
      contents key := by
  induction insertions generalizing contents with
  | nil => rfl
  | cons entry rest ih =>
      simp only [List.map_cons, List.mem_cons, not_or] at absent
      simp only [List.map_cons, applyOperations_cons, ih _ absent.2, WriteOperation.apply]
      exact Function.update_of_ne absent.1 _ _

theorem applyOperations_puts_of_mem (contents : Bytes → Option Bytes)
    (insertions : List (Bytes × Bytes)) (nodup : (insertions.map (·.1)).Nodup)
    {key value : Bytes} (mem : (key, value) ∈ insertions) :
    applyOperations contents (insertions.map (fun entry => .put entry.1 entry.2)) key =
      some value := by
  induction insertions generalizing contents with
  | nil => exact absurd mem List.not_mem_nil
  | cons entry rest ih =>
      simp only [List.map_cons, List.nodup_cons] at nodup
      simp only [List.map_cons, applyOperations_cons]
      rcases List.mem_cons.mp mem with rfl | later
      · rw [applyOperations_puts_of_not_mem _ _ nodup.1]
        exact Function.update_self _ _ _
      · exact ih _ nodup.2 later

theorem apply_comm_of_compatible (contents : Bytes → Option Bytes)
    (first second : WriteOperation)
    (compatible : first = second ∨ (∃ key key', first = .delete key ∧ second = .delete key') ∨
      ∃ key key', key ≠ key' ∧ (first = .delete key ∨ ∃ value, first = .put key value) ∧
        (second = .delete key' ∨ ∃ value', second = .put key' value')) :
    second.apply (first.apply contents) = first.apply (second.apply contents) := by
  rcases compatible with rfl | ⟨key, key', rfl, rfl⟩ | ⟨key, key', apart, first_is, second_is⟩
  · rfl
  · by_cases same : key = key'
    · subst same
      rfl
    · exact Function.update_comm same _ _ _
  · rcases first_is with rfl | ⟨value, rfl⟩ <;> rcases second_is with rfl | ⟨value', rfl⟩ <;>
      exact Function.update_comm apart _ _ _

/-- The deletions and insertions of a lowered batch can be applied in any order. -/
theorem applyOperations_perm (contents : Bytes → Option Bytes) (batch : SimpleUnorderedBatch)
    (disjoint : ∀ key ∈ batch.deletions, key ∉ batch.insertions.map (·.1))
    (nodup : (batch.insertions.map (·.1)).Nodup) (operations : List WriteOperation)
    (perm : operations.Perm (pointOperations batch)) :
    applyOperations contents operations = applyOperations contents (pointOperations batch) := by
  refine perm.foldl_eq' (fun first mem_first second mem_second current => ?_) contents
  have same_entry : ∀ entry ∈ batch.insertions, ∀ entry' ∈ batch.insertions,
      entry.1 = entry'.1 → entry = entry' :=
    List.inj_on_of_nodup_map nodup
  rw [perm.mem_iff, pointOperations, List.mem_append, List.mem_map, List.mem_map] at mem_first mem_second
  apply apply_comm_of_compatible
  rcases mem_first with ⟨key, deleted, rfl⟩ | ⟨⟨key, value⟩, inserted, rfl⟩ <;>
    rcases mem_second with ⟨key', deleted', rfl⟩ | ⟨⟨key', value'⟩, inserted', rfl⟩
  · exact Or.inr (Or.inl ⟨key, key', rfl, rfl⟩)
  · refine Or.inr (Or.inr ⟨key, key', fun same => ?_, Or.inl rfl, Or.inr ⟨value', rfl⟩⟩)
    exact disjoint key deleted (same ▸ List.mem_map.mpr ⟨(key', value'), inserted', rfl⟩)
  · refine Or.inr (Or.inr ⟨key, key', fun same => ?_, Or.inr ⟨value, rfl⟩, Or.inl rfl⟩)
    exact disjoint key' deleted' (same ▸ List.mem_map.mpr ⟨(key, value), inserted, rfl⟩)
  · by_cases same : key = key'
    · have equal := same_entry _ inserted _ inserted' same
      simp only [Prod.mk.injEq] at equal
      rw [equal.1, equal.2]
      exact Or.inl rfl
    · exact Or.inr (Or.inr ⟨key, key', same, Or.inr ⟨value, rfl⟩, Or.inr ⟨value', rfl⟩⟩)

theorem applyOperations_lowered_of_inserted (contents : Bytes → Option Bytes)
    (lowered : UnorderedBatch)
    (nodup : (lowered.simpleUnorderedBatch.insertions.map (·.1)).Nodup) {key value : Bytes}
    (inserted : (key, value) ∈ lowered.simpleUnorderedBatch.insertions) :
    applyOperations contents (lowered.keyPrefixDeletions.map .deletePrefix ++
        pointOperations lowered.simpleUnorderedBatch) key = some value := by
  rw [pointOperations, ← List.append_assoc, applyOperations_append]
  exact applyOperations_puts_of_mem _ _ nodup inserted

theorem applyOperations_lowered_of_not_inserted (contents : Bytes → Option Bytes)
    (lowered : UnorderedBatch) {key : Bytes}
    (absent : key ∉ lowered.simpleUnorderedBatch.insertions.map (·.1)) :
    applyOperations contents (lowered.keyPrefixDeletions.map .deletePrefix ++
        pointOperations lowered.simpleUnorderedBatch) key =
      if key ∈ lowered.simpleUnorderedBatch.deletions then none
      else if Covered lowered.keyPrefixDeletions key then none
      else contents key := by
  rw [pointOperations, ← List.append_assoc, applyOperations_append,
    applyOperations_puts_of_not_mem _ _ absent, applyOperations_append,
    applyOperations_deletePrefixes, applyOperations_deletes]

theorem applyOperations_lowered_congr (contents : Bytes → Option Bytes)
    (first second : UnorderedBatch)
    (same_insertions :
      first.simpleUnorderedBatch.insertions = second.simpleUnorderedBatch.insertions)
    (nodup : (first.simpleUnorderedBatch.insertions.map (·.1)).Nodup)
    (cleared : ∀ key ∉ first.simpleUnorderedBatch.insertions.map (·.1),
      (contents key).isSome →
        (key ∈ first.simpleUnorderedBatch.deletions ∨ Covered first.keyPrefixDeletions key ↔
          key ∈ second.simpleUnorderedBatch.deletions ∨ Covered second.keyPrefixDeletions key)) :
    applyOperations contents (first.keyPrefixDeletions.map .deletePrefix ++
        pointOperations first.simpleUnorderedBatch) =
      applyOperations contents (second.keyPrefixDeletions.map .deletePrefix ++
        pointOperations second.simpleUnorderedBatch) := by
  funext key
  by_cases inserted : key ∈ first.simpleUnorderedBatch.insertions.map (·.1)
  · obtain ⟨⟨key, value⟩, mem, rfl⟩ := List.mem_map.mp inserted
    rw [applyOperations_lowered_of_inserted _ _ nodup mem,
      applyOperations_lowered_of_inserted _ _ (same_insertions ▸ nodup) (same_insertions ▸ mem)]
  · rw [applyOperations_lowered_of_not_inserted _ _ inserted,
      applyOperations_lowered_of_not_inserted _ _ (same_insertions ▸ inserted),
      ← ite_or, ← ite_or]
    -- A key the store does not hold ends up absent whether it is cleared or not.
    cases stored : contents key with
    | none => simp
    | some value => exact if_congr (cleared key inserted (by simp [stored])) rfl rfl

/-- A lowering is a batch with the meaning of the original one, whose prefix deletions
are prefix-free and whose deletions and insertions are disjoint, one per key. -/
theorem lowering_of_applyOperations (map : MemoryStoreMap) (batch : Batch)
    (lowered : UnorderedBatch) (prefixFree : PrefixFree lowered.keyPrefixDeletions)
    (disjoint : ∀ key ∈ lowered.simpleUnorderedBatch.deletions,
      key ∉ lowered.simpleUnorderedBatch.insertions.map (·.1))
    (nodup : (lowered.simpleUnorderedBatch.insertions.map (·.1)).Nodup)
    (means : applyOperations map.get (lowered.keyPrefixDeletions.map .deletePrefix ++
        pointOperations lowered.simpleUnorderedBatch) = applyOperations map.get batch.operations) :
    Lowering map batch lowered where
  prefixFree := prefixFree
  disjoint := disjoint
  nodup := nodup
  anyOrder operations perm := by
    apply writeBatch_eq_of_applyOperations
    rw [← means, applyOperations_append, applyOperations_append,
      applyOperations_perm _ _ disjoint nodup operations perm]

theorem foldl_splitEntry (entries : List ((_ : Bytes) × Option Bytes))
    (batch : SimpleUnorderedBatch) :
    entries.foldl splitEntry batch =
      ⟨batch.deletions ++ entries.filterMap (fun entry => if entry.2 = none then some entry.1 else none),
        batch.insertions ++ entries.filterMap (fun entry => entry.2.map (entry.1, ·))⟩ := by
  induction entries generalizing batch with
  | nil => simp
  | cons entry rest ih =>
      obtain ⟨key, value⟩ := entry
      cases value <;> simp [splitEntry, ih]

theorem mem_splitEntries_deletions (map : OrdMap Bytes (Option Bytes)) (key : Bytes) :
    key ∈ (splitEntries map.entries).deletions ↔ map.get key = some none := by
  rw [splitEntries, foldl_splitEntry, ← OrdMap.mem_entries_iff]
  simp only [List.nil_append, List.mem_filterMap, Option.ite_none_right_eq_some,
    Option.some.injEq]
  constructor
  · rintro ⟨⟨found, value⟩, mem, cleared, rfl⟩
    exact cleared ▸ mem
  · exact fun mem => ⟨_, mem, rfl, rfl⟩

theorem mem_splitEntries_insertions (map : OrdMap Bytes (Option Bytes)) (key value : Bytes) :
    (key, value) ∈ (splitEntries map.entries).insertions ↔ map.get key = some (some value) := by
  rw [splitEntries, foldl_splitEntry, ← OrdMap.mem_entries_iff]
  simp only [List.nil_append, List.mem_filterMap, Option.map_eq_some_iff, Prod.mk.injEq]
  constructor
  · rintro ⟨⟨found, stored⟩, mem, written, written_eq, rfl, rfl⟩
    exact written_eq ▸ mem
  · exact fun mem => ⟨_, mem, value, rfl, rfl, rfl⟩

theorem splitEntries_insertions_nodup (map : OrdMap Bytes (Option Bytes)) :
    ((splitEntries map.entries).insertions.map (·.1)).Nodup := by
  rw [splitEntries, foldl_splitEntry, List.nil_append]
  -- The insertions keep the increasing key order of the entries they come from.
  have increasing : (map.entries.filterMap (fun entry => entry.2.map (entry.1, ·))).Pairwise
      (fun first second => first.1 < second.1) :=
    List.Pairwise.filterMap _ (fun entry entry' below inserted written inserted' written' => by
      obtain ⟨_, -, rfl⟩ := Option.map_eq_some_iff.mp written
      obtain ⟨_, -, rfl⟩ := Option.map_eq_some_iff.mp written'
      exact below) map.sorted
  exact (List.pairwise_map.mpr increasing).imp ne_of_lt

theorem simplify_prefixFree (batch : Batch) : PrefixFree batch.simplify.keyPrefixDeletions :=
  (denoteState_foldl batch.operations ⟨OrdMap.empty, OrdSet.empty⟩
    (fun _ absent => absurd absent List.not_mem_nil) (fun _ => none)).1

theorem simplify_disjoint (batch : Batch) :
    ∀ key ∈ batch.simplify.simpleUnorderedBatch.deletions,
      key ∉ batch.simplify.simpleUnorderedBatch.insertions.map (·.1) := by
  intro key deleted inserted
  obtain ⟨⟨key, value⟩, mem, rfl⟩ := List.mem_map.mp inserted
  have cleared := (mem_splitEntries_deletions _ key).mp deleted
  rw [(mem_splitEntries_insertions _ key value).mp mem] at cleared
  simp at cleared

/-- The lowered form of `simplify` means what the batch does, on any contents. -/
theorem applyOperations_simplify (contents : Bytes → Option Bytes) (batch : Batch) :
    applyOperations contents (batch.simplify.keyPrefixDeletions.map .deletePrefix ++
        pointOperations batch.simplify.simpleUnorderedBatch) =
      applyOperations contents batch.operations := by
  obtain ⟨-, means⟩ := denoteState_foldl batch.operations ⟨OrdMap.empty, OrdSet.empty⟩
    (fun _ absent => absurd absent List.not_mem_nil) contents
  have initial : denoteState ⟨OrdMap.empty, OrdSet.empty⟩ contents = contents := by
    funext key
    simp [denoteState, Covered, OrdSet.empty]
  rw [initial] at means
  rw [← means]
  funext key
  -- Read the final entry of the key off the map that the split comes from.
  rcases entry : (batch.operations.foldl simplifyStep
      ⟨OrdMap.empty, OrdSet.empty⟩).deleteAndInsertMap.get key with _ | (_ | value)
  · have absent : key ∉ batch.simplify.simpleUnorderedBatch.insertions.map (·.1) := by
      intro inserted
      obtain ⟨⟨key, value⟩, mem, rfl⟩ := List.mem_map.mp inserted
      rw [(mem_splitEntries_insertions _ key value).mp mem] at entry
      simp at entry
    have kept : key ∉ batch.simplify.simpleUnorderedBatch.deletions := by
      intro deleted
      rw [(mem_splitEntries_deletions _ key).mp deleted] at entry
      simp at entry
    rw [applyOperations_lowered_of_not_inserted _ _ absent, if_neg kept]
    simp only [denoteState, entry, Option.getD_none]
    rfl
  · have deleted : key ∈ batch.simplify.simpleUnorderedBatch.deletions :=
      (mem_splitEntries_deletions _ key).mpr entry
    rw [applyOperations_lowered_of_not_inserted _ _ (simplify_disjoint batch key deleted),
      if_pos deleted]
    simp [denoteState, entry]
  · rw [applyOperations_lowered_of_inserted _ _ (splitEntries_insertions_nodup _)
      ((mem_splitEntries_insertions _ key value).mpr entry)]
    simp [denoteState, entry]

theorem simplify_lowering (map : MemoryStoreMap) (batch : Batch) :
    Lowering map batch batch.simplify :=
  lowering_of_applyOperations map batch _ (simplify_prefixFree batch) (simplify_disjoint batch)
    (splitEntries_insertions_nodup _) (applyOperations_simplify map.get batch)

theorem Lowering.applyOperations_eq {map : MemoryStoreMap} {batch : Batch}
    {lowered : UnorderedBatch} (lowering : Lowering map batch lowered) :
    applyOperations map.get (lowered.keyPrefixDeletions.map .deletePrefix ++
        pointOperations lowered.simpleUnorderedBatch) = applyOperations map.get batch.operations := by
  have same := congrArg OrdMap.get (lowering.anyOrder _ (List.Perm.refl _))
  rwa [writeBatch_get, writeBatch_get] at same

theorem mem_pushExpandedKeys (insertedKeys : List Bytes) (keyPrefix : Bytes)
    (shortKeys deletions : List Bytes) (key : Bytes) :
    key ∈ pushExpandedKeys insertedKeys keyPrefix shortKeys deletions ↔
      key ∈ deletions ∨
        (∃ shortKey ∈ shortKeys, key = keyPrefix ++ shortKey) ∧ key ∉ insertedKeys := by
  induction shortKeys generalizing deletions with
  | nil => simp [pushExpandedKeys]
  | cons shortKey rest ih =>
      simp only [pushExpandedKeys, List.foldl_cons] at ih ⊢
      rw [ih]
      by_cases inserted : keyPrefix ++ shortKey ∈ insertedKeys <;>
        simp [inserted] <;> grind

theorem mem_foldl_pushExpandedKeys (insertedKeys : List Bytes)
    (shortKeysOf : Bytes → List Bytes) (prefixes deletions : List Bytes) (key : Bytes) :
    key ∈ prefixes.foldl (fun deletions keyPrefix =>
        pushExpandedKeys insertedKeys keyPrefix (shortKeysOf keyPrefix) deletions) deletions ↔
      key ∈ deletions ∨
        (∃ keyPrefix ∈ prefixes, ∃ shortKey ∈ shortKeysOf keyPrefix, key = keyPrefix ++ shortKey) ∧
          key ∉ insertedKeys := by
  induction prefixes generalizing deletions with
  | nil => simp
  | cons keyPrefix rest ih =>
      rw [List.foldl_cons, ih, mem_pushExpandedKeys]
      simp only [List.mem_cons, exists_eq_or_imp]
      rw [or_and_right, or_assoc]

theorem exists_findKeysByPrefix_of_mem_iff (map : MemoryStoreMap) (prefixes : List Bytes)
    (key : Bytes) :
    (∃ keyPrefix ∈ prefixes, ∃ shortKey ∈ MemoryClient.findKeysByPrefix map keyPrefix,
        key = keyPrefix ++ shortKey) ↔
      Covered prefixes key ∧ (map.get key).isSome := by
  simp only [exists_findKeysByPrefix_iff, Covered]
  constructor
  · rintro ⟨keyPrefix, mem, inside, present⟩
    exact ⟨⟨keyPrefix, mem, inside⟩, present⟩
  · rintro ⟨⟨keyPrefix, mem, inside⟩, present⟩
    exact ⟨keyPrefix, mem, inside, present⟩

theorem expandDeletePrefixes_memory {ε : Type} (map : MemoryStoreMap) (lowered : UnorderedBatch) :
    ∃ expanded, lowered.expandDeletePrefixes (@MemoryClient.expandDeletePrefix ε map) = .ok expanded ∧
      expanded.insertions = lowered.simpleUnorderedBatch.insertions ∧
      ∀ key, key ∈ expanded.deletions ↔ key ∈ lowered.simpleUnorderedBatch.deletions ∨
        (Covered lowered.keyPrefixDeletions key ∧ (map.get key).isSome) ∧
          key ∉ lowered.simpleUnorderedBatch.insertions.map (·.1) := by
  refine ⟨⟨lowered.keyPrefixDeletions.foldl (fun deletions keyPrefix =>
      pushExpandedKeys (lowered.simpleUnorderedBatch.insertions.map (·.1)) keyPrefix (MemoryClient.findKeysByPrefix map keyPrefix)
        deletions) lowered.simpleUnorderedBatch.deletions,
    lowered.simpleUnorderedBatch.insertions⟩, ?_, rfl, fun key => ?_⟩
  · simp [UnorderedBatch.expandDeletePrefixes, MemoryClient.expandDeletePrefix, Except.foldlM_ok]
  · rw [mem_foldl_pushExpandedKeys, exists_findKeysByPrefix_of_mem_iff]

theorem expandDeletePrefixes_lowering {ε : Type} (map : MemoryStoreMap) (batch : Batch)
    (lowered : UnorderedBatch) (lowering : Lowering map batch lowered) :
    ∃ expanded, lowered.expandDeletePrefixes (@MemoryClient.expandDeletePrefix ε map) = .ok expanded ∧
      Lowering map batch ⟨[], expanded⟩ := by
  obtain ⟨expanded, computed, same_insertions, mem_deletions⟩ :=
    @expandDeletePrefixes_memory ε map lowered
  refine ⟨expanded, computed, lowering_of_applyOperations map batch _
    (fun _ absent => absurd absent List.not_mem_nil) ?_ (same_insertions ▸ lowering.nodup) ?_⟩
  · intro key deleted
    rw [same_insertions]
    rcases (mem_deletions key).mp deleted with earlier | ⟨-, absent⟩
    · exact lowering.disjoint key earlier
    · exact absent
  · rw [← lowering.applyOperations_eq]
    refine applyOperations_lowered_congr _ ⟨[], expanded⟩ lowered same_insertions
      (same_insertions ▸ lowering.nodup) (fun key absent present => ?_)
    -- A stored key the batch does not insert is cleared by the expansion exactly when a
    -- prefix deletion covers it.
    rw [same_insertions] at absent
    simp only [mem_deletions, present, absent, not_false_eq_true, and_true]
    simp [Covered]

theorem head?_scanSet_isSome_iff (set : OrdSet Bytes) (keyPrefix : Bytes) :
    (scanSet set keyPrefix).head?.isSome = true ↔ ∃ key ∈ set, keyPrefix <+: key := by
  rw [List.isSome_head?]
  constructor
  · intro nonempty
    obtain ⟨key, mem⟩ := List.exists_mem_of_ne_nil _ nonempty
    exact ⟨key, (mem_scanSet set keyPrefix key).mp mem⟩
  · rintro ⟨key, mem, inside⟩
    exact List.ne_nil_of_mem ((mem_scanSet set keyPrefix key).mpr ⟨mem, inside⟩)

/-- A step of `expand_colliding_prefix_deletions` with an expander that cannot fail. -/
def collidingStep (insertedKeys : OrdSet Bytes) (shortKeysOf : Bytes → List Bytes)
    (acc : List Bytes × List Bytes) (keyPrefix : Bytes) : List Bytes × List Bytes :=
  if (scanSet insertedKeys keyPrefix).head?.isSome then
    (acc.1, pushExpandedKeys insertedKeys.elems keyPrefix (shortKeysOf keyPrefix) acc.2)
  else (acc.1 ++ [keyPrefix], acc.2)

theorem expandCollidingStep_ok {ε : Type} (insertedKeys : OrdSet Bytes)
    (shortKeysOf : Bytes → List Bytes) :
    expandCollidingStep insertedKeys
        (fun keyPrefix => (.ok (shortKeysOf keyPrefix) : Except ε (List Bytes))) =
      fun acc keyPrefix => .ok (collidingStep insertedKeys shortKeysOf acc keyPrefix) := by
  funext acc keyPrefix
  obtain ⟨kept, deletions⟩ := acc
  simp only [expandCollidingStep, collidingStep]
  split <;> rfl

theorem foldl_collidingStep_fst (insertedKeys : OrdSet Bytes) (shortKeysOf : Bytes → List Bytes)
    (prefixes : List Bytes) (acc : List Bytes × List Bytes) :
    (prefixes.foldl (collidingStep insertedKeys shortKeysOf) acc).1 =
      acc.1 ++ prefixes.filter (fun keyPrefix => !(scanSet insertedKeys keyPrefix).head?.isSome) := by
  induction prefixes generalizing acc with
  | nil => simp
  | cons keyPrefix rest ih =>
      rw [List.foldl_cons, ih]
      by_cases hits : (scanSet insertedKeys keyPrefix).head?.isSome = true
      · rw [collidingStep, if_pos hits, List.filter_cons_of_neg (by simp [hits])]
      · rw [collidingStep, if_neg hits, List.filter_cons_of_pos (by simpa using hits),
          List.append_assoc, List.singleton_append]

theorem mem_foldl_collidingStep_snd (insertedKeys : OrdSet Bytes)
    (shortKeysOf : Bytes → List Bytes) (prefixes : List Bytes) (acc : List Bytes × List Bytes)
    (key : Bytes) :
    key ∈ (prefixes.foldl (collidingStep insertedKeys shortKeysOf) acc).2 ↔
      key ∈ acc.2 ∨
        (∃ keyPrefix ∈ prefixes, (scanSet insertedKeys keyPrefix).head?.isSome ∧
          ∃ shortKey ∈ shortKeysOf keyPrefix, key = keyPrefix ++ shortKey) ∧
          key ∉ insertedKeys.elems := by
  induction prefixes generalizing acc with
  | nil => simp
  | cons keyPrefix rest ih =>
      rw [List.foldl_cons, ih]
      by_cases hits : (scanSet insertedKeys keyPrefix).head?.isSome = true
      · rw [collidingStep, if_pos hits]
        simp only [mem_pushExpandedKeys, List.mem_cons, exists_eq_or_imp, hits, true_and]
        rw [or_and_right, or_assoc]
      · rw [collidingStep, if_neg hits]
        simp only [List.mem_cons, exists_eq_or_imp, hits, Bool.false_eq_true, false_and,
          false_or]

/-- `expand_colliding_prefix_deletions` with the memory store's expander: the prefix
deletions under which the batch inserts a key become deletions of the stored keys
they cover, the others stay. -/
theorem expandCollidingPrefixDeletions_memory {ε : Type} (map : MemoryStoreMap)
    (lowered : UnorderedBatch) :
    ∃ reduced, lowered.expandCollidingPrefixDeletions (@MemoryClient.expandDeletePrefix ε map) =
        .ok reduced ∧
      reduced.simpleUnorderedBatch.insertions = lowered.simpleUnorderedBatch.insertions ∧
      (∀ keyPrefix, keyPrefix ∈ reduced.keyPrefixDeletions ↔
        keyPrefix ∈ lowered.keyPrefixDeletions ∧
          ¬ ∃ key ∈ lowered.simpleUnorderedBatch.insertions.map (·.1), keyPrefix <+: key) ∧
      ∀ key, key ∈ reduced.simpleUnorderedBatch.deletions ↔
        key ∈ lowered.simpleUnorderedBatch.deletions ∨
          (∃ keyPrefix ∈ lowered.keyPrefixDeletions,
            (∃ inserted ∈ lowered.simpleUnorderedBatch.insertions.map (·.1), keyPrefix <+: inserted) ∧
              keyPrefix <+: key) ∧
            (map.get key).isSome ∧ key ∉ lowered.simpleUnorderedBatch.insertions.map (·.1) := by
  let insertedKeys := (lowered.simpleUnorderedBatch.insertions.map (·.1)).foldl OrdSet.insert
    OrdSet.empty
  have mem_inserted : ∀ key, key ∈ insertedKeys.elems ↔
      key ∈ lowered.simpleUnorderedBatch.insertions.map (·.1) := fun key => by
    rw [← OrdSet.mem_def, OrdSet.mem_foldl_insert]
    simp
  have hits_iff : ∀ keyPrefix, (scanSet insertedKeys keyPrefix).head?.isSome = true ↔
      ∃ key ∈ lowered.simpleUnorderedBatch.insertions.map (·.1), keyPrefix <+: key := fun _ => by
    simp only [head?_scanSet_isSome_iff, OrdSet.mem_def, mem_inserted]
  let final := lowered.keyPrefixDeletions.foldl (collidingStep insertedKeys (MemoryClient.findKeysByPrefix map))
    ([], lowered.simpleUnorderedBatch.deletions)
  refine ⟨⟨final.1, { lowered.simpleUnorderedBatch with deletions := final.2 }⟩, ?_, rfl,
    fun keyPrefix => ?_, fun key => ?_⟩
  · simp only [UnorderedBatch.expandCollidingPrefixDeletions, MemoryClient.expandDeletePrefix_eq,
      expandCollidingStep_ok, Except.foldlM_ok]
    rfl
  · simp only [final, foldl_collidingStep_fst, List.nil_append, List.mem_filter, ← hits_iff,
      Bool.not_eq_true', Bool.not_eq_true]
  · simp only [final, mem_foldl_collidingStep_snd, mem_inserted, hits_iff,
      exists_findKeysByPrefix_iff]
    refine or_congr_right ⟨?_, ?_⟩
    · rintro ⟨⟨keyPrefix, mem, collides, inside, present⟩, absent⟩
      exact ⟨⟨keyPrefix, mem, collides, inside⟩, present, absent⟩
    · rintro ⟨⟨keyPrefix, mem, collides, inside⟩, present, absent⟩
      exact ⟨⟨keyPrefix, mem, collides, inside, present⟩, absent⟩

theorem expandCollidingPrefixDeletions_lowering {ε : Type} (map : MemoryStoreMap) (batch : Batch)
    (lowered : UnorderedBatch) (lowering : Lowering map batch lowered) :
    ∃ reduced, lowered.expandCollidingPrefixDeletions (@MemoryClient.expandDeletePrefix ε map) =
        .ok reduced ∧
      Lowering map batch reduced ∧
      ∀ keyPrefix ∈ reduced.keyPrefixDeletions,
        ∀ key ∈ reduced.simpleUnorderedBatch.insertions.map (·.1), ¬ keyPrefix <+: key := by
  obtain ⟨reduced, computed, same_insertions, mem_prefixes, mem_deletions⟩ :=
    @expandCollidingPrefixDeletions_memory ε map lowered
  have kept : ∀ keyPrefix ∈ reduced.keyPrefixDeletions, keyPrefix ∈ lowered.keyPrefixDeletions :=
    fun keyPrefix mem => ((mem_prefixes keyPrefix).mp mem).1
  refine ⟨reduced, computed, lowering_of_applyOperations map batch _
    (fun p mem_p q mem_q => lowering.prefixFree p (kept p mem_p) q (kept q mem_q)) ?_
    (same_insertions ▸ lowering.nodup) ?_, ?_⟩
  · intro key deleted
    rw [same_insertions]
    rcases (mem_deletions key).mp deleted with earlier | ⟨-, -, absent⟩
    · exact lowering.disjoint key earlier
    · exact absent
  · rw [← lowering.applyOperations_eq]
    refine applyOperations_lowered_congr _ reduced lowered same_insertions
      (same_insertions ▸ lowering.nodup) (fun key absent present => ?_)
    rw [same_insertions] at absent
    simp only [mem_deletions, present, absent, not_false_eq_true, and_true, Covered, mem_prefixes]
    -- Each covering prefix either collides with an insertion, and its stored keys are
    -- deleted one by one, or it is kept.
    constructor
    · rintro ((deleted | ⟨keyPrefix, mem, -, inside⟩) | ⟨keyPrefix, ⟨mem, -⟩, inside⟩)
      · exact Or.inl deleted
      · exact Or.inr ⟨keyPrefix, mem, inside⟩
      · exact Or.inr ⟨keyPrefix, mem, inside⟩
    · rintro (deleted | ⟨keyPrefix, mem, inside⟩)
      · exact Or.inl (Or.inl deleted)
      · by_cases collides : ∃ inserted ∈ lowered.simpleUnorderedBatch.insertions.map (·.1),
            keyPrefix <+: inserted
        · exact Or.inl (Or.inr ⟨keyPrefix, mem, collides, inside⟩)
        · exact Or.inr ⟨keyPrefix, ⟨mem, collides⟩, inside⟩
  · intro keyPrefix mem key inserted inside
    exact ((mem_prefixes keyPrefix).mp mem).2 ⟨key, same_insertions ▸ inserted, inside⟩

/-- `Batch::simplify` lowers every batch, and so do the two expanders after it with the
memory store the batch is written to. -/
theorem batch_lowering_preserves_meaning {ε : Type} (map : MemoryStoreMap) (batch : Batch) :
    Lowering map batch batch.simplify ∧
      (∃ expanded, batch.simplify.expandDeletePrefixes (@MemoryClient.expandDeletePrefix ε map) =
          .ok expanded ∧ Lowering map batch ⟨[], expanded⟩) ∧
      ∃ reduced,
        batch.simplify.expandCollidingPrefixDeletions (@MemoryClient.expandDeletePrefix ε map) =
          .ok reduced ∧
        Lowering map batch reduced ∧
        ∀ keyPrefix ∈ reduced.keyPrefixDeletions,
          ∀ key ∈ reduced.simpleUnorderedBatch.insertions.map (·.1), ¬ keyPrefix <+: key := by
  have lowering := simplify_lowering map batch
  exact ⟨lowering, expandDeletePrefixes_lowering map batch _ lowering,
    expandCollidingPrefixDeletions_lowering map batch _ lowering⟩

end Linera.Views
