import Linera.Views.Batch

set_option autoImplicit false

/-! The in-memory store (`linera-views/src/memory.rs`) and the meaning of a batch.

`MemoryClient` keeps a `BTreeMap` from keys to values and applies the operations of
a batch one after the other. Its contents mean a function from keys to optional values,
and a batch means the composition of its operations on such functions: a put or a
deletion changes one key, a prefix deletion clears every key that extends the prefix.
`writeBatch_get` says that the store computes exactly this meaning. -/

namespace Linera.Views

/-- `MemoryStoreMap`: the contents of a memory store. -/
abbrev MemoryStoreMap := OrdMap Bytes Bytes

namespace MemoryClient

def readKeyBytes (map : MemoryStoreMap) (key : Bytes) : Option Bytes :=
  map.get key

def readMultiKeyBytes (map : MemoryStoreMap) (keys : List Bytes) : List (Option Bytes) :=
  keys.map map.get

/-- `MemoryClient::find_keys_by_prefix`: the keys under the prefix, with the prefix cut. -/
def findKeysByPrefix (map : MemoryStoreMap) (keyPrefix : Bytes) : List Bytes :=
  (scanMap map keyPrefix).map (fun entry => entry.1.drop keyPrefix.length)

def findKeyValuesByPrefix (map : MemoryStoreMap) (keyPrefix : Bytes) : List (Bytes × Bytes) :=
  (scanMap map keyPrefix).map (fun entry => (entry.1.drop keyPrefix.length, entry.2))

/-- One operation of `MemoryClient::write_batch`. -/
def applyOperation (map : MemoryStoreMap) : WriteOperation → MemoryStoreMap
  | .put key value => map.insert key value
  | .delete key => map.erase key
  | .deletePrefix keyPrefix => map.eraseAll ((scanMap map keyPrefix).map (·.1))

def writeBatch (map : MemoryStoreMap) (batch : Batch) : MemoryStoreMap :=
  batch.operations.foldl applyOperation map

/-- `DeletePrefixExpander for MemoryContext`: the short keys under a prefix. -/
def expandDeletePrefix {ε : Type} (map : MemoryStoreMap) (keyPrefix : Bytes) :
    Except ε (List Bytes) :=
  .ok (findKeysByPrefix map keyPrefix)

theorem expandDeletePrefix_eq {ε : Type} (map : MemoryStoreMap) :
    (expandDeletePrefix map : Bytes → Except ε (List Bytes)) =
      fun keyPrefix => .ok (findKeysByPrefix map keyPrefix) :=
  rfl

end MemoryClient

/-- The meaning of a write operation on the contents of a store. -/
def WriteOperation.apply (contents : Bytes → Option Bytes) :
    WriteOperation → Bytes → Option Bytes
  | .put key value => Function.update contents key (some value)
  | .delete key => Function.update contents key none
  | .deletePrefix keyPrefix => fun key => if keyPrefix <+: key then none else contents key

def applyOperations (contents : Bytes → Option Bytes) (operations : List WriteOperation) :
    Bytes → Option Bytes :=
  operations.foldl WriteOperation.apply contents

@[simp] theorem applyOperations_nil (contents : Bytes → Option Bytes) :
    applyOperations contents [] = contents := rfl

@[simp] theorem applyOperations_cons (contents : Bytes → Option Bytes)
    (operation : WriteOperation) (rest : List WriteOperation) :
    applyOperations contents (operation :: rest) = applyOperations (operation.apply contents) rest :=
  rfl

theorem applyOperations_append (contents : Bytes → Option Bytes)
    (first second : List WriteOperation) :
    applyOperations contents (first ++ second) =
      applyOperations (applyOperations contents first) second :=
  List.foldl_append

theorem mem_scanMap_keys {V : Type} (map : OrdMap Bytes V) (keyPrefix key : Bytes) :
    key ∈ (scanMap map keyPrefix).map (·.1) ↔ (map.get key).isSome ∧ keyPrefix <+: key := by
  rw [← inRange_getInterval_iff]
  constructor
  · intro mem
    obtain ⟨⟨found, value⟩, scanned, rfl⟩ := List.mem_map.mp mem
    obtain ⟨stored, low, high⟩ := (OrdMap.mem_range _ _ _ _).mp scanned
    rw [(OrdMap.mem_entries_iff map found value).mp stored]
    exact ⟨rfl, by simp [inRange, low, high]⟩
  · rintro ⟨present, inside⟩
    obtain ⟨value, stored⟩ := Option.isSome_iff_exists.mp present
    refine List.mem_map.mpr ⟨⟨key, value⟩, (OrdMap.mem_range _ _ _ _).mpr ?_, rfl⟩
    simp only [inRange, Bool.and_eq_true] at inside
    exact ⟨(OrdMap.mem_entries_iff map key value).mpr stored, inside⟩

theorem exists_findKeysByPrefix_iff (map : MemoryStoreMap) (keyPrefix key : Bytes) :
    (∃ shortKey ∈ MemoryClient.findKeysByPrefix map keyPrefix, key = keyPrefix ++ shortKey) ↔
      keyPrefix <+: key ∧ (map.get key).isSome := by
  simp only [MemoryClient.findKeysByPrefix, List.mem_map]
  constructor
  · rintro ⟨-, ⟨entry, scanned, rfl⟩, rfl⟩
    have stored := (mem_scanMap_keys map keyPrefix entry.1).mp (List.mem_map_of_mem scanned)
    rw [List.prefix_iff_eq_append.mp stored.2]
    exact ⟨stored.2, stored.1⟩
  · rintro ⟨inside, present⟩
    obtain ⟨⟨found, value⟩, scanned, rfl⟩ :=
      List.mem_map.mp ((mem_scanMap_keys map keyPrefix key).mpr ⟨present, inside⟩)
    exact ⟨_, ⟨_, scanned, rfl⟩, (List.prefix_iff_eq_append.mp inside).symm⟩

theorem mem_findKeysByPrefix_iff (map : MemoryStoreMap) (keyPrefix shortKey : Bytes) :
    shortKey ∈ MemoryClient.findKeysByPrefix map keyPrefix ↔
      (map.get (keyPrefix ++ shortKey)).isSome := by
  have listed := exists_findKeysByPrefix_iff map keyPrefix (keyPrefix ++ shortKey)
  constructor
  · intro mem
    exact (listed.mp ⟨shortKey, mem, rfl⟩).2
  · intro stored
    obtain ⟨other, mem, same⟩ := listed.mpr ⟨List.prefix_append _ _, stored⟩
    rwa [List.append_cancel_left same]

theorem findKeysByPrefix_sorted (map : MemoryStoreMap) (keyPrefix : Bytes) :
    (MemoryClient.findKeysByPrefix map keyPrefix).Pairwise (· < ·) := by
  have scanned : (scanMap map keyPrefix).Pairwise (fun a b => a.1 < b.1) := map.sorted.filter _
  unfold MemoryClient.findKeysByPrefix
  refine List.pairwise_map.mpr (scanned.imp_of_mem fun {first second} firstMem secondMem less => ?_)
  obtain ⟨firstRest, firstEq⟩ :=
    ((mem_scanMap_keys map keyPrefix first.1).mp (List.mem_map_of_mem firstMem)).2
  obtain ⟨secondRest, secondEq⟩ :=
    ((mem_scanMap_keys map keyPrefix second.1).mp (List.mem_map_of_mem secondMem)).2
  rw [← firstEq, ← secondEq] at less ⊢
  rw [List.drop_left, List.drop_left]
  rw [lt_iff_le_not_ge, Lexicographic.append_le_append_iff, Lexicographic.append_le_append_iff]
    at less
  exact lt_iff_le_not_ge.mpr less

theorem applyOperation_get (map : MemoryStoreMap) (operation : WriteOperation) :
    (MemoryClient.applyOperation map operation).get = operation.apply map.get := by
  funext key
  cases operation with
  | put written value =>
      by_cases hit : key = written <;>
        simp [MemoryClient.applyOperation, WriteOperation.apply, hit]
  | delete deleted =>
      by_cases hit : key = deleted <;>
        simp [MemoryClient.applyOperation, WriteOperation.apply, hit]
  | deletePrefix keyPrefix =>
      simp only [MemoryClient.applyOperation, OrdMap.get_eraseAll, mem_scanMap_keys,
        WriteOperation.apply]
      by_cases inside : keyPrefix <+: key
      · cases map.get key <;> simp [inside]
      · simp [inside]

/-- `MemoryClient::write_batch` applies the batch's operations in order. -/
theorem writeBatch_get (map : MemoryStoreMap) (batch : Batch) :
    (MemoryClient.writeBatch map batch).get = applyOperations map.get batch.operations := by
  obtain ⟨operations⟩ := batch
  induction operations generalizing map with
  | nil => rfl
  | cons operation rest ih =>
      simp only [MemoryClient.writeBatch, List.foldl_cons] at ih ⊢
      rw [ih, applyOperation_get]
      rfl

theorem foldl_writeBatch_get (batches : List Batch) (map : MemoryStoreMap) :
    (batches.foldl MemoryClient.writeBatch map).get =
      batches.foldl (fun contents batch => applyOperations contents batch.operations) map.get := by
  induction batches generalizing map with
  | nil => rfl
  | cons batch rest ih => rw [List.foldl_cons, ih, writeBatch_get, List.foldl_cons]

theorem writeBatch_eq_of_applyOperations (map : MemoryStoreMap) (first second : Batch)
    (same : applyOperations map.get first.operations = applyOperations map.get second.operations) :
    MemoryClient.writeBatch map first = MemoryClient.writeBatch map second :=
  OrdMap.ext_get (fun key => by rw [writeBatch_get, writeBatch_get, same])

/-- An operation that touches only keys under a prefix. -/
def WriteOperation.Under (keyPrefix : Bytes) : WriteOperation → Prop
  | .put key _ => keyPrefix <+: key
  | .delete key => keyPrefix <+: key
  | .deletePrefix other => keyPrefix <+: other

theorem WriteOperation.apply_of_under {keyPrefix key : Bytes} {operation : WriteOperation}
    (under : operation.Under keyPrefix) (outside : ¬ keyPrefix <+: key)
    (contents : Bytes → Option Bytes) : operation.apply contents key = contents key := by
  cases operation with
  | put written value =>
      have other : key ≠ written := fun same => outside (by rw [same]; exact under)
      exact Function.update_of_ne other _ _
  | delete deleted =>
      have other : key ≠ deleted := fun same => outside (by rw [same]; exact under)
      exact Function.update_of_ne other _ _
  | deletePrefix deletedPrefix =>
      have notUnder : ¬ deletedPrefix <+: key := fun inside => outside (under.trans inside)
      exact if_neg notUnder

theorem WriteOperation.Under.mono {keyPrefix longer : Bytes} {operation : WriteOperation}
    (under : operation.Under longer) (shorter : keyPrefix <+: longer) :
    operation.Under keyPrefix := by
  cases operation <;> exact shorter.trans under

theorem applyOperations_of_under {keyPrefix key : Bytes} {operations : List WriteOperation}
    (under : ∀ operation ∈ operations, operation.Under keyPrefix) (outside : ¬ keyPrefix <+: key)
    (contents : Bytes → Option Bytes) : applyOperations contents operations key = contents key := by
  induction operations generalizing contents with
  | nil => rfl
  | cons operation rest ih =>
      rw [applyOperations_cons, ih (fun other mem => under other (List.mem_cons_of_mem _ mem)),
        WriteOperation.apply_of_under (under operation List.mem_cons_self) outside]

/-- The operation with a prefix put before its key, as a view writes under its base key. -/
def WriteOperation.prefixed (keyPrefix : Bytes) : WriteOperation → WriteOperation
  | .put key value => .put (keyPrefix ++ key) value
  | .delete key => .delete (keyPrefix ++ key)
  | .deletePrefix other => .deletePrefix (keyPrefix ++ other)

theorem WriteOperation.under_prefixed (keyPrefix : Bytes) (operation : WriteOperation) :
    (operation.prefixed keyPrefix).Under keyPrefix := by
  cases operation <;> exact List.prefix_append _ _

theorem WriteOperation.apply_prefixed (keyPrefix : Bytes) (operation : WriteOperation)
    (contents : Bytes → Option Bytes) :
    (fun key => (operation.prefixed keyPrefix).apply contents (keyPrefix ++ key)) =
      operation.apply fun key => contents (keyPrefix ++ key) := by
  funext key
  cases operation with
  | put written value => simp [prefixed, apply, Function.update_apply]
  | delete deleted => simp [prefixed, apply, Function.update_apply]
  | deletePrefix other => simp [prefixed, apply, List.prefix_append_right_inj]

theorem applyOperations_prefixed (keyPrefix : Bytes) (operations : List WriteOperation)
    (contents : Bytes → Option Bytes) (key : Bytes) :
    applyOperations contents (operations.map (WriteOperation.prefixed keyPrefix))
        (keyPrefix ++ key) =
      applyOperations (fun key => contents (keyPrefix ++ key)) operations key := by
  induction operations generalizing contents with
  | nil => rfl
  | cons operation rest ih =>
      rw [List.map_cons, applyOperations_cons, applyOperations_cons, ih,
        WriteOperation.apply_prefixed]

end Linera.Views
