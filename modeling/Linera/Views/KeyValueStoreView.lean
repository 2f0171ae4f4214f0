import Linera.Views.Lowering

set_option autoImplicit false

/-! The key-value store view (`linera-views/src/key_value_store_view.rs`).

The view stages its writes over the storage it was loaded from: a map of updates per
index, a set of deleted prefixes, and a flag for a cleared view. Its meaning over the
storage contents is `denote`: an index with an update takes it, any other index is absent
when the view was cleared or a deleted prefix covers it, and keeps its stored value
otherwise. `write_batch`, `clear`, `rollback` and `flush` are proved faithful to this
meaning. `get` is not: it reads the storage without looking at the deleted prefixes.

Keys are the indices of the view, relative to its index tag; the hash the view keeps is
left out. -/

namespace Linera.Views

/-- `Update`: a staged change of one index. -/
inductive Update (T : Type) where
  | removed
  | set (value : T)
  deriving DecidableEq, Repr

/-- `KeyValueStoreView`, without its context and hash. -/
structure KeyValueStoreView where
  wasCleared : Bool
  updates : OrdMap Bytes (Update Bytes)
  deletedPrefixes : OrdSet Bytes

namespace KeyValueStoreView

/-- `KeyValueStoreView::load`: nothing staged. -/
def load : KeyValueStoreView := ⟨false, OrdMap.empty, OrdSet.empty⟩

/-- `rollback`: drops everything staged since the last flush. -/
def rollback (_view : KeyValueStoreView) : KeyValueStoreView :=
  ⟨false, OrdMap.empty, OrdSet.empty⟩

def clear (_view : KeyValueStoreView) : KeyValueStoreView := ⟨true, OrdMap.empty, OrdSet.empty⟩

def insert (view : KeyValueStoreView) (index value : Bytes) : KeyValueStoreView :=
  { view with updates := view.updates.insert index (.set value) }

/-- `remove`: on a cleared view there is nothing stored to hide. -/
def remove (view : KeyValueStoreView) (index : Bytes) : KeyValueStoreView :=
  if view.wasCleared then { view with updates := view.updates.erase index }
  else { view with updates := view.updates.insert index .removed }

def deletePrefix (view : KeyValueStoreView) (keyPrefix : Bytes) : KeyValueStoreView :=
  let keyList := (scanMap view.updates keyPrefix).map (·.1)
  let updates := view.updates.eraseAll keyList
  if !view.wasCleared then
    let keyPrefixList := scanSet view.deletedPrefixes keyPrefix
    { view with
      updates, deletedPrefixes := (view.deletedPrefixes.eraseAll keyPrefixList).insert keyPrefix }
  else { view with updates }

/-- One operation of `write_batch`, whose branches are the bodies of `remove`, `insert`
and `delete_prefix`. -/
def writeOperation (view : KeyValueStoreView) : WriteOperation → KeyValueStoreView
  | .delete key => view.remove key
  | .put key value => view.insert key value
  | .deletePrefix keyPrefix => view.deletePrefix keyPrefix

def writeBatch (view : KeyValueStoreView) (batch : Batch) : KeyValueStoreView :=
  batch.operations.foldl writeOperation view

def get (view : KeyValueStoreView) (storage : MemoryStoreMap) (index : Bytes) : Option Bytes :=
  match view.updates.get index with
  | some .removed => none
  | some (.set value) => some value
  | none => if view.wasCleared then none else MemoryClient.readKeyBytes storage index

/-- The batch that `flush` writes, and the view it leaves. -/
def flush (view : KeyValueStoreView) : KeyValueStoreView × Batch :=
  if view.wasCleared then
    -- The whole view is deleted, then the values set since are written.
    let sets := view.updates.entries.filterMap fun entry =>
      match entry.2 with
      | .set value => some (WriteOperation.put entry.1 value)
      | .removed => none
    ({ view with wasCleared := false, updates := OrdMap.empty }, ⟨.deletePrefix [] :: sets⟩)
  else
    let prefixes := view.deletedPrefixes.elems.map .deletePrefix
    let updates := view.updates.entries.map fun entry =>
      match entry.2 with
      | .removed => WriteOperation.delete entry.1
      | .set value => .put entry.1 value
    (⟨false, OrdMap.empty, OrdSet.empty⟩, ⟨prefixes ++ updates⟩)

/-- What the view means over the contents of its storage. -/
def denote (view : KeyValueStoreView) (contents : Bytes → Option Bytes) :
    Bytes → Option Bytes := fun index =>
  match view.updates.get index with
  | some .removed => none
  | some (.set value) => some value
  | none =>
      if view.wasCleared then none
      else if Covered view.deletedPrefixes.elems index then none
      else contents index

variable (view : KeyValueStoreView) (contents : Bytes → Option Bytes)

@[simp] theorem denote_load : load.denote contents = contents := by
  funext index
  simp [denote, load, Covered, OrdSet.empty]

theorem denote_insert (index value : Bytes) :
    (view.insert index value).denote contents =
      Function.update (view.denote contents) index (some value) := by
  funext key
  by_cases hit : key = index
  · subst hit
    simp [denote, insert]
  · rw [Function.update_of_ne hit]
    simp only [denote, insert, OrdMap.get_insert, hit, if_false]
    rfl

theorem denote_remove (index : Bytes) :
    (view.remove index).denote contents = Function.update (view.denote contents) index none := by
  funext key
  unfold remove
  by_cases hit : key = index
  · subst hit
    split <;> simp_all [denote]
  · split <;> simp [denote, hit]

@[simp] theorem wasCleared_deletePrefix (keyPrefix : Bytes) :
    (view.deletePrefix keyPrefix).wasCleared = view.wasCleared := by
  unfold deletePrefix
  split <;> rfl

@[simp] theorem get_updates_deletePrefix (keyPrefix key : Bytes) :
    (view.deletePrefix keyPrefix).updates.get key =
      if keyPrefix <+: key then none else view.updates.get key := by
  unfold deletePrefix
  split <;> exact get_eraseScan view.updates keyPrefix key

theorem covered_deletePrefix (keyPrefix key : Bytes) :
    Covered (view.deletePrefix keyPrefix).deletedPrefixes.elems key ↔
      keyPrefix <+: key ∧ view.wasCleared = false ∨ Covered view.deletedPrefixes.elems key := by
  unfold deletePrefix
  cases cleared : view.wasCleared
  · by_cases inside : keyPrefix <+: key
    · simp only [Bool.not_false, if_true, inside, and_self, true_or, iff_true]
      exact ⟨keyPrefix, (mem_replacePrefixes _ _ _).mpr (Or.inl rfl), inside⟩
    · simp only [Bool.not_false, if_true, inside, false_and, false_or]
      exact covered_replacePrefixes inside
  · simp

theorem denote_deletePrefix (keyPrefix : Bytes) :
    (view.deletePrefix keyPrefix).denote contents =
      fun key => if keyPrefix <+: key then none else view.denote contents key := by
  funext key
  by_cases inside : keyPrefix <+: key
  · -- The staged updates under the prefix are dropped and the prefix now covers the key.
    cases cleared : view.wasCleared <;>
      simp [denote, inside, cleared, covered_deletePrefix]
  · simp only [denote, get_updates_deletePrefix, wasCleared_deletePrefix,
      covered_deletePrefix, inside, false_and, false_or, if_false]

theorem denote_writeOperation (operation : WriteOperation) :
    (view.writeOperation operation).denote contents = operation.apply (view.denote contents) := by
  cases operation with
  | delete key => exact denote_remove view contents key
  | put key value => exact denote_insert view contents key value
  | deletePrefix keyPrefix => exact denote_deletePrefix view contents keyPrefix

/-- `write_batch` stages the batch as if it were applied in order. -/
theorem denote_writeBatch (batch : Batch) :
    (view.writeBatch batch).denote contents =
      applyOperations (view.denote contents) batch.operations := by
  obtain ⟨operations⟩ := batch
  induction operations generalizing view with
  | nil => rfl
  | cons operation rest ih =>
      simp only [writeBatch, List.foldl_cons] at ih ⊢
      rw [ih, denote_writeOperation, applyOperations_cons]

theorem applyOperations_updates (base : Bytes → Option Bytes)
    (entries : List ((_ : Bytes) × Update Bytes)) (distinct : entries.NodupKeys) (key : Bytes) :
    applyOperations base (entries.map fun entry =>
        match entry.2 with
        | .removed => WriteOperation.delete entry.1
        | .set value => .put entry.1 value) key =
      match entries.dlookup key with
      | some .removed => none
      | some (.set value) => some value
      | none => base key := by
  induction entries generalizing base with
  | nil => rfl
  | cons entry rest ih =>
      obtain ⟨index, update⟩ := entry
      rw [List.nodupKeys_cons] at distinct
      rw [List.map_cons, applyOperations_cons, ih _ distinct.2]
      by_cases hit : key = index
      · subst hit
        rw [List.dlookup_eq_none.mpr distinct.1, List.dlookup_cons_eq]
        cases update <;> simp [WriteOperation.apply]
      · rw [List.dlookup_cons_ne _ _ (fun same => hit same)]
        rcases rest.dlookup key with _ | _ | value <;> cases update <;>
          simp [WriteOperation.apply, hit]

theorem applyOperations_sets (base : Bytes → Option Bytes)
    (entries : List ((_ : Bytes) × Update Bytes)) (distinct : entries.NodupKeys) (key : Bytes) :
    applyOperations base (entries.filterMap fun entry =>
        match entry.2 with
        | .set value => some (WriteOperation.put entry.1 value)
        | .removed => none) key =
      match entries.dlookup key with
      | some (.set value) => some value
      | _ => base key := by
  induction entries generalizing base with
  | nil => rfl
  | cons entry rest ih =>
      obtain ⟨index, update⟩ := entry
      rw [List.nodupKeys_cons] at distinct
      have step : applyOperations base ((⟨index, update⟩ :: rest).filterMap fun entry =>
            match entry.2 with
            | .set value => some (WriteOperation.put entry.1 value)
            | .removed => none) key =
          match rest.dlookup key with
          | some (.set value) => some value
          | _ => (match update with
              | .set value => Function.update base index (some value)
              | .removed => base) key := by
        cases update <;> simp [ih _ distinct.2, WriteOperation.apply]
      rw [step]
      by_cases hit : key = index
      · subst hit
        rw [List.dlookup_eq_none.mpr distinct.1, List.dlookup_cons_eq]
        cases update <;> simp
      · rw [List.dlookup_cons_ne _ _ (fun same => hit same)]
        rcases rest.dlookup key with _ | _ | value <;> cases update <;> simp [hit]

/-- Writing the batch of `flush` leaves the storage holding the view's meaning. -/
theorem applyOperations_flush :
    applyOperations contents view.flush.2.operations = view.denote contents := by
  funext key
  -- The lemmas above look entries up with the list's own equality test.
  have lookup : view.updates.entries.dlookup key = view.updates.get key := by
    unfold OrdMap.get
    congr 1
  unfold flush
  cases cleared : view.wasCleared
  · simp only [Bool.false_eq_true, if_false]
    rw [applyOperations_append, applyOperations_updates _ _ view.updates.nodupKeys,
      applyOperations_deletePrefixes, lookup]
    rcases found : view.updates.get key with _ | _ | value <;> simp [denote, found, cleared]
  · simp only [if_true, applyOperations_cons]
    rw [applyOperations_sets _ _ view.updates.nodupKeys, lookup]
    -- The prefix deletion of the whole view leaves nothing below the values set.
    rcases found : view.updates.get key with _ | _ | value <;>
      simp [denote, found, cleared, WriteOperation.apply]

theorem writeBatch_flush_get (storage : MemoryStoreMap) :
    (MemoryClient.writeBatch storage view.flush.2).get = view.denote storage.get := by
  rw [writeBatch_get, applyOperations_flush]

/-- A view that keeps no deleted prefix once cleared. Every view that the operations
reach from `load` is one. -/
def Clean : Prop := view.wasCleared = true → view.deletedPrefixes.elems = []

theorem denote_flush (clean : view.Clean) : view.flush.1.denote contents = contents := by
  unfold flush
  cases cleared : view.wasCleared
  · exact denote_load contents
  · funext key
    simp [denote, clean cleared, Covered]

theorem clean_load : load.Clean := fun _ => rfl

theorem Clean.insert {view : KeyValueStoreView} (clean : view.Clean) (index value : Bytes) :
    (view.insert index value).Clean :=
  clean

theorem Clean.remove {view : KeyValueStoreView} (clean : view.Clean) (index : Bytes) :
    (view.remove index).Clean := by
  unfold KeyValueStoreView.remove
  split
  · exact clean
  · exact clean

theorem Clean.deletePrefix {view : KeyValueStoreView} (clean : view.Clean) (keyPrefix : Bytes) :
    (view.deletePrefix keyPrefix).Clean := by
  unfold KeyValueStoreView.deletePrefix
  cases cleared : view.wasCleared
  · intro absurd_cleared
    simp at absurd_cleared
  · exact fun _ => clean cleared

theorem Clean.writeBatch {view : KeyValueStoreView} (clean : view.Clean) (batch : Batch) :
    (view.writeBatch batch).Clean := by
  obtain ⟨operations⟩ := batch
  induction operations generalizing view with
  | nil => exact clean
  | cons operation rest ih =>
      simp only [KeyValueStoreView.writeBatch, List.foldl_cons] at ih ⊢
      apply ih
      cases operation with
      | delete key => exact clean.remove key
      | put key value => exact clean.insert key value
      | deletePrefix keyPrefix => exact clean.deletePrefix keyPrefix

theorem Clean.foldl_writeBatch {view : KeyValueStoreView} (clean : view.Clean)
    (batches : List Batch) : (batches.foldl KeyValueStoreView.writeBatch view).Clean := by
  induction batches generalizing view with
  | nil => exact clean
  | cons batch rest ih => exact ih (clean.writeBatch batch)

omit view in
theorem denote_foldl_writeBatch (batches : List Batch) (view : KeyValueStoreView)
    (contents : Bytes → Option Bytes) :
    (batches.foldl writeBatch view).denote contents =
      batches.foldl (fun contents batch => applyOperations contents batch.operations)
        (view.denote contents) := by
  induction batches generalizing view with
  | nil => rfl
  | cons batch rest ih => rw [List.foldl_cons, ih, denote_writeBatch, List.foldl_cons]

omit view contents in
/-- The batches a view stages from `load` reach the memory store at `flush` as if they had
been written to it one after the other, and the flushed view then means what the store
holds. -/
theorem flush_writeBatch_eq_memory (storage : MemoryStoreMap) (batches : List Batch) :
    (MemoryClient.writeBatch storage (batches.foldl writeBatch load).flush.2).get =
        (batches.foldl MemoryClient.writeBatch storage).get ∧
      (batches.foldl writeBatch load).flush.1.denote
          (MemoryClient.writeBatch storage (batches.foldl writeBatch load).flush.2).get =
        (batches.foldl MemoryClient.writeBatch storage).get := by
  -- The view stages the operations that the memory store applies to its contents.
  have written : (MemoryClient.writeBatch storage (batches.foldl writeBatch load).flush.2).get =
      (batches.foldl MemoryClient.writeBatch storage).get := by
    rw [writeBatch_flush_get, denote_foldl_writeBatch, denote_load, foldl_writeBatch_get]
  -- Every view staged from `load` is clean, so the flushed one means the new contents.
  have clean := clean_load.foldl_writeBatch batches
  exact ⟨written, by rw [denote_flush _ _ clean, written]⟩

/-- A stored index under a prefix deleted through `write_batch` is still returned by `get`,
while the memory store, applying the same batch, has removed it. -/
theorem keyValueStoreView_get_after_deletePrefix :
    (load.writeBatch ⟨[.deletePrefix [0]]⟩).get (OrdMap.empty.insert [0, 1] [5]) [0, 1] =
        some [5] ∧
      (MemoryClient.writeBatch (OrdMap.empty.insert [0, 1] [5]) ⟨[.deletePrefix [0]]⟩).get
        [0, 1] = none := by
  decide

end KeyValueStoreView

end Linera.Views
