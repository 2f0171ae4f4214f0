import Linera.Views.Memory
import Linera.Views.MapViewOrder
import Linera.Lib.Except

set_option autoImplicit false

/-! The reentrant collection view (`linera-views/src/reentrant_collection_view.rs`).

A `ReentrantByteCollectionView` holds a view of one kind for each index, a byte string, and
stages the entries it has loaded or removed over those in storage. Under the base key of the
collection, the key `[Index] ++ index` marks an entry, with an empty value, the subview of the
entry lives under `[Subview] ++ index`, and the hash of the collection is under `[Hash]`.
`flush` deletes the whole collection once it was cleared, and otherwise the marker and the
subview prefix of each removed entry; it then flushes the subview of each loaded entry and
puts its marker. `for_each_key_while` merges the stored markers with the staged entries by
the loop of the map view (`ByteMapView.scanWhile`).

An index is appended to its tag with no separator, so the subview prefix of an index is a
prefix of the subview keys of every index that extends it. -/

namespace Linera.Views

open SortedMerge

/-- `KeyTag`, from `MIN_VIEW_TAG`. -/
inductive KeyTag where
  | index
  | subview
  | hash
  deriving DecidableEq, Repr

def KeyTag.byte : KeyTag → Fin 256
  | .index => 1
  | .subview => 2
  | .hash => 3

/-- What the collection uses of the views of its entries (`W: View<C>`): `load` from storage
at a base key, the base key of the context, `clear`, and the operations `flush` adds to a
batch, all under the base key. -/
structure ViewKind (W : Type) where
  load : MemoryStoreMap → Bytes → W
  baseKey : W → Bytes
  clear : W → W
  flush : W → List WriteOperation
  load_baseKey : ∀ storage key, baseKey (load storage key) = key
  clear_baseKey : ∀ view, baseKey (clear view) = baseKey view
  flush_under : ∀ view, ∀ operation ∈ flush view, operation.Under (baseKey view)

/-- A `RegisterView` of bytes (`register_view.rs`), as a subview: the value stored under
`[Value]`, read as its bytes, and the value staged by a write. Its hash is left out. -/
structure RegisterView where
  baseKey : Bytes
  storedValue : Bytes
  update : Option Bytes

/-- The register as a kind of view: `load` reads the value, `clear` stages the default, and
`flush` puts the staged value. -/
def registerKind : ViewKind RegisterView where
  load storage baseKey := ⟨baseKey, (storage.get (baseTag baseKey 1)).getD [], none⟩
  baseKey register := register.baseKey
  clear register := { register with update := some [] }
  flush register := match register.update with
    | some value => [.put (baseTag register.baseKey 1) value]
    | none => []
  load_baseKey _ _ := rfl
  clear_baseKey _ := rfl
  flush_under register operation written := by
    cases staged : register.update with
    | none => simp [staged] at written
    | some value =>
        simp only [staged, List.mem_singleton] at written
        subst written
        exact List.prefix_append _ _

/-- A change made through the guard that `try_load_entry_mut` returns: a method of the
subview, which cannot move its context. -/
structure ViewKind.Write {W : Type} (kind : ViewKind W) where
  apply : W → W
  baseKey_apply : ∀ view, kind.baseKey (apply view) = kind.baseKey view

/-- `ReentrantByteCollectionView`, with the base key of its context. The locks of the staged
subviews are left out: every guard is dropped before the next call. -/
structure ReentrantByteCollectionView (W : Type) where
  baseKey : Bytes
  wasCleared : Bool
  updates : OrdMap Bytes (Update W)
  storedHash : Option Bytes
  hash : Option Bytes

namespace ReentrantByteCollectionView

variable {W : Type}

def getIndexKey (view : ReentrantByteCollectionView W) (index : Bytes) : Bytes :=
  baseTagIndex view.baseKey KeyTag.index.byte index

def getSubviewKey (view : ReentrantByteCollectionView W) (index : Bytes) : Bytes :=
  baseTagIndex view.baseKey KeyTag.subview.byte index

def addIndex (view : ReentrantByteCollectionView W) (batch : Batch) (index : Bytes) : Batch :=
  batch.putKeyValueBytes (view.getIndexKey index) []

/-- `load`, with the hash read from storage. -/
def load (storage : MemoryStoreMap) (baseKey : Bytes) : ReentrantByteCollectionView W :=
  let hash := MemoryClient.readKeyBytes storage (baseTag baseKey KeyTag.hash.byte)
  ⟨baseKey, false, OrdMap.empty, hash, hash⟩

def rollback (view : ReentrantByteCollectionView W) : ReentrantByteCollectionView W :=
  { view with wasCleared := false, updates := OrdMap.empty, hash := view.storedHash }

def clear (view : ReentrantByteCollectionView W) : ReentrantByteCollectionView W :=
  { view with wasCleared := true, updates := OrdMap.empty, hash := none }

/-- One staged entry in the loops of `flush`: a loaded subview is flushed and its marker put;
a removed entry has its marker and its subview prefix deleted, unless the collection was
cleared. -/
def flushEntry (kind : ViewKind W) (view : ReentrantByteCollectionView W) (batch : Batch)
    (entry : (_ : Bytes) × Update W) : Batch :=
  match entry.2 with
  | .set subview => view.addIndex ⟨batch.operations ++ kind.flush subview⟩ entry.1
  | .removed =>
      if view.wasCleared then batch
      else (batch.deleteKey (view.getIndexKey entry.1)).deleteKeyPrefix (view.getSubviewKey entry.1)

/-- `flush`: the collection is deleted once cleared, the staged entries are written in key
order, and the hash is stored when it changed. -/
def flush (kind : ViewKind W) (view : ReentrantByteCollectionView W) (batch : Batch) :
    ReentrantByteCollectionView W × Batch :=
  let batch := if view.wasCleared then batch.deleteKeyPrefix view.baseKey else batch
  let batch := view.updates.entries.foldl (view.flushEntry kind) batch
  let key := baseTag view.baseKey KeyTag.hash.byte
  if view.storedHash ≠ view.hash then
    let batch := match view.hash with
      | none => batch.deleteKey key
      | some hash => batch.putKeyValueBytes key hash
    ({ view with wasCleared := false, updates := OrdMap.empty, storedHash := view.hash }, batch)
  else ({ view with wasCleared := false, updates := OrdMap.empty }, batch)

/-- `try_load_entry_mut`: the staged subview of the index; a removed entry is loaded again
and cleared, and an entry that is not staged is loaded, and cleared if the collection was. -/
def tryLoadEntryMut (kind : ViewKind W) (storage : MemoryStoreMap)
    (view : ReentrantByteCollectionView W) (shortKey : Bytes) : ReentrantByteCollectionView W × W :=
  let view := { view with hash := none }
  match view.updates.get shortKey with
  | some (.set subview) => (view, subview)
  | some .removed =>
      let subview := kind.clear (kind.load storage (view.getSubviewKey shortKey))
      ({ view with updates := view.updates.insert shortKey (.set subview) }, subview)
  | none =>
      let subview := kind.load storage (view.getSubviewKey shortKey)
      let subview := if view.wasCleared then kind.clear subview else subview
      ({ view with updates := view.updates.insert shortKey (.set subview) }, subview)

/-- `try_load_entry`: the entry is loaded and staged as by `try_load_entry_mut`, for reading;
the hash is kept. -/
def tryLoadEntry (kind : ViewKind W) (storage : MemoryStoreMap)
    (view : ReentrantByteCollectionView W) (shortKey : Bytes) : ReentrantByteCollectionView W × W :=
  let (staged, subview) := view.tryLoadEntryMut kind storage shortKey
  ({ staged with hash := view.hash }, subview)

/-- `try_load_entry_mut`, then a write through the guard it returns. -/
def withEntryMut (kind : ViewKind W) (storage : MemoryStoreMap)
    (view : ReentrantByteCollectionView W) (shortKey : Bytes) (write : W → W) :
    ReentrantByteCollectionView W :=
  let (view, subview) := view.tryLoadEntryMut kind storage shortKey
  { view with updates := view.updates.insert shortKey (.set (write subview)) }

def removeEntry (view : ReentrantByteCollectionView W) (shortKey : Bytes) :
    ReentrantByteCollectionView W :=
  if view.wasCleared then { view with hash := none, updates := view.updates.erase shortKey }
  else { view with hash := none, updates := view.updates.insert shortKey .removed }

/-- `try_reset_entry_to_default`: the subview of the entry, loaded for writing, is cleared. -/
def tryResetEntryToDefault (kind : ViewKind W) (storage : MemoryStoreMap)
    (view : ReentrantByteCollectionView W) (shortKey : Bytes) : ReentrantByteCollectionView W :=
  ({ view with hash := none }).withEntryMut kind storage shortKey kind.clear

/-- The first loop of `try_load_entries_mut`: the indices to load, a removed one to be
cleared, and one that is not staged to be cleared if the collection was. -/
def selectShortKeys (view : ReentrantByteCollectionView W) (shortKeys : List Bytes) :
    List (Bytes × Bool) :=
  shortKeys.filterMap fun shortKey =>
    match view.updates.get shortKey with
    | some .removed => some (shortKey, true)
    | some (.set _) => none
    | none => some (shortKey, view.wasCleared)

/-- `try_load_entries_mut`: the selected indices are loaded, from storage, and staged; then
the staged subview of each index is returned. `none` is the `unreachable!()` of an index that
is not staged as loaded. -/
def tryLoadEntriesMut (kind : ViewKind W) (storage : MemoryStoreMap)
    (view : ReentrantByteCollectionView W) (shortKeys : List Bytes) :
    Option (ReentrantByteCollectionView W × List W) := do
  let view := { view with hash := none }
  let updates := (view.selectShortKeys shortKeys).foldl (fun updates selected =>
      let subview := kind.load storage (view.getSubviewKey selected.1)
      updates.insert selected.1 (.set (if selected.2 then kind.clear subview else subview)))
    view.updates
  let result ← shortKeys.mapM fun shortKey =>
    match updates.get shortKey with
    | some (.set subview) => some subview
    | _ => none
  pure ({ view with updates }, result)

/-- `try_load_entries`: the entries are loaded and staged as by `try_load_entries_mut`, for
reading; the hash is kept. -/
def tryLoadEntries (kind : ViewKind W) (storage : MemoryStoreMap)
    (view : ReentrantByteCollectionView W) (shortKeys : List Bytes) :
    Option (ReentrantByteCollectionView W × List W) :=
  (view.tryLoadEntriesMut kind storage shortKeys).map fun (staged, subviews) =>
    ({ staged with hash := view.hash }, subviews)

/-- What the key scan sees of a staged entry: whether it is loaded or removed. -/
def marker : Update W → Update Unit
  | .set _ => .set ()
  | .removed => .removed

/-- `for_each_key_while`: the stored markers, none once the collection was cleared, merged
with the staged entries. -/
def forEachKeyWhile {σ ε : Type} (view : ReentrantByteCollectionView W) (storage : MemoryStoreMap)
    (f : σ → Bytes → Except ε (σ × Bool)) (state : σ) : Except ε σ :=
  let indices :=
    if view.wasCleared then [] else MemoryClient.findKeysByPrefix storage (view.getIndexKey [])
  ByteMapView.scanWhile (fun state key (_ : Unit) => f state key)
    (indices.map fun index => ⟨index, ()⟩)
    (view.updates.entries.map fun entry => ⟨entry.1, marker entry.2⟩) state

def forEachKey {σ ε : Type} (view : ReentrantByteCollectionView W) (storage : MemoryStoreMap)
    (f : σ → Bytes → Except ε σ) (state : σ) : Except ε σ :=
  view.forEachKeyWhile storage (fun state key => (f state key).map (·, true)) state

def keys {ε : Type} (view : ReentrantByteCollectionView W) (storage : MemoryStoreMap) :
    Except ε (List Bytes) :=
  view.forEachKey storage (fun keys key => .ok (keys ++ [key])) []

theorem not_baseTag_prefix (baseKey : Bytes) {tag other : Fin 256} (different : tag ≠ other)
    (rest : Bytes) : ¬ baseTag baseKey tag <+: baseKey ++ [other] ++ rest := by
  rintro ⟨extra, same⟩
  simp only [baseTag, List.append_assoc, List.singleton_append, List.append_cancel_left_eq,
    List.cons.injEq] at same
  exact different same.1

theorem flush_removeEntry_load (kind : ViewKind W) (storage : MemoryStoreMap)
    (baseKey shortKey : Bytes) :
    (((load storage baseKey : ReentrantByteCollectionView W).removeEntry shortKey).flush kind
        ⟨[]⟩).2.operations =
      [.delete (baseTagIndex baseKey KeyTag.index.byte shortKey),
        .deletePrefix (baseTagIndex baseKey KeyTag.subview.byte shortKey)] ++
        (MemoryClient.readKeyBytes storage (baseTag baseKey KeyTag.hash.byte)).toList.map
          fun _ => .delete (baseTag baseKey KeyTag.hash.byte) := by
  cases stored : MemoryClient.readKeyBytes storage (baseTag baseKey KeyTag.hash.byte) <;>
    simp [flush, removeEntry, load, flushEntry, OrdMap.insert, OrdMap.empty, OrdMap.insertEntry,
      Batch.deleteKey, Batch.deleteKeyPrefix, getIndexKey, getSubviewKey, stored]

/-- Removing an entry of a loaded collection, present or not, and writing the flushed batch
erases every key of the subview of each index that extends it, and keeps the marker of that
index: the collection still lists the entry, whose subview has lost what it stored. -/
theorem removeEntry_flush_erases_extension (kind : ViewKind W) (storage : MemoryStoreMap)
    (baseKey shortKey other suffix : Bytes) (longer : other ≠ []) :
    (let view := (load storage baseKey : ReentrantByteCollectionView W).removeEntry shortKey
     let written := MemoryClient.writeBatch storage (view.flush kind ⟨[]⟩).2
     written.get (view.getSubviewKey (shortKey ++ other) ++ suffix) = none ∧
       written.get (view.getIndexKey (shortKey ++ other)) =
         storage.get (view.getIndexKey (shortKey ++ other))) := by
  dsimp only
  rw [writeBatch_get, flush_removeEntry_load, applyOperations_append]
  have viewBase :
      ((load storage baseKey : ReentrantByteCollectionView W).removeEntry shortKey).baseKey =
        baseKey := rfl
  simp only [getSubviewKey, getIndexKey, viewBase]
  generalize MemoryClient.readKeyBytes storage (baseTag baseKey KeyTag.hash.byte) = storedHash
  constructor
  · -- The subview prefix of the removed index covers the subview keys of the longer one.
    have under : baseTagIndex baseKey KeyTag.subview.byte shortKey <+:
        baseTagIndex baseKey KeyTag.subview.byte (shortKey ++ other) ++ suffix :=
      ⟨other ++ suffix, by simp [baseTagIndex]⟩
    cases storedHash <;> simp [WriteOperation.apply, under, Function.update_apply]
  · -- The marker of the longer index is neither the removed marker, nor under the removed
    -- subview prefix, nor the hash.
    have notMarker : baseTagIndex baseKey KeyTag.index.byte (shortKey ++ other) ≠
        baseTagIndex baseKey KeyTag.index.byte shortKey := by
      intro same
      have lengths := congrArg List.length same
      simp only [baseTagIndex, List.length_append] at lengths
      exact longer (List.eq_nil_of_length_eq_zero (by omega))
    have notSubview : ¬ baseTagIndex baseKey KeyTag.subview.byte shortKey <+:
        baseTagIndex baseKey KeyTag.index.byte (shortKey ++ other) := fun under =>
      not_baseTag_prefix baseKey (by decide) (shortKey ++ other)
        ((List.prefix_append _ _).trans under)
    have notHash : baseTagIndex baseKey KeyTag.index.byte (shortKey ++ other) ≠
        baseTag baseKey KeyTag.hash.byte := by
      intro same
      have under : baseTag baseKey KeyTag.hash.byte <+:
          baseKey ++ [KeyTag.index.byte] ++ (shortKey ++ other) := by
        rw [← same]
        exact List.prefix_refl _
      exact not_baseTag_prefix baseKey (by decide) (shortKey ++ other) under
    cases storedHash <;>
      simp [WriteOperation.apply, notSubview, Function.update_apply, notMarker, notHash]

/-- A collection whose entry `[1, 2]` holds a register with `[7]`: removing the absent entry
`[1]` erases that value and keeps the marker of `[1, 2]`. -/
theorem removeEntry_flush_erases_extension_register :
    (OrdMap.empty.insert [1, 1, 2] [] |>.insert [2, 1, 2, 1] [7] : MemoryStoreMap).get
        [2, 1, 2, 1] = some [7] ∧
      ([2] : Bytes) ≠ [] ∧
      (let storage : MemoryStoreMap := OrdMap.empty.insert [1, 1, 2] [] |>.insert [2, 1, 2, 1] [7]
       let view := (load storage [] : ReentrantByteCollectionView RegisterView).removeEntry [1]
       let written := MemoryClient.writeBatch storage (view.flush registerKind ⟨[]⟩).2
       written.get (view.getSubviewKey ([1] ++ [2]) ++ [1]) = none ∧
         written.get (view.getIndexKey ([1] ++ [2])) =
           storage.get (view.getIndexKey ([1] ++ [2]))) :=
  ⟨by decide, by decide,
    removeEntry_flush_erases_extension registerKind
      (OrdMap.empty.insert [1, 1, 2] [] |>.insert [2, 1, 2, 1] [7]) [] [1] [2] [1] (by decide)⟩

theorem keys_eq {ε : Type} (view : ReentrantByteCollectionView W) (storage : MemoryStoreMap) :
    (view.keys storage : Except ε (List Bytes)) =
      .ok (mergeOverride
          ((if view.wasCleared then [] else
              MemoryClient.findKeysByPrefix storage (view.getIndexKey [])).map
            fun index => (⟨index, ()⟩ : (_ : Bytes) × Unit))
          (mapValues ByteMapView.stagedValue (mapValues marker view.updates.entries))).keys := by
  rw [keys, forEachKey, forEachKeyWhile, ByteMapView.scanWhile_eq_visitWhile]
  exact (visitWhile_collect Sigma.fst _ []).trans (by rw [List.nil_append]; rfl)

theorem getIndexKey_nil_append (view : ReentrantByteCollectionView W) (index : Bytes) :
    view.getIndexKey [] ++ index = view.getIndexKey index := by
  simp only [getIndexKey, baseTagIndex, List.append_nil]

/-- Whether `keys` lists an index: its staged entry is loaded, or it has none and its marker
is stored in a collection that was not cleared. -/
def Lists (view : ReentrantByteCollectionView W) (storage : MemoryStoreMap) (index : Bytes) :
    Prop :=
  (∃ subview, view.updates.get index = some (.set subview)) ∨
    view.updates.get index = none ∧ view.wasCleared = false ∧
      (storage.get (view.getIndexKey index)).isSome

theorem storedMarkers_sorted (view : ReentrantByteCollectionView W) (storage : MemoryStoreMap) :
    ((if view.wasCleared then [] else
      MemoryClient.findKeysByPrefix storage (view.getIndexKey [])).map
        fun index => (⟨index, ()⟩ : (_ : Bytes) × Unit)).Pairwise (fun a b => a.1 < b.1) := by
  refine List.pairwise_map.mpr ?_
  split
  · exact List.Pairwise.nil
  · exact findKeysByPrefix_sorted storage _

theorem stagedMarkers_sorted (view : ReentrantByteCollectionView W) :
    (mapValues ByteMapView.stagedValue (mapValues marker view.updates.entries)).Pairwise
      (fun a b => a.1 < b.1) :=
  mapValues_sorted ByteMapView.stagedValue (mapValues_sorted marker view.updates.sorted)

theorem keys_sorted {ε : Type} {view : ReentrantByteCollectionView W} {storage : MemoryStoreMap}
    {listed : List Bytes} (keysOk : (view.keys storage : Except ε (List Bytes)) = .ok listed) :
    listed.Pairwise (· < ·) := by
  rw [keys_eq, Except.ok.injEq] at keysOk
  subst keysOk
  exact List.pairwise_map.mpr
    (mergeOverride_sorted (storedMarkers_sorted view storage) (stagedMarkers_sorted view))

theorem mem_keys {ε : Type} {view : ReentrantByteCollectionView W} {storage : MemoryStoreMap}
    {listed : List Bytes} (keysOk : (view.keys storage : Except ε (List Bytes)) = .ok listed)
    (index : Bytes) :
    index ∈ listed ↔ view.Lists storage index := by
  rw [keys_eq, Except.ok.injEq] at keysOk
  subst keysOk
  rw [mem_keys_mergeOverride index (storedMarkers_sorted view storage) (stagedMarkers_sorted view),
    dlookup_mapValues, dlookup_mapValues, Lists]
  rw [← OrdMap.get.eq_1]
  -- A staged entry decides; without one, the stored markers do.
  cases view.updates.get index with
  | some update =>
      cases update with
      | set subview =>
          simp only [Option.map_some, marker, ByteMapView.stagedValue, Option.getD_some,
            Option.isSome_some, true_iff]
          exact Or.inl ⟨subview, rfl⟩
      | removed =>
          simp only [Option.map_some, marker, ByteMapView.stagedValue, Option.getD_some,
            Option.isSome_none, Bool.false_eq_true, false_iff]
          rintro (⟨_, loaded⟩ | ⟨absent, -⟩)
          · cases loaded
          · cases absent
  | none =>
      rw [Option.map_none, Option.map_none, Option.getD_none, dlookup_isSome_map_unit]
      cases view.wasCleared <;>
        simp [mem_findKeysByPrefix_iff, getIndexKey_nil_append]

/-- Every staged subview sits at the subview key of its index, where `try_load_entry_mut`
loads it. -/
def Staged (kind : ViewKind W) (view : ReentrantByteCollectionView W) : Prop :=
  ∀ index subview, view.updates.get index = some (.set subview) →
    kind.baseKey subview = view.getSubviewKey index

theorem not_getSubviewKey_prefix (view : ReentrantByteCollectionView W) (other index : Bytes) :
    ¬ view.getSubviewKey other <+: view.getIndexKey index := fun under =>
  not_baseTag_prefix view.baseKey (by decide) index ((List.prefix_append _ _).trans under)

theorem getIndexKey_inj (view : ReentrantByteCollectionView W) {index other : Bytes}
    (same : view.getIndexKey other = view.getIndexKey index) : other = index :=
  List.append_cancel_left same

theorem applyOperations_flushEntry_of_ne (kind : ViewKind W) (view : ReentrantByteCollectionView W)
    {entry : (_ : Bytes) × Update W}
    (staged : ∀ subview, entry.2 = .set subview → kind.baseKey subview = view.getSubviewKey entry.1)
    {index : Bytes} (other : entry.1 ≠ index) (batch : Batch) (contents : Bytes → Option Bytes) :
    applyOperations contents (view.flushEntry kind batch entry).operations (view.getIndexKey index) =
      applyOperations contents batch.operations (view.getIndexKey index) := by
  obtain ⟨shortKey, update⟩ := entry
  have otherMarker : view.getIndexKey index ≠ view.getIndexKey shortKey :=
    fun same => other (view.getIndexKey_inj same.symm)
  cases update with
  | set subview =>
      -- The subview writes under its own key; the marker it puts is another one.
      have under : ∀ operation ∈ kind.flush subview, operation.Under (view.getSubviewKey shortKey) :=
        fun operation mem => staged subview rfl ▸ kind.flush_under subview operation mem
      simp only [flushEntry, addIndex, Batch.putKeyValueBytes, applyOperations_append,
        applyOperations_cons, applyOperations_nil, WriteOperation.apply]
      rw [Function.update_of_ne otherMarker,
        applyOperations_of_under under (view.not_getSubviewKey_prefix shortKey index)]
  | removed =>
      by_cases cleared : view.wasCleared = true
      · simp only [flushEntry, cleared, if_true]
      · simp only [flushEntry, cleared, Bool.false_eq_true, if_false, Batch.deleteKey,
          Batch.deleteKeyPrefix, applyOperations_append, applyOperations_cons,
          applyOperations_nil, WriteOperation.apply]
        rw [if_neg (view.not_getSubviewKey_prefix shortKey index), Function.update_of_ne otherMarker]

theorem applyOperations_foldl_flushEntry_of_not_mem (kind : ViewKind W)
    (view : ReentrantByteCollectionView W) {entries : List ((_ : Bytes) × Update W)}
    (staged : ∀ entry ∈ entries, ∀ subview, entry.2 = .set subview →
      kind.baseKey subview = view.getSubviewKey entry.1)
    {index : Bytes} (absent : index ∉ entries.keys) (batch : Batch)
    (contents : Bytes → Option Bytes) :
    applyOperations contents (entries.foldl (view.flushEntry kind) batch).operations
        (view.getIndexKey index) =
      applyOperations contents batch.operations (view.getIndexKey index) := by
  induction entries generalizing batch with
  | nil => rfl
  | cons entry rest ih =>
      rw [List.keys_cons, List.mem_cons, not_or] at absent
      rw [List.foldl_cons, ih (fun other mem => staged other (List.mem_cons_of_mem _ mem)) absent.2,
        applyOperations_flushEntry_of_ne kind view (staged entry List.mem_cons_self)
          (fun same => absent.1 same.symm)]

/-- Once the staged entries are written, the marker of an index is there exactly when its
entry is loaded, or when it has no entry and the marker was there before. A removed entry
leaves no marker: it deletes it, or, in a cleared collection, finds it already deleted. -/
theorem isSome_foldl_flushEntry (kind : ViewKind W) (view : ReentrantByteCollectionView W)
    {entries : List ((_ : Bytes) × Update W)} (sorted : entries.Pairwise (fun a b => a.1 < b.1))
    (staged : ∀ entry ∈ entries, ∀ subview, entry.2 = .set subview →
      kind.baseKey subview = view.getSubviewKey entry.1)
    (index : Bytes) (batch : Batch) (contents : Bytes → Option Bytes)
    (clearedBase : view.wasCleared = true →
      applyOperations contents batch.operations (view.getIndexKey index) = none) :
    (applyOperations contents (entries.foldl (view.flushEntry kind) batch).operations
        (view.getIndexKey index)).isSome ↔
      (∃ subview, ⟨index, .set subview⟩ ∈ entries) ∨
        index ∉ entries.keys ∧
          (applyOperations contents batch.operations (view.getIndexKey index)).isSome := by
  induction entries generalizing batch with
  | nil => simp
  | cons entry rest ih =>
      obtain ⟨shortKey, update⟩ := entry
      obtain ⟨above, restSorted⟩ := List.pairwise_cons.mp sorted
      have restStaged := fun other mem => staged other (List.mem_cons_of_mem _ mem)
      rw [List.foldl_cons]
      by_cases hit : shortKey = index
      · -- The entry of the index is the head: the rest leaves its marker alone.
        subst hit
        have absent : shortKey ∉ rest.keys := fun mem => by
          obtain ⟨value, mem'⟩ := List.mem_keys.mp mem
          exact lt_irrefl shortKey (above ⟨shortKey, value⟩ mem')
        rw [applyOperations_foldl_flushEntry_of_not_mem kind view restStaged absent]
        cases update with
        | set subview =>
            simp only [flushEntry, addIndex, Batch.putKeyValueBytes, applyOperations_append,
              applyOperations_cons, applyOperations_nil, WriteOperation.apply,
              Function.update_self, Option.isSome_some, true_iff]
            exact Or.inl ⟨subview, List.mem_cons_self⟩
        | removed =>
            have deleted : applyOperations contents
                (view.flushEntry kind batch ⟨shortKey, .removed⟩).operations
                (view.getIndexKey shortKey) = none := by
              by_cases cleared : view.wasCleared = true
              · simp only [flushEntry, cleared, if_true]
                exact clearedBase cleared
              · simp only [flushEntry, cleared, Bool.false_eq_true, if_false, Batch.deleteKey,
                  Batch.deleteKeyPrefix, applyOperations_append, applyOperations_cons,
                  applyOperations_nil, WriteOperation.apply]
                rw [if_neg (view.not_getSubviewKey_prefix shortKey shortKey),
                  Function.update_self]
            rw [deleted, Option.isSome_none, Bool.false_eq_true, false_iff]
            rintro (⟨subview, mem⟩ | ⟨unkeyed, -⟩)
            · rcases List.mem_cons.mp mem with same | later
              · cases same
              · exact absent (List.mem_keys.mpr ⟨_, later⟩)
            · exact unkeyed (List.mem_cons_self)
      · -- Another index: its entry leaves the marker alone, and the rest decides.
        have frame := applyOperations_flushEntry_of_ne kind view
          (staged ⟨shortKey, update⟩ List.mem_cons_self) hit batch contents
        rw [ih restSorted restStaged _ (fun cleared => frame.trans (clearedBase cleared)), frame]
        have notHead : ∀ subview, (⟨index, .set subview⟩ : (_ : Bytes) × Update W) ≠
            ⟨shortKey, update⟩ := fun _ same => hit (congrArg Sigma.fst same).symm
        simp only [List.mem_cons, notHead, false_or, List.keys_cons, Ne.symm hit]

theorem getIndexKey_ne_hash (view : ReentrantByteCollectionView W) (index : Bytes) :
    view.getIndexKey index ≠ baseTag view.baseKey KeyTag.hash.byte := by
  intro same
  have under : baseTag view.baseKey KeyTag.hash.byte <+:
      view.baseKey ++ [KeyTag.index.byte] ++ index := by
    rw [← same]
    exact List.prefix_refl _
  exact not_baseTag_prefix view.baseKey (by decide) index under

theorem applyOperations_flush_index (kind : ViewKind W) (view : ReentrantByteCollectionView W)
    (batch : Batch) (contents : Bytes → Option Bytes) (index : Bytes) :
    applyOperations contents (view.flush kind batch).2.operations (view.getIndexKey index) =
      applyOperations contents (view.updates.entries.foldl (view.flushEntry kind)
        (if view.wasCleared then batch.deleteKeyPrefix view.baseKey else batch)).operations
        (view.getIndexKey index) := by
  unfold flush
  dsimp only
  generalize view.updates.entries.foldl (view.flushEntry kind)
    (if view.wasCleared then batch.deleteKeyPrefix view.baseKey else batch) = written
  by_cases changed : view.storedHash ≠ view.hash
  · rw [if_pos changed]
    cases view.hash <;>
      simp only [Batch.deleteKey, Batch.putKeyValueBytes, applyOperations_append,
        applyOperations_cons, applyOperations_nil, WriteOperation.apply,
        Function.update_of_ne (view.getIndexKey_ne_hash index)]
  · rw [if_neg changed]

/-- After a flush is written, the marker of an index is stored exactly when the collection
listed it. -/
theorem flush_marker (kind : ViewKind W) {view : ReentrantByteCollectionView W}
    (storage : MemoryStoreMap) (staged : view.Staged kind) (index : Bytes) :
    ((MemoryClient.writeBatch storage (view.flush kind ⟨[]⟩).2).get
        (view.getIndexKey index)).isSome ↔
      view.Lists storage index := by
  have entriesStaged : ∀ entry ∈ view.updates.entries, ∀ subview, entry.2 = .set subview →
      kind.baseKey subview = view.getSubviewKey entry.1 := by
    rintro ⟨shortKey, update⟩ mem subview rfl
    exact staged shortKey subview ((OrdMap.mem_entries_iff _ _ _).mp mem)
  -- A cleared collection is deleted first, its markers with it.
  have base : applyOperations storage.get
      (if view.wasCleared then (⟨[]⟩ : Batch).deleteKeyPrefix view.baseKey else ⟨[]⟩).operations
      (view.getIndexKey index) =
        if view.wasCleared then none else storage.get (view.getIndexKey index) := by
    cases view.wasCleared
    · rfl
    · simp only [if_true, Batch.deleteKeyPrefix, List.nil_append, applyOperations_cons,
        applyOperations_nil, WriteOperation.apply]
      exact if_pos ⟨[KeyTag.index.byte] ++ index, by simp [getIndexKey, baseTagIndex]⟩
  have unkeyed : index ∉ view.updates.entries.keys ↔ view.updates.get index = none := by
    rw [← Option.not_isSome_iff_eq_none, ← OrdMap.mem_keys]
    rfl
  rw [writeBatch_get, applyOperations_flush_index,
    isSome_foldl_flushEntry kind view view.updates.sorted entriesStaged index _ _
      (fun cleared => by rw [base, if_pos cleared]), base]
  simp only [OrdMap.mem_entries_iff, unkeyed, Lists]
  cases view.wasCleared <;> simp

theorem getIndexKey_of_baseKey {view other : ReentrantByteCollectionView W}
    (same : other.baseKey = view.baseKey) (index : Bytes) :
    other.getIndexKey index = view.getIndexKey index := by
  rw [getIndexKey, getIndexKey, same]

theorem getSubviewKey_of_baseKey {view other : ReentrantByteCollectionView W}
    (same : other.baseKey = view.baseKey) (index : Bytes) :
    other.getSubviewKey index = view.getSubviewKey index := by
  rw [getSubviewKey, getSubviewKey, same]

/-- What an operation that stages subviews leaves: the same collection, with every index
asked loaded and the entries of the others as they were. -/
structure LoadsEntries (view other : ReentrantByteCollectionView W) (shortKeys : List Bytes) :
    Prop where
  baseKey : other.baseKey = view.baseKey
  wasCleared : other.wasCleared = view.wasCleared
  loaded : ∀ index ∈ shortKeys, ∃ subview, other.updates.get index = some (.set subview)
  kept : ∀ index ∉ shortKeys, other.updates.get index = view.updates.get index

/-- What staging one subview at an index leaves. -/
structure SetsEntry (view other : ReentrantByteCollectionView W) (shortKey : Bytes)
    (subview : W) : Prop where
  baseKey : other.baseKey = view.baseKey
  wasCleared : other.wasCleared = view.wasCleared
  found : other.updates.get shortKey = some (.set subview)
  kept : ∀ index, index ≠ shortKey → other.updates.get index = view.updates.get index

theorem SetsEntry.loadsEntries {view other : ReentrantByteCollectionView W} {shortKey : Bytes}
    {subview : W} (sets : SetsEntry view other shortKey subview) :
    LoadsEntries view other [shortKey] where
  baseKey := sets.baseKey
  wasCleared := sets.wasCleared
  loaded _ asked := ⟨subview, List.mem_singleton.mp asked ▸ sets.found⟩
  kept index absent := sets.kept index fun hit => absent (List.mem_singleton.mpr hit)

theorem SetsEntry.staged {kind : ViewKind W} {view other : ReentrantByteCollectionView W}
    {shortKey : Bytes} {subview : W} (sets : SetsEntry view other shortKey subview)
    (staged : view.Staged kind) (placed : kind.baseKey subview = view.getSubviewKey shortKey) :
    other.Staged kind := by
  intro index loaded found
  rw [getSubviewKey_of_baseKey sets.baseKey]
  by_cases hit : index = shortKey
  · subst hit
    rw [sets.found] at found
    cases found
    exact placed
  · rw [sets.kept index hit] at found
    exact staged index loaded found

theorem setsEntry_insert (view : ReentrantByteCollectionView W) (shortKey : Bytes) (subview : W)
    (hash : Option Bytes) :
    SetsEntry view { view with updates := view.updates.insert shortKey (.set subview), hash }
      shortKey subview where
  baseKey := rfl
  wasCleared := rfl
  found := by rw [OrdMap.get_insert, if_pos rfl]
  kept index other := by rw [OrdMap.get_insert, if_neg other]

theorem setsEntry_tryLoadEntryMut (kind : ViewKind W) (storage : MemoryStoreMap)
    (view : ReentrantByteCollectionView W) (shortKey : Bytes) :
    SetsEntry view (view.tryLoadEntryMut kind storage shortKey).1 shortKey
      (view.tryLoadEntryMut kind storage shortKey).2 := by
  unfold tryLoadEntryMut
  dsimp only
  split
  next subview found => exact ⟨rfl, rfl, found, fun _ _ => rfl⟩
  next => exact setsEntry_insert view shortKey _ none
  next => exact setsEntry_insert view shortKey _ none

theorem placed_tryLoadEntryMut (kind : ViewKind W) (storage : MemoryStoreMap)
    {view : ReentrantByteCollectionView W} (staged : view.Staged kind) (shortKey : Bytes) :
    kind.baseKey (view.tryLoadEntryMut kind storage shortKey).2 = view.getSubviewKey shortKey := by
  unfold tryLoadEntryMut
  dsimp only
  split
  next subview found => exact staged shortKey subview found
  next => exact (kind.clear_baseKey _).trans (kind.load_baseKey _ _)
  next =>
    split
    · exact (kind.clear_baseKey _).trans (kind.load_baseKey _ _)
    · exact kind.load_baseKey _ _

theorem setsEntry_tryLoadEntry (kind : ViewKind W) (storage : MemoryStoreMap)
    (view : ReentrantByteCollectionView W) (shortKey : Bytes) :
    SetsEntry view (view.tryLoadEntry kind storage shortKey).1 shortKey
      (view.tryLoadEntryMut kind storage shortKey).2 :=
  have loaded := setsEntry_tryLoadEntryMut kind storage view shortKey
  ⟨loaded.baseKey, loaded.wasCleared, loaded.found, loaded.kept⟩

theorem setsEntry_withEntryMut (kind : ViewKind W) (storage : MemoryStoreMap)
    (view : ReentrantByteCollectionView W) (shortKey : Bytes) (write : W → W) :
    SetsEntry view (view.withEntryMut kind storage shortKey write) shortKey
      (write (view.tryLoadEntryMut kind storage shortKey).2) := by
  have loaded := setsEntry_tryLoadEntryMut kind storage view shortKey
  have written := setsEntry_insert (view.tryLoadEntryMut kind storage shortKey).1 shortKey
    (write (view.tryLoadEntryMut kind storage shortKey).2)
    (view.tryLoadEntryMut kind storage shortKey).1.hash
  exact ⟨written.baseKey.trans loaded.baseKey, written.wasCleared.trans loaded.wasCleared,
    written.found, fun index other => (written.kept index other).trans (loaded.kept index other)⟩

theorem setsEntry_tryResetEntryToDefault (kind : ViewKind W) (storage : MemoryStoreMap)
    (view : ReentrantByteCollectionView W) (shortKey : Bytes) :
    SetsEntry view (view.tryResetEntryToDefault kind storage shortKey) shortKey
      (kind.clear (({ view with hash := none }).tryLoadEntryMut kind storage shortKey).2) :=
  have reset := setsEntry_withEntryMut kind storage { view with hash := none } shortKey kind.clear
  ⟨reset.baseKey, reset.wasCleared, reset.found, reset.kept⟩

theorem get_removeEntry_self (view : ReentrantByteCollectionView W) (shortKey : Bytes) :
    (view.removeEntry shortKey).updates.get shortKey =
      if view.wasCleared then none else some .removed := by
  by_cases cleared : view.wasCleared = true
  · rw [removeEntry, if_pos cleared, if_pos cleared, OrdMap.get_erase, if_pos rfl]
  · rw [removeEntry, if_neg cleared, if_neg cleared, OrdMap.get_insert, if_pos rfl]

theorem get_removeEntry_of_ne (view : ReentrantByteCollectionView W) {shortKey index : Bytes}
    (other : index ≠ shortKey) :
    (view.removeEntry shortKey).updates.get index = view.updates.get index := by
  unfold removeEntry
  split
  · rw [OrdMap.get_erase, if_neg other]
  · rw [OrdMap.get_insert, if_neg other]

theorem removeEntry_baseKey (view : ReentrantByteCollectionView W) (shortKey : Bytes) :
    (view.removeEntry shortKey).baseKey = view.baseKey := by
  unfold removeEntry
  split <;> rfl

theorem removeEntry_wasCleared (view : ReentrantByteCollectionView W) (shortKey : Bytes) :
    (view.removeEntry shortKey).wasCleared = view.wasCleared := by
  unfold removeEntry
  split <;> rfl

theorem mem_selectShortKeys_fst (view : ReentrantByteCollectionView W)
    (shortKeys : List Bytes) (index : Bytes) :
    index ∈ (view.selectShortKeys shortKeys).map Prod.fst ↔
      index ∈ shortKeys ∧ ∀ subview, view.updates.get index ≠ some (.set subview) := by
  simp only [selectShortKeys, List.map_filterMap, List.mem_filterMap]
  constructor
  · rintro ⟨shortKey, asked, selected⟩
    split at selected
    next found =>
      cases selected
      exact ⟨asked, fun subview loaded => by rw [loaded] at found; cases found⟩
    next => cases selected
    next found =>
      cases selected
      exact ⟨asked, fun subview loaded => by rw [loaded] at found; cases found⟩
  · rintro ⟨asked, notLoaded⟩
    refine ⟨index, asked, ?_⟩
    rcases found : view.updates.get index with _ | update
    · rfl
    · cases update with
      | set subview => exact absurd found (notLoaded subview)
      | removed => rfl

theorem loadsEntries_foldl (kind : ViewKind W) (storage : MemoryStoreMap)
    (view : ReentrantByteCollectionView W) (shortKeys : List Bytes) :
    let updates := (view.selectShortKeys shortKeys).foldl (fun updates selected =>
        updates.insert selected.1 (.set (if selected.2
          then kind.clear (kind.load storage (view.getSubviewKey selected.1))
          else kind.load storage (view.getSubviewKey selected.1)))) view.updates
    LoadsEntries view { view with hash := none, updates } shortKeys ∧
      (view.Staged kind → Staged kind { view with hash := none, updates }) := by
  intro updates
  have unselected : ∀ index ∉ (view.selectShortKeys shortKeys).map Prod.fst,
      updates.get index = view.updates.get index :=
    fun index absent => OrdMap.get_foldl_insert_of_not_mem Prod.fst _ absent _
  refine ⟨⟨rfl, rfl, fun index asked => ?_, fun index absent => ?_⟩, fun staged => ?_⟩
  · -- An index asked is loaded already, or selected and loaded by the loop.
    by_cases selected : index ∈ (view.selectShortKeys shortKeys).map Prod.fst
    · obtain ⟨_, _, _, found⟩ := OrdMap.get_foldl_insert_of_mem Prod.fst _ selected view.updates
      exact ⟨_, found⟩
    · rw [mem_selectShortKeys_fst] at selected
      obtain ⟨subview, found⟩ := not_forall.mp (not_and.mp selected asked)
      rw [not_not] at found
      exact ⟨subview, (unselected index
        (fun mem => ((mem_selectShortKeys_fst _ _ _).mp mem).2 subview found)).trans found⟩
  · exact unselected index fun mem => absent ((mem_selectShortKeys_fst _ _ _).mp mem).1
  · intro index subview found
    by_cases selected : index ∈ (view.selectShortKeys shortKeys).map Prod.fst
    · obtain ⟨item, _, same, loaded⟩ :=
        OrdMap.get_foldl_insert_of_mem Prod.fst _ selected view.updates
      rw [show updates.get index = _ from loaded] at found
      cases found
      subst same
      show kind.baseKey (if item.2 then _ else _) = _
      split
      · exact (kind.clear_baseKey _).trans (kind.load_baseKey _ _)
      · exact kind.load_baseKey _ _
    · rw [show updates.get index = _ from unselected index selected] at found
      exact staged index subview found

/-- `try_load_entries_mut` returns: it loads every index asked and returns, in order, the
subviews it left staged. -/
theorem tryLoadEntriesMut_eq_some (kind : ViewKind W) (storage : MemoryStoreMap)
    (view : ReentrantByteCollectionView W) (shortKeys : List Bytes) :
    ∃ loaded subviews, view.tryLoadEntriesMut kind storage shortKeys = some (loaded, subviews) ∧
      LoadsEntries view loaded shortKeys ∧ (view.Staged kind → loaded.Staged kind) ∧
      shortKeys.map loaded.updates.get = subviews.map fun subview => some (.set subview) := by
  obtain ⟨loads, staged⟩ := loadsEntries_foldl kind storage view shortKeys
  unfold tryLoadEntriesMut
  dsimp only [selectShortKeys, getSubviewKey] at loads staged ⊢
  generalize List.foldl _ view.updates _ = updates at loads staged ⊢
  -- The second loop finds a loaded entry at every index asked.
  let pick : Bytes → Option W := fun shortKey => match updates.get shortKey with
    | some (.set subview) => some subview
    | _ => none
  have picked : ∀ index ∈ shortKeys, updates.get index = (pick index).map .set := by
    intro index asked
    obtain ⟨subview, found⟩ := loads.loaded index asked
    simp only [pick, found, Option.map_some]
  obtain ⟨subviews, mapped, values⟩ := Option.mapM_eq_some_of_isSome (f := pick) shortKeys
    (fun index asked => by
      obtain ⟨subview, found⟩ := loads.loaded index asked
      simp only [pick, found, Option.isSome_some])
  refine ⟨{ view with hash := none, updates }, subviews,
    congrArg (· >>= fun subviews => pure ({ view with hash := none, updates }, subviews)) mapped,
    loads, staged, ?_⟩
  calc shortKeys.map updates.get = shortKeys.map fun index => (pick index).map .set :=
        List.map_congr_left picked
    _ = (shortKeys.map pick).map (Option.map .set) := by rw [List.map_map]; rfl
    _ = subviews.map fun subview => some (.set subview) := by rw [values, List.map_map]; rfl

/-- The operations of a collection, with the writes through the guards it hands out. -/
inductive Operation (kind : ViewKind W) where
  | tryLoadEntryMut (shortKey : Bytes)
  | tryLoadEntry (shortKey : Bytes)
  | write (shortKey : Bytes) (change : kind.Write)
  | removeEntry (shortKey : Bytes)
  | tryResetEntryToDefault (shortKey : Bytes)
  | tryLoadEntriesMut (shortKeys : List Bytes)
  | tryLoadEntries (shortKeys : List Bytes)
  | clear
  | rollback
  | flush

/-- A collection over the storage it reads, which only its own flushes write. -/
structure State (W : Type) where
  storage : MemoryStoreMap
  view : ReentrantByteCollectionView W

def step (kind : ViewKind W) (state : State W) : Operation kind → State W
  | .tryLoadEntryMut shortKey =>
      ⟨state.storage, (state.view.tryLoadEntryMut kind state.storage shortKey).1⟩
  | .tryLoadEntry shortKey =>
      ⟨state.storage, (state.view.tryLoadEntry kind state.storage shortKey).1⟩
  | .write shortKey change =>
      ⟨state.storage, state.view.withEntryMut kind state.storage shortKey change.apply⟩
  | .removeEntry shortKey => ⟨state.storage, state.view.removeEntry shortKey⟩
  | .tryResetEntryToDefault shortKey =>
      ⟨state.storage, state.view.tryResetEntryToDefault kind state.storage shortKey⟩
  | .tryLoadEntriesMut shortKeys =>
      match state.view.tryLoadEntriesMut kind state.storage shortKeys with
      | some (view, _) => ⟨state.storage, view⟩
      | none => state
  | .tryLoadEntries shortKeys =>
      match state.view.tryLoadEntries kind state.storage shortKeys with
      | some (view, _) => ⟨state.storage, view⟩
      | none => state
  | .clear => ⟨state.storage, state.view.clear⟩
  | .rollback => ⟨state.storage, state.view.rollback⟩
  | .flush =>
      ⟨MemoryClient.writeBatch state.storage (state.view.flush kind ⟨[]⟩).2,
        (state.view.flush kind ⟨[]⟩).1⟩

def run (kind : ViewKind W) (state : State W) (operations : List (Operation kind)) : State W :=
  operations.foldl (step kind) state

/-- What the user of a collection sees of its indices: the current ones, and those of the
last flush, to which `rollback` goes back. -/
structure Reference where
  current : OrdSet Bytes
  flushed : OrdSet Bytes

namespace Reference

/-- The operations of a collection, on its set of indices: loading an entry, even for
reading, adds its index. -/
def step {kind : ViewKind W} (reference : Reference) : Operation kind → Reference
  | .tryLoadEntryMut shortKey | .tryLoadEntry shortKey | .write shortKey _
  | .tryResetEntryToDefault shortKey =>
      { reference with current := reference.current.insert shortKey }
  | .removeEntry shortKey => { reference with current := reference.current.erase shortKey }
  | .tryLoadEntriesMut shortKeys | .tryLoadEntries shortKeys =>
      { reference with current := shortKeys.foldl OrdSet.insert reference.current }
  | .clear => { reference with current := OrdSet.empty }
  | .rollback => { reference with current := reference.flushed }
  | .flush => { reference with flushed := reference.current }

def run {kind : ViewKind W} (reference : Reference) (operations : List (Operation kind)) :
    Reference :=
  operations.foldl step reference

end Reference

/-- The indices whose markers are stored under a base key, as `keys` scans them. -/
def storedIndices (storage : MemoryStoreMap) (baseKey : Bytes) : OrdSet Bytes :=
  ⟨MemoryClient.findKeysByPrefix storage (baseTagIndex baseKey KeyTag.index.byte []),
    findKeysByPrefix_sorted storage _⟩

theorem mem_storedIndices (storage : MemoryStoreMap) (view : ReentrantByteCollectionView W)
    (index : Bytes) :
    index ∈ storedIndices storage view.baseKey ↔ (storage.get (view.getIndexKey index)).isSome := by
  show index ∈ MemoryClient.findKeysByPrefix storage (view.getIndexKey []) ↔ _
  rw [mem_findKeysByPrefix_iff, getIndexKey_nil_append]

/-- The collection over its storage lists the reference's current indices, its subviews sit
at their keys, and its stored markers are the indices of the last flush. -/
structure Simulates (kind : ViewKind W) (state : State W) (reference : Reference) : Prop where
  staged : state.view.Staged kind
  lists : ∀ index, state.view.Lists state.storage index ↔ index ∈ reference.current
  stored : ∀ index,
    (state.storage.get (state.view.getIndexKey index)).isSome ↔ index ∈ reference.flushed

section Simulation

variable {kind : ViewKind W} {state : State W} {reference : Reference}

theorem simulates_load (kind : ViewKind W) (storage : MemoryStoreMap) (baseKey : Bytes) :
    Simulates kind ⟨storage, load storage baseKey⟩
      ⟨storedIndices storage baseKey, storedIndices storage baseKey⟩ where
  staged _ _ found := by cases found
  lists index := by
    rw [show index ∈ storedIndices storage baseKey ↔ _ from
      mem_storedIndices storage (load storage baseKey : ReentrantByteCollectionView W) index]
    simp [Lists, load]
  stored index := (mem_storedIndices storage (load storage baseKey) index).symm

theorem Simulates.loads (simulates : Simulates kind state reference)
    {other : ReentrantByteCollectionView W} {shortKeys : List Bytes}
    (loads : LoadsEntries state.view other shortKeys) (staged : other.Staged kind) :
    Simulates kind ⟨state.storage, other⟩
      { reference with current := shortKeys.foldl OrdSet.insert reference.current } where
  staged := staged
  lists index := by
    show _ ↔ index ∈ shortKeys.foldl OrdSet.insert reference.current
    rw [OrdSet.mem_foldl_insert, ← simulates.lists index]
    by_cases asked : index ∈ shortKeys
    · obtain ⟨subview, found⟩ := loads.loaded index asked
      exact iff_of_true (Or.inl ⟨subview, found⟩) (Or.inl asked)
    · unfold Lists
      rw [loads.kept index asked, loads.wasCleared, getIndexKey_of_baseKey loads.baseKey]
      simp only [asked, false_or]
  stored index := by
    show (state.storage.get (other.getIndexKey index)).isSome ↔ _
    rw [getIndexKey_of_baseKey loads.baseKey]
    exact simulates.stored index

theorem Simulates.setsEntry (simulates : Simulates kind state reference)
    {other : ReentrantByteCollectionView W} {shortKey : Bytes} {subview : W}
    (sets : SetsEntry state.view other shortKey subview)
    (placed : kind.baseKey subview = state.view.getSubviewKey shortKey) :
    Simulates kind ⟨state.storage, other⟩
      { reference with current := reference.current.insert shortKey } :=
  simulates.loads sets.loadsEntries (sets.staged simulates.staged placed)

theorem lists_removeEntry (view : ReentrantByteCollectionView W) (storage : MemoryStoreMap)
    (shortKey index : Bytes) :
    (view.removeEntry shortKey).Lists storage index ↔ index ≠ shortKey ∧ view.Lists storage index := by
  by_cases hit : index = shortKey
  · -- The removed index has no loaded entry, and either none in a cleared collection or a
    -- removed one.
    subst hit
    simp only [Lists, get_removeEntry_self, removeEntry_wasCleared, ne_eq, not_true_eq_false,
      false_and, iff_false]
    cases view.wasCleared <;> simp
  · unfold Lists
    rw [get_removeEntry_of_ne view hit, removeEntry_wasCleared,
      getIndexKey_of_baseKey (removeEntry_baseKey view shortKey)]
    simp only [ne_eq, hit, not_false_eq_true, true_and]

theorem Simulates.removeEntry (simulates : Simulates kind state reference) (shortKey : Bytes) :
    Simulates kind ⟨state.storage, state.view.removeEntry shortKey⟩
      { reference with current := reference.current.erase shortKey } where
  staged index subview found := by
    have other : index ≠ shortKey := by
      rintro rfl
      rw [get_removeEntry_self] at found
      split at found <;> cases found
    rw [get_removeEntry_of_ne _ other] at found
    rw [getSubviewKey_of_baseKey (removeEntry_baseKey _ _)]
    exact simulates.staged index subview found
  lists index := by
    show _ ↔ index ∈ reference.current.erase shortKey
    rw [lists_removeEntry, OrdSet.mem_erase, simulates.lists index]
  stored index := by
    show (state.storage.get ((state.view.removeEntry shortKey).getIndexKey index)).isSome ↔ _
    rw [getIndexKey_of_baseKey (removeEntry_baseKey _ _)]
    exact simulates.stored index

theorem Simulates.clear (simulates : Simulates kind state reference) :
    Simulates kind ⟨state.storage, state.view.clear⟩
      { reference with current := OrdSet.empty } where
  staged _ _ found := by cases found
  lists index := by simp [Lists, ReentrantByteCollectionView.clear]
  stored index := simulates.stored index

theorem Simulates.rollback (simulates : Simulates kind state reference) :
    Simulates kind ⟨state.storage, state.view.rollback⟩
      { reference with current := reference.flushed } where
  staged _ _ found := by cases found
  lists index := by
    show _ ↔ index ∈ reference.flushed
    rw [← simulates.stored index]
    simp [Lists, ReentrantByteCollectionView.rollback, getIndexKey]
  stored index := simulates.stored index

theorem flush_fst (kind : ViewKind W) (view : ReentrantByteCollectionView W) (batch : Batch) :
    (view.flush kind batch).1.baseKey = view.baseKey ∧
      (view.flush kind batch).1.wasCleared = false ∧
        (view.flush kind batch).1.updates = OrdMap.empty := by
  unfold flush
  dsimp only
  split <;> exact ⟨rfl, rfl, rfl⟩

/-- A flush stores the markers of the listed indices and leaves a collection that lists
exactly them. -/
theorem Simulates.flush (simulates : Simulates kind state reference) :
    Simulates kind
      ⟨MemoryClient.writeBatch state.storage (state.view.flush kind ⟨[]⟩).2,
        (state.view.flush kind ⟨[]⟩).1⟩
      { reference with flushed := reference.current } := by
  obtain ⟨sameBase, uncleared, unstaged⟩ := flush_fst kind state.view ⟨[]⟩
  have written : ∀ index, ((MemoryClient.writeBatch state.storage
      (state.view.flush kind ⟨[]⟩).2).get
        ((state.view.flush kind ⟨[]⟩).1.getIndexKey index)).isSome ↔
          index ∈ reference.current := fun index => by
    rw [getIndexKey_of_baseKey sameBase, flush_marker kind state.storage simulates.staged index,
      simulates.lists index]
  refine ⟨fun index subview found => ?_, fun index => ?_, written⟩
  · rw [unstaged] at found
    cases found
  · unfold Lists
    rw [unstaged, uncleared, ← written index]
    simp

theorem Simulates.step (simulates : Simulates kind state reference) (operation : Operation kind) :
    Simulates kind (step kind state operation) (reference.step operation) := by
  cases operation with
  | tryLoadEntryMut shortKey =>
      exact simulates.setsEntry (setsEntry_tryLoadEntryMut kind state.storage state.view shortKey)
        (placed_tryLoadEntryMut kind state.storage simulates.staged shortKey)
  | tryLoadEntry shortKey =>
      exact simulates.setsEntry (setsEntry_tryLoadEntry kind state.storage state.view shortKey)
        (placed_tryLoadEntryMut kind state.storage simulates.staged shortKey)
  | write shortKey change =>
      exact simulates.setsEntry
        (setsEntry_withEntryMut kind state.storage state.view shortKey change.apply)
        ((change.baseKey_apply _).trans
          (placed_tryLoadEntryMut kind state.storage simulates.staged shortKey))
  | removeEntry shortKey => exact simulates.removeEntry shortKey
  | tryResetEntryToDefault shortKey =>
      exact simulates.setsEntry
        (setsEntry_tryResetEntryToDefault kind state.storage state.view shortKey)
        ((kind.clear_baseKey _).trans
          (placed_tryLoadEntryMut kind state.storage simulates.staged shortKey))
  | tryLoadEntriesMut shortKeys =>
      obtain ⟨loaded, subviews, ran, loads, staged, -⟩ :=
        tryLoadEntriesMut_eq_some kind state.storage state.view shortKeys
      simp only [ReentrantByteCollectionView.step, ran]
      exact simulates.loads loads (staged simulates.staged)
  | tryLoadEntries shortKeys =>
      obtain ⟨loaded, subviews, ran, loads, staged, -⟩ :=
        tryLoadEntriesMut_eq_some kind state.storage state.view shortKeys
      simp only [ReentrantByteCollectionView.step, tryLoadEntries, ran, Option.map_some]
      exact simulates.loads ⟨loads.baseKey, loads.wasCleared, loads.loaded, loads.kept⟩
        (staged simulates.staged)
  | clear => exact simulates.clear
  | rollback => exact simulates.rollback
  | flush => exact simulates.flush

theorem Simulates.run (simulates : Simulates kind state reference)
    (operations : List (Operation kind)) :
    Simulates kind (run kind state operations) (reference.run operations) := by
  induction operations generalizing state reference with
  | nil => exact simulates
  | cons operation rest ih => exact ih (simulates.step operation)

theorem Simulates.keys {ε : Type} (simulates : Simulates kind state reference) :
    (state.view.keys state.storage : Except ε (List Bytes)) = .ok reference.current.elems := by
  obtain ⟨listed, keysOk⟩ :
      ∃ listed, (state.view.keys state.storage : Except ε (List Bytes)) = .ok listed :=
    ⟨_, keys_eq state.view state.storage⟩
  rw [keysOk, (keys_sorted keysOk).eq_of_mem_iff reference.current.sorted
    fun index => (mem_keys keysOk index).trans (simulates.lists index)]

end Simulation

theorem baseKey_step (kind : ViewKind W) (state : State W) (operation : Operation kind) :
    (step kind state operation).view.baseKey = state.view.baseKey := by
  cases operation with
  | tryLoadEntryMut shortKey =>
      exact (setsEntry_tryLoadEntryMut kind state.storage state.view shortKey).baseKey
  | tryLoadEntry shortKey =>
      exact (setsEntry_tryLoadEntry kind state.storage state.view shortKey).baseKey
  | write shortKey change =>
      exact (setsEntry_withEntryMut kind state.storage state.view shortKey change.apply).baseKey
  | removeEntry shortKey => exact removeEntry_baseKey state.view shortKey
  | tryResetEntryToDefault shortKey =>
      exact (setsEntry_tryResetEntryToDefault kind state.storage state.view shortKey).baseKey
  | tryLoadEntriesMut shortKeys =>
      obtain ⟨loaded, subviews, ran, loads, -⟩ :=
        tryLoadEntriesMut_eq_some kind state.storage state.view shortKeys
      simp only [ReentrantByteCollectionView.step, ran]
      exact loads.baseKey
  | tryLoadEntries shortKeys =>
      obtain ⟨loaded, subviews, ran, loads, -⟩ :=
        tryLoadEntriesMut_eq_some kind state.storage state.view shortKeys
      simp only [ReentrantByteCollectionView.step, tryLoadEntries, ran, Option.map_some]
      exact loads.baseKey
  | clear => rfl
  | rollback => rfl
  | flush => exact (flush_fst kind state.view ⟨[]⟩).1

theorem baseKey_run (kind : ViewKind W) (state : State W) (operations : List (Operation kind)) :
    (run kind state operations).view.baseKey = state.view.baseKey := by
  induction operations generalizing state with
  | nil => rfl
  | cons operation rest ih => exact (ih _).trans (baseKey_step kind state operation)

/-- Over every run from a collection loaded from storage, `keys` lists in increasing order
the indices of the plain set model, and the markers in storage are the indices of its last
flush. -/
theorem keys_run {ε : Type} (kind : ViewKind W) (storage : MemoryStoreMap) (baseKey : Bytes)
    (operations : List (Operation kind)) :
    let state := run kind ⟨storage, load storage baseKey⟩ operations
    let reference := Reference.run
      ⟨storedIndices storage baseKey, storedIndices storage baseKey⟩ operations
    (state.view.keys state.storage : Except ε (List Bytes)) = .ok reference.current.elems ∧
      storedIndices state.storage baseKey = reference.flushed := by
  intro state reference
  have simulates : Simulates kind state reference :=
    (simulates_load kind storage baseKey).run operations
  have sameBase : state.view.baseKey = baseKey := baseKey_run kind _ operations
  refine ⟨simulates.keys, OrdSet.ext_mem fun index => ?_⟩
  rw [← sameBase, mem_storedIndices]
  exact simulates.stored index

end ReentrantByteCollectionView

end Linera.Views
