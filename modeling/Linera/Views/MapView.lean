import Linera.Views.KeyValueStoreView

set_option autoImplicit false

/-! The byte map view and its hash cache (`linera-views/src/map_view.rs`).

A `ByteMapView` stages updates over the entries it was loaded from and caches the hash
of its contents, next to the hash it last stored. `insert`, `remove` and `clear` drop the
cached hash, `rollback` restores the stored one, and `flush` stores the cached one: on
every run of these (`HashesAgree.run`) `hash_mut` returns the hash of a recomputation.
`get_mut` and `get_mut_or_default` hand out the value for writing and keep the cached
hash, which then describes contents the view no longer has.

The runs read the view's storage as its entries and its hash slot (`Storage`).
`flush` emits the batch of the source, under the base key; `writeBatch_flush` says that
the memory store, after writing it, holds what `flushStorage` leaves in that storage.

The hash function is a parameter `hashOf` over the entries of the contents in key order,
as `compute_hash` visits them. `hash` is `hash_mut` behind a lock and is not repeated. -/

namespace Linera.Views

/-- `ByteMapView`, without its context. -/
structure ByteMapView (V H : Type) where
  wasCleared : Bool
  updates : OrdMap Bytes (Update V)
  storedHash : Option H
  hash : Option H

namespace ByteMapView

/-- `KeyTag` of the map view, from `MIN_VIEW_TAG`. -/
inductive KeyTag where
  | index
  | hash
  deriving DecidableEq, Repr

def KeyTag.byte : KeyTag → Fin 256
  | .index => 1
  | .hash => 2

variable {V H : Type}

/-- `ByteMapView::load`, with the hash read from storage. -/
def load (storedHash : Option H) : ByteMapView V H := ⟨false, OrdMap.empty, storedHash, storedHash⟩

def insert (view : ByteMapView V H) (shortKey : Bytes) (value : V) : ByteMapView V H :=
  { view with hash := none, updates := view.updates.insert shortKey (.set value) }

def remove (view : ByteMapView V H) (shortKey : Bytes) : ByteMapView V H :=
  if view.wasCleared then { view with hash := none, updates := view.updates.erase shortKey }
  else { view with hash := none, updates := view.updates.insert shortKey .removed }

def clear (view : ByteMapView V H) : ByteMapView V H :=
  { view with wasCleared := true, updates := OrdMap.empty, hash := none }

/-- `load_value`: copies the stored value of a key into the updates. -/
def loadValue (view : ByteMapView V H) (storage : OrdMap Bytes V) (shortKey : Bytes) :
    ByteMapView V H :=
  if !view.wasCleared && !(view.updates.get shortKey).isSome then
    match storage.get shortKey with
    | some value => { view with updates := view.updates.insert shortKey (.set value) }
    | none => view
  else view

def get (view : ByteMapView V H) (storage : OrdMap Bytes V) (shortKey : Bytes) : Option V :=
  match view.updates.get shortKey with
  | some .removed => none
  | some (.set value) => some value
  | none => if view.wasCleared then none else storage.get shortKey

/-- `get_mut` followed by a write through the reference it returns. -/
def getMut (view : ByteMapView V H) (storage : OrdMap Bytes V) (shortKey : Bytes)
    (write : V → V) : ByteMapView V H :=
  let view := view.loadValue storage shortKey
  match view.updates.get shortKey with
  | some (.set value) => { view with updates := view.updates.insert shortKey (.set (write value)) }
  | _ => view

/-- `get_mut_or_default` followed by a write through the reference it returns. -/
def getMutOrDefault [Inhabited V] (view : ByteMapView V H) (storage : OrdMap Bytes V)
    (shortKey : Bytes) (write : V → V) : ByteMapView V H :=
  let value :=
    match view.updates.get shortKey with
    | some (.set value) => value
    | some .removed => default
    | none => if view.wasCleared then default else (storage.get shortKey).getD default
  { view with updates := view.updates.insert shortKey (.set (write value)) }

/-- One staged update applied to a map. -/
def applyUpdate (map : OrdMap Bytes V) (entry : (_ : Bytes) × Update V) : OrdMap Bytes V :=
  match entry.2 with
  | .removed => map.erase entry.1
  | .set value => map.insert entry.1 value

/-- The contents of the view: the updates over the stored map, or over nothing once
cleared. -/
def contents (view : ByteMapView V H) (storage : OrdMap Bytes V) : OrdMap Bytes V :=
  view.updates.entries.foldl applyUpdate (if view.wasCleared then OrdMap.empty else storage)

/-- `compute_hash`: the hash of the entries of the contents in key order. -/
def computeHash (view : ByteMapView V H) (storage : OrdMap Bytes V)
    (hashOf : List ((_ : Bytes) × V) → H) : H :=
  hashOf (view.contents storage).entries

/-- `hash_mut`: the cached hash, or a new one that is then cached. -/
def hashMut (view : ByteMapView V H) (storage : OrdMap Bytes V)
    (hashOf : List ((_ : Bytes) × V) → H) : H × ByteMapView V H :=
  match view.hash with
  | some hash => (hash, view)
  | none =>
      let newHash := view.computeHash storage hashOf
      (newHash, { view with hash := some newHash })

/-- What the view stores: its index entries and the hash slot. -/
structure Storage (V H : Type) where
  entries : OrdMap Bytes V
  hash : Option H

/-- `flush`: the updates are written under their index keys, and the hash slot is
rewritten when the hash changed. On a cleared view the whole view is deleted first, the
hash slot with it. `serialize` and `serializeHash` are `bcs::to_bytes`, taken as total. -/
def flush [DecidableEq H] (view : ByteMapView V H) (baseKey : Bytes) (serialize : V → Bytes)
    (serializeHash : H → Bytes) (batch : Batch) : ByteMapView V H × Batch :=
  let batch :=
    if view.wasCleared then
      view.updates.entries.foldl (fun batch entry =>
          match entry.2 with
          | .set value =>
              batch.putKeyValueBytes (baseTagIndex baseKey KeyTag.index.byte entry.1)
                (serialize value)
          | .removed => batch)
        (batch.deleteKeyPrefix baseKey)
    else
      view.updates.entries.foldl (fun batch entry =>
          let key := baseTagIndex baseKey KeyTag.index.byte entry.1
          match entry.2 with
          | .removed => batch.deleteKey key
          | .set value => batch.putKeyValueBytes key (serialize value))
        batch
  let hash := view.hash
  if view.storedHash ≠ hash then
    let key := baseTag baseKey KeyTag.hash.byte
    let batch :=
      match hash with
      | none => batch.deleteKey key
      | some hash => batch.putKeyValueBytes key (serializeHash hash)
    (⟨false, OrdMap.empty, hash, hash⟩, batch)
  else (⟨false, OrdMap.empty, view.storedHash, hash⟩, batch)

/-- What the view's storage holds after `flush` and the write of its batch, and the view
`flush` leaves: the index entries hold the contents of the view, and the hash slot the
cached hash if it changed. -/
def flushStorage [DecidableEq H] (view : ByteMapView V H) (storage : Storage V H) :
    ByteMapView V H × Storage V H :=
  -- The batch leaves the index entries holding the contents of the view.
  let entries := view.contents storage.entries
  let slot := if view.wasCleared then none else storage.hash
  if view.storedHash ≠ view.hash then
    (⟨false, OrdMap.empty, view.hash, view.hash⟩, ⟨entries, view.hash⟩)
  else (⟨false, OrdMap.empty, view.storedHash, view.hash⟩, ⟨entries, slot⟩)

def rollback (view : ByteMapView V H) : ByteMapView V H :=
  { view with wasCleared := false, updates := OrdMap.empty, hash := view.storedHash }

/-- The operations a user of the view performs. -/
inductive Operation (V : Type) where
  | insert (shortKey : Bytes) (value : V)
  | remove (shortKey : Bytes)
  | getMut (shortKey : Bytes) (write : V → V)
  | getMutOrDefault (shortKey : Bytes) (write : V → V)
  | hashMut
  | clear
  | rollback
  | flush
  | reload

/-- The operations that hand out a reference to a value. -/
def Operation.handsOutReference : Operation V → Bool
  | .getMut .. | .getMutOrDefault .. => true
  | _ => false

/-- A view together with its storage. -/
structure State (V H : Type) where
  view : ByteMapView V H
  storage : Storage V H

/-- One operation on the view; `reload` is `load` from the storage. -/
def step [Inhabited V] [DecidableEq H] (hashOf : List ((_ : Bytes) × V) → H)
    (state : State V H) : Operation V → State V H
  | .insert shortKey value => { state with view := state.view.insert shortKey value }
  | .remove shortKey => { state with view := state.view.remove shortKey }
  | .getMut shortKey write =>
      { state with view := state.view.getMut state.storage.entries shortKey write }
  | .getMutOrDefault shortKey write =>
      { state with view := state.view.getMutOrDefault state.storage.entries shortKey write }
  | .hashMut => { state with view := (state.view.hashMut state.storage.entries hashOf).2 }
  | .clear => { state with view := state.view.clear }
  | .rollback => { state with view := state.view.rollback }
  | .flush => ⟨(state.view.flushStorage state.storage).1, (state.view.flushStorage state.storage).2⟩
  | .reload => { state with view := load state.storage.hash }

def run [Inhabited V] [DecidableEq H] (hashOf : List ((_ : Bytes) × V) → H)
    (state : State V H) (operations : List (Operation V)) : State V H :=
  operations.foldl (step hashOf) state

theorem get_foldl_applyUpdate (entries : List ((_ : Bytes) × Update V))
    (distinct : entries.NodupKeys) (base : OrdMap Bytes V) (key : Bytes) :
    (entries.foldl applyUpdate base).get key =
      match entries.dlookup key with
      | some .removed => none
      | some (.set value) => some value
      | none => base.get key := by
  induction entries generalizing base with
  | nil => rfl
  | cons entry rest ih =>
      obtain ⟨index, update⟩ := entry
      rw [List.nodupKeys_cons] at distinct
      rw [List.foldl_cons, ih distinct.2]
      by_cases hit : key = index
      · subst hit
        rw [List.dlookup_eq_none.mpr distinct.1, List.dlookup_cons_eq]
        cases update <;> simp [applyUpdate]
      · rw [List.dlookup_cons_ne _ _ (fun same => hit same)]
        rcases rest.dlookup key with _ | _ | value <;> cases update <;>
          simp [applyUpdate, hit]

@[simp] theorem get_contents (view : ByteMapView V H) (storage : OrdMap Bytes V)
    (key : Bytes) : (view.contents storage).get key = view.get storage key := by
  -- The fold lemma looks entries up with the list's own equality test.
  have lookup : view.updates.entries.dlookup key = view.updates.get key := by
    unfold OrdMap.get
    congr 1
  rw [contents, get_foldl_applyUpdate _ view.updates.nodupKeys, lookup, get]
  cases view.wasCleared <;> rfl

theorem contents_eq_of_get {first second : ByteMapView V H} {storage : OrdMap Bytes V}
    (same : ∀ key, first.get storage key = second.get storage key) :
    first.contents storage = second.contents storage :=
  OrdMap.ext_get fun key => by rw [get_contents, get_contents, same]

theorem get_loadValue (view : ByteMapView V H) (storage : OrdMap Bytes V) (shortKey key : Bytes) :
    (view.loadValue storage shortKey).get storage key = view.get storage key := by
  unfold loadValue
  split_ifs with absent
  · simp only [Bool.and_eq_true, Bool.not_eq_true', Option.isSome_eq_false_iff,
      Option.isNone_iff_eq_none] at absent
    rcases stored : storage.get shortKey with _ | value
    · rfl
    · by_cases hit : key = shortKey
      · subst hit
        simp [get, absent.1, absent.2, stored]
      · simp [get, hit]
  · rfl

theorem get_eq_none_of_loadValue (view : ByteMapView V H) (storage : OrdMap Bytes V)
    (shortKey : Bytes) (unstaged : (view.loadValue storage shortKey).updates.get shortKey = none) :
    view.get storage shortKey = none := by
  unfold loadValue at unstaged
  split_ifs at unstaged with absent
  · simp only [Bool.and_eq_true, Bool.not_eq_true', Option.isSome_eq_false_iff,
      Option.isNone_iff_eq_none] at absent
    rcases stored : storage.get shortKey with _ | value
    · simp [get, absent.1, absent.2, stored]
    · simp [stored] at unstaged
  · simp only [Bool.and_eq_true, Bool.not_eq_true', Option.isSome_eq_false_iff,
      Option.isNone_iff_eq_none, not_and] at absent
    have cleared : view.wasCleared = true := by
      cases wasCleared : view.wasCleared
      · exact absurd unstaged (absent wasCleared)
      · rfl
    simp [get, unstaged, cleared]

/-- What `get_mut` followed by a write leaves: the value of the key, if any, is
rewritten. -/
theorem get_getMut (view : ByteMapView V H) (storage : OrdMap Bytes V) (shortKey : Bytes)
    (write : V → V) (key : Bytes) :
    (view.getMut storage shortKey write).get storage key =
      if key = shortKey then (view.get storage shortKey).map write
      else view.get storage key := by
  have loaded := get_loadValue view storage shortKey
  have unstaged := get_eq_none_of_loadValue view storage shortKey
  unfold getMut
  generalize view.loadValue storage shortKey = next at loaded unstaged
  rw [← loaded, ← loaded]
  by_cases hit : key = shortKey
  · subst hit
    rcases found : next.updates.get key with _ | _ | value
    · simp [found, loaded, unstaged found]
    · simp [get, found]
    · simp [get, found]
  · rcases found : next.updates.get shortKey with _ | _ | value <;> simp [get, found, hit]

theorem get_congr {first second : ByteMapView V H} (storage : OrdMap Bytes V) (key : Bytes)
    (cleared : first.wasCleared = second.wasCleared)
    (staged : first.updates.get key = second.updates.get key) :
    first.get storage key = second.get storage key := by
  unfold get
  rw [cleared, staged]

theorem get_insert (view : ByteMapView V H) (storage : OrdMap Bytes V) (shortKey : Bytes)
    (value : V) (key : Bytes) :
    (view.insert shortKey value).get storage key =
      if key = shortKey then some value else view.get storage key := by
  by_cases hit : key = shortKey
  · simp [insert, get, hit]
  · simp only [hit, if_false]
    exact get_congr storage key rfl (by simp [insert, hit])

theorem get_hashMut (view : ByteMapView V H) (storage : OrdMap Bytes V)
    (hashOf : List ((_ : Bytes) × V) → H) :
    (view.hashMut storage hashOf).2.get = view.get := by
  unfold hashMut
  split <;> rfl

/-- What `get_mut_or_default` followed by a write leaves: the key holds the written
value, from the default where it had none. -/
theorem get_getMutOrDefault [Inhabited V] (view : ByteMapView V H) (storage : OrdMap Bytes V)
    (shortKey : Bytes) (write : V → V) (key : Bytes) :
    (view.getMutOrDefault storage shortKey write).get storage key =
      if key = shortKey then some (write ((view.get storage shortKey).getD default))
      else view.get storage key := by
  by_cases hit : key = shortKey
  · subst hit
    rcases found : view.updates.get key with _ | _ | value <;>
      cases cleared : view.wasCleared <;> simp [getMutOrDefault, get, found, cleared]
  · simp only [hit, if_false]
    exact get_congr storage key rfl (by simp [getMutOrDefault, hit])

section Fields

variable (view : ByteMapView V H) (storage : OrdMap Bytes V) (shortKey : Bytes)

@[simp] theorem hash_remove : (view.remove shortKey).hash = none := by
  unfold remove
  split <;> rfl

@[simp] theorem storedHash_remove : (view.remove shortKey).storedHash = view.storedHash := by
  unfold remove
  split <;> rfl

end Fields

section Runs

variable (hashOf : List ((_ : Bytes) × V) → H)

/-- The cached and the stored hash are those of a recomputation, and the hash slot of
the storage is empty or holds the stored hash. -/
structure HashesAgree (state : State V H) : Prop where
  cached : ∀ hash, state.view.hash = some hash →
    hash = state.view.computeHash state.storage.entries hashOf
  stored : ∀ hash, state.view.storedHash = some hash → hash = hashOf state.storage.entries.entries
  slot : state.storage.hash = none ∨ state.storage.hash = state.view.storedHash

theorem computeHash_of_updates_empty (view : ByteMapView V H) (storage : OrdMap Bytes V)
    (unchanged : view.wasCleared = false) (empty : view.updates = OrdMap.empty) :
    view.computeHash storage hashOf = hashOf storage.entries := by
  simp [computeHash, contents, unchanged, empty, OrdMap.empty]

theorem hashesAgree_load (storage : Storage V H)
    (valid : ∀ hash, storage.hash = some hash → hash = hashOf storage.entries.entries) :
    HashesAgree hashOf ⟨load storage.hash, storage⟩ where
  cached hash found := by
    rw [computeHash_of_updates_empty hashOf _ _ rfl rfl]
    exact valid hash found
  stored := valid
  slot := Or.inr rfl

variable {hashOf}

theorem HashesAgree.hashMut_eq {state : State V H} (agree : HashesAgree hashOf state) :
    (state.view.hashMut state.storage.entries hashOf).1 =
      state.view.computeHash state.storage.entries hashOf := by
  unfold hashMut
  rcases found : state.view.hash with _ | hash
  · rfl
  · exact agree.cached hash found

theorem HashesAgree.of_hash_eq_none {state : State V H} (agree : HashesAgree hashOf state)
    (view : ByteMapView V H) (dropped : view.hash = none)
    (storedHash : view.storedHash = state.view.storedHash) :
    HashesAgree hashOf { state with view } where
  cached hash found := by simp [dropped] at found
  stored hash found := agree.stored hash (storedHash ▸ found)
  slot := storedHash ▸ agree.slot

theorem HashesAgree.hashMut {state : State V H} (agree : HashesAgree hashOf state) :
    HashesAgree hashOf { state with view := (state.view.hashMut state.storage.entries hashOf).2 } := by
  unfold ByteMapView.hashMut
  rcases found : state.view.hash with _ | hash
  · exact ⟨fun hash same => by cases same; rfl, agree.stored, agree.slot⟩
  · exact agree

theorem HashesAgree.rollback {state : State V H} (agree : HashesAgree hashOf state) :
    HashesAgree hashOf { state with view := state.view.rollback } where
  cached hash found := by
    rw [computeHash_of_updates_empty hashOf _ _ rfl rfl]
    exact agree.stored hash found
  stored := agree.stored
  slot := agree.slot

/-- `flush` writes the contents, and the stored hash becomes the cached one. -/
theorem HashesAgree.flush [DecidableEq H] {state : State V H} (agree : HashesAgree hashOf state) :
    HashesAgree hashOf
      ⟨(state.view.flushStorage state.storage).1, (state.view.flushStorage state.storage).2⟩ := by
  -- After the flush the view has no updates over the written contents.
  have written (storedHash hash : Option H) :
      (⟨false, OrdMap.empty, storedHash, hash⟩ : ByteMapView V H).computeHash
          (state.view.contents state.storage.entries) hashOf =
        state.view.computeHash state.storage.entries hashOf :=
    computeHash_of_updates_empty hashOf _ _ rfl rfl
  have cached : ∀ (storedHash : Option H) hash, state.view.hash = some hash →
      hash = (⟨false, OrdMap.empty, storedHash, state.view.hash⟩ : ByteMapView V H).computeHash
        (state.view.contents state.storage.entries) hashOf := fun storedHash hash found => by
    rw [written]
    exact agree.cached hash found
  dsimp only [ByteMapView.flushStorage]
  by_cases changed : state.view.storedHash ≠ state.view.hash
  · rw [if_pos changed]
    exact ⟨cached _, agree.cached, Or.inr rfl⟩
  · rw [if_neg changed]
    have same : state.view.storedHash = state.view.hash := not_not.mp changed
    refine ⟨cached _, fun hash found => agree.cached hash (same ▸ found), ?_⟩
    -- A cleared view deletes the hash slot with the rest of the view.
    cases state.view.wasCleared
    · exact agree.slot
    · exact Or.inl rfl

theorem HashesAgree.reload {state : State V H} (agree : HashesAgree hashOf state) :
    HashesAgree hashOf { state with view := load state.storage.hash } := by
  apply hashesAgree_load
  intro hash found
  rcases agree.slot with empty | same
  · simp [empty] at found
  · exact agree.stored hash (same ▸ found)

/-- Every operation that hands out no reference keeps the hashes agreeing. -/
theorem HashesAgree.step [Inhabited V] [DecidableEq H] {state : State V H} (agree : HashesAgree hashOf state)
    (operation : Operation V) (noReference : operation.handsOutReference = false) :
    HashesAgree hashOf (step hashOf state operation) := by
  cases operation with
  | insert shortKey value => exact agree.of_hash_eq_none _ rfl rfl
  | remove shortKey => exact agree.of_hash_eq_none _ (hash_remove _ _) (storedHash_remove _ _)
  | getMut shortKey write => cases noReference
  | getMutOrDefault shortKey write => cases noReference
  | hashMut => exact agree.hashMut
  | clear => exact agree.of_hash_eq_none _ rfl rfl
  | rollback => exact agree.rollback
  | flush => exact agree.flush
  | reload => exact agree.reload

theorem HashesAgree.run [Inhabited V] [DecidableEq H] {state : State V H} (agree : HashesAgree hashOf state)
    (operations : List (Operation V))
    (noReference : ∀ operation ∈ operations, operation.handsOutReference = false) :
    HashesAgree hashOf (run hashOf state operations) := by
  induction operations generalizing state with
  | nil => exact agree
  | cons operation rest ih =>
      exact ih (agree.step operation (noReference operation List.mem_cons_self))
        (fun later mem => noReference later (List.mem_cons_of_mem _ mem))

/-- On every run from a loaded view that hands out no reference, `hash_mut` returns the
hash of a recomputation. -/
theorem hashMut_run_eq_computeHash [Inhabited V] [DecidableEq H] (storage : Storage V H)
    (valid : ∀ hash, storage.hash = some hash → hash = hashOf storage.entries.entries)
    (operations : List (Operation V))
    (noReference : ∀ operation ∈ operations, operation.handsOutReference = false) :
    let state := run hashOf ⟨load storage.hash, storage⟩ operations
    (state.view.hashMut state.storage.entries hashOf).1 =
      state.view.computeHash state.storage.entries hashOf :=
  ((hashesAgree_load hashOf storage valid).run operations noReference).hashMut_eq

/-- A view that inserts a value, computes its hash and flushes, from an empty storage. -/
theorem hashMut_run_eq_computeHash_after_flush :
    let storage : Storage Nat Nat := ⟨OrdMap.empty, none⟩
    let operations : List (Operation Nat) := [.insert [0] 1, .hashMut, .flush, .insert [1] 2]
    (∀ hash, storage.hash = some hash → hash = List.length storage.entries.entries) ∧
      (∀ operation ∈ operations, operation.handsOutReference = false) ∧
      let state := run List.length ⟨load storage.hash, storage⟩ operations
      (state.view.hashMut state.storage.entries List.length).1 =
        state.view.computeHash state.storage.entries List.length := by
  intro storage operations
  have valid : ∀ hash, storage.hash = some hash → hash = List.length storage.entries.entries :=
    fun _ none => by cases none
  have noReference : ∀ operation ∈ operations, operation.handsOutReference = false := by decide
  exact ⟨valid, noReference,
    hashMut_run_eq_computeHash storage valid operations noReference⟩

end Runs

section Batch

variable [DecidableEq H] (baseKey : Bytes) (serialize : V → Bytes) (serializeHash : H → Bytes)

/-- Where the view's storage lies under its base key: the value of an index, serialized,
at `base_tag_index(Index, index)`, and the hash at `base_tag(Hash)`. -/
def Storage.layout (storage : Storage V H) (key : Bytes) : Option Bytes :=
  if key = baseTag baseKey KeyTag.hash.byte then storage.hash.map serializeHash
  else if baseTag baseKey KeyTag.index.byte <+: key then
    (storage.entries.get (key.drop (baseKey.length + 1))).map serialize
  else none

/-- What `flush` writes for one staged update, at its index. -/
def updateWrites (cleared : Bool) (entry : (_ : Bytes) × Update V) : List WriteOperation :=
  match entry.2 with
  | .set value => [.put entry.1 (serialize value)]
  | .removed => if cleared then [] else [.delete entry.1]

/-- What `flush` writes to the hash slot: the cached hash, if it changed. -/
def hashWrites (storedHash hash : Option H) : List WriteOperation :=
  if storedHash ≠ hash then
    match hash with
    | none => [.delete (baseTag baseKey KeyTag.hash.byte)]
    | some hash => [.put (baseTag baseKey KeyTag.hash.byte) (serializeHash hash)]
  else []

/-- The batch of `flush`: the deletion of a cleared view, the updates under the index tag,
and the hash slot. -/
theorem flush_operations (view : ByteMapView V H) (batch : Batch) :
    (view.flush baseKey serialize serializeHash batch).2.operations =
      batch.operations ++ (if view.wasCleared then [.deletePrefix baseKey] else []) ++
        (view.updates.entries.flatMap (updateWrites serialize view.wasCleared)).map
          (WriteOperation.prefixed (baseTag baseKey KeyTag.index.byte)) ++
        hashWrites baseKey serializeHash view.storedHash view.hash := by
  -- Each turn of either loop appends the writes of one update, under the index tag.
  have loop (cleared : Bool) (step : Batch → (_ : Bytes) × Update V → Batch)
      (appends : ∀ batch entry, (step batch entry).operations = batch.operations ++
        (updateWrites serialize cleared entry).map
          (WriteOperation.prefixed (baseTag baseKey KeyTag.index.byte)))
      (start : Batch) :
      (view.updates.entries.foldl step start).operations = start.operations ++
        (view.updates.entries.flatMap (updateWrites serialize cleared)).map
          (WriteOperation.prefixed (baseTag baseKey KeyTag.index.byte)) := by
    rw [Batch.operations_foldl _ step appends, List.map_flatMap]
  unfold flush hashWrites
  cases cleared : view.wasCleared <;> dsimp only <;>
    simp only [Bool.false_eq_true, if_false, if_true] <;> split_ifs <;> (try split) <;>
    simp only [Batch.deleteKey, Batch.putKeyValueBytes, List.append_nil]
  all_goals
    first
    | rw [loop false _ ?_ batch]
    | rw [loop true _ ?_ (batch.deleteKeyPrefix baseKey)]
  all_goals
    first
    | rfl
    | (intro batch entry
       rcases entry with ⟨index, _ | value⟩ <;>
         simp [updateWrites, WriteOperation.prefixed, baseTagIndex, baseTag])

theorem applyOperations_updateWrites (cleared : Bool) (base : Bytes → Option Bytes)
    (entries : List ((_ : Bytes) × Update V)) (distinct : entries.NodupKeys) (index : Bytes) :
    applyOperations base (entries.flatMap (updateWrites serialize cleared)) index =
      match entries.dlookup index with
      | some (.set value) => some (serialize value)
      | some .removed => if cleared then base index else none
      | none => base index := by
  induction entries generalizing base with
  | nil => rfl
  | cons entry rest ih =>
      obtain ⟨written, update⟩ := entry
      rw [List.nodupKeys_cons] at distinct
      rw [List.flatMap_cons, applyOperations_append, ih _ distinct.2]
      by_cases hit : index = written
      · -- The last write to the index is this entry's: the rest has other indices.
        subst hit
        rw [List.dlookup_eq_none.mpr distinct.1, List.dlookup_cons_eq]
        cases update <;> cases cleared <;> simp [updateWrites, WriteOperation.apply]
      · rw [List.dlookup_cons_ne _ _ (fun same => hit same)]
        have untouched : applyOperations base (updateWrites serialize cleared ⟨written, update⟩)
            index = base index := by
          cases update <;> cases cleared <;>
            simp [updateWrites, WriteOperation.apply, hit]
        rcases rest.dlookup index with _ | _ | value <;> simp [untouched]

theorem hashWrites_under (storedHash hash : Option H) :
    ∀ operation ∈ hashWrites baseKey serializeHash storedHash hash, operation.Under baseKey := by
  unfold hashWrites
  split_ifs
  · split <;> simp [WriteOperation.Under, baseTag]
  · simp

theorem applyOperations_hashWrites_of_ne (storedHash hash : Option H)
    (base : Bytes → Option Bytes) {key : Bytes} (other : key ≠ baseTag baseKey KeyTag.hash.byte) :
    applyOperations base (hashWrites baseKey serializeHash storedHash hash) key = base key := by
  unfold hashWrites
  split_ifs
  · split <;> simp [WriteOperation.apply, other]
  · rfl

theorem applyOperations_hashWrites_self (storedHash hash : Option H)
    (base : Bytes → Option Bytes) :
    applyOperations base (hashWrites baseKey serializeHash storedHash hash)
        (baseTag baseKey KeyTag.hash.byte) =
      if storedHash ≠ hash then hash.map serializeHash else base (baseTag baseKey KeyTag.hash.byte) := by
  unfold hashWrites
  split_ifs
  · split <;> simp [WriteOperation.apply, *]
  · rfl

theorem not_indexTag_prefix_hashKey :
    ¬ baseTag baseKey KeyTag.index.byte <+: baseTag baseKey KeyTag.hash.byte := by
  simp [baseTag, List.prefix_append_right_inj, KeyTag.byte]

omit [DecidableEq H] in
theorem layout_of_indexKey (storage : Storage V H) (index : Bytes) :
    storage.layout baseKey serialize serializeHash (baseTag baseKey KeyTag.index.byte ++ index) =
      (storage.entries.get index).map serialize := by
  simp [Storage.layout, baseTag, KeyTag.byte]

omit [DecidableEq H] in
theorem layout_of_not_indexKey (storage : Storage V H) {key : Bytes}
    (other : key ≠ baseTag baseKey KeyTag.hash.byte)
    (notIndex : ¬ baseTag baseKey KeyTag.index.byte <+: key) :
    storage.layout baseKey serialize serializeHash key = none := by
  simp [Storage.layout, other, notIndex]

@[simp] theorem flushStorage_entries (view : ByteMapView V H) (storage : Storage V H) :
    (view.flushStorage storage).2.entries = view.contents storage.entries := by
  unfold flushStorage
  split_ifs <;> rfl

theorem flushStorage_hash (view : ByteMapView V H) (storage : Storage V H) :
    (view.flushStorage storage).2.hash =
      if view.storedHash ≠ view.hash then view.hash
      else if view.wasCleared then none else storage.hash := by
  unfold flushStorage
  split_ifs <;> rfl

omit [DecidableEq H] in
/-- Under the base key, the deletion of a cleared view leaves nothing, and otherwise the
store holds the stored layout. -/
theorem applyOperations_clearWrites (cleared : Bool) (storage : Storage V H)
    (store : MemoryStoreMap)
    (stored : ∀ key, baseKey <+: key →
      store.get key = storage.layout baseKey serialize serializeHash key)
    (key : Bytes) (under : baseKey <+: key) :
    applyOperations store.get (if cleared then [.deletePrefix baseKey] else []) key =
      if cleared then none else storage.layout baseKey serialize serializeHash key := by
  cases cleared
  · exact stored key under
  · simp [WriteOperation.apply, under]

omit [DecidableEq H] in
/-- At an index, the writes of the staged updates, over what the deletion of a cleared view
left of the stored entries, give the contents of the view. -/
theorem applyOperations_updateWrites_contents (view : ByteMapView V H) (storage : OrdMap Bytes V)
    (base : Bytes → Option Bytes)
    (start : ∀ index, base index =
      if view.wasCleared then none else (storage.get index).map serialize)
    (index : Bytes) :
    applyOperations base (view.updates.entries.flatMap (updateWrites serialize view.wasCleared))
        index =
      ((view.contents storage).get index).map serialize := by
  have lookup : view.updates.entries.dlookup index = view.updates.get index := by
    unfold OrdMap.get
    congr 1
  rw [applyOperations_updateWrites serialize _ _ _ view.updates.nodupKeys, get_contents, lookup]
  simp only [start]
  cases cleared : view.wasCleared <;>
    rcases found : view.updates.get index with _ | _ | value <;> simp [get, cleared, found]

/-- Writing the batch of `flush` to a memory store that holds the view's storage under
its base key leaves one that holds what `flushStorage` leaves in that storage, and every
key outside the base key as it was; the view after `flush` is the one `flushStorage`
gives. -/
theorem writeBatch_flush (view : ByteMapView V H) (storage : Storage V H)
    (store : MemoryStoreMap)
    (stored : ∀ key, baseKey <+: key →
      store.get key = storage.layout baseKey serialize serializeHash key) :
    (view.flush baseKey serialize serializeHash ⟨[]⟩).1 = (view.flushStorage storage).1 ∧
      ∀ key, (MemoryClient.writeBatch store (view.flush baseKey serialize serializeHash ⟨[]⟩).2).get
          key =
        if baseKey <+: key then
          (view.flushStorage storage).2.layout baseKey serialize serializeHash key
        else store.get key := by
  refine ⟨by unfold flush flushStorage; dsimp only; split_ifs <;> rfl, fun key => ?_⟩
  rw [writeBatch_get, flush_operations, List.nil_append, applyOperations_append,
    applyOperations_append]
  have indexUnder : ∀ operation ∈ (view.updates.entries.flatMap
      (updateWrites serialize view.wasCleared)).map
        (WriteOperation.prefixed (baseTag baseKey KeyTag.index.byte)),
      operation.Under (baseTag baseKey KeyTag.index.byte) := by
    intro operation mem
    obtain ⟨short, -, rfl⟩ := List.mem_map.mp mem
    exact WriteOperation.under_prefixed _ short
  by_cases under : baseKey <+: key
  swap
  · -- Outside the base key nothing is written.
    rw [if_neg under, applyOperations_of_under (hashWrites_under baseKey serializeHash _ _) under,
      applyOperations_of_under (fun operation mem => (indexUnder operation mem).mono
        ⟨[KeyTag.index.byte], rfl⟩) under]
    cases view.wasCleared
    · rfl
    · exact WriteOperation.apply_of_under
        (show (WriteOperation.deletePrefix baseKey).Under baseKey from List.prefix_refl baseKey)
        under store.get
  rw [if_pos under]
  have start := applyOperations_clearWrites baseKey serialize serializeHash view.wasCleared
    storage store stored
  by_cases atHash : key = baseTag baseKey KeyTag.hash.byte
  · -- The hash slot: rewritten if the hash changed, else as the deletion left it.
    subst atHash
    rw [applyOperations_hashWrites_self, applyOperations_of_under indexUnder
      (not_indexTag_prefix_hashKey baseKey), start _ under]
    simp only [Storage.layout, if_true, flushStorage_hash]
    split_ifs <;> rfl
  rw [applyOperations_hashWrites_of_ne baseKey serializeHash _ _ _ atHash]
  by_cases atIndex : baseTag baseKey KeyTag.index.byte <+: key
  · -- An index: its update, over what the deletion left.
    obtain ⟨index, rfl⟩ := atIndex
    rw [applyOperations_prefixed, layout_of_indexKey, flushStorage_entries]
    refine applyOperations_updateWrites_contents serialize view storage.entries _ (fun index => ?_)
      index
    rw [start (baseTag baseKey KeyTag.index.byte ++ index)
        ((List.prefix_append baseKey [KeyTag.index.byte]).trans (List.prefix_append _ index)),
      layout_of_indexKey]
  · -- Any other key under the base key holds nothing.
    rw [applyOperations_of_under indexUnder atIndex, start _ under,
      layout_of_not_indexKey baseKey serialize serializeHash _ atHash atIndex,
      layout_of_not_indexKey baseKey serialize serializeHash _ atHash atIndex]
    simp

/-- Flushing a view that inserted one value, from an empty storage. -/
theorem writeBatch_flush_of_insert :
    let view : ByteMapView Bytes (Fin 256) := (load none).insert [0] [5]
    let storage : Storage Bytes (Fin 256) := ⟨OrdMap.empty, none⟩
    let batch := (view.flush [7] id (fun hash => [hash]) ⟨[]⟩).2
    (∀ key, [7] <+: key →
        (OrdMap.empty : MemoryStoreMap).get key = storage.layout [7] id (fun hash => [hash]) key) ∧
      (view.flush [7] id (fun hash => [hash]) ⟨[]⟩).1 = (view.flushStorage storage).1 ∧
      ∀ key, (MemoryClient.writeBatch OrdMap.empty batch).get key =
        if [7] <+: key then (view.flushStorage storage).2.layout [7] id (fun hash => [hash]) key
        else (OrdMap.empty : MemoryStoreMap).get key := by
  intro view storage batch
  have stored : ∀ key, [7] <+: key →
      (OrdMap.empty : MemoryStoreMap).get key = storage.layout [7] id (fun hash => [hash]) key := by
    intro key _
    simp [storage, Storage.layout]
  exact ⟨stored, writeBatch_flush [7] id (fun hash => [hash]) view storage OrdMap.empty stored⟩

end Batch

/-- After a hash was computed, a write through the reference of `get_mut_or_default`
leaves the view with the contents of a view where the value was inserted, but with the
hash of the contents before the write. -/
theorem byteMapView_hash_stale_after_getMutOrDefault [Inhabited V] [DecidableEq H]
    (hashOf : List ((_ : Bytes) × V) → H) (shortKey : Bytes) (old new : V)
    (distinct : hashOf [⟨shortKey, old⟩] ≠ hashOf [⟨shortKey, new⟩]) :
    let start : State V H := ⟨load none, ⟨OrdMap.empty, none⟩⟩
    let written := run hashOf start
      [.insert shortKey old, .hashMut, .getMutOrDefault shortKey fun _ => new]
    let inserted := run hashOf start [.insert shortKey new]
    written.view.contents written.storage.entries =
        inserted.view.contents inserted.storage.entries ∧
      (written.view.hashMut written.storage.entries hashOf).1 ≠
        written.view.computeHash written.storage.entries hashOf ∧
      (written.view.hashMut written.storage.entries hashOf).1 ≠
        (inserted.view.hashMut inserted.storage.entries hashOf).1 := by
  intro start written inserted
  have sameContents : written.view.contents written.storage.entries =
      inserted.view.contents inserted.storage.entries := by
    apply contents_eq_of_get
    intro key
    show ((((load none).insert shortKey old).hashMut OrdMap.empty hashOf).2.getMutOrDefault
        OrdMap.empty shortKey fun _ => new).get OrdMap.empty key =
      ((load none).insert shortKey new).get OrdMap.empty key
    rw [get_getMutOrDefault, get_hashMut, get_insert, get_insert]
    split_ifs <;> rfl
  -- The cached hash was computed on the single entry before the write.
  have stale : (written.view.hashMut written.storage.entries hashOf).1 =
      hashOf [⟨shortKey, old⟩] := rfl
  have fresh : inserted.view.computeHash inserted.storage.entries hashOf =
      hashOf [⟨shortKey, new⟩] := rfl
  have recomputed : written.view.computeHash written.storage.entries hashOf =
      hashOf [⟨shortKey, new⟩] := by
    rw [computeHash, sameContents]
    exact fresh
  refine ⟨sameContents, ?_, ?_⟩
  · rw [stale, recomputed]
    exact distinct
  · rw [stale]
    exact distinct

/-- The stale hash with the identity as hash function, on the key [0] written from 1
to 2. -/
theorem byteMapView_hash_stale_at_zero :
    ([⟨[0], 1⟩] : List ((_ : Bytes) × Nat)) ≠ [⟨[0], 2⟩] ∧
      let start : State Nat (List ((_ : Bytes) × Nat)) := ⟨load none, ⟨OrdMap.empty, none⟩⟩
      let written := run id start [.insert [0] 1, .hashMut, .getMutOrDefault [0] fun _ => 2]
      let inserted := run id start [.insert [0] 2]
      written.view.contents written.storage.entries =
          inserted.view.contents inserted.storage.entries ∧
        (written.view.hashMut written.storage.entries id).1 ≠
          written.view.computeHash written.storage.entries id ∧
        (written.view.hashMut written.storage.entries id).1 ≠
          (inserted.view.hashMut inserted.storage.entries id).1 :=
  ⟨by decide, byteMapView_hash_stale_after_getMutOrDefault id [0] 1 2 (by decide)⟩

end ByteMapView

end Linera.Views
