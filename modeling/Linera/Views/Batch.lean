import Linera.Views.Common

set_option autoImplicit false

/-! Batches of writes (`linera-views/src/batch.rs`).

A batch is an ordered list of puts, deletions and prefix deletions. `simplify` folds
it into an unordered form: the surviving prefix deletions, then one final deletion
or insertion per key. The expanders replace prefix deletions by deletions of the
stored keys they cover, for stores that cannot delete by prefix, or cannot do so
next to an insertion under the same prefix. -/

namespace Linera.Views

inductive WriteOperation where
  | delete (key : Bytes)
  | deletePrefix (keyPrefix : Bytes)
  | put (key value : Bytes)
  deriving DecidableEq, Repr

structure Batch where
  operations : List WriteOperation
  deriving DecidableEq, Repr

structure SimpleUnorderedBatch where
  deletions : List Bytes
  insertions : List (Bytes × Bytes)
  deriving DecidableEq, Repr

structure UnorderedBatch where
  keyPrefixDeletions : List Bytes
  simpleUnorderedBatch : SimpleUnorderedBatch
  deriving DecidableEq, Repr

namespace Batch

def putKeyValueBytes (batch : Batch) (key value : Bytes) : Batch :=
  ⟨batch.operations ++ [.put key value]⟩

def deleteKey (batch : Batch) (key : Bytes) : Batch :=
  ⟨batch.operations ++ [.delete key]⟩

def deleteKeyPrefix (batch : Batch) (keyPrefix : Bytes) : Batch :=
  ⟨batch.operations ++ [.deletePrefix keyPrefix]⟩

theorem operations_foldl {α : Type} (write : α → List WriteOperation)
    (step : Batch → α → Batch)
    (appends : ∀ batch item, (step batch item).operations = batch.operations ++ write item)
    (items : List α) (batch : Batch) :
    (items.foldl step batch).operations = batch.operations ++ items.flatMap write := by
  induction items generalizing batch with
  | nil => simp
  | cons item rest ih => rw [List.foldl_cons, ih, appends, List.flatMap_cons, List.append_assoc]

end Batch

/-- A range scan over the keys of a map selected by `get_interval`. -/
def scanMap {V : Type} (map : OrdMap Bytes V) (keyPrefix : Bytes) :
    List ((_ : Bytes) × V) :=
  map.range (getInterval keyPrefix).1 (getInterval keyPrefix).2

/-- A range scan over the elements of a set selected by `get_interval`. -/
def scanSet (set : OrdSet Bytes) (keyPrefix : Bytes) : List Bytes :=
  set.range (getInterval keyPrefix).1 (getInterval keyPrefix).2

/-- `is_prefix_matched`: the greatest prefix of the set not above the key is a prefix
of the key. Only meaningful for a set where no element is a prefix of another. -/
def isPrefixMatched (keyPrefixSet : OrdSet Bytes) (key : Bytes) : Bool :=
  match (keyPrefixSet.range .unbounded (.included key)).getLast? with
  | some value => if value.length > key.length then false else value == key.take value.length
  | none => false

/-- The two collections that `Batch::simplify` maintains while it reads the batch. -/
structure SimplifyState where
  deleteAndInsertMap : OrdMap Bytes (Option Bytes)
  deletePrefixSet : OrdSet Bytes

/-- One iteration of the loop of `Batch::simplify`. -/
def simplifyStep (state : SimplifyState) : WriteOperation → SimplifyState
  | .delete key =>
      -- A key already matched by a deleted prefix needs no deletion of its own.
      if !isPrefixMatched state.deletePrefixSet key then
        { state with deleteAndInsertMap := state.deleteAndInsertMap.insert key none }
      else
        { state with deleteAndInsertMap := state.deleteAndInsertMap.erase key }
  | .put key value =>
      { state with deleteAndInsertMap := state.deleteAndInsertMap.insert key (some value) }
  | .deletePrefix keyPrefix =>
      let keyList := (scanMap state.deleteAndInsertMap keyPrefix).map (·.1)
      let deleteAndInsertMap := state.deleteAndInsertMap.eraseAll keyList
      if !isPrefixMatched state.deletePrefixSet keyPrefix then
        let keyPrefixList := scanSet state.deletePrefixSet keyPrefix
        { deleteAndInsertMap,
          deletePrefixSet := (state.deletePrefixSet.eraseAll keyPrefixList).insert keyPrefix }
      else
        { state with deleteAndInsertMap }

/-- One iteration of the loop of `Batch::simplify` that sorts the final entries into
deletions and insertions. -/
def splitEntry (batch : SimpleUnorderedBatch) (entry : (_ : Bytes) × Option Bytes) :
    SimpleUnorderedBatch :=
  match entry.2 with
  | some value => { batch with insertions := batch.insertions ++ [(entry.1, value)] }
  | none => { batch with deletions := batch.deletions ++ [entry.1] }

/-- That loop, over the final entries in increasing key order. -/
def splitEntries (entries : List ((_ : Bytes) × Option Bytes)) : SimpleUnorderedBatch :=
  entries.foldl splitEntry ⟨[], []⟩

def Batch.simplify (batch : Batch) : UnorderedBatch :=
  let final := batch.operations.foldl simplifyStep ⟨OrdMap.empty, OrdSet.empty⟩
  { keyPrefixDeletions := final.deletePrefixSet.elems,
    simpleUnorderedBatch := splitEntries final.deleteAndInsertMap.entries }

/-- The inner loop of `expand_delete_prefixes`: the expanded keys of one prefix that
are not inserted by the batch, pushed after the deletions found so far. -/
def pushExpandedKeys (insertedKeys : List Bytes) (keyPrefix : Bytes) (shortKeys : List Bytes)
    (deletions : List Bytes) : List Bytes :=
  shortKeys.foldl
    (fun deletions shortKey =>
      let key := keyPrefix ++ shortKey
      if !insertedKeys.contains key then deletions ++ [key] else deletions)
    deletions

/-- `UnorderedBatch::expand_delete_prefixes`, for a store whose `DeletePrefixExpander`
lists the short keys stored under a prefix. -/
def UnorderedBatch.expandDeletePrefixes {ε : Type} (batch : UnorderedBatch)
    (expandDeletePrefix : Bytes → Except ε (List Bytes)) : Except ε SimpleUnorderedBatch := do
  let insertSet := batch.simpleUnorderedBatch.insertions.map (·.1)
  let insertions := batch.simpleUnorderedBatch.insertions
  let deletions ← batch.keyPrefixDeletions.foldlM
    (fun deletions keyPrefix => do
      let shortKeys ← expandDeletePrefix keyPrefix
      pure (pushExpandedKeys insertSet keyPrefix shortKeys deletions))
    batch.simpleUnorderedBatch.deletions
  pure ⟨deletions, insertions⟩

/-- One iteration of `UnorderedBatch::expand_colliding_prefix_deletions`: a prefix under
which some key is inserted is expanded into deletions, any other prefix is kept. -/
def expandCollidingStep {ε : Type} (insertedKeys : OrdSet Bytes)
    (expandDeletePrefix : Bytes → Except ε (List Bytes))
    (acc : List Bytes × List Bytes) (keyPrefix : Bytes) :
    Except ε (List Bytes × List Bytes) := do
  let (keyPrefixDeletions, deletions) := acc
  if (scanSet insertedKeys keyPrefix).head?.isSome then
    let shortKeys ← expandDeletePrefix keyPrefix
    pure (keyPrefixDeletions, pushExpandedKeys insertedKeys.elems keyPrefix shortKeys deletions)
  else
    pure (keyPrefixDeletions ++ [keyPrefix], deletions)

def UnorderedBatch.expandCollidingPrefixDeletions {ε : Type} (batch : UnorderedBatch)
    (expandDeletePrefix : Bytes → Except ε (List Bytes)) : Except ε UnorderedBatch := do
  let insertedKeys := (batch.simpleUnorderedBatch.insertions.map (·.1)).foldl OrdSet.insert
    OrdSet.empty
  let (keyPrefixDeletions, deletions) ← batch.keyPrefixDeletions.foldlM
    (expandCollidingStep insertedKeys expandDeletePrefix)
    ([], batch.simpleUnorderedBatch.deletions)
  pure ⟨keyPrefixDeletions, { batch.simpleUnorderedBatch with deletions }⟩

end Linera.Views
