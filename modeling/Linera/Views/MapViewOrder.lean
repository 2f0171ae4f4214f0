import Linera.Views.MapView
import Linera.Lib.SortedMerge

set_option autoImplicit false

/-! The byte map view as an ordered map (`linera-views/src/map_view.rs`).

`for_each_key_while` and `for_each_key_value_while` merge the stored entries, which a prefix
scan lists in key order, with the staged updates, also in key order. An update at or before
the next stored key comes first: it is visited if it sets a value, and it hides the stored
key when it has the same key. A stored key is visited when no update comes before it, and
the updates left after the stored keys are visited last. A cleared view scans no stored
entry.

The scan visits the entries of the contents in key order and stops after the first one at
which the callback says to stop (`forEachKeyValueWhile_eq_visitWhile`). Over every run of the
operations of a view, the contents are the map that a plain map gets from the same
operations, where `rollback` and `reload` go back to the map of the last flush
(`Simulates.run`). -/

namespace Linera.Views

open SortedMerge

namespace ByteMapView

variable {V H : Type}

def stagedValue : Update V → Option V
  | .set value => some value
  | .removed => none

section Scan

variable {σ ε : Type} (f : σ → Bytes → V → Except ε (σ × Bool))

def visitUpdate (state : σ) (key : Bytes) : Update V → Except ε (σ × Bool)
  | .set value => f state key value
  | .removed => .ok (state, true)

/-- The `while let` loop over the updates left after the stored keys. -/
def scanUpdates : List ((_ : Bytes) × Update V) → σ → Except ε σ
  | [], state => .ok state
  | ⟨key, update⟩ :: updates, state => do
      let (state, go) ← visitUpdate f state key update
      if !go then .ok state else scanUpdates updates state

/-- The scan of the stored entries: the inner `loop` of the source is a call on the same
stored entry with the next update, and its `break` a call on the next stored entry. -/
def scanWhile : List ((_ : Bytes) × V) → List ((_ : Bytes) × Update V) → σ → Except ε σ
  | [], updates, state => scanUpdates f updates state
  | ⟨index, stored⟩ :: entries, [], state => do
      let (state, go) ← f state index stored
      if !go then .ok state else scanWhile entries [] state
  | ⟨index, stored⟩ :: entries, ⟨key, update⟩ :: updates, state =>
      if key ≤ index then do
        let (state, go) ← visitUpdate f state key update
        if !go then .ok state
        else if key = index then scanWhile entries updates state
        else scanWhile (⟨index, stored⟩ :: entries) updates state
      else do
        let (state, go) ← f state index stored
        if !go then .ok state else scanWhile entries (⟨key, update⟩ :: updates) state
termination_by entries updates => entries.length + updates.length

end Scan

/-- `for_each_key_value_while`, on the stored entries of the view. -/
def forEachKeyValueWhile {σ ε : Type} (view : ByteMapView V H) (storage : OrdMap Bytes V)
    (f : σ → Bytes → V → Except ε (σ × Bool)) (state : σ) : Except ε σ :=
  scanWhile f (if view.wasCleared then [] else storage.entries) view.updates.entries state

/-- `for_each_key_while`: the same scan, where the stored keys are those of the stored
entries. -/
def forEachKeyWhile {σ ε : Type} (view : ByteMapView V H) (storage : OrdMap Bytes V)
    (f : σ → Bytes → Except ε (σ × Bool)) (state : σ) : Except ε σ :=
  view.forEachKeyValueWhile storage (fun state key _ => f state key) state

def forEachKey {σ ε : Type} (view : ByteMapView V H) (storage : OrdMap Bytes V)
    (f : σ → Bytes → Except ε σ) (state : σ) : Except ε σ :=
  view.forEachKeyWhile storage (fun state key => (f state key).map (·, true)) state

def keys {ε : Type} (view : ByteMapView V H) (storage : OrdMap Bytes V) : Except ε (List Bytes) :=
  view.forEachKey storage (fun keys key => .ok (keys ++ [key])) []

section ScanLemmas

variable {σ ε : Type} (f : σ → Bytes → V → Except ε (σ × Bool))

theorem visitUpdate_bind (state : σ) (key : Bytes) (update : Update V)
    (rest : List ((_ : Bytes) × V)) :
    (do
      let (state, go) ← visitUpdate f state key update
      if !go then .ok state else visitWhile (fun state entry => f state entry.1 entry.2) rest state) =
      visitWhile (fun state entry => f state entry.1 entry.2) (present ⟨key, stagedValue update⟩ ++ rest)
        state := by
  cases update with
  | removed => rfl
  | set value =>
      exact (visitWhile_cons (fun state entry => f state entry.1 entry.2) ⟨key, value⟩ rest state).symm

theorem scanUpdates_eq_visitWhile (updates : List ((_ : Bytes) × Update V)) (state : σ) :
    scanUpdates f updates state =
      visitWhile (fun state entry => f state entry.1 entry.2) ((mapValues stagedValue updates).flatMap present)
        state := by
  induction updates generalizing state with
  | nil => rfl
  | cons update updates ih =>
      obtain ⟨key, update⟩ := update
      rw [mapValues_cons, List.flatMap_cons, ← visitUpdate_bind]
      simp only [scanUpdates, ih]

/-- The scan visits the stored entries overridden by the staged updates, in key order. -/
theorem scanWhile_eq_visitWhile (entries : List ((_ : Bytes) × V))
    (updates : List ((_ : Bytes) × Update V)) (state : σ) :
    scanWhile f entries updates state =
      visitWhile (fun state entry => f state entry.1 entry.2)
        (mergeOverride entries (mapValues stagedValue updates)) state := by
  fun_induction scanWhile f entries updates state with
  | case1 updates state =>
      rw [scanUpdates_eq_visitWhile, mergeOverride]
  | case2 index stored entries state ih =>
      simp only [mapValues_nil, mergeOverride, visitWhile_cons, ih]
  | case3 index stored entries key update updates state before sameIh differentIh =>
      have first : (⟨key, stagedValue update⟩ : (_ : Bytes) × Option V).1 ≤
          (⟨index, stored⟩ : (_ : Bytes) × V).1 := before
      rw [mapValues_cons, mergeOverride, if_pos first]
      by_cases same : key = index
      · have replaced : (⟨key, stagedValue update⟩ : (_ : Bytes) × Option V).1 =
            (⟨index, stored⟩ : (_ : Bytes) × V).1 := same
        rw [if_pos replaced, ← visitUpdate_bind]
        simp only [same, if_true, sameIh]
      · have kept : (⟨key, stagedValue update⟩ : (_ : Bytes) × Option V).1 ≠
            (⟨index, stored⟩ : (_ : Bytes) × V).1 := same
        rw [if_neg kept, ← visitUpdate_bind]
        simp only [same, if_false, differentIh]
  | case4 index stored entries key update updates state after ih =>
      have storedFirst : ¬(⟨key, stagedValue update⟩ : (_ : Bytes) × Option V).1 ≤
          (⟨index, stored⟩ : (_ : Bytes) × V).1 := after
      rw [mapValues_cons, mergeOverride, if_neg storedFirst, visitWhile_cons]
      simp only [ih, mapValues_cons]

end ScanLemmas

theorem contents_entries (view : ByteMapView V H) (storage : OrdMap Bytes V) :
    (view.contents storage).entries =
      mergeOverride (if view.wasCleared then [] else storage.entries)
        (mapValues stagedValue view.updates.entries) := by
  have baseSorted : (if view.wasCleared then [] else storage.entries).Pairwise
      (fun a b => a.1 < b.1) := by
    split
    · exact List.Pairwise.nil
    · exact storage.sorted
  have updatesSorted := mapValues_sorted stagedValue view.updates.sorted
  have same : view.contents storage = ⟨_, mergeOverride_sorted baseSorted updatesSorted⟩ := by
    apply OrdMap.ext_get
    intro key
    rw [get_contents, OrdMap.get]
    dsimp only
    rw [dlookup_mergeOverride key baseSorted updatesSorted, dlookup_mapValues, ← OrdMap.get]
    unfold get
    rcases view.updates.get key with _ | _ | value
    · cases view.wasCleared <;> rfl
    · rfl
    · rfl
  rw [same]

theorem forEachKeyValueWhile_eq_visitWhile {σ ε : Type} (view : ByteMapView V H)
    (storage : OrdMap Bytes V) (f : σ → Bytes → V → Except ε (σ × Bool)) (state : σ) :
    view.forEachKeyValueWhile storage f state =
      visitWhile (fun state entry => f state entry.1 entry.2) (view.contents storage).entries state := by
  rw [forEachKeyValueWhile, scanWhile_eq_visitWhile, contents_entries]

theorem forEachKeyWhile_eq_visitWhile {σ ε : Type} (view : ByteMapView V H)
    (storage : OrdMap Bytes V) (f : σ → Bytes → Except ε (σ × Bool)) (state : σ) :
    view.forEachKeyWhile storage f state = visitWhile f (view.contents storage).keys state := by
  rw [forEachKeyWhile, forEachKeyValueWhile_eq_visitWhile, OrdMap.keys, visitWhile_map]

theorem keys_eq {ε : Type} (view : ByteMapView V H) (storage : OrdMap Bytes V) :
    (view.keys storage : Except ε (List Bytes)) = .ok (view.contents storage).keys := by
  rw [keys, forEachKey, forEachKeyWhile_eq_visitWhile]
  exact (visitWhile_collect id _ []).trans (by rw [List.map_id, List.nil_append])

/-- What the user of a view sees: a plain map, and the map of the last flush, to which
`rollback` and `reload` go back. -/
structure Reference (V : Type) where
  current : OrdMap Bytes V
  flushed : OrdMap Bytes V

namespace Reference

/-- The operations of a view, on a plain map. -/
def step [Inhabited V] (reference : Reference V) : Operation V → Reference V
  | .insert shortKey value =>
      { reference with current := reference.current.insert shortKey value }
  | .remove shortKey => { reference with current := reference.current.erase shortKey }
  | .getMut shortKey write =>
      match reference.current.get shortKey with
      | some value => { reference with current := reference.current.insert shortKey (write value) }
      | none => reference
  | .getMutOrDefault shortKey write =>
      { reference with
        current := reference.current.insert shortKey
          (write ((reference.current.get shortKey).getD default)) }
  | .hashMut => reference
  | .clear => { reference with current := OrdMap.empty }
  | .rollback => { reference with current := reference.flushed }
  | .flush => { reference with flushed := reference.current }
  | .reload => { reference with current := reference.flushed }

def run [Inhabited V] (reference : Reference V) (operations : List (Operation V)) : Reference V :=
  operations.foldl step reference

end Reference

theorem get_remove (view : ByteMapView V H) (storage : OrdMap Bytes V) (shortKey key : Bytes) :
    (view.remove shortKey).get storage key = if key = shortKey then none else view.get storage key := by
  by_cases hit : key = shortKey
  · subst hit
    unfold remove
    split <;> simp [get, *]
  · simp only [hit, if_false]
    apply get_congr storage key
    · unfold remove
      split <;> rfl
    · unfold remove
      split <;> simp [hit]

@[simp] theorem get_clear (view : ByteMapView V H) (storage : OrdMap Bytes V) (key : Bytes) :
    view.clear.get storage key = none := rfl

@[simp] theorem get_rollback (view : ByteMapView V H) (storage : OrdMap Bytes V) (key : Bytes) :
    view.rollback.get storage key = storage.get key := rfl

@[simp] theorem get_load (storedHash : Option H) (storage : OrdMap Bytes V) (key : Bytes) :
    (load storedHash : ByteMapView V H).get storage key = storage.get key := rfl

/-- The view over its storage shows the reference's current map, and its storage holds the
map of the last flush. -/
structure Simulates (state : State V H) (reference : Reference V) : Prop where
  contents : state.view.contents state.storage.entries = reference.current
  flushed : state.storage.entries = reference.flushed

theorem Simulates.of_get {state : State V H} {reference : Reference V}
    (same : ∀ key, state.view.get state.storage.entries key = reference.current.get key)
    (flushed : state.storage.entries = reference.flushed) : Simulates state reference :=
  ⟨OrdMap.ext_get fun key => by rw [get_contents, same], flushed⟩

theorem Simulates.get {state : State V H} {reference : Reference V}
    (simulates : Simulates state reference) (key : Bytes) :
    state.view.get state.storage.entries key = reference.current.get key := by
  rw [← get_contents, simulates.contents]

theorem simulates_load (storage : Storage V H) :
    Simulates ⟨load storage.hash, storage⟩ ⟨storage.entries, storage.entries⟩ :=
  Simulates.of_get (fun key => get_load _ _ key) rfl

/-- Every operation keeps the view showing the reference. -/
theorem Simulates.step [Inhabited V] [DecidableEq H] {state : State V H} {reference : Reference V}
    (simulates : Simulates state reference) (hashOf : List ((_ : Bytes) × V) → H)
    (operation : Operation V) :
    Simulates (ByteMapView.step hashOf state operation) (reference.step operation) := by
  cases operation with
  | insert shortKey value =>
      refine Simulates.of_get (fun key => ?_) simulates.flushed
      simp only [ByteMapView.step, Reference.step, get_insert, OrdMap.get_insert, simulates.get]
      split_ifs <;> rfl
  | remove shortKey =>
      refine Simulates.of_get (fun key => ?_) simulates.flushed
      simp only [ByteMapView.step, Reference.step, get_remove, OrdMap.get_erase, simulates.get]
      split_ifs <;> rfl
  | getMut shortKey write =>
      -- The plain map rewrites the value only where there is one.
      rcases found : reference.current.get shortKey with _ | value
      · simp only [Reference.step, found]
        refine Simulates.of_get (fun key => ?_) simulates.flushed
        simp only [ByteMapView.step, get_getMut, simulates.get, found, Option.map_none]
        split_ifs with hit
        · rw [hit, found]
        · rfl
      · simp only [Reference.step, found]
        refine Simulates.of_get (fun key => ?_) simulates.flushed
        simp only [ByteMapView.step, get_getMut, simulates.get, found, Option.map_some,
          OrdMap.get_insert]
        split_ifs <;> rfl
  | getMutOrDefault shortKey write =>
      refine Simulates.of_get (fun key => ?_) simulates.flushed
      simp only [ByteMapView.step, Reference.step, get_getMutOrDefault, OrdMap.get_insert,
        simulates.get]
      split_ifs <;> rfl
  | hashMut =>
      refine Simulates.of_get (fun key => ?_) simulates.flushed
      simp only [ByteMapView.step, Reference.step, get_hashMut, simulates.get]
  | clear =>
      refine Simulates.of_get (fun key => ?_) simulates.flushed
      simp [ByteMapView.step, Reference.step]
  | rollback =>
      refine Simulates.of_get (fun key => ?_) simulates.flushed
      simp only [ByteMapView.step, Reference.step, get_rollback, simulates.flushed]
  | flush =>
      -- The flush writes the contents and leaves a view without updates over them.
      have written : (ByteMapView.step hashOf state .flush).storage.entries =
          state.view.contents state.storage.entries := by
        show (state.view.flushStorage state.storage).2.entries = _
        unfold ByteMapView.flushStorage
        dsimp only
        split_ifs <;> rfl
      have unstaged : ∀ storage key,
          (ByteMapView.step hashOf state .flush).view.get storage key = storage.get key := by
        intro storage key
        show (state.view.flushStorage state.storage).1.get storage key = _
        unfold ByteMapView.flushStorage
        dsimp only
        split_ifs <;> rfl
      refine Simulates.of_get (fun key => ?_) (written.trans simulates.contents)
      rw [unstaged, written, get_contents, simulates.get]
      rfl
  | reload =>
      refine Simulates.of_get (fun key => ?_) simulates.flushed
      simp only [ByteMapView.step, Reference.step, get_load, simulates.flushed]

theorem Simulates.run [Inhabited V] [DecidableEq H] {state : State V H} {reference : Reference V}
    (simulates : Simulates state reference) (hashOf : List ((_ : Bytes) × V) → H)
    (operations : List (Operation V)) :
    Simulates (ByteMapView.run hashOf state operations) (reference.run operations) := by
  induction operations generalizing state reference with
  | nil => exact simulates
  | cons operation rest ih => exact ih (simulates.step hashOf operation)

end ByteMapView

/-- The `width` little-endian bytes of `n`, as BCS writes an unsigned integer. -/
def bcsBytes : Nat → Nat → Bytes
  | 0, _ => []
  | width + 1, n => ⟨n % 256, Nat.mod_lt _ (by decide)⟩ :: bcsBytes width (n / 256)

/-- `CustomSerialize for u128` (`linera-views/src/common.rs`): the BCS bytes reversed, the
most significant first. -/
def u128CustomBytes (n : Nat) : Bytes := (bcsBytes 16 n).reverse

@[simp] theorem length_bcsBytes (width n : Nat) : (bcsBytes width n).length = width := by
  induction width generalizing n with
  | zero => rfl
  | succ width ih => simp only [bcsBytes, List.length_cons, ih]

theorem reverse_bcsBytes_lt_iff (width : Nat) {a b : Nat} (aBound : a < 256 ^ width)
    (bBound : b < 256 ^ width) :
    (bcsBytes width a).reverse < (bcsBytes width b).reverse ↔ a < b := by
  induction width generalizing a b with
  | zero =>
      have aZero : a = 0 := by simpa using aBound
      have bZero : b = 0 := by simpa using bBound
      subst aZero bZero
      simp [bcsBytes]
  | succ width ih =>
      have aHigh : a / 256 < 256 ^ width := by
        rw [Nat.div_lt_iff_lt_mul (by decide), ← pow_succ]
        exact aBound
      have bHigh : b / 256 < 256 ^ width := by
        rw [Nat.div_lt_iff_lt_mul (by decide), ← pow_succ]
        exact bBound
      have higher := ih aHigh bHigh
      have lower := ih bHigh aHigh
      have same : (bcsBytes width (a / 256)).reverse = (bcsBytes width (b / 256)).reverse ↔
          a / 256 = b / 256 := by
        constructor
        · intro equal
          have notBelow : ¬ a / 256 < b / 256 := by
            intro below
            have ordered := higher.mpr below
            rw [equal] at ordered
            exact lt_irrefl _ ordered
          have notAbove : ¬ b / 256 < a / 256 := by
            intro above
            have ordered := lower.mpr above
            rw [equal] at ordered
            exact lt_irrefl _ ordered
          omega
        · intro equal
          rw [equal]
      simp only [bcsBytes, List.reverse_cons]
      rw [Lexicographic.append_singleton_lt_iff (by simp), higher, same, Fin.mk_lt_mk]
      omega

theorem u128CustomBytes_lt_iff {a b : Nat} (aBound : a < 2 ^ 128) (bBound : b < 2 ^ 128) :
    u128CustomBytes a < u128CustomBytes b ↔ a < b :=
  reverse_bcsBytes_lt_iff 16 (by simpa using aBound) (by simpa using bBound)

open ByteMapView in
/-- On every run from a loaded view, the view is the plain map that the same operations
give: `get` reads it, `keys` lists its keys once each in increasing order, and the scans
visit its entries in that order, up to and including the first at which the callback says
to stop. The custom bytes of `u128` keys order them as numbers. -/
theorem byteMapView_ordered_map {V H : Type} [Inhabited V] [DecidableEq H]
    (hashOf : List ((_ : Bytes) × V) → H) (storage : Storage V H) (operations : List (Operation V)) :
    let state := ByteMapView.run hashOf ⟨load storage.hash, storage⟩ operations
    let reference := (Reference.mk storage.entries storage.entries).run operations
    (∀ key, state.view.get state.storage.entries key = reference.current.get key) ∧
    (∀ {ε : Type}, (state.view.keys state.storage.entries : Except ε (List Bytes)) =
      .ok reference.current.keys) ∧
    reference.current.keys.Pairwise (· < ·) ∧
    (∀ key, key ∈ reference.current.keys ↔ (state.view.get state.storage.entries key).isSome) ∧
    (∀ {σ ε : Type} (f : σ → Bytes → V → Except ε (σ × Bool)) (start : σ),
      state.view.forEachKeyValueWhile state.storage.entries f start =
        visitWhile (fun state entry => f state entry.1 entry.2) reference.current.entries start) ∧
    (∀ {σ ε : Type} (f : σ → Bytes → Except ε (σ × Bool)) (start : σ),
      state.view.forEachKeyWhile state.storage.entries f start =
        visitWhile f reference.current.keys start) ∧
    (∀ a b, a < 2 ^ 128 → b < 2 ^ 128 → (u128CustomBytes a < u128CustomBytes b ↔ a < b)) := by
  intro state reference
  have simulates : Simulates state reference := (simulates_load storage).run hashOf operations
  refine ⟨simulates.get, ?_, List.pairwise_map.mpr reference.current.sorted, ?_, ?_, ?_,
    fun a b aBound bBound => u128CustomBytes_lt_iff aBound bBound⟩
  · intro ε
    rw [keys_eq, simulates.contents]
  · intro key
    rw [OrdMap.mem_keys, simulates.get]
  · intro σ ε f start
    rw [forEachKeyValueWhile_eq_visitWhile, simulates.contents]
  · intro σ ε f start
    rw [forEachKeyWhile_eq_visitWhile, simulates.contents]

end Linera.Views
