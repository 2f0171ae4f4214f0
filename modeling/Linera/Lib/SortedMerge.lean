import Mathlib

set_option autoImplicit false

/-! Sorted entries overridden by sorted updates.

A store that stages updates over the entries it has stored scans its contents by merging
two key-sorted lists: the stored entries and the staged updates, where an update sets the
value of its key or deletes it. The merge is again sorted, and it holds, for each key, the
update's value if there is an update and the stored value otherwise.

A scan visits the merge with a callback that threads a state and says whether to go on;
`visitWhile` is that loop on a plain list: it visits the items up to and including the
first one at which the callback says to stop. -/

namespace SortedMerge

variable {K V : Type}

/-- What an update puts in the merge: its entry, or nothing for a deletion. -/
def present (update : (_ : K) × Option V) : List ((_ : K) × V) :=
  match update.2 with
  | some value => [⟨update.1, value⟩]
  | none => []

theorem key_of_mem_present {update : (_ : K) × Option V} {entry : (_ : K) × V}
    (mem : entry ∈ present update) : entry.1 = update.1 := by
  unfold present at mem
  split at mem
  · rw [List.mem_singleton.mp mem]
  · cases mem

def mapValues {W : Type} (g : V → W) (entries : List ((_ : K) × V)) : List ((_ : K) × W) :=
  entries.map fun entry => ⟨entry.1, g entry.2⟩

@[simp] theorem mapValues_nil {W : Type} (g : V → W) : mapValues g ([] : List ((_ : K) × V)) = [] :=
  rfl

@[simp] theorem mapValues_cons {W : Type} (g : V → W) (entry : (_ : K) × V)
    (entries : List ((_ : K) × V)) :
    mapValues g (entry :: entries) = ⟨entry.1, g entry.2⟩ :: mapValues g entries :=
  rfl

variable [LinearOrder K]

/-- The entries overridden by the updates, both sorted by key. An update at or before the
next entry comes first, and replaces that entry when it has the same key. -/
def mergeOverride : List ((_ : K) × V) → List ((_ : K) × Option V) → List ((_ : K) × V)
  | [], updates => updates.flatMap present
  | entry :: entries, [] => entry :: mergeOverride entries []
  | entry :: entries, update :: updates =>
      if update.1 ≤ entry.1 then
        present update ++
          if update.1 = entry.1 then mergeOverride entries updates
          else mergeOverride (entry :: entries) updates
      else entry :: mergeOverride entries (update :: updates)
termination_by entries updates => entries.length + updates.length

/-- Visits the items in order, threading the callback's state, until the callback says to
stop; the item at which it stops is visited. -/
def visitWhile {α σ ε : Type} (f : σ → α → Except ε (σ × Bool)) : List α → σ → Except ε σ
  | [], state => .ok state
  | item :: items, state => do
      let (state, go) ← f state item
      if go then visitWhile f items state else .ok state

theorem visitWhile_cons {α σ ε : Type} (f : σ → α → Except ε (σ × Bool)) (item : α)
    (items : List α) (state : σ) :
    visitWhile f (item :: items) state = (do
      let (state, go) ← f state item
      if !go then .ok state else visitWhile f items state) := by
  show (f state item >>= _) = (f state item >>= _)
  congr 1
  funext result
  obtain ⟨state, go⟩ := result
  cases go <;> rfl

theorem visitWhile_map {α β σ ε : Type} (f : σ → β → Except ε (σ × Bool)) (g : α → β)
    (items : List α) (state : σ) :
    visitWhile f (items.map g) state = visitWhile (fun state item => f state (g item)) items state := by
  induction items generalizing state with
  | nil => rfl
  | cons item items ih =>
      rw [List.map_cons, visitWhile_cons, visitWhile_cons]
      simp only [ih]

theorem visitWhile_collect {α β ε : Type} (g : α → β) (items : List α) (collected : List β) :
    visitWhile (fun (acc : List β) item => (.ok (acc ++ [g item], true) : Except ε (List β × Bool)))
      items collected = .ok (collected ++ items.map g) := by
  induction items generalizing collected with
  | nil => simp [visitWhile]
  | cons item items ih =>
      show visitWhile _ items (collected ++ [g item]) = _
      rw [ih, List.map_cons, List.append_assoc, List.singleton_append]

theorem lt_of_mem_mergeOverride {bound : K} {entries : List ((_ : K) × V)}
    {updates : List ((_ : K) × Option V)} (aboveEntries : ∀ entry ∈ entries, bound < entry.1)
    (aboveUpdates : ∀ update ∈ updates, bound < update.1) :
    ∀ entry ∈ mergeOverride entries updates, bound < entry.1 := by
  induction entries, updates using mergeOverride.induct with
  | case1 updates =>
      intro entry mem
      rw [mergeOverride, List.mem_flatMap] at mem
      obtain ⟨update, member, present⟩ := mem
      rw [key_of_mem_present present]
      exact aboveUpdates update member
  | case2 first entries ih =>
      intro entry mem
      rw [mergeOverride] at mem
      rcases List.mem_cons.mp mem with rfl | later
      · exact aboveEntries entry List.mem_cons_self
      · exact ih (fun other mem => aboveEntries other (List.mem_cons_of_mem _ mem)) aboveUpdates
          entry later
  | case3 first entries update updates before sameIh differentIh =>
      intro entry mem
      rw [mergeOverride, if_pos before] at mem
      rcases List.mem_append.mp mem with now | later
      · rw [key_of_mem_present now]
        exact aboveUpdates update List.mem_cons_self
      · have aboveRest : ∀ other ∈ updates, bound < other.1 :=
          fun other mem => aboveUpdates other (List.mem_cons_of_mem _ mem)
        split at later
        · exact sameIh (fun other mem => aboveEntries other (List.mem_cons_of_mem _ mem))
            aboveRest entry later
        · exact differentIh aboveEntries aboveRest entry later
  | case4 first entries update updates after ih =>
      intro entry mem
      rw [mergeOverride, if_neg after] at mem
      rcases List.mem_cons.mp mem with rfl | later
      · exact aboveEntries entry List.mem_cons_self
      · exact ih (fun other mem => aboveEntries other (List.mem_cons_of_mem _ mem)) aboveUpdates
          entry later

theorem pairwise_present (update : (_ : K) × Option V) :
    (present update).Pairwise (fun a b => a.1 < b.1) := by
  unfold present
  split
  · exact List.pairwise_singleton _ _
  · exact List.Pairwise.nil

theorem mergeOverride_sorted {entries : List ((_ : K) × V)} {updates : List ((_ : K) × Option V)}
    (entriesSorted : entries.Pairwise (fun a b => a.1 < b.1))
    (updatesSorted : updates.Pairwise (fun a b => a.1 < b.1)) :
    (mergeOverride entries updates).Pairwise (fun a b => a.1 < b.1) := by
  induction entries, updates using mergeOverride.induct with
  | case1 updates =>
      rw [mergeOverride]
      induction updates with
      | nil => exact List.Pairwise.nil
      | cons update updates ih =>
          rw [List.pairwise_cons] at updatesSorted
          rw [List.flatMap_cons, List.pairwise_append]
          refine ⟨pairwise_present update, ih updatesSorted.2, fun now nowMem later laterMem => ?_⟩
          obtain ⟨other, otherMem, laterPresent⟩ := List.mem_flatMap.mp laterMem
          rw [key_of_mem_present nowMem, key_of_mem_present laterPresent]
          exact updatesSorted.1 other otherMem
  | case2 first entries ih =>
      rw [List.pairwise_cons] at entriesSorted
      rw [mergeOverride, List.pairwise_cons]
      exact ⟨lt_of_mem_mergeOverride entriesSorted.1 nofun, ih entriesSorted.2 updatesSorted⟩
  | case3 first entries update updates before sameIh differentIh =>
      have firstSorted := List.pairwise_cons.mp entriesSorted
      have updateSorted := List.pairwise_cons.mp updatesSorted
      rw [mergeOverride, if_pos before, List.pairwise_append]
      by_cases same : update.1 = first.1
      · rw [if_pos same]
        refine ⟨pairwise_present update, sameIh firstSorted.2 updateSorted.2, ?_⟩
        intro now nowMem later laterMem
        rw [key_of_mem_present nowMem]
        refine lt_of_mem_mergeOverride (fun other mem => ?_) updateSorted.1 later laterMem
        rw [same]
        exact firstSorted.1 other mem
      · rw [if_neg same]
        have below : update.1 < first.1 := lt_of_le_of_ne before same
        refine ⟨pairwise_present update, differentIh entriesSorted updateSorted.2, ?_⟩
        intro now nowMem later laterMem
        rw [key_of_mem_present nowMem]
        refine lt_of_mem_mergeOverride (fun other mem => ?_) updateSorted.1 later laterMem
        rcases List.mem_cons.mp mem with rfl | rest
        · exact below
        · exact lt_trans below (firstSorted.1 other rest)
  | case4 first entries update updates after ih =>
      have firstSorted := List.pairwise_cons.mp entriesSorted
      have above : first.1 < update.1 := lt_of_not_ge after
      rw [mergeOverride, if_neg after, List.pairwise_cons]
      refine ⟨lt_of_mem_mergeOverride firstSorted.1 (fun other mem => ?_), ih firstSorted.2 updatesSorted⟩
      rcases List.mem_cons.mp mem with rfl | rest
      · exact above
      · exact lt_trans above ((List.pairwise_cons.mp updatesSorted).1 other rest)

theorem dlookup_eq_none_of_lt {W : Type} {key : K} {entries : List ((_ : K) × W)}
    (above : ∀ entry ∈ entries, key < entry.1) : entries.dlookup key = none := by
  apply List.dlookup_eq_none.mpr
  intro mem
  obtain ⟨value, member⟩ := List.mem_keys.mp mem
  exact lt_irrefl key (above ⟨key, value⟩ member)

theorem dlookup_present_append (key : K) (update : (_ : K) × Option V)
    (rest : List ((_ : K) × V)) :
    (present update ++ rest).dlookup key =
      if key = update.1 then update.2.or (rest.dlookup key) else rest.dlookup key := by
  obtain ⟨index, value⟩ := update
  by_cases hit : key = index
  · subst hit
    cases value <;> simp [present, List.dlookup_cons_eq]
  · cases value with
    | none => simp [present, hit]
    | some value =>
        simp only [present, List.singleton_append, hit, if_false]
        exact List.dlookup_cons_ne rest ⟨index, value⟩ hit

theorem dlookup_flatMap_present (key : K) {updates : List ((_ : K) × Option V)}
    (updatesSorted : updates.Pairwise (fun a b => a.1 < b.1)) :
    (updates.flatMap present).dlookup key = (updates.dlookup key).getD none := by
  induction updates with
  | nil => rfl
  | cons update updates ih =>
      rw [List.pairwise_cons] at updatesSorted
      obtain ⟨index, value⟩ := update
      rw [List.flatMap_cons, dlookup_present_append, ih updatesSorted.2]
      by_cases hit : key = index
      · subst hit
        rw [if_pos rfl, dlookup_eq_none_of_lt updatesSorted.1, List.dlookup_cons_eq]
        simp
      · rw [if_neg hit, List.dlookup_cons_ne updates ⟨index, value⟩ hit]

theorem mapValues_sorted {W : Type} (g : V → W) {entries : List ((_ : K) × V)}
    (sorted : entries.Pairwise (fun a b => a.1 < b.1)) :
    (mapValues g entries).Pairwise (fun a b => a.1 < b.1) :=
  List.pairwise_map.mpr sorted

theorem dlookup_mapValues {W : Type} (g : V → W) (entries : List ((_ : K) × V)) (key : K) :
    (mapValues g entries).dlookup key = (entries.dlookup key).map g := by
  induction entries with
  | nil => rfl
  | cons entry entries ih =>
      obtain ⟨index, value⟩ := entry
      by_cases hit : key = index
      · subst hit
        rw [mapValues_cons, List.dlookup_cons_eq, List.dlookup_cons_eq, Option.map_some]
      · rw [mapValues_cons, List.dlookup_cons_ne (mapValues g entries) ⟨index, g value⟩ hit,
          List.dlookup_cons_ne entries ⟨index, value⟩ hit, ih]

theorem dlookup_mergeOverride (key : K) {entries : List ((_ : K) × V)}
    {updates : List ((_ : K) × Option V)} (entriesSorted : entries.Pairwise (fun a b => a.1 < b.1))
    (updatesSorted : updates.Pairwise (fun a b => a.1 < b.1)) :
    (mergeOverride entries updates).dlookup key = (updates.dlookup key).getD (entries.dlookup key) := by
  induction entries, updates using mergeOverride.induct with
  | case1 updates =>
      rw [mergeOverride, dlookup_flatMap_present key updatesSorted]
      rfl
  | case2 first entries ih =>
      rw [List.pairwise_cons] at entriesSorted
      obtain ⟨index, value⟩ := first
      rw [mergeOverride]
      by_cases hit : key = index
      · subst hit
        simp only [List.dlookup_cons_eq, List.dlookup_nil, Option.getD_none]
      · rw [List.dlookup_cons_ne (mergeOverride entries []) ⟨index, value⟩ hit,
          List.dlookup_cons_ne entries ⟨index, value⟩ hit,
          ih entriesSorted.2 updatesSorted]
  | case3 first entries update updates before sameIh differentIh =>
      obtain ⟨firstKey, firstValue⟩ := first
      obtain ⟨index, value⟩ := update
      have firstSorted := List.pairwise_cons.mp entriesSorted
      have updateSorted := List.pairwise_cons.mp updatesSorted
      rw [mergeOverride, if_pos before, dlookup_present_append]
      by_cases hit : key = index
      · subst hit
        have unstaged : updates.dlookup key = none := dlookup_eq_none_of_lt updateSorted.1
        rw [if_pos rfl, List.dlookup_cons_eq, Option.getD_some]
        split
        · rw [sameIh firstSorted.2 updateSorted.2, unstaged, Option.getD_none,
            dlookup_eq_none_of_lt (fun other mem => by rw [‹key = firstKey›]; exact firstSorted.1 other mem),
            Option.or_none]
        · have below : key < firstKey := lt_of_le_of_ne before ‹¬key = firstKey›
          have unstored : (⟨firstKey, firstValue⟩ :: entries).dlookup key = none := by
            refine dlookup_eq_none_of_lt (fun other mem => ?_)
            rcases List.mem_cons.mp mem with rfl | rest
            · exact below
            · exact lt_trans below (firstSorted.1 other rest)
          rw [differentIh entriesSorted updateSorted.2, unstaged, unstored, Option.getD_none,
            Option.or_none]
      · rw [if_neg hit, List.dlookup_cons_ne updates ⟨index, value⟩ hit]
        split
        · have other : key ≠ firstKey := fun equal => hit (equal.trans ‹index = firstKey›.symm)
          rw [sameIh firstSorted.2 updateSorted.2,
            List.dlookup_cons_ne entries ⟨firstKey, firstValue⟩ other]
        · rw [differentIh entriesSorted updateSorted.2]
  | case4 first entries update updates after ih =>
      obtain ⟨firstKey, firstValue⟩ := first
      obtain ⟨index, value⟩ := update
      have firstSorted := List.pairwise_cons.mp entriesSorted
      have above : firstKey < index := lt_of_not_ge after
      rw [mergeOverride, if_neg after]
      by_cases hit : key = firstKey
      · subst hit
        have unstaged : (⟨index, value⟩ :: updates).dlookup key = none := by
          refine dlookup_eq_none_of_lt (fun other mem => ?_)
          rcases List.mem_cons.mp mem with rfl | rest
          · exact above
          · exact lt_trans above ((List.pairwise_cons.mp updatesSorted).1 other rest)
        rw [List.dlookup_cons_eq, unstaged, Option.getD_none, List.dlookup_cons_eq]
      · rw [List.dlookup_cons_ne (mergeOverride entries (⟨index, value⟩ :: updates))
          ⟨firstKey, firstValue⟩ hit, ih firstSorted.2 updatesSorted,
          List.dlookup_cons_ne entries ⟨firstKey, firstValue⟩ hit]

theorem mem_keys_mergeOverride (key : K) {entries : List ((_ : K) × V)}
    {updates : List ((_ : K) × Option V)} (entriesSorted : entries.Pairwise (fun a b => a.1 < b.1))
    (updatesSorted : updates.Pairwise (fun a b => a.1 < b.1)) :
    key ∈ (mergeOverride entries updates).keys ↔
      ((updates.dlookup key).getD (entries.dlookup key)).isSome := by
  rw [← List.dlookup_isSome, dlookup_mergeOverride key entriesSorted updatesSorted]

theorem dlookup_isSome_map_unit (key : K) (keys : List K) :
    ((keys.map fun stored => (⟨stored, ()⟩ : (_ : K) × Unit)).dlookup key).isSome ↔ key ∈ keys := by
  rw [List.dlookup_isSome, List.keys, List.map_map]
  exact Iff.of_eq (congrArg (key ∈ ·) (List.map_id' keys))

end SortedMerge
