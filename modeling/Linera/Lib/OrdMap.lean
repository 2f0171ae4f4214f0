import Mathlib

set_option autoImplicit false

/-! Ordered maps and sets as strictly sorted lists.

This is the shape of a B-tree seen from its iterators: every traversal visits the
keys in increasing order, a range scan is a filter on that order, and two maps with
the same lookups are the same map. Maps store their entries as a key-sorted sigma list,
so that the lookup theory of `List.dlookup` applies unchanged. -/

/-- An end of a range scan, as in a half-open or closed interval of keys. -/
inductive Bound (K : Type) where
  | included (key : K)
  | excluded (key : K)
  | unbounded
  deriving DecidableEq, Repr

namespace Bound

variable {K : Type} [LinearOrder K]

def admitsFrom : Bound K → K → Bool
  | included low, key => decide (low ≤ key)
  | excluded low, key => decide (low < key)
  | unbounded, _ => true

def admitsUpTo : Bound K → K → Bool
  | included high, key => decide (key ≤ high)
  | excluded high, key => decide (key < high)
  | unbounded, _ => true

end Bound

/-- A finite map whose entries are strictly increasing in key. -/
structure OrdMap (K V : Type) [LinearOrder K] where
  entries : List ((_ : K) × V)
  sorted : entries.Pairwise (fun a b => a.1 < b.1)

/-- A finite set whose elements are strictly increasing. -/
structure OrdSet (K : Type) [LinearOrder K] where
  elems : List K
  sorted : elems.Pairwise (· < ·)

namespace OrdMap

variable {K V : Type} [LinearOrder K]

def insertEntry (key : K) (value : V) : List ((_ : K) × V) → List ((_ : K) × V)
  | [] => [⟨key, value⟩]
  | entry :: rest =>
      if key < entry.1 then ⟨key, value⟩ :: entry :: rest
      else if key = entry.1 then ⟨key, value⟩ :: rest
      else entry :: insertEntry key value rest

theorem mem_insertEntry {key : K} {value : V} {entry : (_ : K) × V}
    {entries : List ((_ : K) × V)} (mem : entry ∈ insertEntry key value entries) :
    entry = ⟨key, value⟩ ∨ entry ∈ entries := by
  induction entries with
  | nil => simpa [insertEntry] using mem
  | cons head rest ih =>
      simp only [insertEntry] at mem
      split_ifs at mem <;> grind

theorem insertEntry_sorted (key : K) (value : V) {entries : List ((_ : K) × V)}
    (sorted : entries.Pairwise (fun a b => a.1 < b.1)) :
    (insertEntry key value entries).Pairwise (fun a b => a.1 < b.1) := by
  induction entries with
  | nil => exact List.pairwise_singleton _ _
  | cons head rest ih =>
      have head_below : ∀ entry ∈ rest, head.1 < entry.1 :=
        fun _ mem => List.rel_of_pairwise_cons sorted mem
      simp only [insertEntry]
      split_ifs with before same
      · refine List.Pairwise.cons (fun entry mem => ?_) sorted
        rcases List.mem_cons.mp mem with rfl | later
        · exact before
        · exact lt_trans before (head_below _ later)
      · refine List.Pairwise.cons (fun entry mem => ?_) sorted.of_cons
        exact same ▸ head_below _ mem
      · refine List.Pairwise.cons (fun entry mem => ?_) (ih sorted.of_cons)
        rcases mem_insertEntry mem with rfl | later
        · exact lt_of_le_of_ne (not_lt.mp before) (Ne.symm same)
        · exact head_below _ later

theorem dlookup_insertEntry (key other : K) (value : V) (entries : List ((_ : K) × V)) :
    (insertEntry key value entries).dlookup other =
      if other = key then some value else entries.dlookup other := by
  induction entries with
  | nil => by_cases hit : other = key <;> simp [insertEntry, List.dlookup, hit]
  | cons head rest ih =>
      obtain ⟨headKey, headValue⟩ := head
      have head_ne {probe : K} (apart : probe ≠ headKey) (tail : List ((_ : K) × V)) :
          (List.dlookup probe ((⟨headKey, headValue⟩ : (_ : K) × V) :: tail)) = tail.dlookup probe :=
        List.dlookup_cons_ne tail ⟨headKey, headValue⟩ apart
      simp only [insertEntry]
      by_cases hit : other = key
      · subst hit
        rw [if_pos rfl] at ih ⊢
        split_ifs with before same
        · exact List.dlookup_cons_eq _ _ _
        · exact List.dlookup_cons_eq _ _ _
        · rw [head_ne same, ih]
      · rw [if_neg hit] at ih ⊢
        have new_ne (tail : List ((_ : K) × V)) :
            (List.dlookup other ((⟨key, value⟩ : (_ : K) × V) :: tail)) = tail.dlookup other :=
          List.dlookup_cons_ne tail ⟨key, value⟩ hit
        split_ifs with before same
        · rw [new_ne]
        · subst same
          rw [new_ne, head_ne hit]
        · by_cases at_head : other = headKey
          · subst at_head
            rw [List.dlookup_cons_eq, List.dlookup_cons_eq]
          · rw [head_ne at_head, head_ne at_head, ih]

def empty : OrdMap K V := ⟨[], List.Pairwise.nil⟩

def get (map : OrdMap K V) (key : K) : Option V := map.entries.dlookup key

def insert (map : OrdMap K V) (key : K) (value : V) : OrdMap K V :=
  ⟨insertEntry key value map.entries, insertEntry_sorted key value map.sorted⟩

def total {M : Type} [AddCommMonoid M] (map : OrdMap K M) : M := (map.entries.map (·.2)).sum

def erase (map : OrdMap K V) (key : K) : OrdMap K V :=
  ⟨map.entries.kerase key, map.sorted.sublist (List.kerase_sublist key _)⟩

def filter (map : OrdMap K V) (keep : K → Bool) : OrdMap K V :=
  ⟨map.entries.filter (fun entry => keep entry.1), map.sorted.filter _⟩

def keys (map : OrdMap K V) : List K := map.entries.map (·.1)

def range (map : OrdMap K V) (low high : Bound K) : List ((_ : K) × V) :=
  map.entries.filter (fun entry => low.admitsFrom entry.1 && high.admitsUpTo entry.1)

def eraseAll (map : OrdMap K V) (keys : List K) : OrdMap K V :=
  keys.foldl erase map

theorem nodupKeys (map : OrdMap K V) : map.entries.NodupKeys :=
  List.nodupKeys_iff_pairwise.mpr (map.sorted.imp ne_of_lt)

@[simp] theorem get_empty (key : K) : (empty : OrdMap K V).get key = none := rfl

@[simp] theorem get_insert (map : OrdMap K V) (key other : K) (value : V) :
    (map.insert key value).get other = if other = key then some value else map.get other :=
  dlookup_insertEntry key other value map.entries

@[simp] theorem get_erase (map : OrdMap K V) (key other : K) :
    (map.erase key).get other = if other = key then none else map.get other := by
  by_cases hit : other = key
  · subst hit
    simpa [get, erase] using List.dlookup_kerase other map.nodupKeys
  · simp [get, erase, hit, List.dlookup_kerase_ne hit]

@[simp] theorem get_eraseAll (map : OrdMap K V) (keys : List K) (key : K) :
    (map.eraseAll keys).get key = if key ∈ keys then none else map.get key := by
  induction keys generalizing map with
  | nil => simp [eraseAll]
  | cons first rest ih =>
      simp only [eraseAll, List.foldl_cons] at ih ⊢
      rw [ih]
      by_cases later : key ∈ rest <;> by_cases hit : key = first <;> simp [later, hit]

theorem mem_entries_iff (map : OrdMap K V) (key : K) (value : V) :
    ⟨key, value⟩ ∈ map.entries ↔ map.get key = some value :=
  (List.mem_dlookup_iff map.nodupKeys).symm

theorem le_of_head?_eq_some {map : OrdMap K V} {first : (_ : K) × V}
    (head : map.entries.head? = some first) {key : K} (present : (map.get key).isSome) :
    first.1 ≤ key := by
  obtain ⟨rest, entries⟩ := List.head?_eq_some_iff.mp head
  obtain ⟨value, found⟩ := Option.isSome_iff_exists.mp present
  have mem := (mem_entries_iff map key value).mpr found
  have sorted := map.sorted
  rw [entries] at mem sorted
  rcases List.mem_cons.mp mem with same | later
  · rw [← same]
  · exact le_of_lt ((List.pairwise_cons.mp sorted).1 _ later)

theorem mem_range (map : OrdMap K V) (low high : Bound K) (entry : (_ : K) × V) :
    entry ∈ map.range low high ↔
      entry ∈ map.entries ∧ low.admitsFrom entry.1 = true ∧ high.admitsUpTo entry.1 = true := by
  simp [range]

theorem mem_keys (map : OrdMap K V) (key : K) : key ∈ map.keys ↔ (map.get key).isSome := by
  rw [get, List.dlookup_isSome, keys, List.keys]

theorem ext_get {first second : OrdMap K V} (same : ∀ key, first.get key = second.get key) :
    first = second := by
  have permuted : first.entries.Perm second.entries :=
    List.lookup_ext first.nodupKeys second.nodupKeys (fun key value => by
      rw [List.mem_dlookup_iff first.nodupKeys, List.mem_dlookup_iff second.nodupKeys,
        mem_entries_iff, mem_entries_iff, same])
  have equal : first.entries = second.entries :=
    permuted.eq_of_pairwise (fun a b _ _ below above => absurd (lt_trans below above) (lt_irrefl _))
      first.sorted second.sorted
  cases first
  cases second
  cases equal
  rfl

theorem get_foldl_insert_of_not_mem {α : Type} (key : α → K) (value : α → V) {items : List α}
    {k : K} (absent : k ∉ items.map key) (map : OrdMap K V) :
    (items.foldl (fun map item => map.insert (key item) (value item)) map).get k = map.get k := by
  induction items generalizing map with
  | nil => rfl
  | cons item rest ih =>
      rw [List.map_cons, List.mem_cons, not_or] at absent
      rw [List.foldl_cons, ih absent.2, get_insert, if_neg absent.1]

theorem get_foldl_insert_of_mem {α : Type} (key : α → K) (value : α → V) {items : List α}
    {k : K} (present : k ∈ items.map key) (map : OrdMap K V) :
    ∃ item ∈ items, key item = k ∧
      (items.foldl (fun map item => map.insert (key item) (value item)) map).get k =
        some (value item) := by
  induction items generalizing map with
  | nil => simp at present
  | cons item rest ih =>
      rw [List.foldl_cons]
      by_cases later : k ∈ rest.map key
      · obtain ⟨found, mem, same, got⟩ := ih later (map.insert (key item) (value item))
        exact ⟨found, List.mem_cons_of_mem _ mem, same, got⟩
      · -- The head is the last item with the key.
        have first : k = key item := by
          rw [List.map_cons, List.mem_cons] at present
          exact present.resolve_right later
        refine ⟨item, List.mem_cons_self, first.symm, ?_⟩
        rw [get_foldl_insert_of_not_mem key value later, get_insert, if_pos first]

theorem sum_insertEntry {M : Type} [AddCommMonoid M] (key : K) (value : M)
    {entries : List ((_ : K) × M)} (sorted : entries.Pairwise (fun a b => a.1 < b.1)) :
    ((insertEntry key value entries).map (·.2)).sum + (entries.dlookup key).getD 0 =
      (entries.map (·.2)).sum + value := by
  induction entries with
  | nil => simp [insertEntry]
  | cons head rest ih =>
      obtain ⟨headKey, headValue⟩ := head
      have headBelow : ∀ entry ∈ rest, headKey < entry.1 :=
        fun _ mem => List.rel_of_pairwise_cons sorted mem
      simp only [insertEntry]
      split_ifs with before same
      · -- A key below the first one is absent.
        have absent : List.dlookup key ((⟨headKey, headValue⟩ : (_ : K) × M) :: rest) = none := by
          rw [List.dlookup_eq_none, List.keys_cons, List.mem_cons, not_or]
          refine ⟨ne_of_lt before, fun mem => ?_⟩
          obtain ⟨entry, entryMem, rfl⟩ := List.mem_map.mp mem
          exact absurd (lt_trans before (headBelow entry entryMem)) (lt_irrefl _)
        simp only [absent, Option.getD_none, add_zero, List.map_cons, List.sum_cons]
        ac_rfl
      · subst same
        simp only [List.dlookup_cons_eq, Option.getD_some, List.map_cons, List.sum_cons]
        ac_rfl
      · rw [List.dlookup_cons_ne rest ⟨headKey, headValue⟩ same]
        simp only [List.map_cons, List.sum_cons]
        rw [add_assoc, ih sorted.of_cons, add_assoc]

theorem total_insert {M : Type} [AddCommMonoid M] (map : OrdMap K M) (key : K) (value : M) :
    (map.insert key value).total + (map.get key).getD 0 = map.total + value :=
  sum_insertEntry key value map.sorted

end OrdMap

namespace OrdSet

variable {K : Type} [LinearOrder K]

def insertElem (key : K) : List K → List K
  | [] => [key]
  | elem :: rest =>
      if key < elem then key :: elem :: rest
      else if key = elem then elem :: rest
      else elem :: insertElem key rest

theorem mem_insertElem {key elem : K} {elems : List K} :
    elem ∈ insertElem key elems ↔ elem = key ∨ elem ∈ elems := by
  induction elems with
  | nil => simp [insertElem]
  | cons head rest ih =>
      simp only [insertElem]
      split_ifs <;> grind

theorem insertElem_sorted (key : K) {elems : List K} (sorted : elems.Pairwise (· < ·)) :
    (insertElem key elems).Pairwise (· < ·) := by
  induction elems with
  | nil => exact List.pairwise_singleton _ _
  | cons head rest ih =>
      have head_below : ∀ elem ∈ rest, head < elem :=
        fun _ mem => List.rel_of_pairwise_cons sorted mem
      simp only [insertElem]
      split_ifs with before same
      · refine List.Pairwise.cons (fun elem mem => ?_) sorted
        rcases List.mem_cons.mp mem with rfl | later
        · exact before
        · exact lt_trans before (head_below _ later)
      · exact sorted
      · refine List.Pairwise.cons (fun elem mem => ?_) (ih sorted.of_cons)
        rcases mem_insertElem.mp mem with rfl | later
        · exact lt_of_le_of_ne (not_lt.mp before) (Ne.symm same)
        · exact head_below _ later

def empty : OrdSet K := ⟨[], List.Pairwise.nil⟩

def insert (set : OrdSet K) (key : K) : OrdSet K :=
  ⟨insertElem key set.elems, insertElem_sorted key set.sorted⟩

def erase (set : OrdSet K) (key : K) : OrdSet K :=
  ⟨set.elems.erase key, set.sorted.sublist (List.erase_sublist)⟩

def range (set : OrdSet K) (low high : Bound K) : List K :=
  set.elems.filter (fun key => low.admitsFrom key && high.admitsUpTo key)

def eraseAll (set : OrdSet K) (keys : List K) : OrdSet K :=
  keys.foldl erase set

instance : Membership K (OrdSet K) := ⟨fun set key => key ∈ set.elems⟩

instance (set : OrdSet K) (key : K) : Decidable (key ∈ set) :=
  decidable_of_iff (set.elems.elem key) List.elem_iff

theorem mem_def (set : OrdSet K) (key : K) : key ∈ set ↔ key ∈ set.elems := Iff.rfl

@[simp] theorem not_mem_empty (key : K) : key ∉ (empty : OrdSet K) := by
  simp [mem_def, empty]

@[simp] theorem mem_insert (set : OrdSet K) (key elem : K) :
    elem ∈ set.insert key ↔ elem = key ∨ elem ∈ set :=
  mem_insertElem

@[simp] theorem mem_erase (set : OrdSet K) (key elem : K) :
    elem ∈ set.erase key ↔ elem ≠ key ∧ elem ∈ set := by
  have distinct : set.elems.Nodup := set.sorted.imp ne_of_lt
  rw [mem_def, mem_def, erase, distinct.mem_erase_iff]

@[simp] theorem mem_eraseAll (set : OrdSet K) (keys : List K) (elem : K) :
    elem ∈ set.eraseAll keys ↔ elem ∉ keys ∧ elem ∈ set := by
  induction keys generalizing set with
  | nil => simp [eraseAll]
  | cons first rest ih =>
      simp only [eraseAll, List.foldl_cons] at ih ⊢
      rw [ih, mem_erase]
      simp only [List.mem_cons, not_or]
      tauto

theorem mem_foldl_insert (set : OrdSet K) (keys : List K) (elem : K) :
    elem ∈ keys.foldl insert set ↔ elem ∈ keys ∨ elem ∈ set := by
  induction keys generalizing set with
  | nil => simp
  | cons first rest ih =>
      rw [List.foldl_cons, ih, mem_insert, List.mem_cons]
      tauto

theorem ext_mem {first second : OrdSet K} (same : ∀ elem, elem ∈ first ↔ elem ∈ second) :
    first = second := by
  have equal : first.elems = second.elems := first.sorted.eq_of_mem_iff second.sorted same
  cases first
  cases second
  cases equal
  rfl

theorem mem_range (set : OrdSet K) (low high : Bound K) (elem : K) :
    elem ∈ set.range low high ↔
      elem ∈ set ∧ low.admitsFrom elem = true ∧ high.admitsUpTo elem = true := by
  simp [range, mem_def]

theorem getLast?_eq_some_iff_greatest {elems : List K} (sorted : elems.Pairwise (· < ·))
    (last : K) : elems.getLast? = some last ↔ last ∈ elems ∧ ∀ elem ∈ elems, elem ≤ last := by
  constructor
  · intro is_last
    obtain ⟨front, rfl⟩ := List.getLast?_eq_some_iff.mp is_last
    have before_last : ∀ elem ∈ front, elem < last := fun elem mem =>
      List.pairwise_append.mp sorted |>.2.2 elem mem last (List.mem_singleton_self last)
    refine ⟨List.mem_append_right _ (List.mem_singleton_self last), fun elem mem => ?_⟩
    rcases List.mem_append.mp mem with earlier | at_end
    · exact le_of_lt (before_last elem earlier)
    · rw [List.mem_singleton.mp at_end]
  · rintro ⟨mem, greatest⟩
    obtain ⟨front, back, rfl⟩ := List.append_of_mem mem
    cases back with
    | nil => simp
    | cons next rest =>
        have after : last < next :=
          (List.pairwise_cons.mp (List.pairwise_append.mp sorted).2.1).1 next
            List.mem_cons_self
        exact absurd (greatest next (by simp)) (not_le.mpr after)

theorem greatest_below (set : OrdSet K) (key last : K) :
    (set.range .unbounded (.included key)).getLast? = some last ↔
      last ∈ set ∧ last ≤ key ∧ ∀ elem ∈ set, elem ≤ key → elem ≤ last := by
  rw [range, getLast?_eq_some_iff_greatest (set.sorted.filter _)]
  simp only [List.mem_filter, Bound.admitsFrom, Bound.admitsUpTo, decide_eq_true_eq,
    Bool.true_and, mem_def]
  constructor
  · rintro ⟨⟨mem, below⟩, greatest⟩
    exact ⟨mem, below, fun elem mem' below' => greatest elem ⟨mem', below'⟩⟩
  · rintro ⟨mem, below, greatest⟩
    exact ⟨⟨mem, below⟩, fun elem ⟨mem', below'⟩ => greatest elem mem' below'⟩

end OrdSet
