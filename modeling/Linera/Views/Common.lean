import Mathlib
import Linera.Lib.Lex
import Linera.Lib.OrdMap

set_option autoImplicit false

/-! Keys of the key-value stores (`linera-views/src/common.rs`).

Keys and values are byte strings, compared lexicographically as `Vec<u8>` is.
`get_interval` turns a key prefix into the range scan `[prefix, upper)` that the
stores and views use to find the keys extending it; the upper end is the prefix with
its trailing `0xFF` bytes dropped and its last byte increased, or no end at all when
every byte of the prefix is `0xFF`. -/

namespace Linera.Views

/-- `Vec<u8>`: keys and values of the stores. -/
abbrev Bytes := List (Fin 256)

/-- Byte literals and byte arithmetic modulo 256 all rest on this one instance. -/
instance byteCount_neZero : NeZero 256 := ⟨by decide⟩

/-- The loop of `get_upper_bound_option` over the positions below `i`, last one first. -/
def upperBoundFrom (keyPrefix : Bytes) : Nat → Option Bytes
  | 0 => none
  | i + 1 =>
      let val := keyPrefix.getD i 0
      if val < 255 then some ((keyPrefix.take (i + 1)).set i (val + 1))
      else upperBoundFrom keyPrefix i

/-- `get_upper_bound_option`: the least key above every extension of the prefix. -/
def getUpperBoundOption (keyPrefix : Bytes) : Option Bytes :=
  upperBoundFrom keyPrefix keyPrefix.length

def getUpperBound (keyPrefix : Bytes) : Bound Bytes :=
  match getUpperBoundOption keyPrefix with
  | none => .unbounded
  | some upperBound => .excluded upperBound

/-- `get_interval`: the range of keys scanned for a prefix. -/
def getInterval (keyPrefix : Bytes) : Bound Bytes × Bound Bytes :=
  (.included keyPrefix, getUpperBound keyPrefix)

/-- Membership of a key in a range given by its two ends. -/
def inRange (range : Bound Bytes × Bound Bytes) (key : Bytes) : Bool :=
  range.1.admitsFrom key && range.2.admitsUpTo key

theorem upperBoundFrom_eq_none {keyPrefix : Bytes} {i : Nat} :
    upperBoundFrom keyPrefix i = none ↔ ∀ j < i, keyPrefix.getD j 0 = 255 := by
  induction i with
  | zero => simp [upperBoundFrom]
  | succ i ih =>
      simp only [upperBoundFrom]
      split_ifs with below
      · simp only [false_iff, not_forall]
        exact ⟨i, Nat.lt_succ_self i, by omega⟩
      · rw [ih]
        constructor
        · intro lower j bound
          rcases Nat.lt_succ_iff_lt_or_eq.mp bound with earlier | rfl
          · exact lower j earlier
          · omega
        · exact fun all j bound => all j (Nat.lt_succ_of_lt bound)

theorem upperBoundFrom_eq_some {keyPrefix : Bytes} {i : Nat} {upperBound : Bytes}
    (found : upperBoundFrom keyPrefix i = some upperBound) :
    ∃ j < i, keyPrefix.getD j 0 < 255 ∧ (∀ k, j < k → k < i → keyPrefix.getD k 0 = 255) ∧
      upperBound = (keyPrefix.take (j + 1)).set j (keyPrefix.getD j 0 + 1) := by
  induction i with
  | zero => simp [upperBoundFrom] at found
  | succ i ih =>
      simp only [upperBoundFrom] at found
      split_ifs at found with below
      · exact ⟨i, Nat.lt_succ_self i, below, fun k after bound => by omega,
          (Option.some.inj found).symm⟩
      · obtain ⟨j, bound, small, tops, rfl⟩ := ih found
        refine ⟨j, Nat.lt_succ_of_lt bound, small, fun k after limit => ?_, rfl⟩
        rcases Nat.lt_succ_iff_lt_or_eq.mp limit with earlier | rfl
        · exact tops k after earlier
        · omega

theorem getD_of_lt (bytes : Bytes) {j : Nat} (bound : j < bytes.length) :
    bytes.getD j 0 = bytes[j] := by
  rw [List.getD_eq_getElem?_getD, List.getElem?_eq_getElem bound, Option.getD_some]

theorem take_succ_set (bytes : Bytes) {j : Nat} (bound : j < bytes.length) (byte : Fin 256) :
    (bytes.take (j + 1)).set j byte = bytes.take j ++ [byte] := by
  rw [List.take_add_one, List.getElem?_eq_getElem bound, Option.toList_some,
    List.set_append_right _ _ (by simp)]
  simp [Nat.min_eq_left (Nat.le_of_lt bound)]

theorem split_at (bytes : Bytes) {j : Nat} (bound : j < bytes.length) :
    bytes = bytes.take j ++ bytes.getD j 0 :: bytes.drop (j + 1) := by
  rw [getD_of_lt bytes bound, ← List.drop_eq_getElem_cons bound, List.take_append_drop]

theorem drop_all_top {bytes : Bytes} {j : Nat}
    (tops : ∀ k, j < k → k < bytes.length → bytes.getD k 0 = 255) :
    ∀ byte ∈ bytes.drop (j + 1), byte = 255 := by
  intro byte mem
  obtain ⟨i, bound, rfl⟩ := List.mem_iff_getElem.mp mem
  rw [List.length_drop] at bound
  rw [List.getElem_drop, ← getD_of_lt bytes (by omega)]
  exact tops (j + 1 + i) (by omega) (by omega)

theorem all_top_of_upperBound_none {keyPrefix : Bytes}
    (none_found : getUpperBoundOption keyPrefix = none) : ∀ byte ∈ keyPrefix, byte = 255 := by
  intro byte mem
  obtain ⟨j, bound, rfl⟩ := List.mem_iff_getElem.mp mem
  rw [← getD_of_lt keyPrefix bound]
  exact upperBoundFrom_eq_none.mp none_found j bound

theorem getUpperBoundOption_eq_none_iff (keyPrefix : Bytes) :
    getUpperBoundOption keyPrefix = none ↔ ∀ byte ∈ keyPrefix, byte = 255 := by
  constructor
  · exact all_top_of_upperBound_none
  · intro tops
    apply upperBoundFrom_eq_none.mpr
    intro j bound
    rw [getD_of_lt keyPrefix bound]
    exact tops _ (List.getElem_mem bound)

/-- A prefix whose last byte below `0xFF` is `a`, followed by `0xFF` bytes only, is
extended exactly by the keys from it up to the prefix cut at `a`, with `a` increased. -/
theorem isPrefix_iff_of_split (front rest key : Bytes) {a : Fin 256} (small : a < 255)
    (tops : ∀ byte ∈ rest, byte = 255) :
    front ++ a :: rest <+: key ↔ front ++ a :: rest ≤ key ∧ key < front ++ [a + 1] := by
  constructor
  · intro extends_prefix
    exact ⟨Lexicographic.le_of_isPrefix extends_prefix,
      Lexicographic.lt_of_isPrefix_append (by omega) extends_prefix⟩
  · rintro ⟨lower, upper⟩
    have head_prefix : front ++ [a] <+: front ++ a :: rest :=
      (List.prefix_append_right_inj front).mpr (List.cons_prefix_cons.mpr ⟨rfl, List.nil_prefix⟩)
    obtain ⟨tail, rfl⟩ := Lexicographic.isPrefix_of_le_of_lt_succ
      (fun byte above below => by omega)
      (le_trans (Lexicographic.le_of_isPrefix head_prefix) lower) upper
    rw [List.append_assoc, List.singleton_append] at lower ⊢
    rw [Lexicographic.append_le_append_iff, Lexicographic.cons_le_cons_iff] at lower
    have rest_le : rest ≤ tail := by
      rcases lower with below | ⟨-, rest_le⟩
      · exact absurd below (lt_irrefl a)
      · exact rest_le
    exact (List.prefix_append_right_inj front).mpr (List.cons_prefix_cons.mpr
      ⟨rfl, Lexicographic.isPrefix_of_top_le (fun byte => by omega) tops rest_le⟩)

theorem inRange_getInterval_iff (keyPrefix key : Bytes) :
    inRange (getInterval keyPrefix) key = true ↔ keyPrefix <+: key := by
  simp only [inRange, getInterval, getUpperBound, Bound.admitsFrom, Bool.and_eq_true,
    decide_eq_true_eq]
  cases found : getUpperBoundOption keyPrefix with
  | none =>
      simp only [Bound.admitsUpTo, and_true]
      exact ⟨Lexicographic.isPrefix_of_top_le (fun byte => by omega)
        (all_top_of_upperBound_none found), Lexicographic.le_of_isPrefix⟩
  | some upperBound =>
      simp only [Bound.admitsUpTo, decide_eq_true_eq]
      obtain ⟨j, bound, small, tops, rfl⟩ := upperBoundFrom_eq_some found
      rw [take_succ_set keyPrefix bound]
      have split := isPrefix_iff_of_split (keyPrefix.take j) (keyPrefix.drop (j + 1)) key small
        (drop_all_top tops)
      rw [← split_at keyPrefix bound] at split
      exact split.symm

def baseTag (baseKey : Bytes) (tag : Fin 256) : Bytes := baseKey ++ [tag]

def baseTagIndex (baseKey : Bytes) (tag : Fin 256) (index : Bytes) : Bytes :=
  baseKey ++ [tag] ++ index

end Linera.Views
