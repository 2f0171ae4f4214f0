import Mathlib

set_option autoImplicit false

/-! Byte-addressed memory.

A memory is a function from addresses to bytes. A write puts a list of bytes at
consecutive addresses and keeps every other address; a read takes the bytes at consecutive
addresses. An integer of a fixed number of bytes is stored as its little-endian bytes.

A region is a start address and a length. An allocator that hands out regions is fresh
when each region it hands out is disjoint from every live one; the bump allocator, which
hands out the addresses after the last live region, is. -/

namespace ByteMemory

/-- The `width` little-endian bytes of `n`; the bits above `8 * width` are dropped. -/
def toBytesLE : Nat → Nat → List UInt8
  | 0, _ => []
  | width + 1, n => UInt8.ofNat n :: toBytesLE width (n / 256)

def ofBytesLE : List UInt8 → Nat
  | [] => 0
  | byte :: bytes => byte.toNat + 256 * ofBytesLE bytes

def read (bytes : Nat → UInt8) (address length : Nat) : List UInt8 :=
  (List.range length).map fun offset => bytes (address + offset)

def write (bytes : Nat → UInt8) (address : Nat) (data : List UInt8) : Nat → UInt8 :=
  fun other => if address ≤ other ∧ other < address + data.length then
    data.getD (other - address) 0 else bytes other

abbrev Region := Nat × Nat

namespace Region

def Contains (region : Region) (address : Nat) : Prop :=
  region.1 ≤ address ∧ address < region.1 + region.2

instance (region : Region) (address : Nat) : Decidable (region.Contains address) :=
  inferInstanceAs (Decidable (_ ∧ _))

def Disjoint (first second : Region) : Prop :=
  first.1 + first.2 ≤ second.1 ∨ second.1 + second.2 ≤ first.1

instance (first second : Region) : Decidable (first.Disjoint second) :=
  inferInstanceAs (Decidable (_ ∨ _))

end Region

/-- A region disjoint from every live region. -/
def Fresh (live : List Region) (region : Region) : Prop :=
  ∀ other ∈ live, region.Disjoint other

/-- The first address after every live region. -/
def bumpAddress (live : List Region) : Nat :=
  live.foldr (fun region last => max (region.1 + region.2) last) 0

theorem le_bumpAddress {live : List Region} {region : Region} (mem : region ∈ live) :
    region.1 + region.2 ≤ bumpAddress live := by
  induction live with
  | nil => cases mem
  | cons first rest ih =>
      simp only [bumpAddress, List.foldr_cons] at ih ⊢
      rcases List.mem_cons.mp mem with same | later
      · rw [same]
        exact le_max_left _ _
      · exact le_trans (ih later) (le_max_right _ _)

theorem fresh_bumpAddress (live : List Region) (size : Nat) : Fresh live (bumpAddress live, size) :=
  fun _ mem => Or.inr (le_bumpAddress mem)

end ByteMemory
