import Linera.Witty.Types
import Linera.Lib.ByteMemory

set_option autoImplicit false

/-! The guest's memory as the host sees it (`linera-witty/src/runtime/memory.rs`).

Addresses are `GuestPointer`s: an address, advanced past a type with `after`, padded to an
alignment with `aligned_at` and `after_padding_for`, and stepped through the elements of a
list with `index`, by the size of the element padded to its alignment.

The memory is its bytes and the regions the guest's allocator handed out. The host reads
and writes bytes, and allocates by calling the guest's `cabi_realloc` with alignment 1: the
guest picks the address. Addresses are natural numbers: the overflow of `u32` arithmetic
and reads and writes past the end of the memory are left out. -/

namespace Linera.Witty

open ByteMemory

namespace GuestPointer

def after (location : Nat) (type : WitType) : Nat := location + type.size

def afterPaddingFor (location : Nat) (type : WitType) : Nat := alignedAt location type.alignment

/-- `GuestPointer::index::<T>`: the element size is `T::SIZE` padded to `T`'s alignment. -/
def index (location : Nat) (type : WitType) (index : Nat) : Nat :=
  location + index * type.elementSize

end GuestPointer

/-- The guest's `cabi_realloc(0, 0, 1, size)`: the address, as an `i32`, that the guest
gives a new allocation of `size` bytes, from the regions it handed out before. -/
abbrev CabiRealloc := List Region → Nat → Int

/-- A guest's memory. -/
structure Memory where
  bytes : Nat → UInt8
  /-- The regions the guest's allocator handed out, the latest first. -/
  allocations : List Region

namespace Memory

def read (memory : Memory) (location length : Nat) : List UInt8 :=
  ByteMemory.read memory.bytes location length

def write (memory : Memory) (location : Nat) (bytes : List UInt8) : Memory :=
  { memory with bytes := ByteMemory.write memory.bytes location bytes }

/-- `Memory::allocate`: `size` must fit an `i32`, and the guest's address must not be
negative. -/
def allocate (cabiRealloc : CabiRealloc) (memory : Memory) (size : Nat) :
    Except WitError (Nat × Memory) :=
  if 2 ^ 31 ≤ size then .error (.runtimeError .allocationTooLarge)
  else
    let address := cabiRealloc memory.allocations size
    if address < 0 then .error (.runtimeError .allocationFailed)
    else .ok (address.toNat, { memory with allocations := (address.toNat, size) :: memory.allocations })

@[simp] theorem read_def (memory : Memory) (location length : Nat) :
    memory.read location length = ByteMemory.read memory.bytes location length := rfl

end Memory

/-- A guest allocator that gives every allocation a fresh region at a valid address. -/
def FreshAllocator (cabiRealloc : CabiRealloc) : Prop :=
  ∀ live size, 0 ≤ cabiRealloc live size ∧ Fresh live ((cabiRealloc live size).toNat, size)

/-- The allocator that hands out the addresses after the last region, as the test runtime's
`cabi_realloc` does. -/
def bumpAllocator : CabiRealloc := fun live _ => bumpAddress live

theorem freshAllocator_bumpAllocator : FreshAllocator bumpAllocator :=
  fun live size => ⟨Int.natCast_nonneg _, fresh_bumpAddress live size⟩

end Linera.Witty
