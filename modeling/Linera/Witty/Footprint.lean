import Linera.Witty.Codec

set_option autoImplicit false

/-! Where a stored `Vec` puts its elements (`WitStore for Vec<T>` in
`linera-witty/src/type_traits/implementations/std/vec.rs`).

`store` and `lower` of a `Vec` allocate `length * T::SIZE` bytes, but put the element of
index `i` at `GuestPointer::index::<T>(i)`, which steps by `T::SIZE` padded to `T`'s
alignment. For an element type whose size is not a multiple of its alignment, such as
`(u16, u8)` of size 3 and alignment 2, the last elements go past the allocation. The guest
may hand out those bytes to the next allocation, and what is stored there then changes the
vector that is loaded back (`vec_store_overflows_allocation`). -/

namespace Linera.Witty

-- The element type `(u16, u8)` is stored with a stride larger than its size.
example :
    (WitType.hlist (.hcons .u16 (.hcons .u8 .hnil))).size = 3 ∧
      (WitType.hlist (.hcons .u16 (.hcons .u8 .hnil))).elementSize = 4 := by
  decide

/-- `Vec<(u16, u8)>` of two elements, stored at 0 where its own 8 bytes are the only live
data, with the bump allocator, which hands out fresh regions (`freshAllocator_bumpAllocator`):
the store allocates 6 bytes at 8, but puts the second element at 12, so that its `u8` goes
to 14, outside the allocation and outside the vector's own bytes. The next allocation, of
one byte, is at 14; storing 0 there changes the second element of the vector loaded back. -/
theorem vec_store_overflows_allocation :
    let element : WitType := .hlist (.hcons .u16 (.hcons .u8 .hnil))
    let pair : BitVec 16 → BitVec 8 → WitValue := fun first second =>
      .hlist (.cons (.u16 first) (.cons (.u8 second) .nil))
    let memory : Memory := ⟨fun _ => 0, [(0, 8)]⟩
    (do
      let stored ← store bumpAllocator (.vec element)
        (.vec (.cons (pair 1 2) (.cons (pair 3 4) .nil))) memory 0
      let (address, allocated) ← stored.allocate bumpAllocator 1
      let overwritten ← store bumpAllocator .u8 (.u8 0) allocated address
      let loaded ← load (.vec element) overwritten 0
      pure (stored.allocations, stored.bytes 14, address, loaded)) =
    .ok ([(8, 6), (0, 8)], 4, 14, .vec (.cons (pair 1 2) (.cons (pair 3 0) .nil))) := by
  decide

end Linera.Witty
