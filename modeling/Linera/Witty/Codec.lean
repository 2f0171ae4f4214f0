import Linera.Witty.Memory

set_option autoImplicit false

/-! Storing, loading, lowering and lifting values (`WitStore` and `WitLoad` for the types of
`linera-witty/src/type_traits/implementations`).

`store` writes a value at a location of memory: an integer as its little-endian bytes, a
variant as its discriminant byte and then its payload past the padding for the cases'
alignments, a list element after element, each after the padding for the next one's
alignment. A `Vec` or a `String` allocates a region for its contents, stores them there,
and writes the region's address and its length at the location. `load` reads a value back
from the same places.

`lower` turns a value into the flat values of its type's flat layout: a variant's payload
is joined into the merge of its cases' layouts (`intoJoined`); a `Vec` or a `String`
allocates and stores its contents, and lowers to their address and length. `lift_from`
turns them back: a variant's payload is split out of the merged layout (`fromJoined`),
and a `Vec` or a `String` is loaded from memory.

The functions go by recursion on the type, as the trait implementations do. A value that
is not of the type, which the source's types rule out, is a panic. -/

namespace Linera.Witty

open ByteMemory

namespace Memory

/-- `WitStore::store` of an integer: `to_le_bytes`. -/
def storeBits {width : Nat} (memory : Memory) (location : Nat) (value : BitVec width) : Memory :=
  memory.write location (toBytesLE (width / 8) value.toNat)

/-- `WitLoad::load` of an integer: `from_le_bytes` of its bytes. -/
def loadBits (width : Nat) (memory : Memory) (location : Nat) : BitVec width :=
  BitVec.ofNat width (ofBytesLE (memory.read location (width / 8)))

end Memory

namespace GuestPointer

/-- Where `Option<T>` puts its value: after the discriminant, padded for `T`. -/
def someLocation (location : Nat) (inner : WitType) : Nat :=
  afterPaddingFor (after location .bool) inner

/-- Where `Result<T, E>` puts its value: after the discriminant, padded for `T`, then for
`E`. -/
def resultLocation (location : Nat) (ok err : WitType) : Nat :=
  afterPaddingFor (afterPaddingFor (after location .bool) ok) err

/-- Where `HCons<Head, Tail>` puts its tail: after the head, padded for the tail's first
element. -/
def tailLocation (location : Nat) (head : WitType) (tail : WitList) : Nat :=
  alignedAt (after location head) tail.firstAlignment

end GuestPointer

open GuestPointer

/-- `u32::try_from` of a length. -/
def u32TryFrom (length : Nat) : Except WitError Nat :=
  if length < 2 ^ 32 then .ok length else .error (.runtimeError .invalidNumber)

/-- `u32::try_from` of an `i32` address. -/
def i32TryIntoU32 (value : BitVec 32) : Except WitError Nat :=
  if value.msb then .error (.runtimeError .invalidNumber) else .ok value.toNat

def WitValues.length : WitValues → Nat
  | .nil => 0
  | .cons _ tail => tail.length + 1

/-- The elements of a `Vec` from `index` on, each stored at its place in the list at
`destination` by `storeOne`, until one fails (`try_for_each`). -/
def storeElements (storeOne : WitValue → Memory → Nat → Except WitError Memory)
    (element : WitType) (destination : Nat) : WitValues → Memory → Nat → Except WitError Memory
  | .nil, memory, _ => .ok memory
  | .cons head tail, memory, index => do
      let memory ← storeOne head memory (GuestPointer.index destination element index)
      storeElements storeOne element destination tail memory (index + 1)

/-- `count` elements of a list at `address` from `index` on, each loaded by `loadOne`,
until one fails (`(0..length).map(..).collect()`). -/
def loadElements (loadOne : Nat → Except WitError WitValue) (element : WitType)
    (address : Nat) : Nat → Nat → Except WitError WitValues
  | 0, _ => .ok .nil
  | count + 1, index => do
      let head ← loadOne (GuestPointer.index address element index)
      let tail ← loadElements loadOne element address count (index + 1)
      pure (.cons head tail)

/-- The string with the `length` bytes at `address`: `String::from_utf8`. -/
def loadString (memory : Memory) (address length : Nat) : Except WitError WitValue :=
  match String.fromUTF8? ⟨(memory.read address length).toArray⟩ with
  | some value => .ok (.string value)
  | none => .error (.runtimeError .invalidString)

variable (cabiRealloc : CabiRealloc)

mutual

def store : WitType → WitValue → Memory → Nat → Except WitError Memory
  | .bool, .bool value, memory, location =>
      .ok (memory.storeBits location (if value then (1 : BitVec 8) else 0))
  | .u8, .u8 value, memory, location | .i8, .i8 value, memory, location =>
      .ok (memory.storeBits location value)
  | .u16, .u16 value, memory, location | .i16, .i16 value, memory, location =>
      .ok (memory.storeBits location value)
  | .u32, .u32 value, memory, location | .i32, .i32 value, memory, location =>
      .ok (memory.storeBits location value)
  | .u64, .u64 value, memory, location | .i64, .i64 value, memory, location =>
      .ok (memory.storeBits location value)
  | .u128, .u128 value, memory, location | .i128, .i128 value, memory, location =>
      .ok (memory.storeBits location value)
  | .option _, .none, memory, location => .ok (memory.storeBits location (0 : BitVec 8))
  | .option inner, .some value, memory, location =>
      store inner value (memory.storeBits location (1 : BitVec 8)) (someLocation location inner)
  | .result ok err, .ok value, memory, location =>
      store ok value (memory.storeBits location (0 : BitVec 8)) (resultLocation location ok err)
  | .result ok err, .err value, memory, location =>
      store err value (memory.storeBits location (1 : BitVec 8)) (resultLocation location ok err)
  | .hlist types, .hlist elements, memory, location => storeList types elements memory location
  | .vec element, .vec elements, memory, location => do
      let length ← u32TryFrom elements.length
      let (destination, memory) ← memory.allocate cabiRealloc (length * element.size)
      let memory := memory.storeBits location (BitVec.ofNat 32 destination)
      let memory := memory.storeBits (after location .u32) (BitVec.ofNat 32 length)
      storeElements (store element) element destination elements memory 0
  | .string, .string value, memory, location => do
      let length ← u32TryFrom value.toByteArray.size
      let (destination, memory) ← memory.allocate cabiRealloc length
      let memory := memory.storeBits location (BitVec.ofNat 32 destination)
      let memory := memory.storeBits (after location .u32) (BitVec.ofNat 32 length)
      pure (memory.write destination value.toByteArray.toList)
  | _, _, _, _ => .error (.panic "unreachable")

/-- `WitStore::store` of `HNil` and `HCons`: the head at the location, then the tail. -/
def storeList : WitList → WitValues → Memory → Nat → Except WitError Memory
  | .hnil, .nil, memory, _ => .ok memory
  | .hcons headType tailTypes, .cons head tail, memory, location => do
      let memory ← store headType head memory location
      storeList tailTypes tail memory (tailLocation location headType tailTypes)
  | _, _, _, _ => .error (.panic "unreachable")

end

mutual

/-- `WitLoad::load`. A discriminant byte other than 0 is `true`. -/
def load : WitType → Memory → Nat → Except WitError WitValue
  | .bool, memory, location => .ok (.bool (memory.loadBits 8 location != 0))
  | .u8, memory, location => .ok (.u8 (memory.loadBits 8 location))
  | .i8, memory, location => .ok (.i8 (memory.loadBits 8 location))
  | .u16, memory, location => .ok (.u16 (memory.loadBits 16 location))
  | .i16, memory, location => .ok (.i16 (memory.loadBits 16 location))
  | .u32, memory, location => .ok (.u32 (memory.loadBits 32 location))
  | .i32, memory, location => .ok (.i32 (memory.loadBits 32 location))
  | .u64, memory, location => .ok (.u64 (memory.loadBits 64 location))
  | .i64, memory, location => .ok (.i64 (memory.loadBits 64 location))
  | .u128, memory, location => .ok (.u128 (memory.loadBits 128 location))
  | .i128, memory, location => .ok (.i128 (memory.loadBits 128 location))
  | .option inner, memory, location =>
      if memory.loadBits 8 location != 0 then
        WitValue.some <$> load inner memory (someLocation location inner)
      else .ok .none
  | .result ok err, memory, location =>
      if memory.loadBits 8 location != 0 then
        WitValue.err <$> load err memory (resultLocation location ok err)
      else WitValue.ok <$> load ok memory (resultLocation location ok err)
  | .hlist types, memory, location => WitValue.hlist <$> loadList types memory location
  | .vec element, memory, location =>
      let address := (memory.loadBits 32 location).toNat
      let length := (memory.loadBits 32 (after location .u32)).toNat
      WitValue.vec <$> loadElements (load element memory) element address length 0
  | .string, memory, location =>
      loadString memory (memory.loadBits 32 location).toNat
        (memory.loadBits 32 (after location .u32)).toNat

/-- `WitLoad::load` of `HNil` and `HCons`. -/
def loadList : WitList → Memory → Nat → Except WitError WitValues
  | .hnil, _, _ => .ok .nil
  | .hcons headType tailTypes, memory, location => do
      let head ← load headType memory location
      let tail ← loadList tailTypes memory (tailLocation location headType tailTypes)
      pure (.cons head tail)

end

/-- The flat values of a 128-bit integer: its low and its high 64 bits (`x128_lower`). -/
def lower128 (value : BitVec 128) : List FlatValue :=
  [.i64 (value.setWidth 64), .i64 ((value >>> 64).setWidth 64)]

mutual

/-- `WitStore::lower`. The integers narrower than 32 bits are extended to an `i32` by
`as i32`: the signed ones with their sign. -/
def lower : WitType → WitValue → Memory → Except WitError (List FlatValue × Memory)
  | .bool, .bool value, memory => .ok ([.i32 (if value then 1 else 0)], memory)
  | .u8, .u8 value, memory => .ok ([.i32 (value.setWidth 32)], memory)
  | .i8, .i8 value, memory => .ok ([.i32 (value.signExtend 32)], memory)
  | .u16, .u16 value, memory => .ok ([.i32 (value.setWidth 32)], memory)
  | .i16, .i16 value, memory => .ok ([.i32 (value.signExtend 32)], memory)
  | .u32, .u32 value, memory | .i32, .i32 value, memory => .ok ([.i32 value], memory)
  | .u64, .u64 value, memory | .i64, .i64 value, memory => .ok ([.i64 value], memory)
  | .u128, .u128 value, memory | .i128, .i128 value, memory => .ok (lower128 value, memory)
  | .option inner, .none, memory => .ok (.i32 0 :: inner.flatLayout.map FlatType.default, memory)
  | .option inner, .some value, memory => do
      let (flat, memory) ← lower inner value memory
      pure (.i32 1 :: intoJoined flat inner.flatLayout, memory)
  | .result ok err, .ok value, memory => do
      let (flat, memory) ← lower ok value memory
      pure (.i32 0 :: intoJoined flat (mergeLayouts ok.flatLayout err.flatLayout), memory)
  | .result ok err, .err value, memory => do
      let (flat, memory) ← lower err value memory
      pure (.i32 1 :: intoJoined flat (mergeLayouts ok.flatLayout err.flatLayout), memory)
  | .hlist types, .hlist elements, memory => lowerList types elements memory
  | .vec element, .vec elements, memory => do
      let length ← u32TryFrom elements.length
      let (destination, memory) ← memory.allocate cabiRealloc (length * element.size)
      let memory ← storeElements (store cabiRealloc element) element destination elements memory 0
      pure ([.i32 (BitVec.ofNat 32 destination), .i32 (BitVec.ofNat 32 length)], memory)
  | .string, .string value, memory => do
      let length ← u32TryFrom value.toByteArray.size
      let (destination, memory) ← memory.allocate cabiRealloc length
      let memory := memory.write destination value.toByteArray.toList
      pure ([.i32 (BitVec.ofNat 32 destination), .i32 (BitVec.ofNat 32 length)], memory)
  | _, _, _ => .error (.panic "unreachable")

/-- `WitStore::lower` of `HNil` and `HCons`: the head's flat values, then the tail's. -/
def lowerList : WitList → WitValues → Memory → Except WitError (List FlatValue × Memory)
  | .hnil, .nil, memory => .ok ([], memory)
  | .hcons headType tailTypes, .cons head tail, memory => do
      let (headFlat, memory) ← lower headType head memory
      let (tailFlat, memory) ← lowerList tailTypes tail memory
      pure (headFlat ++ tailFlat, memory)
  | _, _, _ => .error (.panic "unreachable")

end

mutual

/-- `WitLoad::lift_from`. The integers narrower than 32 bits are truncated by `as`; a
128-bit integer is its high bits followed by its low bits. -/
def lift : WitType → List FlatValue → Memory → Except WitError WitValue
  | .bool, [.i32 value], _ => .ok (.bool (value != 0))
  | .u8, [.i32 value], _ => .ok (.u8 (value.setWidth 8))
  | .i8, [.i32 value], _ => .ok (.i8 (value.setWidth 8))
  | .u16, [.i32 value], _ => .ok (.u16 (value.setWidth 16))
  | .i16, [.i32 value], _ => .ok (.i16 (value.setWidth 16))
  | .u32, [.i32 value], _ => .ok (.u32 value)
  | .i32, [.i32 value], _ => .ok (.i32 value)
  | .u64, [.i64 value], _ => .ok (.u64 value)
  | .i64, [.i64 value], _ => .ok (.i64 value)
  | .u128, [.i64 least, .i64 most], _ => .ok (.u128 (most ++ least))
  | .i128, [.i64 least, .i64 most], _ => .ok (.i128 (most ++ least))
  | .option inner, .i32 isSome :: valueLayout, memory =>
      if isSome != 0 then do
        let flat ← fromJoined valueLayout inner.flatLayout
        WitValue.some <$> lift inner flat memory
      else .ok .none
  | .result ok err, .i32 isErr :: valueLayout, memory =>
      if isErr != 0 then do
        let flat ← fromJoined valueLayout err.flatLayout
        WitValue.err <$> lift err flat memory
      else do
        let flat ← fromJoined valueLayout ok.flatLayout
        WitValue.ok <$> lift ok flat memory
  | .hlist types, flat, memory => WitValue.hlist <$> liftList types flat memory
  | .vec element, [.i32 address, .i32 length], memory => do
      let address ← i32TryIntoU32 address
      WitValue.vec <$> loadElements (load element memory) element address length.toNat 0
  | .string, [.i32 address, .i32 length], memory => do
      let address ← i32TryIntoU32 address
      loadString memory address length.toNat
  | _, _, _ => .error (.panic "unreachable")

/-- `WitLoad::lift_from` of `HNil` and `HCons`: the head from the first flat values, the
tail from the rest. -/
def liftList : WitList → List FlatValue → Memory → Except WitError WitValues
  | .hnil, [], _ => .ok .nil
  | .hcons headType tailTypes, flat, memory => do
      let head ← lift headType (flat.take headType.flatLayout.length) memory
      let tail ← liftList tailTypes (flat.drop headType.flatLayout.length) memory
      pure (.cons head tail)
  | _, _, _ => .error (.panic "unreachable")

end

end Linera.Witty
