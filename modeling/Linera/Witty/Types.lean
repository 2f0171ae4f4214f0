import Linera.Witty.Flat

set_option autoImplicit false

/-! The types with the hand-written `WitType` instances, their sizes, alignments and flat
layouts (`linera-witty/src/type_traits/implementations`, `memory_layout` and
`primitive_types/simple_type.rs`).

A type is an integer, `bool`, `Option`, `Result`, a heterogeneous list (a tuple is one),
`Vec` or `String`. Its `SIZE` and the `ALIGNMENT` of its layout decide where its parts go
in memory; the size of a list is computed for a start at offset 0 of an 8-byte window,
each element padded to its own alignment. Its flat layout is the list of flat types it
lowers to: a variant has a discriminant, then the merge of its cases' layouts. -/

namespace Linera.Witty

mutual

/-- A type with a hand-written `WitType` instance. -/
inductive WitType where
  | bool
  | u8
  | i8
  | u16
  | i16
  | u32
  | i32
  | u64
  | i64
  | u128
  | i128
  | option (inner : WitType)
  | result (ok err : WitType)
  /-- A heterogeneous list; a tuple is one. -/
  | hlist (elements : WitList)
  | vec (element : WitType)
  | string

/-- The types of the elements of a heterogeneous list: `HNil` or `HCons`. -/
inductive WitList where
  | hnil
  | hcons (head : WitType) (tail : WitList)

end

deriving instance DecidableEq, Repr for WitType, WitList

mutual

/-- A value of one of these types. -/
inductive WitValue where
  | bool (value : Bool)
  | u8 (value : BitVec 8)
  | i8 (value : BitVec 8)
  | u16 (value : BitVec 16)
  | i16 (value : BitVec 16)
  | u32 (value : BitVec 32)
  | i32 (value : BitVec 32)
  | u64 (value : BitVec 64)
  | i64 (value : BitVec 64)
  | u128 (value : BitVec 128)
  | i128 (value : BitVec 128)
  | none
  | some (value : WitValue)
  | ok (value : WitValue)
  | err (value : WitValue)
  | hlist (elements : WitValues)
  | vec (elements : WitValues)
  | string (value : String)

/-- The elements of a heterogeneous list or of a `Vec`, in order. -/
inductive WitValues where
  | nil
  | cons (head : WitValue) (tail : WitValues)

end

deriving instance DecidableEq for WitValue, WitValues

/-- `GuestPointer::aligned_at`: the address, padded up to the alignment boundary. The
source computes the padding as `-address & (alignment - 1)`, which is this for the powers
of two that alignments are. -/
def alignedAt (address alignment : Nat) : Nat :=
  address + (alignment - address % alignment) % alignment

mutual

/-- `<Self::Layout as Layout>::ALIGNMENT`: the largest alignment of its layout's
elements. -/
def WitType.alignment : WitType → Nat
  | .bool | .u8 | .i8 => 1
  | .u16 | .i16 => 2
  | .u32 | .i32 => 4
  | .u64 | .i64 | .u128 | .i128 => 8
  | .option inner => max 1 inner.alignment
  | .result ok err => max 1 (max ok.alignment err.alignment)
  | .hlist elements => elements.alignment
  | .vec _ | .string => 4

/-- The alignment of a list's layout, the largest of its elements'. -/
def WitList.alignment : WitList → Nat
  | .hnil => 1
  | .hcons head tail => max head.alignment tail.alignment

end

/-- The alignment of `Tail::FirstElement`: of the list's head, or of `()` for `HNil`. -/
def WitList.firstAlignment : WitList → Nat
  | .hcons head _ => head.alignment
  | .hnil => 1

mutual

def WitType.size : WitType → Nat
  | .bool | .u8 | .i8 => 1
  | .u16 | .i16 => 2
  | .u32 | .i32 => 4
  | .u64 | .i64 => 8
  | .u128 | .i128 => 16
  | .option inner => 1 + (inner.alignment - 1) + inner.size
  | .result ok err => 1 + (max ok.alignment err.alignment - 1) + max ok.size err.size
  | .hlist elements => elements.sizeAt 0
  | .vec _ | .string => 8

/-- `SIZE_STARTING_AT_BYTE_BOUNDARIES[offset]`: the size of the list when it starts at
this offset in an 8-byte window, each element padded to its alignment. -/
def WitList.sizeAt : WitList → Nat → Nat
  | .hnil, _ => 0
  | .hcons head tail, offset =>
      let location := alignedAt offset head.alignment + head.size
      location - offset + tail.sizeAt (location % 8)

end

/-- The distance between the elements of a `Vec`: `GuestPointer::index` pads the size to
the alignment. -/
def WitType.elementSize (element : WitType) : Nat := alignedAt element.size element.alignment

mutual

/-- The flat layout: the flat types the type lowers to. -/
def WitType.flatLayout : WitType → List FlatType
  | .bool | .u8 | .i8 | .u16 | .i16 | .u32 | .i32 => [.i32]
  | .u64 | .i64 => [.i64]
  | .u128 | .i128 => [.i64, .i64]
  | .option inner => .i32 :: inner.flatLayout
  | .result ok err => .i32 :: mergeLayouts ok.flatLayout err.flatLayout
  | .hlist elements => elements.flatLayout
  | .vec _ | .string => [.i32, .i32]

/-- The flat layout of a list: its elements' one after the other. -/
def WitList.flatLayout : WitList → List FlatType
  | .hnil => []
  | .hcons head tail => head.flatLayout ++ tail.flatLayout

end

mutual

/-- A value of a type. -/
inductive HasType : WitValue → WitType → Prop
  | bool (value : Bool) : HasType (.bool value) .bool
  | u8 (value : BitVec 8) : HasType (.u8 value) .u8
  | i8 (value : BitVec 8) : HasType (.i8 value) .i8
  | u16 (value : BitVec 16) : HasType (.u16 value) .u16
  | i16 (value : BitVec 16) : HasType (.i16 value) .i16
  | u32 (value : BitVec 32) : HasType (.u32 value) .u32
  | i32 (value : BitVec 32) : HasType (.i32 value) .i32
  | u64 (value : BitVec 64) : HasType (.u64 value) .u64
  | i64 (value : BitVec 64) : HasType (.i64 value) .i64
  | u128 (value : BitVec 128) : HasType (.u128 value) .u128
  | i128 (value : BitVec 128) : HasType (.i128 value) .i128
  | none (inner : WitType) : HasType .none (.option inner)
  | some {value : WitValue} {inner : WitType} :
      HasType value inner → HasType (.some value) (.option inner)
  | ok {value : WitValue} {ok : WitType} (err : WitType) :
      HasType value ok → HasType (.ok value) (.result ok err)
  | err {value : WitValue} (ok : WitType) {err : WitType} :
      HasType value err → HasType (.err value) (.result ok err)
  | hlist {elements : WitValues} {types : WitList} :
      HasTypes elements types → HasType (.hlist elements) (.hlist types)
  | vec {elements : WitValues} {element : WitType} :
      AllHaveType elements element → HasType (.vec elements) (.vec element)
  | string (value : String) : HasType (.string value) .string

/-- The elements of a heterogeneous list, of its element types. -/
inductive HasTypes : WitValues → WitList → Prop
  | nil : HasTypes .nil .hnil
  | cons {head : WitValue} {tail : WitValues} {headType : WitType} {tailTypes : WitList} :
      HasType head headType → HasTypes tail tailTypes →
        HasTypes (.cons head tail) (.hcons headType tailTypes)

/-- The elements of a `Vec`, all of its element type. -/
inductive AllHaveType : WitValues → WitType → Prop
  | nil (element : WitType) : AllHaveType .nil element
  | cons {head : WitValue} {tail : WitValues} {element : WitType} :
      HasType head element → AllHaveType tail element → AllHaveType (.cons head tail) element

end

end Linera.Witty
