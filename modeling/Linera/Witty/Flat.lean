import Mathlib
import Linera.Lib.Except

set_option autoImplicit false

/-! Flat types and their joins (`linera-witty/src/primitive_types/flat_type.rs`,
`join_flat_types.rs` and `memory_layout/join_flat_layouts.rs`).

A value crosses the host-guest boundary as a list of flat values, `i32` or `i64`. A
variant (`Option`, `Result`) has one flat layout for all its cases: element by element,
the join of the cases' flat types, `i64` as soon as one of them is. A case's flat values
are joined into that layout, an `i32` into an `i64` by zero extension, and split back out
of it with `split_into`, which reads an `i32` back from an `i64` with a checked
conversion. So an `i32` joined into an `i64` comes back only when it is not negative
(`splitInto_joinInto`); a negative one panics.

The float flat types are left out: no type of the model flattens to them. -/

namespace Linera.Witty

/-- `RuntimeError`, the errors that loading, storing, lowering and lifting return. -/
inductive RuntimeError where
  /-- Attempt to allocate a buffer larger than `i32::MAX`. -/
  | allocationTooLarge
  /-- Call to `cabi_realloc` returned a negative value instead of a valid address. -/
  | allocationFailed
  /-- Attempt to load a string from a sequence of bytes that doesn't contain a UTF-8 string. -/
  | invalidString
  /-- Attempt to create a `GuestPointer` from an invalid address representation. -/
  | invalidNumber
  deriving DecidableEq, Repr

/-- How a call ends when it does not return its value: an error, or a panic with its
message. -/
inductive WitError where
  | runtimeError (error : RuntimeError)
  | panic (message : String)
  deriving DecidableEq, Repr

/-- The flat types that the model's types flatten to. -/
inductive FlatType where
  | i32
  | i64
  deriving DecidableEq, Repr

/-- A flat value, as its bits. -/
inductive FlatValue where
  | i32 (value : BitVec 32)
  | i64 (value : BitVec 64)
  deriving DecidableEq, Repr

namespace FlatValue

def type : FlatValue → FlatType
  | .i32 _ => .i32
  | .i64 _ => .i64

@[simp] theorem type_i32 (value : BitVec 32) : (FlatValue.i32 value).type = .i32 := rfl

@[simp] theorem type_i64 (value : BitVec 64) : (FlatValue.i64 value).type = .i64 := rfl

end FlatValue

namespace FlatType

def default : FlatType → FlatValue
  | .i32 => .i32 0
  | .i64 => .i64 0

/-- The flat type of `JoinFlatTypes for Either<left, right>`. -/
def join : FlatType → FlatType → FlatType
  | .i32, .i32 => .i32
  | _, _ => .i64

@[simp] theorem type_default (flat : FlatType) : flat.default.type = flat := by
  cases flat <;> rfl

end FlatType

/-- `ZeroExtend<i64> for i32`: `self as u32 as u64 as i64`. -/
def zeroExtend (value : BitVec 32) : BitVec 64 := value.setWidth 64

/-- `i32::try_from(i64)`: the value, when it is in the range of `i32`. -/
def tryIntoI32 (value : BitVec 64) : Option (BitVec 32) :=
  if -2 ^ 31 ≤ value.toInt ∧ value.toInt < 2 ^ 31 then some (value.setWidth 32) else none

namespace FlatValue

/-- `Either::Left(value).join()` for `Either<Self, target>`. -/
def joinInto (target : FlatType) : FlatValue → FlatValue
  | .i32 value =>
      match target with
      | .i32 => .i32 value
      | .i64 => .i64 (zeroExtend value)
  | .i64 value => .i64 value

def splitInto (target : FlatType) : FlatValue → Except WitError FlatValue
  | .i32 value =>
      match target with
      -- `i32::split_from_i32`
      | .i32 => .ok (.i32 value)
      -- `i64::split_from_i32`
      | .i64 => .error (.panic "`i64` is never joined into `i32`")
  | .i64 value =>
      match target with
      -- `i32::split_from_i64`
      | .i32 =>
          match tryIntoI32 value with
          | some value => .ok (.i32 value)
          | none => .error (.panic "Invalid `i32` stored in `i64`")
      -- `i64::split_from_i64`
      | .i64 => .ok (.i64 value)

/-- Whether the value comes back out of its join into `target`: all do, but a negative
`i32` joined into an `i64`. -/
def joinsExactly (target : FlatType) : FlatValue → Bool
  | .i32 value => target = .i32 || !value.msb
  | .i64 _ => true

end FlatValue

theorem tryIntoI32_zeroExtend (value : BitVec 32) :
    tryIntoI32 (zeroExtend value) = if value.msb then none else some value := by
  have below : value.toNat < 2 ^ 32 := value.isLt
  have small : ((value.toNat : Int).bmod (2 ^ 64)) = value.toNat := by
    apply Int.bmod_eq_of_le <;> omega
  unfold tryIntoI32 zeroExtend
  rw [BitVec.toInt_setWidth, small, BitVec.msb_eq_decide]
  by_cases negative : 2 ^ 31 ≤ value.toNat
  · rw [if_neg (by omega), decide_eq_true negative, if_pos rfl]
  · rw [if_pos (by omega), decide_eq_false negative, if_neg Bool.false_ne_true,
      BitVec.setWidth_setWidth_of_le _ (by omega), BitVec.setWidth_eq]

/-- Splitting a value back out of its join: the value itself, or the panic of a negative
`i32` that was zero-extended into an `i64`. -/
theorem splitInto_joinInto (value : FlatValue) (target : FlatType) :
    (value.joinInto target).splitInto value.type =
      if value.joinsExactly target then .ok value
      else .error (.panic "Invalid `i32` stored in `i64`") := by
  cases value with
  | i64 value => rfl
  | i32 value =>
      cases target with
      | i32 => rfl
      | i64 =>
          simp only [FlatValue.joinInto, FlatValue.splitInto, FlatValue.type,
            FlatValue.joinsExactly, tryIntoI32_zeroExtend]
          by_cases negative : value.msb = true <;> simp [negative]

/-- `Merge` of two layouts, flattened: element by element the join, and the longer
layout's further elements. -/
def mergeLayouts : List FlatType → List FlatType → List FlatType
  | left :: lefts, right :: rights => left.join right :: mergeLayouts lefts rights
  | [], rights => rights
  | lefts, [] => lefts

/-- `JoinFlatLayouts::into_joined`: each value joined into the target's element, and the
target's further elements at their default. -/
def intoJoined : List FlatValue → List FlatType → List FlatValue
  | value :: values, target :: targets => value.joinInto target :: intoJoined values targets
  | [], targets => targets.map FlatType.default
  -- No implementation joins a longer layout into a shorter one.
  | _ :: _, [] => []

/-- `JoinFlatLayouts::from_joined` into the layout `sources`: each element split into the
source's, and the further elements dropped. -/
def fromJoined : List FlatValue → List FlatType → Except WitError (List FlatValue)
  | _, [] => .ok []
  | joined :: rest, source :: sources => do
      let head ← joined.splitInto source
      let tail ← fromJoined rest sources
      pure (head :: tail)
  -- No implementation splits a shorter layout into a longer one.
  | [], _ :: _ => .error (.panic "unreachable")

/-- A layout joins into a target when it is no longer and each of its elements joins into
the target's. -/
def joinsInto : List FlatType → List FlatType → Bool
  | source :: sources, target :: targets => source.join target = target && joinsInto sources targets
  | [], _ => true
  | _ :: _, [] => false

@[simp] theorem mergeLayouts_nil_right (lefts : List FlatType) : mergeLayouts lefts [] = lefts := by
  cases lefts <;> rfl

theorem joinsInto_self : ∀ layout : List FlatType, joinsInto layout layout = true
  | [] => rfl
  | flat :: layout => by
      have rest := joinsInto_self layout
      cases flat <;> simp [joinsInto, FlatType.join, rest]

theorem joinsInto_mergeLayouts_left :
    ∀ lefts rights : List FlatType, joinsInto lefts (mergeLayouts lefts rights) = true
  | left :: lefts, right :: rights => by
      have rest := joinsInto_mergeLayouts_left lefts rights
      cases left <;> cases right <;> simp [joinsInto, mergeLayouts, FlatType.join, rest]
  | [], _ => rfl
  | left :: lefts, [] => by rw [mergeLayouts_nil_right]; exact joinsInto_self _

theorem joinsInto_mergeLayouts_right :
    ∀ lefts rights : List FlatType, joinsInto rights (mergeLayouts lefts rights) = true
  | left :: lefts, right :: rights => by
      have rest := joinsInto_mergeLayouts_right lefts rights
      cases left <;> cases right <;> simp [joinsInto, mergeLayouts, FlatType.join, rest]
  | [], rights => joinsInto_self rights
  | _ :: _, [] => rfl

/-- Whether every value comes back out of its join into the target layout. -/
def joinsExactly (values : List FlatValue) (targets : List FlatType) : Bool :=
  (values.zip targets).all fun pair => pair.1.joinsExactly pair.2

@[simp] theorem joinsExactly_nil_left (targets : List FlatType) : joinsExactly [] targets = true := rfl

@[simp] theorem joinsExactly_cons (value : FlatValue) (values : List FlatValue) (target : FlatType)
    (targets : List FlatType) :
    joinsExactly (value :: values) (target :: targets) =
      (value.joinsExactly target && joinsExactly values targets) := rfl

/-- Splitting a layout back out of its join: the values, or a panic when one of them is a
negative `i32` joined into an `i64`. -/
theorem fromJoined_intoJoined : ∀ (values : List FlatValue) (targets : List FlatType),
    values.length ≤ targets.length →
    fromJoined (intoJoined values targets) (values.map FlatValue.type) =
      if joinsExactly values targets then .ok values
      else .error (.panic "Invalid `i32` stored in `i64`")
  | [], targets, _ => by cases targets <;> rfl
  | value :: values, target :: targets, longer => by
      have rest := fromJoined_intoJoined values targets (by simpa using longer)
      simp only [intoJoined, List.map_cons, fromJoined, splitInto_joinInto, joinsExactly,
        List.zip_cons_cons, List.all_cons]
      simp only [joinsExactly] at rest
      by_cases exact : value.joinsExactly target = true
      · rw [if_pos exact, Except.ok_bind, rest]
        simp only [exact, Bool.true_and]
        by_cases restExact : ((values.zip targets).all fun pair => pair.1.joinsExactly pair.2) = true
        · simp [restExact]
        · simp [restExact]
      · rw [if_neg exact, Except.error_bind]
        simp only [exact, Bool.false_and]
        rfl
  | _ :: _, [], longer => by simp at longer

theorem type_joinInto (value : FlatValue) (target : FlatType) (joins : value.type.join target = target) :
    (value.joinInto target).type = target := by
  cases value <;> cases target <;> first | rfl | cases joins

theorem length_le_of_joinsInto :
    ∀ {sources targets : List FlatType}, joinsInto sources targets = true →
      sources.length ≤ targets.length
  | [], _, _ => Nat.zero_le _
  | _ :: sources, _ :: targets, joins => by
      simp only [joinsInto, Bool.and_eq_true] at joins
      simpa using length_le_of_joinsInto joins.2
  | _ :: _, [], joins => by cases joins

theorem map_type_intoJoined :
    ∀ (values : List FlatValue) (targets : List FlatType),
      joinsInto (values.map FlatValue.type) targets = true →
      (intoJoined values targets).map FlatValue.type = targets
  | [], targets, _ => by simp [intoJoined, Function.comp_def]
  | value :: values, target :: targets, joins => by
      simp only [List.map_cons, joinsInto, decide_eq_true_eq, Bool.and_eq_true] at joins
      simp only [intoJoined, List.map_cons, type_joinInto _ _ joins.1,
        map_type_intoJoined values targets joins.2]
  | _ :: _, [], joins => by cases joins

theorem joinsExactly_self : ∀ values : List FlatValue, joinsExactly values (values.map FlatValue.type) = true
  | [] => rfl
  | value :: values => by
      have rest := joinsExactly_self values
      cases value <;> simp [FlatValue.joinsExactly, FlatValue.type, rest]

/-- The two layouts have the same flat type wherever both have one. -/
def layoutsAgree : List FlatType → List FlatType → Bool
  | left :: lefts, right :: rights => left == right && layoutsAgree lefts rights
  | _, _ => true

theorem joinsExactly_mergeLayouts_left :
    ∀ (values : List FlatValue) (rights : List FlatType),
      layoutsAgree (values.map FlatValue.type) rights = true →
      joinsExactly values (mergeLayouts (values.map FlatValue.type) rights) = true
  | [], _, _ => rfl
  | value :: values, right :: rights, agree => by
      simp only [List.map_cons, layoutsAgree, Bool.and_eq_true, beq_iff_eq] at agree
      have rest := joinsExactly_mergeLayouts_left values rights agree.2
      rw [← agree.1]
      cases value <;> simp [FlatValue.joinsExactly, FlatValue.type, mergeLayouts, FlatType.join,
        rest]
  | value :: values, [], _ => by
      rw [mergeLayouts_nil_right]
      exact joinsExactly_self _

theorem joinsExactly_mergeLayouts_right :
    ∀ (lefts : List FlatType) (values : List FlatValue),
      layoutsAgree lefts (values.map FlatValue.type) = true →
      joinsExactly values (mergeLayouts lefts (values.map FlatValue.type)) = true
  | _, [], _ => rfl
  | left :: lefts, value :: values, agree => by
      simp only [List.map_cons, layoutsAgree, Bool.and_eq_true, beq_iff_eq] at agree
      have rest := joinsExactly_mergeLayouts_right lefts values agree.2
      rw [agree.1]
      cases value <;> simp [FlatValue.joinsExactly, FlatValue.type, mergeLayouts, FlatType.join,
        rest]
  | [], values, _ => joinsExactly_self values

end Linera.Witty
