import Linera.Witty.Codec

set_option autoImplicit false

/-! Lifting what was lowered, `lift_from` after `lower`, for the types that lower without
memory: the integers, `bool`, `Option`, `Result` and the heterogeneous lists of them.

Lowering such a value keeps the memory and gives flat values of the type's flat layout.
Lifting them gives the value back, with one exception. A `Result` whose cases have an `i32`
and an `i64` at the same place of their flat layouts joins the `i32` into an `i64` by zero
extension, and `split_into` reads it back with a checked conversion, which panics when the
`i32` is negative (`lower_lift_of_memoryFree`). So `Ok(-1)` of a `Result<i16, u128>` panics
(`lift_lower_negative_ok_panics`), and so does `Ok(u32::MAX)` of a `Result<u32, u64>`.
When no `Result` of the type widens an `i32` (`keepsI32`), every value comes back
(`lift_lower_of_keepsI32`). -/

namespace Linera.Witty

mutual

/-- The type lowers without memory: it holds no `Vec` and no `String`. -/
def WitType.memoryFree : WitType → Bool
  | .option inner => inner.memoryFree
  | .result ok err => ok.memoryFree && err.memoryFree
  | .hlist elements => elements.memoryFree
  | .vec _ | .string => false
  | _ => true

def WitList.memoryFree : WitList → Bool
  | .hnil => true
  | .hcons head tail => head.memoryFree && tail.memoryFree

end

mutual

/-- No `Result` of the type has an `i32` in one case where the other case has an `i64`, so
no payload's `i32` is joined into an `i64`. -/
def WitType.keepsI32 : WitType → Bool
  | .option inner => inner.keepsI32
  | .result ok err => ok.keepsI32 && err.keepsI32 && layoutsAgree ok.flatLayout err.flatLayout
  | .hlist elements => elements.keepsI32
  | _ => true

def WitList.keepsI32 : WitList → Bool
  | .hnil => true
  | .hcons head tail => head.keepsI32 && tail.keepsI32

end

/-- What lifting gives from any memory: the value, or the panic of a negative `i32` split
out of an `i64`, when the type widens one. -/
def LiftsBack {α : Type} (lifted : Memory → Except WitError α) (value : α) (keeps : Bool) : Prop :=
  ∀ memory, lifted memory = .ok value ∨
    (keeps = false ∧ lifted memory = .error (.panic "Invalid `i32` stored in `i64`"))

namespace LiftsBack

variable {α β : Type} {lifted : Memory → Except WitError α} {value : α} {keeps : Bool}

theorem of_ok (back : ∀ memory, lifted memory = .ok value) : LiftsBack lifted value keeps :=
  fun memory => .inl (back memory)

theorem map (back : LiftsBack lifted value keeps) (f : α → β) :
    LiftsBack (fun memory => f <$> lifted memory) (f value) keeps := by
  intro memory
  show f <$> lifted memory = _ ∨ (_ ∧ f <$> lifted memory = _)
  rcases back memory with lifts | ⟨widens, panics⟩
  · exact .inl (by rw [lifts]; rfl)
  · exact .inr ⟨widens, by rw [panics]; rfl⟩

theorem weaken {keeps' : Bool} (back : LiftsBack lifted value keeps)
    (narrower : keeps' = true → keeps = true) : LiftsBack lifted value keeps' := by
  intro memory
  rcases back memory with lifts | ⟨widens, panics⟩
  · exact .inl lifts
  · refine .inr ⟨?_, panics⟩
    cases keeps'
    · rfl
    · rw [narrower rfl] at widens
      cases widens

theorem cons {γ : Type} {liftedTail : Memory → Except WitError β} {tailValue : β}
    {keepsTail : Bool} (head : LiftsBack lifted value keeps)
    (tail : LiftsBack liftedTail tailValue keepsTail) (f : α → β → γ) :
    LiftsBack (fun memory => do
        let first ← lifted memory
        let rest ← liftedTail memory
        pure (f first rest))
      (f value tailValue) (keeps && keepsTail) := by
  intro memory
  rcases head memory with headLifts | ⟨widens, panics⟩
  · rcases tail memory with tailLifts | ⟨tailWidens, tailPanics⟩
    · exact .inl (by simp only [headLifts, tailLifts]; rfl)
    · refine .inr ⟨by simp [tailWidens], ?_⟩
      simp only [headLifts, tailPanics]
      rfl
  · refine .inr ⟨by simp [widens], ?_⟩
    simp only [panics]
    rfl

end LiftsBack

/-- A payload joined into a layout that its own joins into splits back out, and then lifts
back into a case of the variant, unless an `i32` of it was widened: then the split
panics. -/
theorem liftsBack_fromJoined {inner : WitType} {flat : List FlatValue} {value : WitValue}
    {target : List FlatType} (types : flat.map FlatValue.type = inner.flatLayout)
    (joins : joinsInto inner.flatLayout target = true)
    (back : LiftsBack (lift inner flat) value inner.keepsI32) (case : WitValue → WitValue) :
    LiftsBack (fun memory => do
        let split ← fromJoined (intoJoined flat target) inner.flatLayout
        case <$> lift inner split memory)
      (case value) (inner.keepsI32 && joinsExactly flat target) := by
  have longer : flat.length ≤ target.length := by
    have bound := length_le_of_joinsInto (types ▸ joins)
    rwa [List.length_map] at bound
  have split := fromJoined_intoJoined flat target longer
  rw [types] at split
  intro memory
  by_cases exact : joinsExactly flat target = true
  · rw [if_pos exact] at split
    rcases back memory with lifts | ⟨widens, panics⟩
    · exact .inl (by simp only [split, Except.ok_bind, lifts]; rfl)
    · exact .inr ⟨by simp [widens], by simp only [split, Except.ok_bind, panics]; rfl⟩
  · rw [if_neg exact] at split
    refine .inr ⟨by simp [exact], ?_⟩
    simp only [split]
    rfl

theorem setWidth_setWidth_self {width : Nat} (value : BitVec width) (wider : Nat)
    (widens : width ≤ wider) : (value.setWidth wider).setWidth width = value := by
  rw [BitVec.setWidth_setWidth_of_le _ widens, BitVec.setWidth_eq]

theorem setWidth_signExtend {width : Nat} (value : BitVec width) (wider : Nat)
    (widens : width ≤ wider) : (value.signExtend wider).setWidth width = value := by
  apply BitVec.eq_of_getLsbD_eq
  intro index below
  have inside : index < wider := by omega
  simp only [BitVec.getLsbD_setWidth, BitVec.getLsbD_signExtend, below, inside, decide_true,
    Bool.true_and, if_true]

theorem append_high_low (value : BitVec 128) :
    (value >>> 64).setWidth 64 ++ value.setWidth 64 = value := by
  apply BitVec.eq_of_getLsbD_eq
  intro index below
  rw [BitVec.getLsbD_append]
  by_cases low : index < 64
  · simp only [low, if_true, BitVec.getLsbD_setWidth, decide_true, Bool.true_and]
  · have high : index - 64 < 64 := by omega
    have shifted : 64 + (index - 64) = index := by omega
    simp only [low, if_false, BitVec.getLsbD_setWidth, high, decide_true, Bool.true_and,
      BitVec.getLsbD_ushiftRight, shifted]

/-- What lowering a memory-free value does: it keeps the memory and gives flat values of the
type's layout, which lift back. -/
def LowersBack (lowered : Except WitError (List FlatValue × Memory)) (memory : Memory)
    (layout : List FlatType) {α : Type} (lifted : List FlatValue → Memory → Except WitError α)
    (value : α) (keeps : Bool) : Prop :=
  ∃ flat, lowered = .ok (flat, memory) ∧ flat.map FlatValue.type = layout ∧
    LiftsBack (lifted flat) value keeps

variable (cabiRealloc : CabiRealloc)

theorem lowersBack_of_scalar {type : WitType} {value : WitValue} {flat : List FlatValue}
    {memory : Memory} (lowered : lower cabiRealloc type value memory = .ok (flat, memory))
    (types : flat.map FlatValue.type = type.flatLayout)
    (lifts : ∀ other, lift type flat other = .ok value) :
    LowersBack (lower cabiRealloc type value memory) memory type.flatLayout (lift type) value
      type.keepsI32 :=
  ⟨flat, lowered, types, .of_ok lifts⟩

mutual

theorem lower_lift_of_memoryFree : ∀ (type : WitType) (value : WitValue), HasType value type →
    type.memoryFree = true → ∀ memory,
    LowersBack (lower cabiRealloc type value memory) memory type.flatLayout (lift type) value
      type.keepsI32
  | .bool, _, .bool value, _, _ =>
      lowersBack_of_scalar cabiRealloc rfl rfl fun _ => by cases value <;> rfl
  | .u8, _, .u8 value, _, _ | .u16, _, .u16 value, _, _ =>
      lowersBack_of_scalar cabiRealloc rfl rfl fun _ => by
        show Except.ok _ = _
        rw [setWidth_setWidth_self value 32 (by decide)]
  | .i8, _, .i8 value, _, _ | .i16, _, .i16 value, _, _ =>
      lowersBack_of_scalar cabiRealloc rfl rfl fun _ => by
        show Except.ok _ = _
        rw [setWidth_signExtend value 32 (by decide)]
  | .u32, _, .u32 _, _, _ | .i32, _, .i32 _, _, _ | .u64, _, .u64 _, _, _
  | .i64, _, .i64 _, _, _ =>
      lowersBack_of_scalar cabiRealloc rfl rfl fun _ => rfl
  | .u128, _, .u128 value, _, _ | .i128, _, .i128 value, _, _ =>
      lowersBack_of_scalar cabiRealloc rfl rfl fun _ => by
        show Except.ok _ = _
        rw [append_high_low]
  | .option inner, _, .none _, _, _ =>
      ⟨_, rfl, by simp [WitType.flatLayout, Function.comp_def], .of_ok fun _ => rfl⟩
  | .option inner, _, .some typed, free, memory => by
      obtain ⟨flat, lowered, types, back⟩ := lower_lift_of_memoryFree inner _ typed free memory
      have joins : joinsInto inner.flatLayout inner.flatLayout = true := joinsInto_self _
      refine ⟨.i32 1 :: intoJoined flat inner.flatLayout, ?_, ?_, ?_⟩
      · show (lower cabiRealloc _ _ memory >>= _) = _
        rw [lowered]
        rfl
      · rw [List.map_cons, map_type_intoJoined _ _ (types ▸ joins)]
        rfl
      · -- The payload is joined into its own layout: the split is exact.
        have exact : joinsExactly flat inner.flatLayout = true := types ▸ joinsExactly_self flat
        have payload := liftsBack_fromJoined types joins back WitValue.some
        rw [exact, Bool.and_true] at payload
        exact payload
  | .result ok err, _, .ok _ typed, free, memory => by
      have frees : ok.memoryFree = true ∧ err.memoryFree = true := Bool.and_eq_true_iff.mp free
      obtain ⟨flat, lowered, types, back⟩ := lower_lift_of_memoryFree ok _ typed frees.1 memory
      have joins := joinsInto_mergeLayouts_left ok.flatLayout err.flatLayout
      refine ⟨.i32 0 :: intoJoined flat (mergeLayouts ok.flatLayout err.flatLayout), ?_, ?_, ?_⟩
      · show (lower cabiRealloc _ _ memory >>= _) = _
        rw [lowered]
        rfl
      · rw [List.map_cons, map_type_intoJoined _ _ (types ▸ joins)]
        rfl
      · refine (liftsBack_fromJoined types joins back WitValue.ok).weaken ?_
        intro keeps
        obtain ⟨both, agree⟩ := Bool.and_eq_true_iff.mp keeps
        have exact := joinsExactly_mergeLayouts_left flat err.flatLayout (types ▸ agree)
        rw [types] at exact
        simp [(Bool.and_eq_true_iff.mp both).1, exact]
  | .result ok err, _, .err _ typed, free, memory => by
      have frees : ok.memoryFree = true ∧ err.memoryFree = true := Bool.and_eq_true_iff.mp free
      obtain ⟨flat, lowered, types, back⟩ := lower_lift_of_memoryFree err _ typed frees.2 memory
      have joins := joinsInto_mergeLayouts_right ok.flatLayout err.flatLayout
      refine ⟨.i32 1 :: intoJoined flat (mergeLayouts ok.flatLayout err.flatLayout), ?_, ?_, ?_⟩
      · show (lower cabiRealloc _ _ memory >>= _) = _
        rw [lowered]
        rfl
      · rw [List.map_cons, map_type_intoJoined _ _ (types ▸ joins)]
        rfl
      · refine (liftsBack_fromJoined types joins back WitValue.err).weaken ?_
        intro keeps
        obtain ⟨both, agree⟩ := Bool.and_eq_true_iff.mp keeps
        have exact := joinsExactly_mergeLayouts_right ok.flatLayout flat (types ▸ agree)
        rw [types] at exact
        simp [(Bool.and_eq_true_iff.mp both).2, exact]
  | .hlist types, _, .hlist typed, free, memory => by
      obtain ⟨flat, lowered, layout, back⟩ :=
        lowerList_liftList_of_memoryFree types _ typed free memory
      exact ⟨flat, lowered, layout, back.map WitValue.hlist⟩

theorem lowerList_liftList_of_memoryFree : ∀ (types : WitList) (values : WitValues),
    HasTypes values types → types.memoryFree = true → ∀ memory,
    LowersBack (lowerList cabiRealloc types values memory) memory types.flatLayout
      (liftList types) values types.keepsI32
  | .hnil, _, .nil, _, _ => ⟨[], rfl, rfl, .of_ok fun _ => rfl⟩
  | .hcons headType tailTypes, _, .cons typedHead typedTail, free, memory => by
      have frees : headType.memoryFree = true ∧ tailTypes.memoryFree = true :=
        Bool.and_eq_true_iff.mp free
      obtain ⟨headFlat, headLowered, headLayout, headBack⟩ :=
        lower_lift_of_memoryFree headType _ typedHead frees.1 memory
      obtain ⟨tailFlat, tailLowered, tailLayout, tailBack⟩ :=
        lowerList_liftList_of_memoryFree tailTypes _ typedTail frees.2 memory
      have headLength : headFlat.length = headType.flatLayout.length := by
        rw [← headLayout, List.length_map]
      refine ⟨headFlat ++ tailFlat, ?_, ?_, ?_⟩
      · simp only [lowerList, headLowered, Except.ok_bind, tailLowered]
        rfl
      · rw [List.map_append, headLayout, tailLayout]
        rfl
      · -- `split` gives the head its own flat values back, and the tail the rest.
        have back := headBack.cons tailBack WitValues.cons
        intro memory
        simp only [liftList, List.take_left' headLength, List.drop_left' headLength]
        exact back memory

end

/-- A negative `i16` in `Ok` of a `Result<i16, u128>` is sign-extended to an `i32`, which is
zero-extended into the `i64` that the `u128` has at its place: lifting it back panics. -/
theorem lift_lower_negative_ok_panics (memory : Memory) :
    ((lower cabiRealloc (.result .i16 .u128) (.ok (.i16 (-1))) memory).bind fun lowered =>
      lift (.result .i16 .u128) lowered.1 lowered.2) =
    .error (.panic "Invalid `i32` stored in `i64`") := by
  rfl

example (memory : Memory) :
    ((lower cabiRealloc (.result .u32 .u64) (.ok (.u32 (-1))) memory).bind fun lowered =>
      lift (.result .u32 .u64) lowered.1 lowered.2) =
    .error (.panic "Invalid `i32` stored in `i64`") := by
  rfl

/-- With no `Result` that widens an `i32`, every memory-free value comes back. -/
theorem lift_lower_of_keepsI32 {type : WitType} {value : WitValue} (typed : HasType value type)
    (free : type.memoryFree = true) (keeps : type.keepsI32 = true) (memory : Memory) :
    ((lower cabiRealloc type value memory).bind fun lowered =>
      lift type lowered.1 lowered.2) = .ok value := by
  obtain ⟨flat, lowered, _, back⟩ :=
    lower_lift_of_memoryFree cabiRealloc type value typed free memory
  rw [lowered]
  rcases back memory with lifts | ⟨widens, _⟩
  · exact lifts
  · rw [keeps] at widens
    cases widens

/-- `Some(Ok(5))` of an `Option<Result<u32, u8>>` comes back: both payloads are `i32`s. -/
theorem lift_lower_of_keepsI32_of_some_ok :
    let type : WitType := .option (.result .u32 .u8)
    let value : WitValue := .some (.ok (.u32 5))
    HasType value type ∧ type.memoryFree = true ∧ type.keepsI32 = true ∧
      ((lower bumpAllocator type value ⟨fun _ => 0, []⟩).bind fun lowered =>
        lift type lowered.1 lowered.2) = .ok value := by
  intro type value
  have typed : HasType value type := .some (.ok .u8 (.u32 5))
  exact ⟨typed, rfl, rfl, lift_lower_of_keepsI32 bumpAllocator typed rfl rfl _⟩

end Linera.Witty
