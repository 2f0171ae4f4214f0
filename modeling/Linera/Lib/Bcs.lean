import Mathlib

set_option autoImplicit false

/-! BCS, the binary canonical serialization, for byte strings, sequences and pairs.

A sequence is written as its length in ULEB128 (seven bits a byte, the lowest first, every
byte but the last with its high bit set) and then its elements; a pair as its two parts one
after the other. A `Codec` holds an encoder and a decoder that reads an encoding back from
the front of any input, and the combinators keep that round trip, so that `fromBytes`, which
also asks that nothing follows the value, reads back what was encoded. The `length_encode`
lemmas give the size of an encoding from its parts: a writer that predicts the size of a
value before it serializes it adds up exactly these. -/

namespace Bcs

/-- The ULEB128 bytes of `n`. -/
def uleb128 (n : Nat) : List (Fin 256) :=
  if n < 128 then [Fin.ofNat 256 n] else Fin.ofNat 256 (n % 128 + 128) :: uleb128 (n / 128)
termination_by n
decreasing_by omega

/-- The number at the front of `bytes` in ULEB128, and the bytes after it. -/
def readUleb128 : List (Fin 256) → Option (Nat × List (Fin 256))
  | [] => none
  | byte :: rest =>
      if byte.val < 128 then some (byte.val, rest)
      else (readUleb128 rest).map fun (high, after) => (byte.val - 128 + 128 * high, after)

theorem readUleb128_uleb128 (n : Nat) (rest : List (Fin 256)) :
    readUleb128 (uleb128 n ++ rest) = some (n, rest) := by
  induction n using Nat.strongRecOn with
  | ind n ih =>
    rw [uleb128]
    by_cases small : n < 128
    · have byte : (Fin.ofNat 256 n).val = n := by simp only [Fin.val_ofNat]; omega
      simp only [List.singleton_append, readUleb128, byte, small, ite_true]
    · have byte : (Fin.ofNat 256 (n % 128 + 128)).val = n % 128 + 128 := by
        simp only [Fin.val_ofNat]; omega
      have high := ih (n / 128) (by omega)
      simp only [small, ite_false, List.cons_append, readUleb128, byte, high,
        show ¬ n % 128 + 128 < 128 by omega, Option.map_some]
      congr 2
      omega

theorem length_uleb128_pos (n : Nat) : 0 < (uleb128 n).length := by
  rw [uleb128]
  split <;> simp

theorem length_uleb128_le_iff (n : Nat) {width : Nat} (positive : 0 < width) :
    (uleb128 n).length ≤ width ↔ n < 128 ^ width := by
  induction n using Nat.strongRecOn generalizing width with
  | ind n ih =>
    have large : 128 ≤ 128 ^ width := Nat.le_self_pow (by omega) 128
    rw [uleb128]
    by_cases small : n < 128
    · simp only [small, ite_true, List.length_singleton]
      omega
    · obtain ⟨rest, rfl⟩ : ∃ rest, width = rest + 1 := ⟨width - 1, by omega⟩
      simp only [small, ite_false, List.length_cons, Nat.add_le_add_iff_right]
      by_cases none : rest = 0
      · have nonempty := length_uleb128_pos (n / 128)
        subst none
        simp only [zero_add, pow_one]
        omega
      · rw [ih (n / 128) (by omega) (by omega), pow_succ]
        omega

/-- An encoder, and a decoder that reads each encoding back from the front of any input. -/
structure Codec (α : Type) where
  encode : α → List (Fin 256)
  decode : List (Fin 256) → Option (α × List (Fin 256))
  decode_encode : ∀ value rest, decode (encode value ++ rest) = some (value, rest)

namespace Codec

variable {α β : Type}

/-- `bcs::from_bytes`: the input is one encoded value and nothing after it. -/
def fromBytes (codec : Codec α) (bytes : List (Fin 256)) : Option α :=
  match codec.decode bytes with
  | some (value, []) => some value
  | _ => none

theorem fromBytes_encode (codec : Codec α) (value : α) :
    codec.fromBytes (codec.encode value) = some value := by
  have read := codec.decode_encode value []
  rw [List.append_nil] at read
  simp [fromBytes, read]

def byte : Codec (Fin 256) where
  encode value := [value]
  decode
    | [] => none
    | value :: rest => some (value, rest)
  decode_encode _ _ := rfl

def pair (first : Codec α) (second : Codec β) : Codec (α × β) where
  encode value := first.encode value.1 ++ second.encode value.2
  decode bytes := (first.decode bytes).bind fun (value, after) =>
    (second.decode after).map fun (other, rest) => ((value, other), rest)
  decode_encode value rest := by
    simp [List.append_assoc, first.decode_encode, second.decode_encode]

def readMany (codec : Codec α) : Nat → List (Fin 256) → Option (List α × List (Fin 256))
  | 0, bytes => some ([], bytes)
  | count + 1, bytes => (codec.decode bytes).bind fun (first, after) =>
      (codec.readMany count after).map fun (others, rest) => (first :: others, rest)

theorem readMany_flatMap (codec : Codec α) (values : List α) (rest : List (Fin 256)) :
    codec.readMany values.length (values.flatMap codec.encode ++ rest) = some (values, rest) := by
  induction values with
  | nil => rfl
  | cons value others ih =>
      simp [readMany, List.append_assoc, codec.decode_encode, ih]

def seq (codec : Codec α) : Codec (List α) where
  encode values := uleb128 values.length ++ values.flatMap codec.encode
  decode bytes := (readUleb128 bytes).bind fun (count, after) => codec.readMany count after
  decode_encode values rest := by
    simp [List.append_assoc, readUleb128_uleb128, readMany_flatMap]

def bytes : Codec (List (Fin 256)) := seq byte

/-- The codec of a type that `back` embeds in `α`, read back through `forward`. -/
def map (codec : Codec α) (forward : α → β) (back : β → α)
    (forward_back : ∀ value, forward (back value) = value) : Codec β where
  encode value := codec.encode (back value)
  decode bytes := (codec.decode bytes).map fun (value, rest) => (forward value, rest)
  decode_encode value rest := by simp [codec.decode_encode, forward_back]

@[simp] theorem length_encode_pair (first : Codec α) (second : Codec β) (value : α × β) :
    ((pair first second).encode value).length =
      (first.encode value.1).length + (second.encode value.2).length := by
  simp [pair]

@[simp] theorem length_encode_seq (codec : Codec α) (values : List α) :
    ((seq codec).encode values).length =
      (uleb128 values.length).length + (values.map fun value => (codec.encode value).length).sum := by
  simp [seq, List.length_flatMap]

@[simp] theorem length_encode_bytes (value : List (Fin 256)) :
    (bytes.encode value).length = (uleb128 value.length).length + value.length := by
  simp [bytes, byte]

@[simp] theorem length_encode_map (codec : Codec α) (forward : α → β) (back : β → α)
    (forward_back : ∀ value, forward (back value) = value) (value : β) :
    ((codec.map forward back forward_back).encode value).length =
      (codec.encode (back value)).length := rfl

end Codec

end Bcs
