import Mathlib
import Linera.Execution.System

set_option autoImplicit false

/-! The decimal text of an `Amount` (`Display` and `FromStr` for `Amount` in
`linera-base/src/data_types.rs`), which is also its human-readable serde encoding.

`Display` writes the attotokens padded with zeros to 19 digits, with a point before the last
18 of them, the decimals without their trailing zeros but padded with zeros up to the
precision, a `+` when the formatter asks for one and the amount is positive, and fill
characters up to the width. `FromStr` trims whitespace, skips one leading `+`, ignores
underscores, reads digits and at most one point, allows at most 18 digits after the point,
and scales what it read by the decimals that were missing.

Every amount comes back from its text, whatever the width, the alignment, the sign and a
precision up to 18, when the fill is whitespace (`fromStr_display`). What `FromStr` accepts
is, once trimmed and without its underscores, a `+` or not, digits, and a point followed by
at most 18 digits or not, and the amount is the value of these digits
(`denotes_of_fromStr`). The digits may be missing altogether: the empty text, `+`, `.` and
`_` are all read as zero. -/

namespace Linera.Execution.Amount

inductive Alignment where
  | left
  | right
  | center
  deriving DecidableEq, Repr

/-- The options of a `fmt::Formatter` that `Display for Amount` reads. -/
structure FormatOptions where
  width : Option Nat
  precision : Option Nat
  signPlus : Bool
  align : Option Alignment
  fill : Char

/-- The options of `to_string`. -/
def FormatOptions.default : FormatOptions := ⟨none, none, false, none, ' '⟩

def decimalPlaces : Nat := 18

/-- `format!("{:0width$}", n)`: the digits of `n`, padded with zeros on the left. -/
def zeroPadded (width n : Nat) : List Char :=
  List.replicate (width - (Nat.toDigits 10 n).length) '0' ++ Nat.toDigits 10 n

def trimEndZeros (chars : List Char) : List Char :=
  (chars.reverse.dropWhile (· = '0')).reverse

def display (options : FormatOptions) (amount : Nat) : List Char :=
  let decimals := zeroPadded (decimalPlaces + 1) amount
  let integerPart := decimals.take (decimals.length - decimalPlaces)
  let fractionalPart := trimEndZeros (decimals.drop (decimals.length - decimalPlaces))
  let precision := Nat.max (options.precision.getD 0) fractionalPart.length
  let sign := if options.signPlus && 0 < amount then ['+'] else []
  let padWidth := match options.width with
    | none => 0
    | some width => width - precision - (sign.length + integerPart.length + 1)
  let leftPad := match options.align with
    | none | some .right => padWidth
    | some .center => padWidth / 2
    | some .left => 0
  List.replicate leftPad options.fill ++ sign ++ integerPart ++
    '.' :: (fractionalPart ++ List.replicate (precision - fractionalPart.length) '0') ++
    List.replicate (padWidth - leftPad) options.fill

inductive ParseAmountError where
  | parse
  | tooHigh
  | tooManyDigits
  deriving DecidableEq, Repr

/-- `char::is_whitespace`: the characters of Unicode's `White_Space`. -/
def isWhitespace (c : Char) : Bool :=
  let code := c.toNat
  code = 0x20 || (0x09 ≤ code && code ≤ 0x0d) || code = 0x85 || code = 0xa0 || code = 0x1680 ||
    (0x2000 ≤ code && code ≤ 0x200a) || code = 0x2028 || code = 0x2029 || code = 0x202f ||
    code = 0x205f || code = 0x3000

def trim (chars : List Char) : List Char :=
  ((chars.dropWhile isWhitespace).reverse.dropWhile isWhitespace).reverse

def toDigit (c : Char) : Option Nat :=
  if c.isDigit then some (c.toNat - '0'.toNat) else none

/-- One character of the loop of `FromStr for Amount`, on the number read so far and the
decimals still allowed after the point, if there was one. -/
def parseChar (state : Nat × Option Nat) (char : Char) :
    Except ParseAmountError (Nat × Option Nat) :=
  match char with
  | '_' => .ok state
  | '.' => if state.2.isSome then .error .parse else .ok (state.1, some decimalPlaces)
  | char => do
      let digit ← match toDigit char with
        | some digit => .ok digit
        | none => .error .parse
      let decimals ← match state.2 with
        | some decimals => if decimals = 0 then .error .tooManyDigits else .ok (some (decimals - 1))
        | none => .ok none
      if 10 * state.1 + digit ≤ max then .ok (10 * state.1 + digit, decimals)
      else .error .tooHigh

def fromStr (src : List Char) : Except ParseAmountError Nat := do
  let chars := trim src
  let chars := match chars with
    | '+' :: rest => rest
    | _ => chars
  let (result, decimals) ← chars.foldlM parseChar (0, none)
  let scaled := result * 10 ^ decimals.getD decimalPlaces
  if scaled ≤ max then .ok scaled else .error .tooHigh

/-- The accepted text, trimmed and without underscores: a `+` or not, digits, and a point
followed by at most 18 digits or not; the amount is the value of the digits, in
attotokens. -/
def Denotes (text : List Char) (amount : Nat) : Prop :=
  ∃ (sign point : Bool) (integer fraction : List Char),
    text = (if sign then ['+'] else []) ++ integer ++ (if point then '.' :: fraction else []) ∧
    (∀ c ∈ integer ++ fraction, c.isDigit = true) ∧ fraction.length ≤ decimalPlaces ∧
    (point = false → fraction = []) ∧
    amount = Nat.ofDigitChars 10 (integer ++ fraction) 0 * 10 ^ (decimalPlaces - fraction.length)

theorem isDigit_of_mem_zeroPadded {width n : Nat} {c : Char} (mem : c ∈ zeroPadded width n) :
    c.isDigit = true := by
  rcases List.mem_append.mp mem with zero | digit
  · rw [List.eq_of_mem_replicate zero]
    rfl
  · exact Nat.isDigit_of_mem_toDigits (by decide) (by decide) digit

theorem ofDigitChars_zeroPadded (width n : Nat) : Nat.ofDigitChars 10 (zeroPadded width n) 0 = n := by
  rw [zeroPadded, Nat.ofDigitChars_append, Nat.ofDigitChars_replicate_zero, Nat.mul_zero,
    Nat.ofDigitChars_ten_toDigits]

theorem le_length_zeroPadded (width n : Nat) : width ≤ (zeroPadded width n).length := by
  rw [zeroPadded, List.length_append, List.length_replicate]
  omega

theorem ofDigitChars_append_zeros (digits : List Char) (count init : Nat) :
    Nat.ofDigitChars 10 (digits ++ List.replicate count '0') init =
      Nat.ofDigitChars 10 digits init * 10 ^ count := by
  rw [Nat.ofDigitChars_append, Nat.ofDigitChars_replicate_zero, Nat.mul_comm]

theorem trimEndZeros_append_zeros (chars : List Char) :
    trimEndZeros chars ++ List.replicate (chars.length - (trimEndZeros chars).length) '0' = chars := by
  have zeros : chars.reverse.takeWhile (· = '0') =
      List.replicate (chars.reverse.takeWhile (· = '0')).length '0' := by
    apply List.eq_replicate_iff.mpr
    refine ⟨rfl, fun c mem => ?_⟩
    simpa using List.mem_takeWhile_imp mem
  have whole := congrArg List.reverse
    (List.takeWhile_append_dropWhile : chars.reverse.takeWhile (· = '0') ++ _ = _)
  rw [List.reverse_reverse, List.reverse_append, zeros, List.reverse_replicate] at whole
  have lengths := congrArg List.length whole
  rw [List.length_append, List.length_replicate] at lengths
  unfold trimEndZeros
  rw [← lengths, Nat.add_sub_cancel_left]
  exact whole

/-- The text of `display` is fill, a text that denotes the amount, and fill, whatever the
options, as long as the precision asks for at most 18 decimals. -/
theorem display_eq_padded (options : FormatOptions) (amount : Nat)
    (precision : options.precision.getD 0 ≤ decimalPlaces) :
    ∃ (left right : Nat) (core : List Char),
      display options amount =
        List.replicate left options.fill ++ core ++ List.replicate right options.fill ∧
      Denotes core amount := by
  set decimals := zeroPadded (decimalPlaces + 1) amount
  set integerPart := decimals.take (decimals.length - decimalPlaces)
  set rest := decimals.drop (decimals.length - decimalPlaces)
  set fractionalPart := trimEndZeros rest
  set zeros := Nat.max (options.precision.getD 0) fractionalPart.length - fractionalPart.length
  set sign := options.signPlus && 0 < amount
  have restLength : rest.length = decimalPlaces := by
    have long : decimalPlaces + 1 ≤ decimals.length := le_length_zeroPadded _ _
    rw [List.length_drop]
    omega
  have trimmed : fractionalPart ++ List.replicate (rest.length - fractionalPart.length) '0' = rest :=
    trimEndZeros_append_zeros rest
  have fractionShort : fractionalPart.length ≤ decimalPlaces := by
    have lengths := congrArg List.length trimmed
    rw [List.length_append, List.length_replicate] at lengths
    omega
  have widest : Nat.max (options.precision.getD 0) fractionalPart.length ≤ decimalPlaces :=
    Nat.max_le.mpr ⟨precision, fractionShort⟩
  have padded : fractionalPart.length ≤ Nat.max (options.precision.getD 0) fractionalPart.length :=
    Nat.le_max_right _ _
  have allDigits : ∀ c ∈ integerPart ++ rest, c.isDigit = true := by
    rw [List.take_append_drop]
    exact fun c mem => isDigit_of_mem_zeroPadded mem
  refine ⟨?left, ?right, (if sign then ['+'] else []) ++ integerPart ++
    '.' :: (fractionalPart ++ List.replicate zeros '0'), ?shown, ?denotes⟩
  case shown =>
    unfold display
    simp only [List.append_assoc, List.cons_append]
    rfl
  case denotes =>
    refine ⟨sign, true, integerPart, fractionalPart ++ List.replicate zeros '0', rfl, ?_, ?_, nofun, ?_⟩
    · intro c mem
      rcases List.mem_append.mp mem with integer | fraction
      · exact allDigits c (List.mem_append_left _ integer)
      · rcases List.mem_append.mp fraction with kept | zero
        · rw [← trimmed] at allDigits
          exact allDigits c (List.mem_append_right _ (List.mem_append_left _ kept))
        · rw [List.eq_of_mem_replicate zero]
          rfl
    · rw [List.length_append, List.length_replicate]
      omega
    · have exponents : zeros + (decimalPlaces - (fractionalPart ++ List.replicate zeros '0').length) =
          rest.length - fractionalPart.length := by
        rw [List.length_append, List.length_replicate]
        omega
      calc amount = Nat.ofDigitChars 10 (integerPart ++ rest) 0 := by
            rw [List.take_append_drop, ofDigitChars_zeroPadded]
        _ = Nat.ofDigitChars 10 (integerPart ++ fractionalPart) 0 *
              10 ^ (rest.length - fractionalPart.length) := by
            rw [← ofDigitChars_append_zeros, List.append_assoc, trimmed]
        _ = Nat.ofDigitChars 10 (integerPart ++ (fractionalPart ++ List.replicate zeros '0')) 0 *
              10 ^ (decimalPlaces - (fractionalPart ++ List.replicate zeros '0').length) := by
            rw [← List.append_assoc, ofDigitChars_append_zeros, Nat.mul_assoc, ← Nat.pow_add,
              exponents]

theorem isWhitespace_of_isDigit {char : Char} (digit : char.isDigit = true) :
    isWhitespace char = false := by
  have range : 48 ≤ char.toNat ∧ char.toNat ≤ 57 := Char.isDigit_iff_toNat.mp digit
  unfold isWhitespace
  simp only [Bool.or_eq_false_iff, decide_eq_false_iff_not, Bool.and_eq_false_iff]
  omega

theorem dropWhile_replicate_append {p : Char → Bool} {fill : Char} (blank : p fill = true)
    (count : Nat) {rest : List Char} (first : ∀ c ∈ rest.head?, p c = false) :
    (List.replicate count fill ++ rest).dropWhile p = rest := by
  induction count with
  | zero =>
      cases rest with
      | nil => rfl
      | cons c rest => exact List.dropWhile_cons_of_neg (by simp [first c rfl])
  | succ count ih =>
      rw [List.replicate_succ, List.cons_append, List.dropWhile_cons_of_pos blank, ih]

theorem trim_padded {fill : Char} (blank : isWhitespace fill = true) (left right : Nat)
    {core : List Char} (solid : ∀ c ∈ core, isWhitespace c = false) :
    trim (List.replicate left fill ++ core ++ List.replicate right fill) = core := by
  cases core with
  | nil =>
      have blanks : ∀ c ∈ List.replicate left fill ++ List.replicate right fill,
          isWhitespace c = true := by
        intro c mem
        rcases List.mem_append.mp mem with mem | mem <;> rw [List.eq_of_mem_replicate mem] <;>
          exact blank
      simp only [trim, List.append_nil, List.dropWhile_eq_nil_iff.mpr blanks, List.reverse_nil,
        List.dropWhile_nil]
  | cons c rest =>
      have front : ∀ x ∈ (c :: rest ++ List.replicate right fill).head?, isWhitespace x = false := by
        simp [solid c List.mem_cons_self]
      have back : ∀ x ∈ (c :: rest).reverse.head?, isWhitespace x = false := by
        intro x mem
        rw [List.head?_reverse] at mem
        exact solid x (List.mem_of_getLast? mem)
      unfold trim
      rw [List.append_assoc, dropWhile_replicate_append blank left front, List.reverse_append,
        List.reverse_replicate, dropWhile_replicate_append blank right back, List.reverse_reverse]

theorem trim_of_solid {core : List Char} (solid : ∀ c ∈ core, isWhitespace c = false) :
    trim core = core := by
  simpa using trim_padded (by decide : isWhitespace ' ' = true) 0 0 solid

theorem isWhitespace_eq_false_of_denotes {text : List Char} {amount : Nat}
    (denotes : Denotes text amount) : ∀ c ∈ text, isWhitespace c = false := by
  obtain ⟨sign, point, integer, fraction, rfl, allDigits, -⟩ := denotes
  intro c mem
  rcases List.mem_append.mp mem with front | pointPart
  · rcases List.mem_append.mp front with plus | digit
    · split at plus
      · rw [List.mem_singleton.mp plus]
        rfl
      · cases plus
    · exact isWhitespace_of_isDigit (allDigits c (List.mem_append_left _ digit))
  · split at pointPart
    · rcases List.mem_cons.mp pointPart with point | digit
      · rw [point]
        rfl
      · exact isWhitespace_of_isDigit (allDigits c (List.mem_append_right _ digit))
    · cases pointPart

theorem ne_of_isDigit {char : Char} (digit : char.isDigit = true) : char ≠ '_' ∧ char ≠ '.' := by
  constructor <;> rintro rfl <;> cases digit

theorem parseChar_point_none (number : Nat) :
    parseChar (number, none) '.' = .ok (number, some decimalPlaces) := rfl

theorem parseChar_digit_none (number : Nat) {char : Char} (digit : char.isDigit = true)
    (bound : 10 * number + (char.toNat - '0'.toNat) ≤ max) :
    parseChar (number, none) char = .ok (10 * number + (char.toNat - '0'.toNat), none) := by
  obtain ⟨notUnderscore, notPoint⟩ := ne_of_isDigit digit
  unfold parseChar
  split
  · contradiction
  · contradiction
  · simp only [toDigit, digit, if_true]
    simpa using bound

theorem parseChar_digit_some (number decimals : Nat) {char : Char} (digit : char.isDigit = true)
    (bound : 10 * number + (char.toNat - '0'.toNat) ≤ max) :
    parseChar (number, some (decimals + 1)) char =
      .ok (10 * number + (char.toNat - '0'.toNat), some decimals) := by
  obtain ⟨notUnderscore, notPoint⟩ := ne_of_isDigit digit
  unfold parseChar
  split
  · contradiction
  · contradiction
  · simp only [toDigit, digit, if_true]
    simpa using bound

theorem parseChar_eq_ok {state after : Nat × Option Nat} {char : Char}
    (parsed : parseChar state char = .ok after) :
    (char = '_' ∧ after = state) ∨
    (char = '.' ∧ state.2 = none ∧ after = (state.1, some decimalPlaces)) ∨
    (char.isDigit = true ∧ state.2 ≠ some 0 ∧
      after = (10 * state.1 + (char.toNat - '0'.toNat), state.2.map (· - 1)) ∧
      10 * state.1 + (char.toNat - '0'.toNat) ≤ max) := by
  unfold parseChar at parsed
  split at parsed
  · exact .inl ⟨rfl, (Except.ok.inj parsed).symm⟩
  · split at parsed
    · cases parsed
    · exact .inr (.inl ⟨rfl, by simpa using ‹¬state.2.isSome = true›, (Except.ok.inj parsed).symm⟩)
  · obtain ⟨number, decimals⟩ := state
    by_cases digit : char.isDigit = true
    · simp only [toDigit, digit, if_true, Except.ok_bind] at parsed
      refine .inr (.inr ⟨digit, ?_⟩)
      cases decimals with
      | none =>
          simp only at parsed
          split at parsed
          · exact ⟨by simp, (Except.ok.inj parsed).symm, ‹_›⟩
          · cases parsed
      | some decimals =>
          simp only at parsed
          split at parsed
          · cases parsed
          · split at parsed
            · exact ⟨by simpa using ‹¬decimals = 0›, (Except.ok.inj parsed).symm, ‹_›⟩
            · cases parsed
    · simp only [toDigit, digit, Bool.false_eq_true, if_false] at parsed
      cases parsed

theorem le_ofDigitChars (digits : List Char) (init : Nat) :
    init ≤ Nat.ofDigitChars 10 digits init := by
  rw [Nat.ofDigitChars_eq_ofDigitChars_zero]
  have positive : 0 < 10 ^ digits.length := Nat.pow_pos (by decide)
  calc init ≤ 10 ^ digits.length * init := Nat.le_mul_of_pos_left init positive
    _ ≤ _ := Nat.le_add_right _ _

theorem foldlM_parseChar_integer (digits : List Char) (number : Nat)
    (allDigits : ∀ c ∈ digits, c.isDigit = true) (bound : Nat.ofDigitChars 10 digits number ≤ max) :
    digits.foldlM parseChar (number, none) = .ok (Nat.ofDigitChars 10 digits number, none) := by
  induction digits generalizing number with
  | nil => rfl
  | cons c rest ih =>
      rw [Nat.ofDigitChars_cons] at bound ⊢
      have step : 10 * number + (c.toNat - '0'.toNat) ≤ max :=
        le_trans (le_ofDigitChars rest _) bound
      rw [List.foldlM_cons, parseChar_digit_none number (allDigits c List.mem_cons_self) step,
        Except.ok_bind]
      exact ih _ (fun d mem => allDigits d (List.mem_cons_of_mem c mem)) bound

theorem foldlM_parseChar_fraction (digits : List Char) (number decimals : Nat)
    (allDigits : ∀ c ∈ digits, c.isDigit = true) (short : digits.length ≤ decimals)
    (bound : Nat.ofDigitChars 10 digits number ≤ max) :
    digits.foldlM parseChar (number, some decimals) =
      .ok (Nat.ofDigitChars 10 digits number, some (decimals - digits.length)) := by
  induction digits generalizing number decimals with
  | nil => rfl
  | cons c rest ih =>
      obtain ⟨left, rfl⟩ : ∃ left, decimals = left + 1 :=
        ⟨decimals - 1, by simp only [List.length_cons] at short; omega⟩
      rw [Nat.ofDigitChars_cons] at bound ⊢
      have step : 10 * number + (c.toNat - '0'.toNat) ≤ max :=
        le_trans (le_ofDigitChars rest _) bound
      rw [List.foldlM_cons, parseChar_digit_some number left (allDigits c List.mem_cons_self) step,
        Except.ok_bind, List.length_cons, Nat.add_sub_add_right]
      exact ih _ _ (fun d mem => allDigits d (List.mem_cons_of_mem c mem))
        (by simp only [List.length_cons] at short; omega) bound

/-- What the loop of `FromStr` has read, without its underscores: digits, then the point and
more digits if there was a point; the number read so far is the value of all these digits,
and the decimals still allowed are what the digits after the point leave of 18. -/
def Reads (text : List Char) (state : Nat × Option Nat) : Prop :=
  ∃ (point : Bool) (integer fraction : List Char),
    text = integer ++ (if point then '.' :: fraction else []) ∧
    (∀ c ∈ integer ++ fraction, c.isDigit = true) ∧ fraction.length ≤ decimalPlaces ∧
    (point = false → fraction = []) ∧
    state = (Nat.ofDigitChars 10 (integer ++ fraction) 0,
      if point then some (decimalPlaces - fraction.length) else none)

theorem reads_nil : Reads [] (0, none) :=
  ⟨false, [], [], rfl, by simp, by simp [decimalPlaces], fun _ => rfl, rfl⟩

/-- One character keeps the invariant of the loop. -/
theorem reads_parseChar {text : List Char} {state after : Nat × Option Nat} {char : Char}
    (reads : Reads text state) (parsed : parseChar state char = .ok after) :
    Reads (text ++ [char].filter (· ≠ '_')) after := by
  obtain ⟨point, integer, fraction, rfl, allDigits, short, noPoint, rfl⟩ := reads
  rcases parseChar_eq_ok parsed with ⟨rfl, rfl⟩ | ⟨rfl, unpointed, rfl⟩ | ⟨digit, left, rfl, -⟩
  · exact ⟨point, integer, fraction, by simp, allDigits, short, noPoint, rfl⟩
  · have unpointed : point = false := by
      cases point
      · rfl
      · cases unpointed
    subst unpointed
    rw [noPoint rfl] at allDigits ⊢
    exact ⟨true, integer, [], by simp, allDigits, by simp [decimalPlaces], nofun, rfl⟩
  · have kept : [char].filter (· ≠ '_') = [char] :=
      List.filter_cons_of_pos (by simpa using (ne_of_isDigit digit).1)
    have value (digits : List Char) : Nat.ofDigitChars 10 (digits ++ [char]) 0 =
        10 * Nat.ofDigitChars 10 digits 0 + (char.toNat - '0'.toNat) := by
      rw [Nat.ofDigitChars_append, Nat.ofDigitChars_cons, Nat.ofDigitChars_nil]
    rw [kept]
    cases point
    · rw [noPoint rfl] at allDigits ⊢
      refine ⟨false, integer ++ [char], [], by simp, ?_, by simp [decimalPlaces], fun _ => rfl, ?_⟩
      · rw [List.append_nil] at allDigits ⊢
        exact List.forall_mem_append.mpr ⟨allDigits, List.forall_mem_singleton.mpr digit⟩
      · simp only [List.append_nil, value, if_false, Bool.false_eq_true, Option.map_none]
    · have room : fraction.length < decimalPlaces := by
        simp only [if_true, ne_eq, Option.some.injEq] at left
        omega
      refine ⟨true, integer, fraction ++ [char], by simp, ?_, by simp; omega, nofun, ?_⟩
      · rw [← List.append_assoc]
        exact List.forall_mem_append.mpr ⟨allDigits, List.forall_mem_singleton.mpr digit⟩
      · simp only [← List.append_assoc, value, if_true, Option.map_some, List.length_append,
          List.length_singleton]
        rw [Nat.sub_sub]

theorem reads_foldlM {text : List Char} {state after : Nat × Option Nat} (chars : List Char)
    (reads : Reads text state) (parsed : chars.foldlM parseChar state = .ok after) :
    Reads (text ++ chars.filter (· ≠ '_')) after := by
  induction chars generalizing text state with
  | nil =>
      cases parsed
      simpa using reads
  | cons c rest ih =>
      rw [List.foldlM_cons] at parsed
      obtain ⟨middle, first, others⟩ := (Except.bind_eq_ok_iff _ _ _).mp parsed
      have whole := ih (reads_parseChar reads first) others
      rwa [List.append_assoc, ← List.filter_append, List.singleton_append] at whole

theorem denotes_of_reads {text : List Char} {result : Nat} {decimals : Option Nat} (sign : Bool)
    (reads : Reads text (result, decimals)) :
    Denotes ((if sign then ['+'] else []) ++ text) (result * 10 ^ decimals.getD decimalPlaces) := by
  obtain ⟨point, integer, fraction, rfl, allDigits, short, noPoint, same⟩ := reads
  obtain ⟨rfl, rfl⟩ := Prod.mk.inj same
  refine ⟨sign, point, integer, fraction, by rw [List.append_assoc], allDigits, short, noPoint, ?_⟩
  cases point
  · rw [noPoint rfl]
    rfl
  · rfl

theorem fromStr_of_denotes {text : List Char} {amount : Nat} (denotes : Denotes text amount)
    (bound : amount ≤ max) : fromStr text = .ok amount := by
  have trimmed := trim_of_solid (isWhitespace_eq_false_of_denotes denotes)
  obtain ⟨sign, point, integer, fraction, rfl, allDigits, short, noPoint, rfl⟩ := denotes
  have value : Nat.ofDigitChars 10 (integer ++ fraction) 0 ≤ max :=
    le_trans (Nat.le_mul_of_pos_right _ (Nat.pow_pos (by decide))) bound
  have integerBound : Nat.ofDigitChars 10 integer 0 ≤ max := by
    rw [Nat.ofDigitChars_append] at value
    exact le_trans (le_ofDigitChars fraction _) value
  have loop : (integer ++ (if point then '.' :: fraction else [])).foldlM parseChar (0, none) =
      .ok (Nat.ofDigitChars 10 (integer ++ fraction) 0,
        if point then some (decimalPlaces - fraction.length) else none) := by
    rw [List.foldlM_append, foldlM_parseChar_integer integer 0
      (fun c mem => allDigits c (List.mem_append_left _ mem)) integerBound, Except.ok_bind]
    cases point
    · rw [noPoint rfl, List.append_nil]
      rfl
    · rw [Nat.ofDigitChars_append] at value ⊢
      rw [if_pos rfl, List.foldlM_cons, parseChar_point_none, Except.ok_bind,
        foldlM_parseChar_fraction fraction _ _ (fun c mem => allDigits c (List.mem_append_right _ mem))
          short value, if_pos rfl]
  have scale : (if point then some (decimalPlaces - fraction.length) else none).getD decimalPlaces =
      decimalPlaces - fraction.length := by
    cases point
    · rw [noPoint rfl]
      rfl
    · rfl
  unfold fromStr
  rw [trimmed]
  cases sign
  · have notPlus : ∀ rest, integer ++ (if point then '.' :: fraction else []) ≠ '+' :: rest := by
      intro rest plus
      cases integer with
      | nil =>
          cases point
          · cases plus
          · simp at plus
      | cons c cs =>
          obtain ⟨rfl, -⟩ := List.cons.inj plus
          exact absurd (allDigits '+' List.mem_cons_self) (by decide)
    -- the match on a leading plus takes its last arm, by notPlus
    simp only [Bool.false_eq_true, if_false, List.nil_append, loop, Except.ok_bind, scale]
    rw [if_pos bound]
  · simp only [if_true, List.cons_append, List.nil_append, loop, Except.ok_bind, scale]
    rw [if_pos bound]

/-- What `FromStr` accepts, once trimmed and without its underscores, denotes the amount it
reads, and that amount fits a `u128`. -/
theorem denotes_of_fromStr {src : List Char} {amount : Nat} (parsed : fromStr src = .ok amount) :
    Denotes ((trim src).filter (· ≠ '_')) amount ∧ amount ≤ max := by
  unfold fromStr at parsed
  dsimp only at parsed
  obtain ⟨⟨result, decimals⟩, loop, scaled⟩ := (Except.bind_eq_ok_iff _ _ _).mp parsed
  have bounded : result * 10 ^ decimals.getD decimalPlaces ≤ max := by
    by_contra high
    rw [if_neg high] at scaled
    cases scaled
  rw [if_pos bounded] at scaled
  cases scaled
  refine ⟨?_, bounded⟩
  split at loop
  next rest plus =>
    have denotes := denotes_of_reads true (reads_foldlM rest reads_nil loop)
    rw [plus]
    simpa using denotes
  next =>
    simpa using denotes_of_reads false (reads_foldlM _ reads_nil loop)

/-- On a text without surrounding whitespace or underscores, `FromStr` reads exactly the
amounts of a `u128` that the text denotes. -/
theorem fromStr_eq_ok_iff {text : List Char} {amount : Nat}
    (clean : (trim text).filter (· ≠ '_') = text) :
    fromStr text = .ok amount ↔ Denotes text amount ∧ amount ≤ max := by
  constructor
  · intro parsed
    rw [← clean]
    exact denotes_of_fromStr parsed
  · rintro ⟨denotes, bound⟩
    exact fromStr_of_denotes denotes bound

/-- The text 1.5, which has no blank and no underscore. -/
theorem fromStr_eq_ok_iff_one_and_a_half :
    (trim ['1', '.', '5']).filter (· ≠ '_') = ['1', '.', '5'] ∧
      (fromStr ['1', '.', '5'] = .ok 1500000000000000000 ↔
        Denotes ['1', '.', '5'] 1500000000000000000 ∧ 1500000000000000000 ≤ max) := by
  have clean : (trim ['1', '.', '5']).filter (· ≠ '_') = ['1', '.', '5'] := by decide
  exact ⟨clean, fromStr_eq_ok_iff clean⟩

theorem fromStr_padded {fill : Char} (blank : isWhitespace fill = true) (left right : Nat)
    {core : List Char} (solid : ∀ c ∈ core, isWhitespace c = false) :
    fromStr (List.replicate left fill ++ core ++ List.replicate right fill) = fromStr core := by
  unfold fromStr
  rw [trim_padded blank left right solid, trim_of_solid solid]

theorem fromStr_display (options : FormatOptions) (amount : Nat)
    (blank : isWhitespace options.fill = true) (precision : options.precision.getD 0 ≤ decimalPlaces)
    (bound : amount ≤ max) : fromStr (display options amount) = .ok amount := by
  obtain ⟨left, right, core, shown, denotes⟩ := display_eq_padded options amount precision
  rw [shown, fromStr_padded blank left right (isWhitespace_eq_false_of_denotes denotes)]
  exact fromStr_of_denotes denotes bound

theorem fromStr_accepts_no_digits :
    fromStr [] = .ok 0 ∧ fromStr ['+'] = .ok 0 ∧ fromStr ['.'] = .ok 0 ∧ fromStr ['_'] = .ok 0 := by
  decide

theorem amount_text_round_trip :
    (∀ amount ≤ max, fromStr (display .default amount) = .ok amount) ∧
    (∀ amount ≤ max, ∀ (width precision : Nat), precision ≤ 18 →
      fromStr (display ⟨some width, some precision, true, none, ' '⟩ amount) = .ok amount) ∧
    (∀ src amount, fromStr src = .ok amount →
      Denotes ((trim src).filter (· ≠ '_')) amount ∧ amount ≤ max) := by
  refine ⟨?_, ?_, ?_⟩
  · intro amount bound
    exact fromStr_display .default amount (by decide) (Nat.zero_le _) bound
  · intro amount bound width precision short
    have blank : isWhitespace ' ' = true := by decide
    exact fromStr_display _ amount blank short bound
  · intro src amount parsed
    exact denotes_of_fromStr parsed

end Linera.Execution.Amount
