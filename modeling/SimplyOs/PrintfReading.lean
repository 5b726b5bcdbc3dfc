import SimplyOs.PrintfNumerals
import SimplyOs.Library.DigitReader

/-!
# Reading the numbers back

The digits that `print_uint` and `print_int` pass on are read back as a numeral.
The buffer of `print_uint` holds 31 digits in front of its NUL, one less than a
32-bit number has in base 2.
-/

namespace SimplyOs.PrintfReading

open SimplyOs.Printf SimplyOs.PrintfNumerals SimplyOs.Library.DigitReader

set_option autoImplicit false

def zeroDigit : UInt8 := 0x30

def minusSign : UInt8 := 0x2D

def digitValue (byte : UInt8) : Option Nat :=
  if 0x30 ≤ byte ∧ byte ≤ 0x39 then some (byte.toNat - 0x30)
  else if 0x61 ≤ byte ∧ byte ≤ 0x66 then some (byte.toNat - 0x61 + 10)
  else none

def readUnsigned (base : Nat) (digits : List UInt8) : Option Nat :=
  readNumeral digitValue base digits

def readSigned (base : Nat) : List UInt8 → Option Int
  | [] => none
  | byte :: digits =>
      if byte = minusSign then (readUnsigned base digits).map fun (magnitude : Nat) => -Int.ofNat magnitude
      else (readUnsigned base (byte :: digits)).map Int.ofNat

/-- A zero is in front only as the numeral of 0. -/
def NoLeadingZero (digits : List UInt8) : Prop :=
  digits.head? = some zeroDigit → digits = [zeroDigit]

/-- What `print_uint` passes on is a numeral of the value. -/
def PrintsUnsigned (stack : CharBuffer) (output : List UInt8) (value base : Nat) : Prop :=
  ∃ digits, printUint stack output value base = .ok (true, output ++ digits) ∧
    readUnsigned base digits = some value ∧ NoLeadingZero digits

/-- What `print_int` passes on is a signed numeral of the value. -/
def PrintsSigned (stack : CharBuffer) (output : List UInt8) (value : Int) : Prop :=
  ∃ digits, printInt stack output value = .ok (true, output ++ digits) ∧
    readSigned 10 digits = some value

/-! ## Canonical numerals -/

section Numerals

variable {base : Nat}

theorem digit_value_char :
    ∀ digit < 16, digitValue (Nat.digitChar digit).toUInt8 = some digit := by
  decide

theorem minus_no_digit : digitValue minusSign = none := by
  decide

theorem numeral_ne_nil (base value : Nat) : numeral base value ≠ [] :=
  List.ne_nil_of_length_pos (numeral_length_pos base value)

theorem read_digits_numeral (two : 2 ≤ base) (sixteen : base ≤ 16) (value : Nat) :
    readDigits digitValue base (numeral base value) 0 = some value := by
  induction value using Nat.strong_induction_on with
  | _ value ih =>
      have small : value % base < base := Nat.mod_lt _ (by omega)
      have last := digit_value_char (value % base) (Nat.lt_of_lt_of_le small sixteen)
      have split : value / base * base + value % base = value := Nat.div_add_mod' value base
      rw [numeral_step two value, read_digits_append]
      by_cases first : value / base = 0
      · rw [if_pos first, readDigits, Option.bind_some, read_digits_singleton last small]
        rw [first] at split
        rw [split]
      · have positive : value ≠ 0 := by
          rintro rfl
          exact first (Nat.zero_div base)
        rw [if_neg first, ih _ (Nat.div_lt_self (Nat.pos_of_ne_zero positive) two),
          Option.bind_some, read_digits_singleton last small, split]

theorem read_unsigned_numeral (two : 2 ≤ base) (sixteen : base ≤ 16) (value : Nat) :
    readUnsigned base (numeral base value) = some value := by
  rw [readUnsigned, readNumeral, if_neg (numeral_ne_nil base value)]
  exact read_digits_numeral two sixteen value

theorem numeral_no_leading_zero (two : 2 ≤ base) (sixteen : base ≤ 16) (value : Nat) :
    NoLeadingZero (numeral base value) := by
  induction value using Nat.strong_induction_on with
  | _ value ih =>
      intro zeroFirst
      rw [numeral_step two value] at zeroFirst ⊢
      by_cases first : value / base = 0
      · rw [if_pos first, List.nil_append] at zeroFirst ⊢
        rw [List.head?_cons, Option.some_inj] at zeroFirst
        rw [zeroFirst]
      · -- the digits in front of the last one are those of a positive number
        have positive : value ≠ 0 := by
          rintro rfl
          exact first (Nat.zero_div base)
        have head : (numeral base (value / base)).head? = some zeroDigit := by
          rw [if_neg first] at zeroFirst
          cases front : numeral base (value / base) with
          | nil => exact absurd front (numeral_ne_nil base _)
          | cons byte rest => simpa [front] using zeroFirst
        have zero := ih _ (Nat.div_lt_self (Nat.pos_of_ne_zero positive) two) head
        have read := read_digits_numeral two sixteen (value / base)
        rw [zero, read_digits_singleton (show digitValue zeroDigit = some 0 by decide) (by omega),
          Nat.zero_mul, Option.some_inj] at read
        exact absurd read.symm first

theorem read_digits_minus (digits : List UInt8) (value : Nat) :
    readDigits digitValue base (minusSign :: digits) value = none := by
  rw [readDigits, minus_no_digit]

theorem read_signed_numeral (value : Int) : readSigned 10 (signedNumeral value) = some value := by
  have magnitude := @read_unsigned_numeral 10 (by decide) (by decide) value.natAbs
  unfold signedNumeral
  by_cases negative : value < 0
  · have same : -Int.ofNat value.natAbs = value := by
      rw [Int.ofNat_eq_natCast]
      omega
    have minus : (0x2D : UInt8) = minusSign := rfl
    rw [if_pos negative, readSigned, if_pos minus, magnitude, Option.map_some, same]
  · rw [if_neg negative]
    cases digits : numeral 10 value.natAbs with
    | nil => exact absurd digits (numeral_ne_nil 10 _)
    | cons byte rest =>
        have unsigned : byte ≠ minusSign := by
          rintro rfl
          have read := @read_digits_numeral 10 (by decide) (by decide) value.natAbs
          rw [digits, read_digits_minus] at read
          exact absurd read (by simp)
        rw [digits] at magnitude
        have same : Int.ofNat value.natAbs = value := by
          rw [Int.ofNat_eq_natCast]
          omega
        rw [readSigned, if_neg unsigned, magnitude, Option.map_some, same]

end Numerals

/-! ## The room of the buffer -/

theorem strlen_lt {data : List UInt8} {len : Nat} (found : strlen data = .ok len) :
    len < data.length := by
  induction data generalizing len with
  | nil => simp [strlen] at found
  | cons byte rest ih =>
      rw [strlen] at found
      by_cases nul : byte = 0
      · rw [if_neg (not_not.mpr nul), Except.ok.injEq] at found
        rw [← found]
        exact Nat.succ_pos _
      · rw [if_pos nul] at found
        cases later : strlen rest with
        | error fault => simp [later, bind, Except.bind] at found
        | ok restLen =>
            simp only [later, bind, Except.bind, Except.ok.injEq] at found
            have shorter := ih later
            rw [← found, List.length_cons]
            omega

theorem digit_loop_length (base : Nat) (digitByte : Nat → UInt8) (pos value : Nat)
    (buffer : List UInt8) :
    (digitLoop base digitByte pos value buffer).2.length = buffer.length := by
  induction pos generalizing value buffer with
  | zero => rfl
  | succ pos ih =>
      rw [digitLoop]
      by_cases zero : value = 0
      · rw [if_neg (not_not.mpr zero)]
      · rw [if_pos zero, ih, List.length_set]

theorem digit_string_length_le (stack : CharBuffer) (base : Nat) (digitByte : Nat → UInt8)
    (value : Nat) : (digitString stack base digitByte value).length ≤ 32 := by
  have size := stack.size
  unfold digitString
  rw [List.length_drop, digit_loop_length, List.length_set, size]
  exact Nat.sub_le _ _

theorem print_uint_length_le {stack : CharBuffer} {output digits : List UInt8} {value base : Nat}
    (printed : printUint stack output value base = .ok (true, output ++ digits)) :
    digits.length ≤ 31 := by
  unfold printUint at printed
  by_cases refused : base < 2 ∨ base > 16
  · rw [if_pos refused, Except.ok.injEq, Prod.mk.injEq] at printed
    exact absurd printed.1 Bool.false_ne_true
  rw [if_neg refused] at printed
  by_cases zero : value = 0
  · have one : print output [0x30, 0] 1 = .ok (true, output ++ [0x30]) := print_eq output [0x30] [0]
    rw [if_pos zero, one, Except.ok.injEq, Prod.mk.injEq, List.append_cancel_left_eq] at printed
    rw [← printed.2]
    decide
  rw [if_neg zero] at printed
  have room := digit_string_length_le stack base digitByte value
  cases found : strlen (digitString stack base digitByte value) with
  | error fault => simp [found, bind, Except.bind] at printed
  | ok len =>
      have shorter := strlen_lt found
      have front : ((digitString stack base digitByte value).take len).length = len :=
        List.length_take_of_le (Nat.le_of_lt shorter)
      have all := print_eq output ((digitString stack base digitByte value).take len)
        ((digitString stack base digitByte value).drop len)
      rw [front, List.take_append_drop] at all
      simp only [found, bind, Except.bind] at printed
      rw [all, Except.ok.injEq, Prod.mk.injEq, List.append_cancel_left_eq] at printed
      rw [← printed.2, front]
      omega

theorem prints_unsigned_fits {stack : CharBuffer} {output : List UInt8} {value base : Nat}
    (two : 2 ≤ base) (prints : PrintsUnsigned stack output value base) : value < base ^ 31 := by
  obtain ⟨digits, printed, read, _⟩ := prints
  have bound : value < base ^ digits.length := read_numeral_lt read
  have longer : base ^ digits.length ≤ base ^ 31 :=
    Nat.pow_le_pow_right (by omega) (print_uint_length_le printed)
  exact Nat.lt_of_lt_of_le bound longer

theorem prints_unsigned_iff (stack : CharBuffer) (output : List UInt8) {value base : Nat}
    (two : 2 ≤ base) (sixteen : base ≤ 16) :
    PrintsUnsigned stack output value base ↔ value < base ^ 31 := by
  constructor
  · exact prints_unsigned_fits two
  · intro fits
    exact ⟨numeral base value, print_uint_eq stack output two sixteen fits,
      read_unsigned_numeral two sixteen value, numeral_no_leading_zero two sixteen value⟩

theorem prints_signed (stack : CharBuffer) (output : List UInt8) (value : UInt32) :
    PrintsSigned stack output (toInt value) := by
  refine ⟨signedNumeral value.toBitVec.toInt, print_int_eq stack output value, ?_⟩
  rw [to_int_eq]
  exact read_signed_numeral _

/-- A word has more than 31 digits only in base 2. -/
theorem word_digits_fit {value base : Nat} (word : value < 2 ^ 32) (two : 2 ≤ base) :
    value < base ^ 31 ↔ (base = 2 → value < 2 ^ 31) := by
  constructor
  · rintro fits rfl
    exact fits
  · intro binary
    by_cases isTwo : base = 2
    · rw [isTwo]
      exact binary isTwo
    · have larger : 3 ^ 31 ≤ base ^ 31 := Nat.pow_le_pow_left (by omega) 31
      omega

/-- In every accepted base the numeral read back is the number, with no zero in
front, except in base 2 from 2 ^ 31 on; the decimal numerals of `int` are exact. -/
theorem numerals_exact_iff (stack : CharBuffer) (output : List UInt8) (word int : UInt32)
    {base : Nat} (two : 2 ≤ base) (sixteen : base ≤ 16) :
    (PrintsUnsigned stack output word.toNat base ↔ (base = 2 → word.toNat < 2 ^ 31)) ∧
      PrintsSigned stack output (toInt int) := by
  refine ⟨?_, prints_signed stack output int⟩
  rw [prints_unsigned_iff stack output two sixteen]
  exact word_digits_fit word.toNat_lt two

def clearStack : CharBuffer where
  bytes := List.replicate 32 0
  size := rfl

theorem numerals_exact_iff_binary :
    (PrintsUnsigned clearStack [] (0x80000000 : UInt32).toNat 2 ↔
        (2 = 2 → (0x80000000 : UInt32).toNat < 2 ^ 31)) ∧
      PrintsSigned clearStack [] (toInt 0x80000000) :=
  numerals_exact_iff clearStack [] 0x80000000 0x80000000 (by decide) (by decide)

/-- The 32 binary digits of 2 ^ 31 do not fit. -/
theorem binary_digit_lost : ¬PrintsUnsigned clearStack [] (0x80000000 : UInt32).toNat 2 := by
  intro exactly
  have fits := prints_unsigned_fits (by decide) exactly
  exact absurd fits (by decide)

end SimplyOs.PrintfReading
