import SimplyOs.Printf

/-!
# Numbers in formatted output

The digit loops write backwards into the buffer, the last digit first. What they
leave behind their position is the canonical numeral of the number.
-/

namespace SimplyOs.PrintfNumerals

open SimplyOs.Word SimplyOs.Printf

set_option autoImplicit false

/-- The canonical numeral in lower case. -/
def numeral (base value : Nat) : List UInt8 := (Nat.toDigits base value).map Char.toUInt8

def signedNumeral (value : Int) : List UInt8 :=
  if value < 0 then 0x2D :: numeral 10 value.natAbs else numeral 10 value.natAbs

section Strings

variable {output data : List UInt8}

theorem read_at_append (front behind : List UInt8) (byte : UInt8) :
    readAt (front ++ byte :: behind) front.length = .ok byte := by
  unfold readAt
  rw [List.getElem?_append_right (Nat.le_refl _), Nat.sub_self]
  rfl

/-- No byte is taken for the end of the output. -/
theorem putchar_result_ne_eof (output : List UInt8) (byte : UInt8) :
    (putchar output byte.toNat).1 ≠ eof := by
  unfold putchar eof
  simp only
  omega

theorem print_loop_eq (front behind : List UInt8) (bytes output : List UInt8) :
    printLoop (front ++ bytes ++ behind) bytes.length front.length output =
      .ok (true, output ++ bytes) := by
  induction bytes generalizing front output with
  | nil =>
      rw [List.append_nil, List.append_nil]
      rfl
  | cons byte bytes ih =>
      have shifted : front ++ byte :: bytes ++ behind = front ++ [byte] ++ bytes ++ behind := by
        simp only [List.append_assoc, List.cons_append, List.nil_append]
      have next := ih (front ++ [byte]) (output ++ [byte])
      rw [List.length_append, List.length_singleton] at next
      have stored : (putchar output byte.toNat).2 = output ++ [byte] := by
        unfold putchar
        rw [UInt8.ofNat_toNat]
      rw [List.length_cons, printLoop]
      have read : readAt (front ++ byte :: bytes ++ behind) front.length = .ok byte := by
        rw [List.append_assoc]
        exact read_at_append front (bytes ++ behind) byte
      rw [read]
      simp only [bind, Except.bind]
      rw [if_neg (putchar_result_ne_eof output byte), stored, shifted, next]
      simp only [List.append_assoc, List.cons_append, List.nil_append]

theorem print_eq (output bytes behind : List UInt8) :
    print output (bytes ++ behind) bytes.length = .ok (true, output ++ bytes) :=
  print_loop_eq [] behind bytes output

theorem strlen_eq {bytes : List UInt8} (behind : List UInt8) (noNul : 0 ∉ bytes) :
    strlen (bytes ++ 0 :: behind) = .ok bytes.length := by
  induction bytes with
  | nil => rfl
  | cons byte bytes ih =>
      rw [List.mem_cons, not_or] at noNul
      have nonzero : byte ≠ 0 := fun zero => noNul.1 zero.symm
      rw [List.cons_append, strlen, if_pos nonzero, ih noNul.2]
      rfl

end Strings

/-! ## Digits -/

section Digits

variable {base : Nat} {byteOf : Nat → UInt8}

theorem numeral_step (two : 2 ≤ base) (value : Nat) :
    numeral base value = (if value / base = 0 then [] else numeral base (value / base)) ++
      [(Nat.digitChar (value % base)).toUInt8] := by
  unfold numeral
  rw [Nat.toDigits_eq_if two]
  by_cases small : value < base
  · rw [if_pos small, if_pos (Nat.div_eq_of_lt small), Nat.mod_eq_of_lt small]
    rfl
  · have more : value / base ≠ 0 := by
      rw [Nat.div_ne_zero_iff]
      omega
    rw [if_neg small, if_neg more, List.map_append, List.map_singleton]

theorem numeral_length_pos (base value : Nat) : 0 < (numeral base value).length := by
  rw [numeral, List.length_map]
  exact Nat.length_toDigits_pos

theorem signed_numeral_length_pos (value : Int) : 0 < (signedNumeral value).length := by
  rw [signedNumeral]
  split
  · exact Nat.succ_pos _
  · exact numeral_length_pos 10 _

theorem digit_loop_eq (two : 2 ≤ base)
    (right : ∀ digit < base, byteOf digit = (Nat.digitChar digit).toUInt8) (pos value : Nat)
    (buffer : List UInt8) (room : pos ≤ buffer.length) (fits : value < base ^ pos) :
    (digitLoop base byteOf pos value buffer).2.drop (digitLoop base byteOf pos value buffer).1 =
      (if value = 0 then [] else numeral base value) ++ buffer.drop pos := by
  induction pos generalizing value buffer with
  | zero =>
      have zero : value = 0 := Nat.lt_one_iff.mp fits
      rw [if_pos zero]
      rfl
  | succ pos ih =>
      rw [digitLoop]
      by_cases zero : value = 0
      · rw [if_neg (not_not.mpr zero), if_pos zero]
        rfl
      · rw [if_pos zero, if_neg zero]
        have smaller : value / base < base ^ pos := by
          rw [Nat.div_lt_iff_lt_mul (by omega)]
          exact fits
        have inside : pos < buffer.length := room
        have later := ih (value / base) (buffer.set pos (byteOf (value % base)))
          (by rw [List.length_set]; omega) smaller
        have written : (buffer.set pos (byteOf (value % base))).drop pos =
            (Nat.digitChar (value % base)).toUInt8 :: buffer.drop (pos + 1) := by
          rw [List.drop_eq_getElem_cons (by rw [List.length_set]; exact inside),
            List.getElem_set_self, right _ (Nat.mod_lt _ (by omega)),
            List.drop_set_of_lt (Nat.lt_succ_self pos)]
        rw [later, written, numeral_step two value, List.append_assoc]
        rfl

theorem digit_char_printable (digit : Nat) (small : digit < 16) :
    0x30 ≤ (Nat.digitChar digit).toUInt8 := by
  have all : ∀ digit < 16, 0x30 ≤ (Nat.digitChar digit).toUInt8 := by decide
  exact all digit small

theorem numeral_printable (two : 2 ≤ base) (sixteen : base ≤ 16) (value : Nat) :
    ∀ c ∈ numeral base value, 0x30 ≤ c := by
  induction value using Nat.strong_induction_on with
  | _ value ih =>
      by_cases zero : value = 0
      · rw [zero, numeral, Nat.toDigits_zero]
        intro c member
        rw [List.mem_singleton.mp member]
        decide
      · have digit := digit_char_printable (value % base)
          (Nat.lt_of_lt_of_le (Nat.mod_lt _ (by omega)) sixteen)
        have earlier := ih (value / base) (Nat.div_lt_self (by omega) two)
        rw [numeral_step two value]
        intro c member
        rcases List.mem_append.mp member with front | last
        · by_cases first : value / base = 0
          · rw [if_pos first] at front
            exact absurd front List.not_mem_nil
          · rw [if_neg first] at front
            exact earlier c front
        · rw [List.mem_singleton.mp last]
          exact digit

theorem numeral_no_nul (two : 2 ≤ base) (sixteen : base ≤ 16) (value : Nat) :
    0 ∉ numeral base value :=
  fun member => absurd (numeral_printable two sixteen value 0 member) (by decide)

/-- Behind the loop's position lies the numeral, with a NUL behind it. -/
theorem digit_string_eq (stack : CharBuffer) (two : 2 ≤ base)
    (right : ∀ digit < base, byteOf digit = (Nat.digitChar digit).toUInt8) {value : Nat}
    (positive : value ≠ 0) (fits : value < base ^ 31) :
    digitString stack base byteOf value = numeral base value ++ [0] := by
  have size := stack.size
  have room : 31 ≤ (stack.bytes.set 31 0).length := by
    rw [List.length_set, size]
    decide
  have last : (stack.bytes.set 31 0).drop 31 = [0] := by
    rw [List.drop_eq_getElem_cons (by rw [List.length_set, size]; decide), List.getElem_set_self,
      List.drop_of_length_le (by rw [List.length_set, size])]
  have written := digit_loop_eq two right 31 value _ room fits
  rw [if_neg positive, last] at written
  exact written

theorem digit_byte_eq : ∀ digit < 16, digitByte digit = (Nat.digitChar digit).toUInt8 := by
  decide

theorem decimal_digit_byte_eq :
    ∀ digit < 10, decimalDigitByte digit = (Nat.digitChar digit).toUInt8 := by
  decide

theorem print_uint_eq (stack : CharBuffer) (output : List UInt8) {value : Nat} (two : 2 ≤ base)
    (sixteen : base ≤ 16) (fits : value < base ^ 31) :
    printUint stack output value base = .ok (true, output ++ numeral base value) := by
  rw [printUint, if_neg (by omega)]
  by_cases zero : value = 0
  · rw [if_pos zero, zero, numeral, Nat.toDigits_zero]
    exact print_eq output [0x30] [0]
  · have str := digit_string_eq stack two
      (fun digit small => digit_byte_eq digit (Nat.lt_of_lt_of_le small sixteen)) zero fits
    rw [if_neg zero, str]
    simp only [strlen_eq [] (numeral_no_nul two sixteen value), bind, Except.bind]
    exact print_eq output (numeral base value) [0]

end Digits

theorem word_fits (value : UInt32) : value.toNat < 10 ^ 31 ∧ value.toNat < 16 ^ 31 := by
  have small := value.toNat_lt
  constructor
  · omega
  · omega

theorem to_int_eq (value : UInt32) : toInt value = value.toBitVec.toInt := by
  rw [toInt, BitVec.toInt_eq_toNat_cond]
  have same : value.toBitVec.toNat = value.toNat := rfl
  rw [same]
  by_cases positive : value.toNat < 2 ^ 31
  · rw [if_pos positive, if_pos (by omega)]
  · rw [if_neg positive, if_neg (by omega)]
    rfl

theorem print_int_eq (stack : CharBuffer) (output : List UInt8) (value : UInt32) :
    printInt stack output (toInt value) =
      .ok (true, output ++ signedNumeral value.toBitVec.toInt) := by
  rw [← to_int_eq, printInt, signedNumeral]
  have small := value.toNat_lt
  have bounds : -2 ^ 31 ≤ toInt value ∧ toInt value < 2 ^ 31 := by
    unfold toInt
    split
    · omega
    · omega
  by_cases negative : toInt value < 0
  · have magnitude : add32 (-(toInt value + 1)).toNat 1 = (toInt value).natAbs := by
      unfold add32
      omega
    have minus : print output [0x2D, 0] 1 = .ok (true, output ++ [0x2D]) := print_eq output [0x2D] [0]
    rw [if_pos negative, if_pos negative, minus]
    simp only [bind, Except.bind, Bool.not_true, Bool.false_eq_true, if_false]
    rw [magnitude, print_uint_eq stack _ (by decide) (by decide) (by omega), List.append_assoc]
    rfl
  · have magnitude : (toInt value).toNat = (toInt value).natAbs := by omega
    rw [if_neg negative, if_neg negative, magnitude,
      print_uint_eq stack _ (by decide) (by decide) (by omega)]

end SimplyOs.PrintfNumerals
