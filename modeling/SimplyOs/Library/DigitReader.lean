import Mathlib.Algebra.Order.Ring.Nat
import Mathlib.Tactic.Common

/-!
# Reading positional numerals

A numeral over any alphabet is read from its most significant digit on. A symbol
that is no digit of the base makes the whole numeral unreadable.
-/

namespace SimplyOs.Library.DigitReader

set_option autoImplicit false

variable {Symbol : Type*}

/-- The digits in front of the rest of the numeral have the given value. -/
def readDigits (valueOf : Symbol → Option Nat) (base : Nat) : List Symbol → Nat → Option Nat
  | [], value => some value
  | symbol :: rest, value =>
      match valueOf symbol with
      | some digit =>
          if digit < base then readDigits valueOf base rest (value * base + digit) else none
      | none => none

/-- There is no empty numeral. -/
def readNumeral (valueOf : Symbol → Option Nat) (base : Nat) (symbols : List Symbol) :
    Option Nat :=
  if symbols = [] then none else readDigits valueOf base symbols 0

variable {valueOf : Symbol → Option Nat} {base : Nat}

theorem read_digits_append (front behind : List Symbol) (value : Nat) :
    readDigits valueOf base (front ++ behind) value =
      (readDigits valueOf base front value).bind (readDigits valueOf base behind) := by
  induction front generalizing value with
  | nil => rfl
  | cons symbol rest ih =>
      rw [List.cons_append, readDigits, readDigits]
      cases valueOf symbol with
      | none => rfl
      | some digit =>
          simp only
          by_cases small : digit < base
          · rw [if_pos small, if_pos small, ih]
          · rw [if_neg small, if_neg small]
            rfl

theorem read_digits_singleton {symbol : Symbol} {digit : Nat} (is : valueOf symbol = some digit)
    (small : digit < base) (value : Nat) :
    readDigits valueOf base [symbol] value = some (value * base + digit) := by
  simp only [readDigits, is, if_pos small]

/-- Each symbol read makes room for at most `base` times as many values. -/
theorem read_digits_lt (symbols : List Symbol) (value : Nat) {result : Nat}
    (read : readDigits valueOf base symbols value = some result) :
    result < (value + 1) * base ^ symbols.length := by
  induction symbols generalizing value with
  | nil =>
      rw [readDigits, Option.some_inj] at read
      rw [List.length_nil, Nat.pow_zero, ← read]
      omega
  | cons symbol rest ih =>
      rw [readDigits] at read
      cases is : valueOf symbol with
      | none => simp [is] at read
      | some digit =>
          rw [is] at read
          simp only at read
          by_cases small : digit < base
          · rw [if_pos small] at read
            have room : value * base + digit + 1 ≤ (value + 1) * base := by
              rw [Nat.succ_mul]
              omega
            calc result < (value * base + digit + 1) * base ^ rest.length := ih _ read
              _ ≤ (value + 1) * base * base ^ rest.length := Nat.mul_le_mul_right _ room
              _ = (value + 1) * base ^ (rest.length + 1) := by
                  rw [Nat.pow_succ', Nat.mul_assoc]
          · simp [small] at read

theorem read_numeral_lt {symbols : List Symbol} {result : Nat}
    (read : readNumeral valueOf base symbols = some result) : result < base ^ symbols.length := by
  unfold readNumeral at read
  by_cases empty : symbols = []
  · simp [empty] at read
  · rw [if_neg empty] at read
    have bound := read_digits_lt symbols 0 read
    rwa [Nat.zero_add, Nat.one_mul] at bound

end SimplyOs.Library.DigitReader
