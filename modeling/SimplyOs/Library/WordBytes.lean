import Mathlib.Algebra.Order.Ring.Nat
import Mathlib.Tactic.Common

/-!
# Words as bytes

The bytes of a word, counted from its low end. Bitwise operations act on each byte
by itself and shifts by whole bytes move bytes, so a word that is put together from
masked and shifted parts is read off byte by byte.
-/

namespace SimplyOs.Library.WordBytes

set_option autoImplicit false

variable {width : Nat}

def byteAt (word : BitVec width) (place : Nat) : BitVec 8 := word.extractLsb' (8 * place) 8

theorem byte_at_bit (word : BitVec width) (place : Nat) {bit : Nat} (inside : bit < 8) :
    (byteAt word place).getLsbD bit = word.getLsbD (8 * place + bit) := by
  rw [byteAt, BitVec.getLsbD_extractLsb', decide_eq_true inside, Bool.true_and]

theorem byte_at_or (left right : BitVec width) (place : Nat) :
    byteAt (left ||| right) place = byteAt left place ||| byteAt right place := by
  apply BitVec.eq_of_getLsbD_eq
  intro bit inside
  rw [BitVec.getLsbD_or, byte_at_bit _ _ inside, byte_at_bit _ _ inside, byte_at_bit _ _ inside,
    BitVec.getLsbD_or]

theorem byte_at_and (left right : BitVec width) (place : Nat) :
    byteAt (left &&& right) place = byteAt left place &&& byteAt right place := by
  apply BitVec.eq_of_getLsbD_eq
  intro bit inside
  rw [BitVec.getLsbD_and, byte_at_bit _ _ inside, byte_at_bit _ _ inside, byte_at_bit _ _ inside,
    BitVec.getLsbD_and]

theorem byte_at_shift_left (word : BitVec width) {place amount : Nat} (whole : amount % 8 = 0)
    (reached : amount / 8 ≤ place) (inside : 8 * (place + 1) ≤ width) :
    byteAt (word <<< amount) place = byteAt word (place - amount / 8) := by
  apply BitVec.eq_of_getLsbD_eq
  intro bit small
  have within : 8 * place + bit < width := by omega
  have reachedBit : ¬8 * place + bit < amount := by omega
  have source : 8 * place + bit - amount = 8 * (place - amount / 8) + bit := by omega
  rw [byte_at_bit _ _ small, byte_at_bit _ _ small, BitVec.getLsbD_shiftLeft,
    decide_eq_true within, decide_eq_false reachedBit, source]
  rfl

theorem byte_at_shift_left_low (word : BitVec width) {place amount : Nat} (whole : amount % 8 = 0)
    (below : place < amount / 8) : byteAt (word <<< amount) place = 0#8 := by
  apply BitVec.eq_of_getLsbD_eq
  intro bit small
  have belowBit : 8 * place + bit < amount := by omega
  rw [byte_at_bit _ _ small, BitVec.getLsbD_shiftLeft, decide_eq_true belowBit, Bool.not_true,
    Bool.and_false, Bool.false_and, BitVec.getLsbD_zero]

theorem byte_at_shift_right (word : BitVec width) (place : Nat) {amount : Nat}
    (whole : amount % 8 = 0) : byteAt (word >>> amount) place = byteAt word (amount / 8 + place) := by
  apply BitVec.eq_of_getLsbD_eq
  intro bit small
  have source : amount + (8 * place + bit) = 8 * (amount / 8 + place) + bit := by omega
  rw [byte_at_bit _ _ small, byte_at_bit _ _ small, BitVec.getLsbD_ushiftRight, source]

/-- A cast keeps the bytes that fit. -/
theorem byte_at_cast (word : BitVec width) {place other : Nat} (inside : 8 * (place + 1) ≤ other) :
    byteAt (word.setWidth other) place = byteAt word place := by
  apply BitVec.eq_of_getLsbD_eq
  intro bit small
  have within : 8 * place + bit < other := by omega
  rw [byte_at_bit _ _ small, byte_at_bit _ _ small, BitVec.getLsbD_setWidth, decide_eq_true within,
    Bool.true_and]

theorem byte_at_outside (word : BitVec width) {place : Nat} (outside : width ≤ 8 * place) :
    byteAt word place = 0#8 := by
  apply BitVec.eq_of_getLsbD_eq
  intro bit small
  rw [byte_at_bit _ _ small, BitVec.getLsbD_of_ge _ _ (by omega), BitVec.getLsbD_zero]

theorem byte_at_constant (value : Nat) {place : Nat} (inside : 8 * (place + 1) ≤ width) :
    byteAt (BitVec.ofNat width value) place =
      BitVec.ofNat 8 (value / 2 ^ (8 * place) % 2 ^ 8) := by
  apply BitVec.eq_of_getLsbD_eq
  intro bit small
  have within : 8 * place + bit < width := by omega
  rw [byte_at_bit _ _ small, BitVec.getLsbD_ofNat, BitVec.getLsbD_ofNat, decide_eq_true within,
    decide_eq_true small, Nat.testBit_mod_two_pow, decide_eq_true small, Bool.true_and,
    Bool.true_and, Bool.true_and, Nat.testBit_div_two_pow, Nat.add_comm]

theorem byte_at_byte (byte : BitVec 8) : byteAt byte 0 = byte := by
  apply BitVec.eq_of_getLsbD_eq
  intro bit small
  rw [byte_at_bit _ _ small, Nat.mul_zero, Nat.zero_add]

theorem cast_byte (word : BitVec width) : word.setWidth 8 = byteAt word 0 := by
  rw [← byte_at_byte (word.setWidth 8), byte_at_cast word (by decide)]

theorem word_ext {left right : BitVec width} (count : Nat) (whole : width = 8 * count)
    (same : ∀ place < count, byteAt left place = byteAt right place) : left = right := by
  apply BitVec.eq_of_getLsbD_eq
  intro index inside
  have place : index / 8 < count := by omega
  have bit : index % 8 < 8 := Nat.mod_lt _ (by decide)
  have split := Nat.div_add_mod index 8
  rw [← split, ← byte_at_bit left _ bit, ← byte_at_bit right _ bit, same _ place]

/-- The bytes of a word, one behind the other, are the word. -/
theorem join_half (word : BitVec 16) : byteAt word 1 ++ byteAt word 0 = word :=
  (BitVec.extractLsb'_append_extractLsb'_eq_extractLsb' rfl).trans BitVec.extractLsb'_eq_self

theorem join_word (word : BitVec 32) :
    byteAt word 3 ++ byteAt word 2 ++ byteAt word 1 ++ byteAt word 0 = word := by
  have upper : byteAt word 3 ++ byteAt word 2 = word.extractLsb' 16 16 :=
    BitVec.extractLsb'_append_extractLsb'_eq_extractLsb' rfl
  have middle : word.extractLsb' 16 16 ++ byteAt word 1 = word.extractLsb' 8 24 :=
    BitVec.extractLsb'_append_extractLsb'_eq_extractLsb' rfl
  have whole : word.extractLsb' 8 24 ++ byteAt word 0 = word.extractLsb' 0 32 :=
    BitVec.extractLsb'_append_extractLsb'_eq_extractLsb' rfl
  calc byteAt word 3 ++ byteAt word 2 ++ byteAt word 1 ++ byteAt word 0
      = word.extractLsb' 16 16 ++ byteAt word 1 ++ byteAt word 0 := by rw [upper]
    _ = word.extractLsb' 8 24 ++ byteAt word 0 := by rw [middle]
    _ = word := whole.trans BitVec.extractLsb'_eq_self

end SimplyOs.Library.WordBytes
