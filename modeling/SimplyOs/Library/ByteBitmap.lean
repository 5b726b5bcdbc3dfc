import Mathlib.Data.Nat.Bitwise
import Mathlib.Logic.Function.Basic
import Mathlib.Tactic.IntervalCases

/-!
# Bitmaps stored in bytes

Bit `index` of a bitmap is bit `index % 8` of byte `index / 8`, tested with a
shifted mask as C code does. An index is a `Fin`, so that no access can leave
the array.
-/

namespace SimplyOs.Library.ByteBitmap

set_option autoImplicit false

/-! ## Bits of one byte -/

def bitMask (position : Nat) : UInt8 := 1 <<< UInt8.ofNat position

def hasBit (byte : UInt8) (position : Nat) : Bool := byte &&& bitMask position != 0

section Bytes

variable {byte : UInt8} {position other : Nat}

theorem bit_mask_toNat (small : position < 8) : (bitMask position).toNat = 2 ^ position := by
  interval_cases position <;> rfl

theorem has_bit_eq (byte : UInt8) (small : position < 8) :
    hasBit byte position = byte.toNat.testBit position := by
  have zero : byte &&& bitMask position = 0 ↔ (byte &&& bitMask position).toNat = 0 :=
    ⟨fun same => by rw [same]; rfl, fun same => UInt8.toNat_inj.mp same⟩
  have value : (byte &&& bitMask position).toNat =
      (byte.toNat.testBit position).toNat * 2 ^ position := by
    rw [UInt8.toNat_and, bit_mask_toNat small, Nat.and_two_pow]
  rw [hasBit, bne]
  cases bit : byte.toNat.testBit position with
  | false => simp [zero, value, bit]
  | true => simp [zero, value, bit]

theorem has_bit_or (small : position < 8) (otherSmall : other < 8) :
    hasBit (byte ||| bitMask position) other = (decide (other = position) || hasBit byte other) := by
  rw [has_bit_eq _ otherSmall, has_bit_eq _ otherSmall, UInt8.toNat_or, Nat.testBit_or,
    bit_mask_toNat small, Nat.testBit_two_pow, Bool.or_comm]
  simp [eq_comm]

theorem has_bit_and_not (small : position < 8) (otherSmall : other < 8) :
    hasBit (byte &&& ~~~bitMask position) other =
      (!decide (other = position) && hasBit byte other) := by
  have mask : (~~~bitMask position).toNat.testBit other = !decide (other = position) := by
    interval_cases position <;> interval_cases other <;> rfl
  rw [has_bit_eq _ otherSmall, has_bit_eq _ otherSmall, UInt8.toNat_and, Nat.testBit_and, mask,
    Bool.and_comm]

theorem byte_ext {left right : UInt8} (same : ∀ position < 8, hasBit left position = hasBit right position) :
    left = right := by
  apply UInt8.toNat_inj.mp
  apply Nat.eq_of_testBit_eq
  intro position
  by_cases small : position < 8
  · rw [← has_bit_eq left small, ← has_bit_eq right small]
    exact same position small
  · have large : 2 ^ 8 ≤ 2 ^ position := Nat.pow_le_pow_right (by decide) (Nat.not_lt.mp small)
    rw [Nat.testBit_lt_two_pow (Nat.lt_of_lt_of_le left.toNat_lt large),
      Nat.testBit_lt_two_pow (Nat.lt_of_lt_of_le right.toNat_lt large)]

theorem has_bit_full (small : position < 8) : hasBit 0xFF position = true := by
  interval_cases position <;> rfl

end Bytes

/-! ## Bits of an array -/

abbrev Bitmap (size : Nat) := Fin size → UInt8

section Arrays

variable {size : Nat} (bitmap : Bitmap size) (index other : Fin (8 * size))

def byteOf : Fin size := ⟨index / 8, Nat.div_lt_of_lt_mul index.isLt⟩

def getBit : Bool := hasBit (bitmap (byteOf index)) (index % 8)

def setBit : Bitmap size :=
  Function.update bitmap (byteOf index) (bitmap (byteOf index) ||| bitMask (index % 8))

def clearBit : Bitmap size :=
  Function.update bitmap (byteOf index) (bitmap (byteOf index) &&& ~~~bitMask (index % 8))

/-- `memset(bitmap, 0xFF, count)`. -/
def fillBytes (count : Nat) : Bitmap size := fun place =>
  if place.val < count then 0xFF else bitmap place

theorem bit_position_lt (index : Nat) : index % 8 < 8 := Nat.mod_lt _ (by decide)

theorem same_index (sameByte : byteOf other = byteOf index) (samePlace : other.val % 8 = index % 8) :
    other = index := by
  have byte := congrArg Fin.val sameByte
  simp only [byteOf] at byte
  exact Fin.ext (by omega)

theorem get_set_bit :
    getBit (setBit bitmap index) other = (decide (other = index) || getBit bitmap other) := by
  unfold getBit setBit
  by_cases sameByte : byteOf other = byteOf index
  · rw [sameByte, Function.update_self, has_bit_or (bit_position_lt _) (bit_position_lt _)]
    congr 1
    by_cases same : other = index
    · simp [same]
    · have differ : other.val % 8 ≠ index % 8 := fun place =>
        same (same_index index other sameByte place)
      simp [same, differ]
  · have differ : other ≠ index := fun same => sameByte (by rw [same])
    rw [Function.update_of_ne sameByte]
    simp [differ]

theorem get_clear_bit :
    getBit (clearBit bitmap index) other = (!decide (other = index) && getBit bitmap other) := by
  unfold getBit clearBit
  by_cases sameByte : byteOf other = byteOf index
  · rw [sameByte, Function.update_self, has_bit_and_not (bit_position_lt _) (bit_position_lt _)]
    congr 1
    by_cases same : other = index
    · simp [same]
    · have differ : other.val % 8 ≠ index % 8 := fun place =>
        same (same_index index other sameByte place)
      simp [same, differ]
  · have differ : other ≠ index := fun same => sameByte (by rw [same])
    rw [Function.update_of_ne sameByte]
    simp [differ]

theorem clear_set_bit (clear : getBit bitmap index = false) :
    clearBit (setBit bitmap index) index = bitmap := by
  funext place
  unfold clearBit setBit
  by_cases here : place = byteOf index
  · rw [here, Function.update_self, Function.update_self]
    apply byte_ext
    intro position small
    rw [has_bit_and_not (bit_position_lt _) small, has_bit_or (bit_position_lt _) small]
    by_cases same : position = index % 8
    · rw [getBit, ← same] at clear
      rw [clear, Bool.or_false, Bool.not_and_self]
    · simp [same]
  · rw [Function.update_of_ne here, Function.update_of_ne here]

theorem get_fill_bytes {count : Nat} (inside : other.val < 8 * count) :
    getBit (fillBytes bitmap count) other = true := by
  have byte : (byteOf other).val < count := Nat.div_lt_of_lt_mul inside
  rw [getBit, fillBytes, if_pos byte, has_bit_full (bit_position_lt _)]

theorem bitmap_ext {left right : Bitmap size} (same : ∀ index, getBit left index = getBit right index) :
    left = right := by
  funext place
  apply byte_ext
  intro position small
  have inside : 8 * place.val + position < 8 * size := by
    have := place.isLt
    omega
  have byte : byteOf ⟨8 * place.val + position, inside⟩ = place := by
    apply Fin.ext
    change (8 * place.val + position) / 8 = place.val
    omega
  have offset : (8 * place.val + position) % 8 = position := by omega
  have bit := same ⟨8 * place.val + position, inside⟩
  rw [getBit, getBit, byte] at bit
  simpa only [offset] using bit

end Arrays

end SimplyOs.Library.ByteBitmap
