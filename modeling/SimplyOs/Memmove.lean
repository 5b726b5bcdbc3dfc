import SimplyOs.Word
import SimplyOs.Library.ByteCopy

/-!
# Copies between overlapping ranges

Transcription of `libc/string/memmove.c`. Each loop has its own invariant: the
memory is the original one with the bytes copied that the loop has passed.
-/

namespace SimplyOs.Memmove

open SimplyOs.Word SimplyOs.Library.ByteMemory SimplyOs.Library.ByteCopy

set_option autoImplicit false

/-- `for (i = 0; i < size; i++) dst[i] = src[i]`, with `count` rounds to go. -/
def memmoveUp (dst src : Nat) : (count i : Nat) → Memory → Memory
  | 0, _, memory => memory
  | count + 1, i, memory =>
      memmoveUp dst src count (i + 1) (store8 memory (add32 dst i) (memory (add32 src i)))

/-- `for (i = size; i != 0; i--) dst[i-1] = src[i-1]`. -/
def memmoveDown (dst src : Nat) : (i : Nat) → Memory → Memory
  | 0, memory => memory
  | i + 1, memory =>
      memmoveDown dst src i (store8 memory (add32 dst i) (memory (add32 src i)))

/-- The returned pointer and the memory. -/
def memmove (memory : Memory) (dst src size : Nat) : Nat × Memory :=
  if dst < src then (dst, memmoveUp dst src size 0 memory)
  else (dst, memmoveDown dst src size memory)

section Loops

variable {memory : Memory} {dst src size : Nat}

theorem memmove_up_eq (below : dst < src) (srcFits : src + size ≤ 2 ^ 32) (count i : Nat)
    (rounds : i + count = size) :
    memmoveUp dst src count i (copied memory dst src 0 i) = copied memory dst src 0 size := by
  induction count generalizing i with
  | zero =>
      rw [Nat.add_zero] at rounds
      rw [memmoveUp, rounds]
  | succ count ih =>
      rw [memmoveUp, add32_eq (by omega), add32_eq (by omega), copied_up below (Nat.zero_le i)]
      exact ih (i + 1) (by omega)

theorem memmove_down_eq (above : src ≤ dst) (dstFits : dst + size ≤ 2 ^ 32) (i : Nat)
    (inside : i ≤ size) :
    memmoveDown dst src i (copied memory dst src i size) = copied memory dst src 0 size := by
  induction i with
  | zero => rfl
  | succ i ih =>
      rw [memmoveDown, add32_eq (by omega), add32_eq (by omega), copied_down above inside]
      exact ih (Nat.le_of_succ_le inside)

theorem memmove_eq (dstFits : dst + size ≤ 2 ^ 32) (srcFits : src + size ≤ 2 ^ 32) :
    memmove memory dst src size = (dst, copied memory dst src 0 size) := by
  unfold memmove
  by_cases below : dst < src
  · have up := @memmove_up_eq memory dst src size below srcFits size 0 (Nat.zero_add size)
    rw [copied_none] at up
    rw [if_pos below, up]
  · have down := @memmove_down_eq memory dst src size (Nat.not_lt.mp below) dstFits size
      (Nat.le_refl size)
    rw [copied_none] at down
    rw [if_neg below, down]

end Loops

/-- Each destination byte holds what its source byte held before the call, and
every other byte is unchanged. -/
theorem memmove_simultaneous (memory : Memory) {dst src size : Nat}
    (dstFits : dst + size ≤ 2 ^ 32) (srcFits : src + size ≤ 2 ^ 32) :
    (memmove memory dst src size).1 = dst ∧
      (∀ i < size, (memmove memory dst src size).2 (dst + i) = memory (src + i)) ∧
      ∀ place, place < dst ∨ dst + size ≤ place →
        (memmove memory dst src size).2 place = memory place := by
  rw [memmove_eq dstFits srcFits]
  refine ⟨rfl, ?_, ?_⟩
  · intro i inside
    exact copied_inside (Nat.zero_le i) inside
  · intro place outside
    exact copied_outside outside

/-- A range that ends with the address space, moved down by one byte. -/
theorem memmove_simultaneous_overlap :
    (memmove (fun place => UInt8.ofNat place) 0xFFFFFFF7 0xFFFFFFF8 8).1 = 0xFFFFFFF7 ∧
      (∀ i < 8, (memmove (fun place => UInt8.ofNat place) 0xFFFFFFF7 0xFFFFFFF8 8).2
        (0xFFFFFFF7 + i) = UInt8.ofNat (0xFFFFFFF8 + i)) ∧
      ∀ place, place < 0xFFFFFFF7 ∨ 0xFFFFFFF7 + 8 ≤ place →
        (memmove (fun place => UInt8.ofNat place) 0xFFFFFFF7 0xFFFFFFF8 8).2 place =
          UInt8.ofNat place :=
  memmove_simultaneous _ (by decide) (by decide)

end SimplyOs.Memmove
