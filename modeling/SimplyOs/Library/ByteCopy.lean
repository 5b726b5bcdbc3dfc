import SimplyOs.Library.ByteMemory

/-!
# Simultaneous copies

A copy that reads all of its source before it writes, with the part of it that a
byte-by-byte loop has done so far. Going up is safe when the destination starts
in front of the source, going down when it does not.
-/

namespace SimplyOs.Library.ByteCopy

open SimplyOs.Library.ByteMemory

set_option autoImplicit false

/-- The bytes `[low, high)` of the copy from `src` to `dst` are done. -/
def copied (memory : Memory) (dst src low high : Nat) : Memory := fun place =>
  if dst + low ≤ place ∧ place < dst + high then memory (src + (place - dst)) else memory place

variable {memory : Memory} {dst src low high : Nat}

theorem copied_none (memory : Memory) (dst src index : Nat) :
    copied memory dst src index index = memory := by
  funext place
  exact if_neg (by omega)

theorem copied_inside {index : Nat} (lower : low ≤ index) (upper : index < high) :
    copied memory dst src low high (dst + index) = memory (src + index) := by
  have inside : dst + low ≤ dst + index ∧ dst + index < dst + high := by omega
  rw [copied, if_pos inside, Nat.add_sub_cancel_left]

theorem copied_outside {place : Nat} (outside : place < dst + low ∨ dst + high ≤ place) :
    copied memory dst src low high place = memory place :=
  if_neg (by omega)

/-- One more byte at the upper end: no source byte from there on is overwritten yet. -/
theorem copied_up (below : dst < src) (ordered : low ≤ high) :
    store8 (copied memory dst src low high) (dst + high)
      (copied memory dst src low high (src + high)) = copied memory dst src low (high + 1) := by
  have intact : copied memory dst src low high (src + high) = memory (src + high) :=
    copied_outside (Or.inr (by omega))
  rw [intact]
  funext place
  by_cases here : place = dst + high
  · rw [here, store8_same, copied_inside ordered (Nat.lt_succ_self high)]
  · rw [store8_of_ne here]
    unfold copied
    congr 1
    simp only [eq_iff_iff]
    omega

/-- One more byte at the lower end: no source byte up to there is overwritten yet. -/
theorem copied_down (above : src ≤ dst) (ordered : low < high) :
    store8 (copied memory dst src (low + 1) high) (dst + low)
      (copied memory dst src (low + 1) high (src + low)) = copied memory dst src low high := by
  have intact : copied memory dst src (low + 1) high (src + low) = memory (src + low) :=
    copied_outside (Or.inl (by omega))
  rw [intact]
  funext place
  by_cases here : place = dst + low
  · rw [here, store8_same, copied_inside (Nat.le_refl low) ordered]
  · rw [store8_of_ne here]
    unfold copied
    congr 1
    simp only [eq_iff_iff]
    omega

end SimplyOs.Library.ByteCopy
