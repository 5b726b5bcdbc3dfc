import Mathlib.Algebra.Order.Ring.Nat
import Mathlib.Tactic.Common

/-!
# Machine words and pages

The kernel is compiled for i386: `size_t`, `uintptr_t` and `uint32_t` are 32-bit
words. A word is modelled by the natural number it denotes, and every addition
or subtraction of the source that can leave the range is written with one of the
wrapping operations below. `PAGING_PAGE_SIZE` and `PMM_PAGE_SIZE` are both 4096.
-/

namespace SimplyOs.Word

set_option autoImplicit false

def add32 (left right : Nat) : Nat := (left + right) % 2 ^ 32

def sub32 (left right : Nat) : Nat := (left + (2 ^ 32 - right % 2 ^ 32)) % 2 ^ 32

def add64 (left right : Nat) : Nat := (left + right) % 2 ^ 64

/-- The cast of a 64-bit value to `uintptr_t`. -/
def toUintptr (value : Nat) : Nat := value % 2 ^ 32

def pageSize : Nat := 4096

theorem add32_eq {left right : Nat} (small : left + right < 2 ^ 32) :
    add32 left right = left + right :=
  Nat.mod_eq_of_lt small

theorem sub32_eq {left right : Nat} (ordered : right ≤ left) (small : left < 2 ^ 32) :
    sub32 left right = left - right := by
  unfold sub32
  omega

end SimplyOs.Word
