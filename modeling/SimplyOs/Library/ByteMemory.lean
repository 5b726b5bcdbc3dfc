import Mathlib.Tactic.Common
import Mathlib.Tactic.IntervalCases

/-!
# Byte memory with little-endian 32-bit words

A memory is a total map from addresses to bytes. Words are kept as natural
numbers below `2 ^ 32`, so that the address arithmetic of a client stays in
`Nat`. Every law is either the value read back at the stored place or an
agreement outside the stored bytes; no law mentions who owns a byte.
-/

namespace SimplyOs.Library.ByteMemory

set_option autoImplicit false

abbrev Memory := Nat → UInt8

def load32 (memory : Memory) (address : Nat) : Nat :=
  (memory address).toNat + 256 * (memory (address + 1)).toNat +
    65536 * (memory (address + 2)).toNat + 16777216 * (memory (address + 3)).toNat

def load64 (memory : Memory) (address : Nat) : Nat :=
  load32 memory address + 2 ^ 32 * load32 memory (address + 4)

/-- Byte `index` of a word, counted from its least significant byte. -/
def wordByte (word index : Nat) : UInt8 := UInt8.ofNat (word / 256 ^ index)

def store8 (memory : Memory) (address : Nat) (value : UInt8) : Memory := fun place =>
  if place = address then value else memory place

def store32 (memory : Memory) (address word : Nat) : Memory := fun place =>
  if address ≤ place ∧ place < address + 4 then wordByte word (place - address)
  else memory place

def fill (memory : Memory) (start size : Nat) (value : UInt8) : Memory := fun place =>
  if start ≤ place ∧ place < start + size then value else memory place

/-- Two memories hold the same bytes on `[low, high)`. -/
def Agree (low high : Nat) (memory other : Memory) : Prop :=
  ∀ place, low ≤ place → place < high → other place = memory place

section Agreement

variable {low high : Nat} {memory other third : Memory}

theorem agree_refl : Agree low high memory memory := fun _ _ _ => rfl

theorem agree_trans (first : Agree low high memory other) (second : Agree low high other third) :
    Agree low high memory third := fun place above below =>
  (second place above below).trans (first place above below)

theorem agree_mono {innerLow innerHigh : Nat} (same : Agree low high memory other)
    (lower : low ≤ innerLow) (upper : innerHigh ≤ high) : Agree innerLow innerHigh memory other :=
  fun place above below => same place (by omega) (by omega)

theorem agree_store8 {address : Nat} {value : UInt8}
    (outside : address < low ∨ high ≤ address) :
    Agree low high memory (store8 memory address value) := by
  intro place above below
  exact if_neg (by omega)

theorem agree_store32 {address word : Nat} (outside : address + 4 ≤ low ∨ high ≤ address) :
    Agree low high memory (store32 memory address word) := by
  intro place above below
  exact if_neg (by omega)

theorem agree_fill {start size : Nat} {value : UInt8}
    (outside : start + size ≤ low ∨ high ≤ start) :
    Agree low high memory (fill memory start size value) := by
  intro place above below
  exact if_neg (by omega)

theorem load32_of_agree (address : Nat) (same : Agree low high memory other)
    (lower : low ≤ address) (upper : address + 4 ≤ high) :
    load32 other address = load32 memory address := by
  have first := same address (by omega) (by omega)
  have second := same (address + 1) (by omega) (by omega)
  have third := same (address + 2) (by omega) (by omega)
  have fourth := same (address + 3) (by omega) (by omega)
  simp only [load32, first, second, third, fourth]

theorem load64_of_agree (address : Nat) (same : Agree low high memory other)
    (lower : low ≤ address) (upper : address + 8 ≤ high) :
    load64 other address = load64 memory address := by
  rw [load64, load64, load32_of_agree address same lower (by omega),
    load32_of_agree (address + 4) same (by omega) (by omega)]

end Agreement

theorem word_byte_toNat (word index : Nat) :
    (wordByte word index).toNat = word / 256 ^ index % 256 := by
  simp [wordByte]

theorem load32_lt (memory : Memory) (address : Nat) : load32 memory address < 2 ^ 32 := by
  have b0 := (memory address).toNat_lt
  have b1 := (memory (address + 1)).toNat_lt
  have b2 := (memory (address + 2)).toNat_lt
  have b3 := (memory (address + 3)).toNat_lt
  unfold load32
  omega

@[simp] theorem load32_store32 (memory : Memory) (address word : Nat) :
    load32 (store32 memory address word) address = word % 2 ^ 32 := by
  have stored (offset : Nat) (small : offset < 4) :
      (store32 memory address word (address + offset)).toNat = word / 256 ^ offset % 256 := by
    rw [store32, if_pos (by omega), Nat.add_sub_cancel_left, word_byte_toNat]
  have lowest := stored 0 (by omega)
  rw [Nat.add_zero, pow_zero, Nat.div_one] at lowest
  rw [load32, lowest, stored 1 (by omega), stored 2 (by omega), stored 3 (by omega)]
  omega

theorem load32_store32_of_disjoint {memory : Memory} {word : Nat} (address place : Nat)
    (disjoint : address + 4 ≤ place ∨ place + 4 ≤ address) :
    load32 (store32 memory address word) place = load32 memory place := by
  have same : Agree place (place + 4) memory (store32 memory address word) :=
    agree_store32 (by omega)
  exact load32_of_agree place same (Nat.le_refl _) (Nat.le_refl _)

theorem load32_store8_of_disjoint {memory : Memory} {value : UInt8} (address place : Nat)
    (disjoint : address < place ∨ place + 4 ≤ address) :
    load32 (store8 memory address value) place = load32 memory place := by
  have same : Agree place (place + 4) memory (store8 memory address value) :=
    agree_store8 (by omega)
  exact load32_of_agree place same (Nat.le_refl _) (Nat.le_refl _)

theorem load32_fill_zero {memory : Memory} {start size place : Nat}
    (lower : start ≤ place) (upper : place + 4 ≤ start + size) :
    load32 (fill memory start size 0) place = 0 := by
  have inside (offset : Nat) (small : offset < 4) :
      fill memory start size 0 (place + offset) = 0 := if_pos (by omega)
  simp only [load32, inside 1 (by omega), inside 2 (by omega), inside 3 (by omega)]
  rw [← Nat.add_zero place, inside 0 (by omega)]
  rfl

@[simp] theorem store8_same (memory : Memory) (address : Nat) (value : UInt8) :
    store8 memory address value address = value := if_pos rfl

theorem store8_of_ne {memory : Memory} {address place : Nat} {value : UInt8}
    (different : place ≠ address) : store8 memory address value place = memory place :=
  if_neg different

theorem store32_outside {memory : Memory} {word : Nat} (address place : Nat)
    (outside : place < address ∨ address + 4 ≤ place) :
    store32 memory address word place = memory place :=
  if_neg (by omega)

end SimplyOs.Library.ByteMemory
