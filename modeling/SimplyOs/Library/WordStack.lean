import Mathlib.Tactic.IntervalCases
import SimplyOs.Library.WordBytes

/-!
# A descending stack of 32-bit words in byte memory

Addresses are 32-bit words and wrap, and the stack pointer need not be aligned. A
stack is described by the words on it, the top first. A push changes no byte outside
the four bytes below the top, so the words on the stack and everything above the
place where it began stay, as long as it does not reach around the address space.
-/

namespace SimplyOs.Library.WordStack

open SimplyOs.Library.WordBytes

set_option autoImplicit false

abbrev Word := BitVec 32

abbrev Memory := Word → BitVec 8

def readWord (memory : Memory) (address : Word) : Word :=
  memory (address + 3) ++ memory (address + 2) ++ memory (address + 1) ++ memory address

def writeWord (memory : Memory) (address value : Word) : Memory := fun place =>
  if (place - address).toNat < 4 then value.extractLsb' (8 * (place - address).toNat) 8
  else memory place

def above (address : Word) (offset : Nat) : Word := address + BitVec.ofNat 32 offset

section Words

variable {memory other : Memory} {address : Word}

@[simp] theorem above_zero (address : Word) : above address 0 = address := BitVec.add_zero address

theorem above_above (address : Word) (offset further : Nat) :
    above (above address offset) further = above address (offset + further) := by
  rw [above, above, above, BitVec.add_assoc, ← BitVec.ofNat_add]

/-- Below the top of the pushed bytes lies the place four bytes further down. -/
theorem above_pushed (address : Word) (offset : Nat) :
    above (address - 4) (offset + 4) = above address offset := by
  rw [above, above, BitVec.ofNat_add, BitVec.add_comm (BitVec.ofNat 32 offset), ← BitVec.add_assoc]
  exact congrArg (· + BitVec.ofNat 32 offset) (BitVec.sub_add_cancel address 4)

theorem read_word_congr (same : ∀ offset < 4, other (above address offset) =
    memory (above address offset)) : readWord other address = readWord memory address := by
  have lowest := same 0 (by decide)
  rw [above_zero] at lowest
  have first : other (address + 1) = memory (address + 1) := same 1 (by decide)
  have second : other (address + 2) = memory (address + 2) := same 2 (by decide)
  have third : other (address + 3) = memory (address + 3) := same 3 (by decide)
  rw [readWord, readWord, lowest, first, second, third]

theorem above_distance (address : Word) {offset : Nat} (small : offset < 2 ^ 32) :
    (above address offset - address).toNat = offset := by
  rw [above, BitVec.add_comm, BitVec.add_sub_cancel, BitVec.toNat_ofNat, Nat.mod_eq_of_lt small]

theorem write_word_above (memory : Memory) (address value : Word) {offset : Nat}
    (small : offset < 2 ^ 32) :
    writeWord memory address value (above address offset) =
      if offset < 4 then value.extractLsb' (8 * offset) 8 else memory (above address offset) := by
  rw [writeWord, above_distance address small]

theorem read_word_bytes {value : Word}
    (bytes : ∀ offset < 4, memory (above address offset) = byteAt value offset) :
    readWord memory address = value := by
  have lowest := bytes 0 (by decide)
  rw [above_zero] at lowest
  have first : memory (address + 1) = byteAt value 1 := bytes 1 (by decide)
  have second : memory (address + 2) = byteAt value 2 := bytes 2 (by decide)
  have third : memory (address + 3) = byteAt value 3 := bytes 3 (by decide)
  rw [readWord, lowest, first, second, third]
  exact join_word value

theorem read_write_word (memory : Memory) (address value : Word) :
    readWord (writeWord memory address value) address = value := by
  apply read_word_bytes
  intro offset inside
  rw [write_word_above memory address value (Nat.lt_trans inside (by decide)), if_pos inside]
  rfl

end Words

/-! ## Stacks -/

def Holds (memory : Memory) (top : Word) (words : List Word) : Prop :=
  ∀ index word, words[index]? = some word → readWord memory (above top (4 * index)) = word

/-- What was pushed on a stack whose top was `base`, and nothing else, has changed. -/
structure Stacked (initial : Memory) (base : Word) (memory : Memory) (top : Word)
    (words : List Word) : Prop where
  began : base = above top (4 * words.length)
  holds : Holds memory top words
  beyond : ∀ offset < 2 ^ 32 - 4 * words.length,
    memory (above base offset) = initial (above base offset)

section Stacks

variable {initial memory other : Memory} {base top : Word} {words : List Word}

theorem stacked_nil (memory : Memory) (top : Word) : Stacked memory top memory top [] :=
  ⟨(above_zero top).symm, fun _ _ found => absurd found (by simp), fun _ _ => rfl⟩

theorem write_word_beyond {offset : Nat} (value : Word) (small : offset + 4 < 2 ^ 32) :
    writeWord memory (top - 4) value (above top offset) = memory (above top offset) := by
  rw [← above_pushed, write_word_above memory _ value small, if_neg (by omega)]

theorem stacked_push (stacked : Stacked initial base memory top words)
    (room : 4 * words.length + 4 ≤ 2 ^ 32) (value : Word) :
    Stacked initial base (writeWord memory (top - 4) value) (top - 4) (value :: words) := by
  refine ⟨?_, ?_, ?_⟩
  · rw [List.length_cons, Nat.mul_succ, above_pushed]
    exact stacked.began
  · intro index word found
    cases index with
    | zero =>
        rw [List.getElem?_cons_zero, Option.some_inj] at found
        rw [Nat.mul_zero, above_zero, read_write_word, found]
    | succ index =>
        rw [List.getElem?_cons_succ] at found
        have inside : index < words.length := (List.getElem?_eq_some_iff.mp found).1
        rw [Nat.mul_succ, above_pushed, ← stacked.holds index word found]
        apply read_word_congr
        intro offset small
        rw [above_above]
        exact write_word_beyond value (by omega)
  · intro offset small
    rw [List.length_cons] at small
    have place : above base offset = above top (4 * words.length + offset) := by
      rw [stacked.began, above_above]
    rw [← stacked.beyond offset (by omega), place]
    exact write_word_beyond value (by omega)

theorem holds_pop {word : Word} {rest : List Word} (holds : Holds memory top (word :: rest)) :
    readWord memory top = word ∧ Holds memory (top + 4) rest := by
  constructor
  · have first := holds 0 word rfl
    rwa [Nat.mul_zero, above_zero] at first
  · intro index other found
    have later := holds (index + 1) other (by rwa [List.getElem?_cons_succ])
    have place : above (top + 4) (4 * index) = above top (4 * (index + 1)) := by
      have next : top + 4 = above top 4 := rfl
      rw [next, above_above, Nat.mul_succ, Nat.add_comm]
    rw [place]
    exact later

theorem holds_of_same (holds : Holds memory top words)
    (same : ∀ offset < 4 * words.length, other (above top offset) = memory (above top offset)) :
    Holds other top words := by
  intro index word found
  have inside : index < words.length := (List.getElem?_eq_some_iff.mp found).1
  rw [← holds index word found]
  apply read_word_congr
  intro offset small
  rw [above_above]
  exact same _ (by omega)

end Stacks

end SimplyOs.Library.WordStack
