import Mathlib.Algebra.Order.Ring.Nat
import Mathlib.Tactic.Common

/-!
# Ring buffers

Two positions move around a fixed number of cells. Equal positions mean that the
buffer is empty, so a push that would make them equal is refused and one cell
always stays free. What is stored is the queue read off from the read position.
-/

namespace SimplyOs.Library.RingBuffer

set_option autoImplicit false

structure Buffer (Item : Type*) where
  cells : Nat → Item
  readPos : Nat
  writePos : Nat

section Buffer

variable {Item : Type*} {size : Nat} {ring : Buffer Item}

def next (size position : Nat) : Nat := (position + 1) % size

structure WellFormed (size : Nat) (ring : Buffer Item) : Prop where
  read : ring.readPos < size
  write : ring.writePos < size

def count (size : Nat) (ring : Buffer Item) : Nat :=
  if ring.readPos ≤ ring.writePos then ring.writePos - ring.readPos
  else size + ring.writePos - ring.readPos

/-- The stored items, the oldest first. -/
def contents (size : Nat) (ring : Buffer Item) : List Item :=
  (List.range (count size ring)).map fun index => ring.cells ((ring.readPos + index) % size)

def put (size : Nat) (ring : Buffer Item) (item : Item) : Buffer Item :=
  { ring with
    cells := fun place => if place = ring.writePos then item else ring.cells place
    writePos := next size ring.writePos }

def push (size : Nat) (ring : Buffer Item) (item : Item) : Buffer Item :=
  if next size ring.writePos = ring.readPos then ring else put size ring item

def advance (size : Nat) (ring : Buffer Item) : Buffer Item :=
  { ring with readPos := next size ring.readPos }

theorem wrap_eq {position : Nat} (small : position < 2 * size) :
    position % size = if position < size then position else position - size := by
  by_cases inside : position < size
  · rw [if_pos inside, Nat.mod_eq_of_lt inside]
  · rw [if_neg inside, Nat.mod_eq_sub_mod (Nat.not_lt.mp inside), Nat.mod_eq_of_lt]
    omega

theorem next_eq {position : Nat} (inside : position < size) :
    next size position = if position + 1 < size then position + 1 else 0 := by
  rw [next, wrap_eq (by omega)]
  by_cases below : position + 1 < size
  · rw [if_pos below, if_pos below]
  · rw [if_neg below, if_neg below]
    omega

theorem next_lt {position : Nat} (inside : position < size) : next size position < size :=
  Nat.mod_lt _ (Nat.zero_lt_of_lt inside)

theorem contents_length : (contents size ring).length = count size ring := by
  rw [contents, List.length_map, List.length_range]

theorem count_lt (wellFormed : WellFormed size ring) : count size ring < size := by
  have read := wellFormed.read
  have write := wellFormed.write
  unfold count
  split_ifs <;> omega

theorem empty_iff (wellFormed : WellFormed size ring) :
    contents size ring = [] ↔ ring.readPos = ring.writePos := by
  have read := wellFormed.read
  have write := wellFormed.write
  rw [← List.length_eq_zero_iff, contents_length]
  unfold count
  split_ifs <;> omega

theorem full_iff (wellFormed : WellFormed size ring) :
    next size ring.writePos = ring.readPos ↔ (contents size ring).length = size - 1 := by
  have read := wellFormed.read
  have write := wellFormed.write
  rw [contents_length, next_eq write]
  unfold count
  by_cases last : ring.writePos + 1 < size
  · rw [if_pos last]
    split_ifs <;> omega
  · rw [if_neg last]
    split_ifs <;> omega

theorem put_well_formed (wellFormed : WellFormed size ring) (item : Item) :
    WellFormed size (put size ring item) :=
  ⟨wellFormed.read, next_lt wellFormed.write⟩

theorem advance_well_formed (wellFormed : WellFormed size ring) :
    WellFormed size (advance size ring) :=
  ⟨next_lt wellFormed.read, wellFormed.write⟩

theorem push_well_formed (wellFormed : WellFormed size ring) (item : Item) :
    WellFormed size (push size ring item) := by
  unfold push
  split
  · exact wellFormed
  · exact put_well_formed wellFormed item

theorem stored_place_ne (wellFormed : WellFormed size ring) {index : Nat}
    (stored : index < count size ring) : (ring.readPos + index) % size ≠ ring.writePos := by
  have read := wellFormed.read
  have write := wellFormed.write
  have below := count_lt wellFormed
  rw [wrap_eq (by omega)]
  unfold count at stored
  split_ifs at stored ⊢ <;> omega

theorem count_put (wellFormed : WellFormed size ring) (item : Item)
    (room : next size ring.writePos ≠ ring.readPos) :
    count size (put size ring item) = count size ring + 1 := by
  have read := wellFormed.read
  have write := wellFormed.write
  have after : count size (put size ring item) =
      if ring.readPos ≤ next size ring.writePos then next size ring.writePos - ring.readPos
      else size + next size ring.writePos - ring.readPos := rfl
  rw [next_eq write] at after room
  rw [after, count]
  by_cases last : ring.writePos + 1 < size
  · rw [if_pos last] at room ⊢
    split_ifs <;> omega
  · rw [if_neg last] at room ⊢
    split_ifs <;> omega

theorem write_place (wellFormed : WellFormed size ring) :
    (ring.readPos + count size ring) % size = ring.writePos := by
  have read := wellFormed.read
  have write := wellFormed.write
  have below := count_lt wellFormed
  rw [wrap_eq (by omega)]
  unfold count
  split_ifs <;> omega

theorem contents_put (wellFormed : WellFormed size ring) (item : Item)
    (room : next size ring.writePos ≠ ring.readPos) :
    contents size (put size ring item) = contents size ring ++ [item] := by
  rw [contents, count_put wellFormed item room, List.range_succ, List.map_append]
  have kept : (List.range (count size ring)).map
        (fun index => (put size ring item).cells (((put size ring item).readPos + index) % size)) =
      contents size ring := by
    apply List.map_congr_left
    intro index member
    exact if_neg (stored_place_ne wellFormed (List.mem_range.mp member))
  have stored : (put size ring item).cells
      (((put size ring item).readPos + count size ring) % size) = item :=
    if_pos (write_place wellFormed)
  rw [kept, List.map_singleton, stored]

/-- A push appends the item, or changes nothing when all but one cell are taken. -/
theorem contents_push (wellFormed : WellFormed size ring) (item : Item) :
    contents size (push size ring item) =
      if (contents size ring).length = size - 1 then contents size ring
      else contents size ring ++ [item] := by
  rw [push]
  by_cases full : next size ring.writePos = ring.readPos
  · rw [if_pos full, if_pos ((full_iff wellFormed).mp full)]
  · rw [if_neg full, if_neg (fun taken => full ((full_iff wellFormed).mpr taken)),
      contents_put wellFormed item full]

/-- The item at the read position is the oldest one, and advancing drops it. -/
theorem contents_advance (wellFormed : WellFormed size ring)
    (filled : ring.readPos ≠ ring.writePos) :
    contents size ring = ring.cells ring.readPos :: contents size (advance size ring) := by
  have read := wellFormed.read
  have write := wellFormed.write
  have after : count size (advance size ring) =
      if next size ring.readPos ≤ ring.writePos then ring.writePos - next size ring.readPos
      else size + ring.writePos - next size ring.readPos := rfl
  have counted : count size ring = count size (advance size ring) + 1 := by
    rw [after, next_eq read, count]
    by_cases last : ring.readPos + 1 < size
    · rw [if_pos last]
      split_ifs <;> omega
    · rw [if_neg last]
      split_ifs <;> omega
  rw [contents, counted, List.range_succ_eq_map, List.map_cons, List.map_map, Nat.add_zero,
    Nat.mod_eq_of_lt read]
  congr 1
  apply List.map_congr_left
  intro index _
  have place : (ring.readPos + (index + 1)) % size = (next size ring.readPos + index) % size := by
    rw [next, Nat.mod_add_mod]
    congr 1
    omega
  exact congrArg ring.cells place

end Buffer

end SimplyOs.Library.RingBuffer
