import SimplyOs.Library.WordStack

/-!
# Objects in byte memory

An object begins at an address and has a number of bytes; addresses are 32-bit words
and wrap. Two objects lie apart when neither reaches the other on the way up, and then
a store to one keeps the bytes of the other. Parts of an object and the elements of an
array are objects themselves.
-/

namespace SimplyOs.Library.WordObjects

open SimplyOs.Library.WordStack

set_option autoImplicit false

structure Region where
  start : Word
  size : Nat

def Apart (one other : Region) : Prop :=
  one.size ≤ (other.start - one.start).toNat ∧ other.size ≤ (one.start - other.start).toNat

instance (one other : Region) : Decidable (Apart one other) :=
  inferInstanceAs (Decidable (_ ∧ _))

def writeBytes {size : Nat} (memory : Memory) (start : Word) (bytes : Fin size → BitVec 8) :
    Memory := fun place =>
  if inside : (place - start).toNat < size then bytes ⟨(place - start).toNat, inside⟩
  else memory place

def readBytes (memory : Memory) (start : Word) (size : Nat) : Fin size → BitVec 8 := fun offset =>
  memory (above start offset)

/-- The bytes of the object are the same. -/
def Kept (region : Region) (memory after : Memory) : Prop :=
  ∀ offset < region.size, after (above region.start offset) = memory (above region.start offset)

variable {memory between after : Memory} {region one other : Region} {start : Word}
  {whole size offset : Nat}

/-! ## Distances -/

/-- From one address up to another and on around to the first one. -/
theorem distances_around (here there : Word) :
    (here - there).toNat + (there - here).toNat = 2 ^ 32 ∨
      (here - there).toNat = 0 ∧ (there - here).toNat = 0 := by
  have hereSmall := here.isLt
  have thereSmall := there.isLt
  rw [BitVec.toNat_sub, BitVec.toNat_sub]
  omega

theorem distance_above (start base : Word) (inside : (start - base).toNat + offset < 2 ^ 32) :
    (above start offset - base).toNat = (start - base).toNat + offset := by
  have startSmall := start.isLt
  have baseSmall := base.isLt
  rw [above, BitVec.toNat_sub, BitVec.toNat_add, BitVec.toNat_ofNat]
  rw [BitVec.toNat_sub] at inside ⊢
  omega

theorem distance_below (start target : Word) (inside : offset ≤ (target - start).toNat) :
    (target - above start offset).toNat = (target - start).toNat - offset := by
  have startSmall := start.isLt
  have targetSmall := target.isLt
  rw [above, BitVec.toNat_sub, BitVec.toNat_add, BitVec.toNat_ofNat]
  rw [BitVec.toNat_sub] at inside ⊢
  omega

theorem apart_symm (apart : Apart one other) : Apart other one := ⟨apart.2, apart.1⟩

/-- A part of an object lies apart from what the object lies apart from. -/
theorem apart_part (apart : Apart ⟨start, whole⟩ other) (positive : 0 < size)
    (inside : offset + size ≤ whole) : Apart ⟨above start offset, size⟩ other := by
  obtain ⟨reached, back⟩ := apart
  simp only at reached back
  have around := distances_around other.start start
  have below := @distance_below offset start other.start (by omega)
  have up := @distance_above offset start other.start (by omega)
  refine ⟨?_, ?_⟩
  · simp only [below]
    omega
  · simp only [up]
    omega

theorem elements_apart {left right count : Nat} (start : Word) (fits : size * count < 2 ^ 32)
    (leftInside : left < count) (rightInside : right < count) (different : left ≠ right) :
    Apart ⟨above start (size * left), size⟩ ⟨above start (size * right), size⟩ := by
  have leftEnd : size * left + size ≤ size * count := by
    rw [← Nat.mul_succ]
    exact Nat.mul_le_mul_left size leftInside
  have rightEnd : size * right + size ≤ size * count := by
    rw [← Nat.mul_succ]
    exact Nat.mul_le_mul_left size rightInside
  have startSmall := start.isLt
  rcases Nat.lt_or_gt_of_ne different with lower | upper
  · have next : size * left + size ≤ size * right := by
      rw [← Nat.mul_succ]
      exact Nat.mul_le_mul_left size lower
    simp only [Apart, above, BitVec.toNat_sub, BitVec.toNat_add, BitVec.toNat_ofNat]
    omega
  · have next : size * right + size ≤ size * left := by
      rw [← Nat.mul_succ]
      exact Nat.mul_le_mul_left size upper
    simp only [Apart, above, BitVec.toNat_sub, BitVec.toNat_add, BitVec.toNat_ofNat]
    omega

/-! ## Reads behind writes -/

theorem kept_refl (region : Region) (memory : Memory) : Kept region memory memory := fun _ _ => rfl

theorem kept_trans (first : Kept region memory between) (second : Kept region between after) :
    Kept region memory after := fun offset inside =>
  (second offset inside).trans (first offset inside)

theorem kept_write {bytes : Fin size → BitVec 8} (apart : Apart ⟨start, size⟩ region) :
    Kept region memory (writeBytes memory start bytes) := by
  intro offset inside
  obtain ⟨reached, back⟩ := apart
  simp only at reached back
  have around := distances_around region.start start
  have place := @distance_above offset region.start start (by omega)
  have outside : ¬(above region.start offset - start).toNat < size := by omega
  rw [writeBytes, dif_neg outside]

theorem read_kept (kept : Kept ⟨start, whole⟩ memory after) (inside : offset + size ≤ whole) :
    readBytes after (above start offset) size = readBytes memory (above start offset) size := by
  funext place
  have within : offset + place < whole := by omega
  rw [readBytes, readBytes, above_above]
  exact kept _ within

theorem read_same (kept : Kept ⟨start, size⟩ memory after) :
    readBytes after start size = readBytes memory start size := by
  funext offset
  exact kept offset offset.isLt

theorem written_byte (memory : Memory) (start : Word) (bytes : Fin size → BitVec 8)
    (small : size ≤ 2 ^ 32) (offset : Fin size) :
    writeBytes memory start bytes (above start offset) = bytes offset := by
  have distance := above_distance start (Nat.lt_of_lt_of_le offset.isLt small)
  have inside : (above start offset - start).toNat < size := by
    rw [distance]
    exact offset.isLt
  rw [writeBytes, dif_pos inside]
  exact congrArg bytes (Fin.ext distance)

theorem read_written (memory : Memory) (start : Word) (bytes : Fin size → BitVec 8)
    (small : size ≤ 2 ^ 32) : readBytes (writeBytes memory start bytes) start size = bytes := by
  funext offset
  exact written_byte memory start bytes small offset

/-- Of an object filled with one byte every part is. -/
theorem read_filled (memory : Memory) (start : Word) (byte : BitVec 8) (small : whole ≤ 2 ^ 32)
    (inside : offset + size ≤ whole) :
    readBytes (writeBytes memory start fun _ : Fin whole => byte) (above start offset) size =
      fun _ => byte := by
  funext place
  have within : offset + place < whole := by omega
  rw [readBytes, above_above]
  exact written_byte memory start (fun _ => byte) small ⟨offset + place, within⟩

/-- A write to another object leaves what is read. -/
theorem read_apart {width : Nat} {target : Word} {bytes : Fin width → BitVec 8}
    (apart : Apart ⟨target, width⟩ ⟨start, size⟩) :
    readBytes (writeBytes memory target bytes) start size = readBytes memory start size :=
  read_same (kept_write apart)

end SimplyOs.Library.WordObjects
