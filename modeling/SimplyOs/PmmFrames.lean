import Mathlib.Data.Finset.Card
import Mathlib.Data.Finset.Range
import SimplyOs.Library.LastWriter
import SimplyOs.Pmm

/-!
# The state of every frame

Each operation of the allocator is described by what it makes of the state of a
single frame. `pmm_init_used` is the closed form of `pmm_init`: the last entry of
the memory map whose frame range contains a frame decides, then the fallback,
then the reservations.
-/

namespace SimplyOs.PmmFrames

open SimplyOs.Word SimplyOs.Multiboot SimplyOs.Pmm SimplyOs.Library.ByteBitmap
open SimplyOs.Library.LastWriter

set_option autoImplicit false

def usedFrames (pmm : PmmState) : Finset Nat :=
  (Finset.range pmm.frameCount).filter fun frame => frameUsed pmm frame = true

def Counted (pmm : PmmState) : Prop := pmm.usedCount = (usedFrames pmm).card

/-- One state arises from another by giving each frame below the count the state
that `mark` says. -/
structure Marked (pmm after : PmmState) (mark : Nat → Bool → Bool) : Prop where
  frameCount : after.frameCount = pmm.frameCount
  used : ∀ frame < pmm.frameCount, frameUsed after frame = mark frame (frameUsed pmm frame)
  counted : Counted pmm → Counted after

theorem marked_refl (pmm : PmmState) : Marked pmm pmm fun _ old => old :=
  ⟨rfl, fun _ _ => rfl, id⟩

theorem marked_trans {first second third : PmmState} {one two : Nat → Bool → Bool}
    (before : Marked first second one) (later : Marked second third two) :
    Marked first third fun frame old => two frame (one frame old) := by
  refine ⟨later.frameCount.trans before.frameCount, ?_, fun counted => later.counted
    (before.counted counted)⟩
  intro frame inside
  rw [later.used frame (by rw [before.frameCount]; exact inside), before.used frame inside]

theorem marked_congr {pmm after : PmmState} {mark other : Nat → Bool → Bool}
    (marked : Marked pmm after mark)
    (same : ∀ frame < pmm.frameCount, ∀ old, mark frame old = other frame old) :
    Marked pmm after other :=
  ⟨marked.frameCount, fun frame inside => (marked.used frame inside).trans (same frame inside _),
    marked.counted⟩

/-! ## One frame -/

theorem frame_inside_bitmap (pmm : PmmState) {frame : Nat} (inside : frame < pmm.frameCount) :
    frame < 8 * bitmapBytes :=
  Nat.lt_of_lt_of_le inside pmm.bounded

theorem frame_used_set (pmm : PmmState) {frame : Nat} (inside : frame < pmm.frameCount)
    (used : Bool) (other : Nat) :
    frameUsed (pmmSetUsed pmm frame used) other =
      if other = frame then used else frameUsed pmm other := by
  have stored := frame_inside_bitmap pmm inside
  by_cases otherStored : other < 8 * bitmapBytes
  · cases used with
    | false =>
        simp only [pmmSetUsed, dif_pos inside, frameUsed, dif_pos otherStored, get_clear_bit,
          Fin.mk.injEq, Bool.false_eq_true, if_false]
        by_cases same : other = frame
        · simp [same]
        · simp [same]
    | true =>
        simp only [pmmSetUsed, dif_pos inside, frameUsed, dif_pos otherStored, get_set_bit,
          Fin.mk.injEq, if_true]
        by_cases same : other = frame
        · simp [same]
        · simp [same]
  · have differ : other ≠ frame := fun same => otherStored (by rw [same]; exact stored)
    simp [frameUsed, otherStored, differ]

theorem frame_count_set (pmm : PmmState) (frame : Nat) (used : Bool) :
    (pmmSetUsed pmm frame used).frameCount = pmm.frameCount := by
  unfold pmmSetUsed
  by_cases inside : frame < pmm.frameCount
  · cases used <;> simp [inside]
  · simp [inside]

theorem mem_used_frames {pmm : PmmState} {frame : Nat} :
    frame ∈ usedFrames pmm ↔ frame < pmm.frameCount ∧ frameUsed pmm frame = true := by
  simp [usedFrames]

theorem used_frames_card_le (pmm : PmmState) : (usedFrames pmm).card ≤ pmm.frameCount := by
  have subset := Finset.card_filter_le (Finset.range pmm.frameCount)
    fun frame => frameUsed pmm frame = true
  rwa [Finset.card_range] at subset

theorem used_frames_set_true (pmm : PmmState) {frame : Nat} (inside : frame < pmm.frameCount) :
    usedFrames (pmmSetUsed pmm frame true) = insert frame (usedFrames pmm) := by
  ext other
  rw [Finset.mem_insert, mem_used_frames, mem_used_frames, frame_count_set,
    frame_used_set pmm inside]
  by_cases same : other = frame
  · simp [same, inside]
  · simp [same]

theorem used_frames_set_false (pmm : PmmState) {frame : Nat} (inside : frame < pmm.frameCount) :
    usedFrames (pmmSetUsed pmm frame false) = (usedFrames pmm).erase frame := by
  ext other
  rw [Finset.mem_erase, mem_used_frames, mem_used_frames, frame_count_set,
    frame_used_set pmm inside]
  by_cases same : other = frame
  · simp [same]
  · simp [same]

theorem set_used_count (pmm : PmmState) {frame : Nat} (inside : frame < pmm.frameCount)
    (used : Bool) :
    (pmmSetUsed pmm frame used).usedCount =
      if used then
        if frameUsed pmm frame then pmm.usedCount else add32 pmm.usedCount 1
      else if frameUsed pmm frame then sub32 pmm.usedCount 1 else pmm.usedCount := by
  have stored := frame_inside_bitmap pmm inside
  cases used with
  | false => simp [pmmSetUsed, inside, frameUsed, stored]
  | true =>
      simp only [pmmSetUsed, dif_pos inside, frameUsed, dif_pos stored, if_true]
      cases getBit pmm.bitmap ⟨frame, stored⟩ <;> rfl

theorem counted_set (pmm : PmmState) (frame : Nat) (used : Bool) (counted : Counted pmm) :
    Counted (pmmSetUsed pmm frame used) := by
  have bounded := pmm.bounded
  have room := used_frames_card_le pmm
  simp only [pmmMaxFrames] at bounded
  by_cases inside : frame < pmm.frameCount
  · unfold Counted at counted ⊢
    rw [set_used_count pmm inside, counted]
    cases used with
    | true =>
        rw [used_frames_set_true pmm inside]
        cases already : frameUsed pmm frame with
        | true =>
            have member := mem_used_frames.mpr ⟨inside, already⟩
            simp only [if_true, Finset.insert_eq_of_mem member]
        | false =>
            have fresh : frame ∉ usedFrames pmm := fun member => by
              simp [mem_used_frames, already] at member
            simp only [if_true, Bool.false_eq_true, if_false, Finset.card_insert_of_notMem fresh]
            exact add32_eq (by omega)
    | false =>
        rw [used_frames_set_false pmm inside]
        cases already : frameUsed pmm frame with
        | true =>
            have member := mem_used_frames.mpr ⟨inside, already⟩
            have positive : 1 ≤ (usedFrames pmm).card := Finset.card_pos.mpr ⟨frame, member⟩
            simp only [if_true, Bool.false_eq_true, if_false, Finset.card_erase_of_mem member]
            exact sub32_eq positive (by omega)
        | false =>
            have absent : frame ∉ usedFrames pmm := fun member => by
              simp [mem_used_frames, already] at member
            simp only [Bool.false_eq_true, if_false, Finset.erase_eq_of_notMem absent]
  · unfold pmmSetUsed
    rwa [dif_neg inside]

theorem set_used_back (pmm : PmmState) {frame : Nat} (inside : frame < pmm.frameCount)
    (unused : frameUsed pmm frame = false) (counted : Counted pmm) :
    pmmSetUsed (pmmSetUsed pmm frame true) frame false = pmm := by
  have bounded := pmm.bounded
  have room := used_frames_card_le pmm
  have stored := frame_inside_bitmap pmm inside
  have count : sub32 (add32 pmm.usedCount 1) 1 = pmm.usedCount := by
    simp only [pmmMaxFrames] at bounded
    rw [counted, add32_eq (by omega), sub32_eq (by omega) (by omega)]
    exact Nat.add_sub_cancel _ _
  have bit : getBit pmm.bitmap ⟨frame, stored⟩ = false := by
    simpa only [frameUsed, dif_pos stored] using unused
  have marked : getBit (setBit pmm.bitmap ⟨frame, stored⟩) ⟨frame, stored⟩ = true := by
    rw [get_set_bit]
    simp
  simp only [pmmSetUsed, dif_pos inside, if_true, bit, Bool.false_eq_true, if_false, marked, count,
    clear_set_bit _ _ bit]

/-- A state with an exact counter is determined by its used frames. -/
theorem pmm_state_ext {left right : PmmState} (frameCount : left.frameCount = right.frameCount)
    (leftCounted : Counted left) (rightCounted : Counted right)
    (same : ∀ frame, frameUsed left frame = frameUsed right frame) : left = right := by
  have bitmap : left.bitmap = right.bitmap := by
    apply bitmap_ext
    intro index
    have bit := same index
    rwa [frameUsed, frameUsed, dif_pos index.isLt, dif_pos index.isLt] at bit
  have used : usedFrames left = usedFrames right := by
    rw [usedFrames, usedFrames, frameCount]
    exact Finset.filter_congr fun frame _ => by rw [same frame]
  have usedCount : left.usedCount = right.usedCount := by
    rw [leftCounted, rightCounted, used]
  cases left
  cases right
  simp only at bitmap frameCount usedCount
  subst bitmap frameCount usedCount
  rfl

theorem set_used_marked (pmm : PmmState) (frame : Nat) (used : Bool) :
    Marked pmm (pmmSetUsed pmm frame used) fun other old => if other = frame then used else old := by
  refine ⟨frame_count_set pmm frame used, ?_, counted_set pmm frame used⟩
  intro other otherInside
  by_cases inside : frame < pmm.frameCount
  · exact frame_used_set pmm inside used other
  · have differ : other ≠ frame := by omega
    rw [pmmSetUsed, dif_neg inside, if_neg differ]

/-! ## Ranges of frames -/

theorem fold_set_marked (pmm : PmmState) (frames : List Nat) (used : Bool) :
    Marked pmm (frames.foldl (fun pmm frame => pmmSetUsed pmm frame used) pmm)
      fun frame old => if frame ∈ frames then used else old := by
  induction frames generalizing pmm with
  | nil => exact marked_congr (marked_refl pmm) fun _ _ _ => by simp
  | cons first rest ih =>
      apply marked_congr (marked_trans (set_used_marked pmm first used) (ih _))
      intro frame _ old
      by_cases later : frame ∈ rest
      · simp [later]
      · by_cases same : frame = first
        · simp [same]
        · simp [later, same]

theorem set_frames_marked (pmm : PmmState) (startFrame endFrame : Nat) (used : Bool) :
    Marked pmm (pmmSetFrames pmm startFrame endFrame used)
      fun frame old => if startFrame ≤ frame ∧ frame < endFrame then used else old := by
  apply marked_congr (fold_set_marked pmm _ used)
  intro frame inside old
  have member : frame ∈ List.range' startFrame (min endFrame pmm.frameCount - startFrame) ↔
      startFrame ≤ frame ∧ frame < endFrame := by
    rw [List.mem_range'_1]
    omega
  by_cases between : startFrame ≤ frame ∧ frame < endFrame
  · rw [if_pos (member.mpr between), if_pos between]
  · rw [if_neg (fun inList => between (member.mp inList)), if_neg between]

def regionReserves (region : Nat × Nat) (frame : Nat) : Bool :=
  decide (region.1 < region.2) && decide (addrToFrame region.1 ≤ frame) &&
    decide (frame < reserveEndFrame region.2)

theorem reserve_region_marked (pmm : PmmState) (region : Nat × Nat) :
    Marked pmm (pmmReserveRegion pmm region.1 region.2)
      fun frame old => regionReserves region frame || old := by
  unfold pmmReserveRegion
  by_cases empty : region.2 ≤ region.1
  · rw [if_pos empty]
    apply marked_congr (marked_refl pmm)
    intro frame _ old
    simp [regionReserves, Nat.not_lt.mpr empty]
  · rw [if_neg empty]
    apply marked_congr (set_frames_marked pmm _ _ true)
    intro frame _ old
    simp only [regionReserves, decide_eq_true (Nat.not_le.mp empty), Bool.true_and]
    by_cases between : addrToFrame region.1 ≤ frame ∧ frame < reserveEndFrame region.2
    · rw [if_pos between]
      simp [between.1, between.2]
    · rw [if_neg between]
      simp [between]

theorem reserve_regions_marked (pmm : PmmState) (regions : List (Nat × Nat)) :
    Marked pmm
      (regions.foldl (fun pmm region => pmmReserveRegion pmm region.1 region.2) pmm)
      fun frame old => (regions.any fun region => regionReserves region frame) || old := by
  induction regions generalizing pmm with
  | nil => exact marked_congr (marked_refl pmm) fun _ _ _ => by simp
  | cons region rest ih =>
      apply marked_congr (marked_trans (reserve_region_marked pmm region) (ih _))
      intro frame _ old
      rw [List.any_cons, ← Bool.or_assoc, Bool.or_comm (regionReserves region frame)]

/-! ## The closed form of `pmm_init` -/

def entryCovers (frame : Nat) (entry : MmapEntry) : Bool :=
  decide (regionStartFrame entry.addr ≤ frame) &&
    decide (frame < regionEndFrame entry.addr entry.len)

/-- The last entry, in map order, whose frame range contains the frame. -/
def lastCovering (entries : List MmapEntry) (frame : Nat) : Option MmapEntry :=
  entries.reverse.find? (entryCovers frame)

theorem last_covering_eq (entries : List MmapEntry) (frame : Nat) :
    lastCovering entries frame = lastWriter (entryCovers frame) entries := rfl

def mapFrees (entries : List MmapEntry) (frame : Nat) : Bool :=
  ((lastCovering entries frame).map fun entry => pmmRegionUsable entry.type).getD false

def hasUsable (entries : List MmapEntry) : Bool :=
  entries.any fun entry => pmmRegionUsable entry.type

def fallbackFrees (boot : BootInfo) (frame : Nat) : Bool :=
  !hasUsable (multibootMmap boot) && boot.mbMemUpperKb != 0 &&
    (decide (regionStartFrame kernelPhysicalStart ≤ frame) &&
      decide (frame < regionEndFrame kernelPhysicalStart (memUpperBytes boot)))

def frameReserved (layout : BootLayout) (frame : Nat) : Bool :=
  decide (frame = 0) || (reservedRegions layout).any fun region => regionReserves region frame

theorem apply_entry_marked (state : PmmState × Bool) (entry : MmapEntry) :
    Marked state.1 (pmmApplyEntry state entry).1
        (fun frame old => if entryCovers frame entry then !pmmRegionUsable entry.type else old) ∧
      (pmmApplyEntry state entry).2 = (state.2 || pmmRegionUsable entry.type) := by
  unfold pmmApplyEntry
  have covers (frame : Nat) : entryCovers frame entry = true ↔
      regionStartFrame entry.addr ≤ frame ∧ frame < regionEndFrame entry.addr entry.len := by
    simp [entryCovers]
  cases usable : pmmRegionUsable entry.type with
  | true =>
      refine ⟨?_, by simp⟩
      apply marked_congr (set_frames_marked state.1 _ _ false)
      intro frame _ old
      simp [covers]
  | false =>
      refine ⟨?_, by simp⟩
      apply marked_congr (set_frames_marked state.1 _ _ true)
      intro frame _ old
      simp [covers]

theorem apply_entries_marked (entries : List MmapEntry) (state : PmmState × Bool) :
    Marked state.1 (entries.foldl pmmApplyEntry state).1
        (fun frame old => entries.foldl (fun old entry =>
          if entryCovers frame entry then !pmmRegionUsable entry.type else old) old) ∧
      (entries.foldl pmmApplyEntry state).2 = (state.2 || hasUsable entries) := by
  induction entries generalizing state with
  | nil => exact ⟨marked_refl state.1, by simp [hasUsable]⟩
  | cons entry rest ih =>
      obtain ⟨marked, freed⟩ := apply_entry_marked state entry
      obtain ⟨restMarked, restFreed⟩ := ih (pmmApplyEntry state entry)
      refine ⟨marked_trans marked restMarked, ?_⟩
      have both : hasUsable (entry :: rest) = (pmmRegionUsable entry.type || hasUsable rest) :=
        List.any_cons
      rw [List.foldl_cons, restFreed, freed, both, Bool.or_assoc]

theorem fallback_marked (boot : BootInfo) (state : PmmState × Bool)
    (freed : state.2 = hasUsable (multibootMmap boot)) :
    Marked state.1 (pmmFallback boot state)
      fun frame old => !fallbackFrees boot frame && old := by
  unfold pmmFallback
  rw [freed]
  by_cases applies : (!hasUsable (multibootMmap boot) && boot.mbMemUpperKb != 0) = true
  · rw [if_pos applies]
    apply marked_congr (set_frames_marked state.1 _ _ false)
    intro frame _ old
    simp only [fallbackFrees, applies, Bool.true_and]
    by_cases between : regionStartFrame kernelPhysicalStart ≤ frame ∧
        frame < regionEndFrame kernelPhysicalStart (memUpperBytes boot)
    · rw [if_pos between]
      simp [between.1, between.2]
    · rw [if_neg between]
      have outside : (decide (regionStartFrame kernelPhysicalStart ≤ frame) &&
          decide (frame < regionEndFrame kernelPhysicalStart (memUpperBytes boot))) = false := by
        simpa using between
      simp [outside]
  · rw [if_neg applies]
    apply marked_congr (marked_refl state.1)
    intro frame _ old
    rw [Bool.not_eq_true] at applies
    simp [fallbackFrees, applies]

theorem all_used_marked (pmm : PmmState) (boot : BootInfo) :
    (∀ frame < pmmFrameCount boot, frameUsed (pmmAllUsed pmm boot) frame = true) ∧
      Counted (pmmAllUsed pmm boot) := by
  have all : ∀ frame < pmmFrameCount boot, frameUsed (pmmAllUsed pmm boot) frame = true := by
    intro frame inside
    have stored := frame_inside_bitmap (pmmAllUsed pmm boot) inside
    rw [frameUsed, dif_pos stored]
    exact get_fill_bytes _ _ (by simp only; omega)
  refine ⟨all, ?_⟩
  have everything : usedFrames (pmmAllUsed pmm boot) = Finset.range (pmmFrameCount boot) :=
    Finset.filter_true_of_mem fun frame member => all frame (Finset.mem_range.mp member)
  rw [Counted, everything, Finset.card_range]
  rfl

theorem reserve_kernel_marked (layout : BootLayout) (pmm : PmmState) :
    Marked pmm (pmmReserveKernel layout pmm) fun frame old => frameReserved layout frame || old := by
  unfold pmmReserveKernel
  apply marked_congr (marked_trans (set_used_marked pmm 0 true) (reserve_regions_marked _ _))
  intro frame _ old
  by_cases zero : frame = 0
  · simp [frameReserved, zero]
  · simp [frameReserved, zero]

theorem pmm_frame_count_pos (boot : BootInfo) : pmmFrameCount boot ≠ 0 := by
  simp only [pmmFrameCount]
  split
  · decide
  · exact Nat.succ_ne_zero _

theorem pmm_init_used (layout : BootLayout) {boot : BootInfo} (pmm : PmmState)
    (valid : boot.mbValid = true) :
    (pmmInit layout boot pmm).frameCount = pmmFrameCount boot ∧
      Counted (pmmInit layout boot pmm) ∧
      ∀ frame < pmmFrameCount boot, frameUsed (pmmInit layout boot pmm) frame =
        (frameReserved layout frame ||
          !(fallbackFrees boot frame || mapFrees (multibootMmap boot) frame)) := by
  obtain ⟨all, counted⟩ := all_used_marked pmm boot
  obtain ⟨entries, freed⟩ :=
    apply_entries_marked (multibootMmap boot) (pmmAllUsed pmm boot, false)
  rw [Bool.false_or] at freed
  have marked := marked_trans (marked_trans entries (fallback_marked boot _ freed))
    (reserve_kernel_marked layout _)
  have run : pmmInit layout boot pmm = pmmReserveKernel layout (pmmFallback boot
      ((multibootMmap boot).foldl pmmApplyEntry (pmmAllUsed pmm boot, false))) := by
    rw [pmmInit, if_neg (by simp [valid]), if_neg (pmm_frame_count_pos boot)]
  rw [run]
  refine ⟨marked.frameCount, marked.counted counted, ?_⟩
  intro frame inside
  rw [marked.used frame inside, all frame inside, foldl_last_rule]
  congr 1
  rw [Bool.not_or, mapFrees, last_covering_eq]
  cases lastWriter (entryCovers frame) (multibootMmap boot) <;> rfl

end SimplyOs.PmmFrames
